import Chronicle.Json.Reader
import Chronicle.Proofs.Text.Ascii

/-!
# Strings and numbers in JSON text

What the printer writes for a text or a number is read back, whatever follows it.
Escapes are undone byte by byte, so a text survives whether or not its characters
have more than one byte.

* `text_escaped`: a text between quotes is read as that text.
* `number_render`: a number of at most `digitLimit` digits is read as that number, if
  no digit, point or exponent follows it.
-/

namespace Chronicle

namespace Text.Decimal

/-- Only zero is written with a zero first. -/
theorem head?_toDigits_ne_zero {n : Nat} (h : 0 < n) :
    (Nat.toDigits 10 n).head? ≠ some '0' := by
  induction n using Nat.strongRecOn with
  | ind n ih =>
    by_cases hn : n < 10
    · rw [Nat.toDigits_of_lt_base hn]
      have key : ∀ m : Fin 10, 0 < m.val → some m.val.digitChar ≠ some '0' := by decide
      exact key ⟨n, hn⟩ h
    · have hfirst := ih (n / 10) (by omega) (by omega)
      rw [Nat.toDigits_of_base_le (by decide) (Nat.le_of_not_lt hn)]
      obtain ⟨d, ds, hds⟩ :=
        List.exists_cons_of_ne_nil (Nat.toDigits_ne_nil (n := n / 10) (b := 10))
      rw [hds] at hfirst ⊢
      exact hfirst

theorem head?_render_ne_zero {n : Nat} (h : 0 < n) : (render n).head? ≠ some 0x30 := by
  intro hz
  rw [render, List.head?_map] at hz
  obtain ⟨c, hc, hcz⟩ := Option.map_eq_some_iff.1 hz
  have hdigit : c.isDigit = true :=
    Nat.isDigit_of_mem_toDigits (by decide) (by decide) (List.mem_of_head? hc)
  have hle : c.val.toNat ≤ 57 := by
    simp only [Char.isDigit, Bool.and_eq_true, decide_eq_true_eq,
      UInt32.le_iff_toNat_le] at hdigit
    exact hdigit.2
  -- The number of the character is below 256, so its byte says which character it is.
  have hzero : c = '0' := by
    have hbyte := congrArg UInt8.toNat hcz
    rw [UInt8.toNat_ofNat'] at hbyte
    apply Char.ext
    apply UInt32.toNat_inj.1
    have hval : c.toNat = c.val.toNat := rfl
    have h48 : (0x30 : UInt8).toNat = 48 := rfl
    show c.val.toNat = 48
    omega
  rw [hzero] at hc
  exact head?_toDigits_ne_zero h hc

/-- Twenty digits are enough for a number of 64 bits. -/
theorem length_render_le {n : Nat} (h : n < UInt64.size) : (render n).length ≤ 20 := by
  rw [render, List.length_map]
  exact (Nat.length_toDigits_le_iff (by decide) (by decide)).2
    (Nat.lt_trans h (by decide))

theorem isDigit_of_mem_render {n : Nat} {d : UInt8} (h : d ∈ render n) :
    isDigit d = true :=
  List.all_eq_true.1 (all_isDigit_render n) d h

end Text.Decimal

namespace Json

open Text

/-! ## Strings -/

/-- The piece adds one byte to the string. -/
def Piece.StandsFor (p : Piece) (b : UInt8) : Prop :=
  ∀ ps, assemble (p :: ps) = (assemble ps).map (b :: ·)

theorem Piece.standsFor_byte (b : UInt8) : (Piece.byte b).StandsFor b := by
  intro ps
  rw [assemble]

theorem Piece.standsFor_unit {b : UInt8} (h : b < 0x20) :
    (Piece.unit b.toNat).StandsFor b := by
  intro ps
  have hb : b.toNat < 0x20 := h
  have hascii : b < 0x80 := UInt8.lt_trans h (by decide)
  have hchar : characterBytes b.toNat = [b] := by
    rw [characterBytes, Bytes.ofText_ofList, List.flatMap_singleton,
      Bytes.encodeChar_ascii hascii]
  rw [assemble.eq_def]
  simp only
  rw [if_neg (by simp; omega), if_neg (by simp; omega), hchar]
  rfl

theorem pieces_short {e b : UInt8} (he : e ≠ 0x75) (h : shortEscape? e = some b)
    (rest : Bytes) :
    pieces (0x5C :: e :: rest) = (pieces rest).map fun r => (.byte b :: r.1, r.2) := by
  rw [pieces]
  · rw [h]
    cases pieces rest <;> rfl
  all_goals simp_all

theorem pieces_unit {a b c d : UInt8} {n : Nat} (h : hexUnit? a b c d = some n)
    (rest : Bytes) :
    pieces (0x5C :: 0x75 :: a :: b :: c :: d :: rest) =
      (pieces rest).map fun r => (.unit n :: r.1, r.2) := by
  rw [pieces, h]
  cases pieces rest <;> rfl

theorem pieces_plain {b : UInt8} (hquote : b ≠ 0x22) (hslash : b ≠ 0x5C)
    (hcontrol : ¬b < 0x20) (rest : Bytes) :
    pieces (b :: rest) = (pieces rest).map fun r => (.byte b :: r.1, r.2) := by
  rw [pieces]
  · simp only [hslash, hcontrol, beq_iff_eq, decide_false, Bool.or_false, if_false]
    cases pieces rest <;> rfl
  all_goals simp_all

/-- The four digits for a control character stand for its number. -/
theorem hexUnit?_control {b : UInt8} (h : b < 0x20) :
    hexUnit? 0x30 0x30 (Hex.digit (b.toNat / 16)) (Hex.digit (b.toNat % 16)) =
      some b.toNat := by
  have hb : b.toNat < 0x20 := h
  have hzero : Hex.digitValue? 0x30 = some 0 := by decide
  have hhigh := Hex.digitValue?_digit (show b.toNat / 16 < 16 by omega)
  have hlow := Hex.digitValue?_digit (show b.toNat % 16 < 16 by omega)
  simp only [hexUnit?, hzero, hhigh, hlow, Option.bind_eq_bind, Option.bind_some,
    Option.pure_def, Option.some.injEq]
  omega

/-- A byte is escaped by a letter, by its number, or not at all. -/
theorem escapeByte_cases (b : UInt8) :
    (∃ e, e ≠ 0x75 ∧ shortEscape? e = some b ∧ escapeByte b = [0x5C, e]) ∨
      (b < 0x20 ∧ escapeByte b =
        [0x5C, 0x75, 0x30, 0x30, Hex.digit (b.toNat / 16), Hex.digit (b.toNat % 16)]) ∨
      (b ≠ 0x22 ∧ b ≠ 0x5C ∧ ¬b < 0x20 ∧ escapeByte b = [b]) := by
  by_cases hshort : b ∈ [0x22, 0x5C, 0x08, 0x0C, 0x0A, 0x0D, 0x09]
  · left
    simp only [List.mem_cons, List.not_mem_nil, or_false] at hshort
    rcases hshort with rfl | rfl | rfl | rfl | rfl | rfl | rfl
    · exact ⟨0x22, by decide, rfl, rfl⟩
    · exact ⟨0x5C, by decide, rfl, rfl⟩
    · exact ⟨0x62, by decide, rfl, rfl⟩
    · exact ⟨0x66, by decide, rfl, rfl⟩
    · exact ⟨0x6E, by decide, rfl, rfl⟩
    · exact ⟨0x72, by decide, rfl, rfl⟩
    · exact ⟨0x74, by decide, rfl, rfl⟩
  · simp only [List.mem_cons, List.not_mem_nil, or_false, not_or] at hshort
    obtain ⟨h1, h2, h3, h4, h5, h6, h7⟩ := hshort
    right
    by_cases hcontrol : b < 0x20
    · left
      exact ⟨hcontrol,
        by simp [escapeByte, h1, h2, h3, h4, h5, h6, h7, hcontrol, Hex.digit]⟩
    · right
      exact ⟨h1, h2, hcontrol,
        by simp [escapeByte, h1, h2, h3, h4, h5, h6, h7, hcontrol]⟩

theorem pieces_escapeByte (b : UInt8) (rest : Bytes) :
    ∃ p : Piece, p.StandsFor b ∧
      pieces (escapeByte b ++ rest) = (pieces rest).map fun r => (p :: r.1, r.2) := by
  rcases escapeByte_cases b with ⟨e, he, hread, heq⟩ | ⟨hcontrol, heq⟩ |
    ⟨hquote, hslash, hcontrol, heq⟩
  · exact ⟨.byte b, Piece.standsFor_byte b,
      by rw [heq]; exact pieces_short he hread rest⟩
  · exact ⟨.unit b.toNat, Piece.standsFor_unit hcontrol,
      by rw [heq]; exact pieces_unit (hexUnit?_control hcontrol) rest⟩
  · exact ⟨.byte b, Piece.standsFor_byte b,
      by rw [heq]; exact pieces_plain hquote hslash hcontrol rest⟩

/-- Escaped bytes up to a quote are read as pieces that put the bytes together again. -/
theorem pieces_escaped (bs rest : Bytes) :
    ∃ ps, pieces (bs.flatMap escapeByte ++ 0x22 :: rest) = some (ps, rest) ∧
      assemble ps = some bs := by
  induction bs with
  | nil => exact ⟨[], by simp [pieces], by rw [assemble]⟩
  | cons b bs ih =>
    obtain ⟨ps, hps, hbs⟩ := ih
    obtain ⟨p, hp, hb⟩ := pieces_escapeByte b (bs.flatMap escapeByte ++ 0x22 :: rest)
    refine ⟨p :: ps, ?_, ?_⟩
    · rw [List.flatMap_cons, List.append_assoc, hb, hps]
      rfl
    · rw [hp ps, hbs]
      rfl

theorem text_escaped (s : String) (rest : Bytes) :
    text ((Bytes.ofText s).flatMap escapeByte ++ 0x22 :: rest) =
      some (some s, rest) := by
  obtain ⟨ps, hps, hs⟩ := pieces_escaped (Bytes.ofText s) rest
  rw [text, hps]
  simp only [hs, Option.bind_some, Bytes.toText?_ofText]

/-! ## Numbers -/

/-- What can follow a value: nothing, a separator, a closing sign or a line break. -/
def Stops : Bytes → Prop
  | [] => True
  | b :: _ => b = 0x2C ∨ b = 0x5D ∨ b = 0x7D ∨ b = 0x0A

theorem Stops.not_isDigit {b : UInt8} {rest : Bytes} (h : Stops (b :: rest)) :
    Decimal.isDigit b = false := by
  rcases h with rfl | rfl | rfl | rfl <;> rfl

theorem Stops.not_goesOn {rest : Bytes} (h : Stops rest) : goesOn rest = false := by
  cases rest with
  | nil => rfl
  | cons b rest => rcases h with rfl | rfl | rfl | rfl <;> rfl

theorem Stops.takeWhile_isDigit {rest : Bytes} (h : Stops rest) :
    rest.takeWhile Decimal.isDigit = [] := by
  cases rest with
  | nil => rfl
  | cons b rest => rw [List.takeWhile_cons_of_neg (by simp [h.not_isDigit])]

theorem Stops.dropWhile_isDigit {rest : Bytes} (h : Stops rest) :
    rest.dropWhile Decimal.isDigit = rest := by
  cases rest with
  | nil => rfl
  | cons b rest => rw [List.dropWhile_cons_of_neg (by simp [h.not_isDigit])]

theorem whole_render (n : Nat) {rest : Bytes} (h : Stops rest) :
    whole (Decimal.render n ++ rest) = some (Decimal.render n, rest) := by
  by_cases hn : n = 0
  · subst hn
    show whole (0x30 :: rest) = some ([0x30], rest)
    cases rest with
    | nil => rfl
    | cons b rest => simp [whole, h.not_isDigit]
  · have hall : ∀ d ∈ Decimal.render n, Decimal.isDigit d = true :=
      fun d => Decimal.isDigit_of_mem_render
    have hhead := Decimal.head?_render_ne_zero (Nat.pos_of_ne_zero hn)
    have htake : (Decimal.render n ++ rest).takeWhile Decimal.isDigit =
        Decimal.render n := by
      rw [List.takeWhile_append_of_pos hall, h.takeWhile_isDigit, List.append_nil]
    have hdrop : (Decimal.render n ++ rest).dropWhile Decimal.isDigit = rest := by
      rw [List.dropWhile_append_of_pos hall, h.dropWhile_isDigit]
    obtain ⟨d, ds, hds⟩ := List.exists_cons_of_ne_nil (Decimal.render_ne_nil n)
    rw [hds] at hhead hall htake hdrop ⊢
    have hd : d ≠ 0x30 := fun he => hhead (by rw [he]; rfl)
    rw [List.cons_append, whole]
    · rw [if_pos (hall d List.mem_cons_self), ← List.cons_append, htake, hdrop]
    · exact hd

theorem number_render {n : Nat} (hn : (Decimal.render n).length ≤ digitLimit)
    {rest : Bytes} (h : Stops rest) :
    number (Decimal.render n ++ rest) = some (natural n, rest) := by
  have hvalue : ofDigits (Decimal.render n) = natural n := by
    rw [ofDigits, List.drop_eq_nil_of_le hn, Decimal.value_render]
    rfl
  have hunsigned : unsigned (Decimal.render n ++ rest) = some (natural n, rest) := by
    rw [unsigned, whole_render n h]
    simp only [h.not_goesOn, hvalue, Bool.false_eq_true, if_false]
  obtain ⟨d, ds, hds⟩ := List.exists_cons_of_ne_nil (Decimal.render_ne_nil n)
  have hd : Decimal.isDigit d = true :=
    Decimal.isDigit_of_mem_render (by rw [hds]; exact List.mem_cons_self)
  rw [hds] at hunsigned ⊢
  rw [List.cons_append, number]
  · exact hunsigned
  · -- A digit is no minus sign.
    intro _ he
    rw [(List.cons.inj he).1] at hd
    exact absurd hd (by decide)

end Json

end Chronicle
