import Chronicle.Proofs.Text.Ascii

/-!
# The grammar of hexadecimal text

A text is read byte by byte, so that a character outside ASCII is met as the bytes it
is written with, none of which is a digit. An even number of bytes is either all
digits, and then the writer shows the same digits in lower case, or it has a first
byte that is none, at which the reader stops.

* `pairs_of_isDigit`, `pairs_of_firstNonDigit`: what the reader does in the two
  cases.
* `forall_isDigit_ofText_iff`: the bytes of a text are digits if its characters are.
* `digest_texts_are_sixty_four_digits`: which texts are digests, and what is reported
  of all others.
-/

namespace Chronicle

namespace Text.Hex

/-- The character is a hexadecimal digit, of either case. -/
def IsDigit (c : Char) : Prop :=
  ('0' ≤ c ∧ c ≤ '9') ∨ ('a' ≤ c ∧ c ≤ 'f') ∨ ('A' ≤ c ∧ c ≤ 'F')

instance (c : Char) : Decidable (IsDigit c) := inferInstanceAs (Decidable (_ ∨ _))

/-- The character with the number of a byte. -/
def charOf (b : UInt8) : Char := Char.ofNat b.toNat

/-- The byte stands at the position, is no digit, and has only digits before it. -/
def FirstNonDigit (s : Bytes) (b : UInt8) (position : Nat) : Prop :=
  ∃ before after, s = before ++ b :: after ∧ before.length = position ∧
    (∀ a ∈ before, IsDigit (charOf a)) ∧
    ¬IsDigit (charOf b)

/-! ## Digits -/

theorem forall_byte {P : UInt8 → Prop} (h : ∀ i : Fin 256, P (UInt8.ofNat i.val))
    (b : UInt8) : P b := by
  have hb := h ⟨b.toNat, b.toNat_lt⟩
  rwa [UInt8.ofNat_toNat] at hb

/-- The digits are the bytes that have a value. -/
theorem isDigit_iff_isSome {b : UInt8} :
    IsDigit (charOf b) ↔ (digitValue? b).isSome = true :=
  @forall_byte (fun b => IsDigit (charOf b) ↔ (digitValue? b).isSome = true)
    (by decide +kernel) b

theorem isDigit_of_digitValue? {b : UInt8} {n : Nat} (h : digitValue? b = some n) :
    IsDigit (charOf b) :=
  isDigit_iff_isSome.2 (by rw [h]; rfl)

theorem not_isDigit_of_digitValue? {b : UInt8} (h : digitValue? b = none) :
    ¬IsDigit (charOf b) := by
  rw [isDigit_iff_isSome, h]
  exact Bool.false_ne_true

/-- The digit of a value is the one that was read, in lower case. -/
theorem digit_of_digitValue? {b : UInt8} {n : Nat} (h : digitValue? b = some n) :
    n < 16 ∧ charOf (digit n) = (charOf b).toLower := by
  have key : ∀ b, ∀ n ∈ digitValue? b, n < 16 ∧ charOf (digit n) = (charOf b).toLower :=
    forall_byte (by decide +kernel)
  exact key b n h

/-- The two digits of a byte are those that it was read from. -/
theorem encode_cons_ofNat {hi lo : Nat} (hhi : hi < 16) (hlo : lo < 16) (bs : Bytes) :
    encode (UInt8.ofNat (16 * hi + lo) :: bs) = digit hi :: digit lo :: encode bs := by
  have hbyte : (UInt8.ofNat (16 * hi + lo)).toNat = 16 * hi + lo := by
    rw [UInt8.toNat_ofNat']
    omega
  have hhigh : (16 * hi + lo) / 16 = hi := by omega
  have hlow : (16 * hi + lo) % 16 = lo := by omega
  rw [encode, List.flatMap_cons, hbyte, hhigh, hlow]
  rfl

theorem lt_of_isDigit_charOf {b : UInt8} : IsDigit (charOf b) → b < 0x80 :=
  @forall_byte (fun b => IsDigit (charOf b) → b < 0x80) (by decide +kernel) b

theorem IsDigit.lt {c : Char} (h : IsDigit c) : c.toNat < 128 := by
  have hnat : ∀ d : Char, c ≤ d → c.toNat ≤ d.toNat := fun _ hle => hle
  rcases h with ⟨_, hle⟩ | ⟨_, hle⟩ | ⟨_, hle⟩
  · exact Nat.lt_of_le_of_lt (hnat _ hle) (by decide)
  · exact Nat.lt_of_le_of_lt (hnat _ hle) (by decide)
  · exact Nat.lt_of_le_of_lt (hnat _ hle) (by decide)

/-! ## The first byte that is no digit -/

theorem firstNonDigit_cons {s : Bytes} {a b : UInt8} {position : Nat} :
    FirstNonDigit (a :: s) b position ↔ (¬IsDigit (charOf a) ∧ b = a ∧ position = 0) ∨
      (IsDigit (charOf a) ∧ ∃ i, position = i + 1 ∧ FirstNonDigit s b i) := by
  constructor
  · rintro ⟨before, after, hs, rfl, hdigits, hbad⟩
    cases before with
    | nil =>
      obtain ⟨rfl, rfl⟩ := List.cons.inj hs
      exact .inl ⟨hbad, rfl, rfl⟩
    | cons c before =>
      obtain ⟨rfl, rfl⟩ := List.cons.inj hs
      obtain ⟨ha, hdigits⟩ := List.forall_mem_cons.1 hdigits
      exact .inr ⟨ha, before.length, rfl, before, after, rfl, rfl, hdigits, hbad⟩
  · rintro (⟨hbad, rfl, rfl⟩ | ⟨ha, _, rfl, before, after, rfl, rfl, hdigits, hbad⟩)
    · exact ⟨[], s, rfl, rfl, fun _ hc => absurd hc List.not_mem_nil, hbad⟩
    · exact ⟨a :: before, after, rfl, rfl, List.forall_mem_cons.2 ⟨ha, hdigits⟩, hbad⟩

theorem not_firstNonDigit_nil {b : UInt8} {position : Nat} :
    ¬FirstNonDigit [] b position := by
  rintro ⟨before, after, hs, _⟩
  exact List.append_ne_nil_of_right_ne_nil before (List.cons_ne_nil b after) hs.symm

theorem firstNonDigit_behind {s : Bytes} {a b c : UInt8} {position : Nat}
    (h : FirstNonDigit (a :: c :: s) b position) (ha : IsDigit (charOf a))
    (hc : IsDigit (charOf c)) :
    ∃ i, position = i + 2 ∧ FirstNonDigit s b i := by
  obtain ⟨_, i, rfl, htail⟩ :=
    (firstNonDigit_cons.1 h).resolve_left fun hbad => hbad.1 ha
  obtain ⟨_, j, rfl, hbehind⟩ :=
    (firstNonDigit_cons.1 htail).resolve_left fun hbad => hbad.1 hc
  exact ⟨j, rfl, hbehind⟩

theorem isDigit_or_firstNonDigit (s : Bytes) :
    (∀ b ∈ s, IsDigit (charOf b)) ∨ ∃ b position, FirstNonDigit s b position := by
  induction s with
  | nil => exact .inl fun b hb => absurd hb List.not_mem_nil
  | cons a s ih =>
    by_cases ha : IsDigit (charOf a)
    · rcases ih with hall | ⟨b, i, hfirst⟩
      · exact .inl (List.forall_mem_cons.2 ⟨ha, hall⟩)
      · exact .inr ⟨b, i + 1, firstNonDigit_cons.2 (.inr ⟨ha, i, rfl, hfirst⟩)⟩
    · exact .inr ⟨a, 0, firstNonDigit_cons.2 (.inl ⟨ha, rfl, rfl⟩)⟩

/-! ## What the reader does -/

/-- An even number of digits is read, two for a byte, and written again in lower
case. -/
theorem pairs_of_isDigit {s : Bytes} (heven : s.length % 2 = 0)
    (h : ∀ b ∈ s, IsDigit (charOf b)) (position : Nat) :
    ∃ bs, pairs position s = .ok bs ∧ s.length = 2 * bs.length ∧
      (encode bs).map charOf = (s.map charOf).map Char.toLower := by
  fun_induction pairs position s with
  | case1 position a b rest hnone =>
    exact absurd (h a (by simp)) (not_isDigit_of_digitValue? hnone)
  | case2 position a b rest hi hhi hnone =>
    exact absurd (h b (by simp)) (not_isDigit_of_digitValue? hnone)
  | case3 position a b rest hi hhi lo hlo bs hrest ih =>
    obtain ⟨bs', hread, hlength, hshown⟩ :=
      ih (by simp at heven; omega) fun c hc => h c (by simp [hc])
    rw [hrest] at hread
    cases hread
    obtain ⟨hhilt, hhilower⟩ := digit_of_digitValue? hhi
    obtain ⟨hlolt, hlolower⟩ := digit_of_digitValue? hlo
    refine ⟨_, rfl, by simp only [List.length_cons]; omega, ?_⟩
    rw [encode_cons_ofNat hhilt hlolt]
    simp only [List.map_cons, hhilower, hlolower, hshown]
  | case4 position a b rest hi hhi lo hlo f hrest ih =>
    obtain ⟨bs, hread, _⟩ := ih (by simp at heven; omega) fun c hc => h c (by simp [hc])
    rw [hrest] at hread
    cases hread
  | case5 s position hshort =>
    cases s with
    | nil => exact ⟨[], rfl, rfl, rfl⟩
    | cons a s =>
      cases s with
      | nil => simp at heven
      | cons b s => exact absurd rfl (hshort a b s)

/-- The reader stops at the first byte that is no digit. -/
theorem pairs_of_firstNonDigit {s : Bytes} {b : UInt8} {offset : Nat}
    (heven : s.length % 2 = 0) (h : FirstNonDigit s b offset) (position : Nat) :
    pairs position s = .error (.badDigit b (position + offset)) := by
  -- Two bytes are read in a step: the bad one is the first of them, the second, or
  -- behind both.
  fun_induction pairs position s generalizing offset with
  | case1 position a c rest hnone =>
    rcases firstNonDigit_cons.1 h with ⟨_, rfl, rfl⟩ | ⟨ha, _⟩
    · rfl
    · exact absurd ha (not_isDigit_of_digitValue? hnone)
  | case2 position a c rest hi hhi hnone =>
    rcases firstNonDigit_cons.1 h with ⟨ha, _⟩ | ⟨_, i, rfl, htail⟩
    · exact absurd (isDigit_of_digitValue? hhi) ha
    · rcases firstNonDigit_cons.1 htail with ⟨_, rfl, rfl⟩ | ⟨hc, _⟩
      · rfl
      · exact absurd hc (not_isDigit_of_digitValue? hnone)
  | case3 position a c rest hi hhi lo hlo bs hrest ih =>
    obtain ⟨i, rfl, hbehind⟩ :=
      firstNonDigit_behind h (isDigit_of_digitValue? hhi) (isDigit_of_digitValue? hlo)
    have hstop := ih (by simp at heven; omega) hbehind
    rw [hrest] at hstop
    cases hstop
  | case4 position a c rest hi hhi lo hlo f hrest ih =>
    obtain ⟨i, rfl, hbehind⟩ :=
      firstNonDigit_behind h (isDigit_of_digitValue? hhi) (isDigit_of_digitValue? hlo)
    have hstop := ih (by simp at heven; omega) hbehind
    rw [hrest] at hstop
    rw [hstop, Nat.add_assoc, Nat.add_comm 2]
  | case5 s position hshort =>
    cases s with
    | nil => exact absurd h not_firstNonDigit_nil
    | cons a s =>
      cases s with
      | nil => simp at heven
      | cons c s => exact absurd rfl (hshort a c s)

theorem decode_of_isDigit {s : Bytes} (heven : s.length % 2 = 0)
    (h : ∀ b ∈ s, IsDigit (charOf b)) :
    ∃ bs, decode s = .ok bs ∧ s.length = 2 * bs.length ∧
      (encode bs).map charOf = (s.map charOf).map Char.toLower := by
  rw [decode, if_neg (by omega)]
  exact pairs_of_isDigit heven h 0

theorem decode_of_firstNonDigit {s : Bytes} {b : UInt8} {position : Nat}
    (heven : s.length % 2 = 0) (h : FirstNonDigit s b position) :
    decode s = .error (.badDigit b position) := by
  rw [decode, if_neg (by omega), pairs_of_firstNonDigit heven h 0, Nat.zero_add]

/-! ## Texts -/

theorem charOf_ofNat {c : Char} (h : c.toNat < 128) :
    charOf (UInt8.ofNat c.toNat) = c := by
  have hnat : (UInt8.ofNat c.toNat).toNat = c.toNat := by
    rw [UInt8.toNat_ofNat']
    omega
  rw [charOf, hnat, Char.ofNat_toNat]

/-- A text of ASCII bytes has a character for each. -/
theorem map_charOf_ofText {s : String} (h : ∀ b ∈ Bytes.ofText s, b < 0x80) :
    (Bytes.ofText s).map charOf = s.toList := by
  have htext : String.ofList ((Bytes.ofText s).map charOf) = s :=
    Bytes.ofText_inj (Bytes.ofText_ascii h)
  rw [← htext, String.toList_ofList, htext]

/-- The bytes of a text are digits if its characters are. -/
theorem forall_isDigit_ofText_iff {s : String} :
    (∀ b ∈ Bytes.ofText s, IsDigit (charOf b)) ↔ ∀ c ∈ s.toList, IsDigit c := by
  constructor
  · intro h c hc
    rw [← map_charOf_ofText fun b hb => lt_of_isDigit_charOf (h b hb)] at hc
    obtain ⟨b, hb, rfl⟩ := List.mem_map.1 hc
    exact h b hb
  · intro h b hb
    rw [← String.ofList_toList (s := s),
      Bytes.ofText_ofList_ascii fun c hc => (h c hc).lt] at hb
    obtain ⟨c, hc, rfl⟩ := List.mem_map.1 hb
    rw [charOf_ofNat (h c hc).lt]
    exact h c hc

theorem length_ofText_of_isDigit {s : String}
    (h : ∀ b ∈ Bytes.ofText s, IsDigit (charOf b)) :
    (Bytes.ofText s).length = s.length := by
  rw [← String.length_toList,
    ← map_charOf_ofText fun b hb => lt_of_isDigit_charOf (h b hb), List.length_map]

end Text.Hex

namespace Digest

open Text.Hex

variable {s : String}

theorem ofHex_of_odd (h : (Bytes.ofText s).length % 2 = 1) :
    ofHex s = .error (.hex .oddLength) := by
  rw [ofHex, Text.Hex.ofText, decode, if_pos h]

theorem ofHex_of_firstNonDigit {b : UInt8} {position : Nat}
    (heven : (Bytes.ofText s).length % 2 = 0)
    (h : FirstNonDigit (Bytes.ofText s) b position) :
    ofHex s = .error (.hex (.badDigit b position)) := by
  rw [ofHex, Text.Hex.ofText, decode_of_firstNonDigit heven h]

/-- Sixty-four digits are a digest, which shows them in lower case. -/
theorem exists_ofHex_of_isDigit (hlength : s.length = 64)
    (h : ∀ c ∈ s.toList, IsDigit c) :
    ∃ d, ofHex s = .ok d ∧ d.toHex = s.toLower := by
  have hdigits := forall_isDigit_ofText_iff.2 h
  have hbytes := length_ofText_of_isDigit hdigits
  obtain ⟨bs, hread, hsize, hshown⟩ := decode_of_isDigit (by omega) hdigits
  have h32 : bs.length = 32 := by omega
  refine ⟨⟨bs, h32⟩, ?_, ?_⟩
  · rw [ofHex, Text.Hex.ofText, hread]
    exact dif_pos h32
  · rw [map_charOf_ofText fun b hb => lt_of_isDigit_charOf (hdigits b hb)] at hshown
    exact String.toList_inj.1
      ((String.toList_ofList).trans (hshown.trans String.toList_map.symm))

theorem ofHex_of_isDigit {k : Nat} (hlength : s.length = 2 * k) (hk : k ≠ 32)
    (h : ∀ c ∈ s.toList, IsDigit c) :
    ofHex s = .error (.length k) := by
  have hdigits := forall_isDigit_ofText_iff.2 h
  have hbytes := length_ofText_of_isDigit hdigits
  obtain ⟨bs, hread, hsize, _⟩ := decode_of_isDigit (by omega) hdigits
  have hcount : bs.length = k := by omega
  rw [ofHex, Text.Hex.ofText, hread]
  simp only [hcount, hk, dite_false]

/-- What can be read from a text: a digest, or one of three reports. -/
inductive Reading (s : String) : Except ParseError Digest → Prop
  | digest {d : Digest} :
      s.length = 64 → (∀ c ∈ s.toList, IsDigit c) → d.toHex = s.toLower →
        Reading s (.ok d)
  | odd : (Bytes.ofText s).length % 2 = 1 → Reading s (.error (.hex .oddLength))
  | nonDigit {b : UInt8} {position : Nat} : (Bytes.ofText s).length % 2 = 0 →
      FirstNonDigit (Bytes.ofText s) b position →
      Reading s (.error (.hex (.badDigit b position)))
  | otherLength {k : Nat} :
      s.length = 2 * k → k ≠ 32 → (∀ c ∈ s.toList, IsDigit c) →
        Reading s (.error (.length k))

theorem reading_ofHex (s : String) : Reading s (ofHex s) := by
  rcases Nat.mod_two_eq_zero_or_one (Bytes.ofText s).length with heven | hodd
  · rcases isDigit_or_firstNonDigit (Bytes.ofText s) with hdigits |
      ⟨b, position, hfirst⟩
    · have hchars := forall_isDigit_ofText_iff.1 hdigits
      have hlength := length_ofText_of_isDigit hdigits
      by_cases h64 : s.length = 64
      · obtain ⟨d, hread, hshown⟩ := exists_ofHex_of_isDigit h64 hchars
        rw [hread]
        exact .digest h64 hchars hshown
      · have hhalf : s.length = 2 * (s.length / 2) := by omega
        rw [ofHex_of_isDigit hhalf (by omega) hchars]
        exact .otherLength hhalf (by omega) hchars
    · rw [ofHex_of_firstNonDigit heven hfirst]
      exact .nonDigit heven hfirst
  · rw [ofHex_of_odd hodd]
    exact .odd hodd

/-- A text is a digest if it is 64 hexadecimal digits of either case, and the digest
shows them in lower case; every digest is read back from what it shows. Of any other
text an odd number of bytes is reported first, then the first byte that is no digit
with its position, and of digits the number of bytes that they stand for. -/
theorem digest_texts_are_sixty_four_digits (s : String) :
    ((∃ d, ofHex s = .ok d) ↔ s.length = 64 ∧ ∀ c ∈ s.toList, IsDigit c) ∧
    (∀ d, ofHex s = .ok d → d.toHex = s.toLower) ∧
    (∀ d, ofHex d.toHex = .ok d) ∧
    (ofHex s = .error (.hex .oddLength) ↔ (Bytes.ofText s).length % 2 = 1) ∧
    (∀ b position, ofHex s = .error (.hex (.badDigit b position)) ↔
      (Bytes.ofText s).length % 2 = 0 ∧ FirstNonDigit (Bytes.ofText s) b position) ∧
    (∀ b position, (ParseError.hex (.badDigit b position)).message =
      "invalid hex string: " ++
        ("Invalid character " ++ Text.quotedChar (charOf b) ++ " at position " ++
          toString position)) ∧
    (∀ k, ofHex s = .error (.length k) ↔ s.length = 2 * k ∧ k ≠ 32 ∧
      ∀ c ∈ s.toList, IsDigit c) := by
  -- Each report is read off from the one case of `Reading` that ends in it.
  have hreading := reading_ofHex s
  refine ⟨⟨?_, ?_⟩, ?_, ofHex_toHex, ⟨?_, ofHex_of_odd⟩, ?_, ?_, ?_⟩
  · rintro ⟨d, hread⟩
    rw [hread] at hreading
    cases hreading with
    | digest hlength hdigits _ => exact ⟨hlength, hdigits⟩
  · rintro ⟨hlength, hdigits⟩
    obtain ⟨d, hread, _⟩ := exists_ofHex_of_isDigit hlength hdigits
    exact ⟨d, hread⟩
  · intro d hread
    rw [hread] at hreading
    cases hreading with
    | digest _ _ hshown => exact hshown
  · intro hread
    rw [hread] at hreading
    cases hreading with
    | odd hodd => exact hodd
  · intro b position
    constructor
    · intro hread
      rw [hread] at hreading
      cases hreading with
      | nonDigit heven hfirst => exact ⟨heven, hfirst⟩
    · rintro ⟨heven, hfirst⟩
      exact ofHex_of_firstNonDigit heven hfirst
  · intro b position
    rfl
  · intro k
    constructor
    · intro hread
      rw [hread] at hreading
      cases hreading with
      | otherLength hlength hk hdigits => exact ⟨hlength, hk, hdigits⟩
    · rintro ⟨hlength, hk, hdigits⟩
      exact ofHex_of_isDigit hlength hk hdigits

/-- Capitals, an odd number of bytes that are no digits, a character of two bytes,
and too few digits. -/
theorem digest_texts_are_sixty_four_digits_each :
    (∃ d, ofHex (String.ofList (List.replicate 64 'A')) = .ok d ∧
      d.toHex = (String.ofList (List.replicate 64 'A')).toLower) ∧
    ofHex "zzz" = .error (.hex .oddLength) ∧
    ofHex "aé0" = .error (.hex (.badDigit 0xC3 1)) ∧
    ofHex "abcd" = .error (.length 2) := by
  obtain ⟨hdigest, hshown, _⟩ :=
    digest_texts_are_sixty_four_digits (String.ofList (List.replicate 64 'A'))
  obtain ⟨_, _, _, hodd, _⟩ := digest_texts_are_sixty_four_digits "zzz"
  obtain ⟨_, _, _, _, hbad, _⟩ := digest_texts_are_sixty_four_digits "aé0"
  obtain ⟨_, _, _, _, _, _, hlength⟩ := digest_texts_are_sixty_four_digits "abcd"
  have hcapitals : ∀ c ∈ (String.ofList (List.replicate 64 'A')).toList, IsDigit c := by
    intro c hc
    rw [String.toList_ofList] at hc
    rw [List.eq_of_mem_replicate hc]
    decide
  obtain ⟨d, hread⟩ :=
    hdigest.2 ⟨by rw [String.length_ofList, List.length_replicate], hcapitals⟩
  have hfirst : FirstNonDigit (Bytes.ofText "aé0") 0xC3 1 :=
    ⟨[0x61], [0xA9, 0x30], by decide +kernel, rfl, by simp [charOf, IsDigit], by decide⟩
  exact ⟨⟨d, hread, hshown d hread⟩, hodd.2 (by decide +kernel),
    (hbad 0xC3 1).2 ⟨by decide +kernel, hfirst⟩,
    (hlength 2).2 ⟨rfl, by decide, by simp [IsDigit]⟩⟩

end Digest

end Chronicle
