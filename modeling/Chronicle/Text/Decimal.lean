import Chronicle.Bytes

/-!
# Decimal numerals

Natural numbers as ASCII digits, with a fixed least width if asked, and the reader
that accepts an optional plus sign and any number of leading zeros.

* `read?_render`: reading undoes writing, for every number below the limit.
-/

namespace Chronicle.Text.Decimal

/-- The digits of a number, without leading zeros. -/
def render (n : Nat) : Bytes := (Nat.toDigits 10 n).map fun c => UInt8.ofNat c.toNat

/-- The digits of a number behind as many zeros as make `width` digits. -/
def padded (width n : Nat) : String :=
  let digits := toString n
  String.ofList (List.replicate (width - digits.length) '0') ++ digits

/-- An ASCII digit. -/
def isDigit (b : UInt8) : Bool := 0x30 ≤ b && b ≤ 0x39

/-- The value of a digit. -/
def digitValue (b : UInt8) : Nat := b.toNat - 0x30

/-- The number that digits stand for. -/
def value (ds : Bytes) : Nat := ds.foldl (fun n d => 10 * n + digitValue d) 0

/-- The number that digits stand for if it is below `limit`; otherwise a number that
is not. No more digits are looked at than it takes to tell. -/
def valueBelow (limit : Nat) (ds : Bytes) : Nat :=
  ds.foldl (fun n d => if n < limit then 10 * n + digitValue d else n) 0

/-- The number below `limit` that a numeral stands for; a plus sign may precede the
digits. -/
def read? (limit : Nat) (s : Bytes) : Option Nat :=
  let digits := if s.head? = some 0x2B then s.tail else s
  let n := valueBelow limit digits
  if !digits.isEmpty && digits.all isDigit && n < limit then some n else none

private theorem digit_of_char {c : Char} (h : c.isDigit = true) :
    isDigit (UInt8.ofNat c.toNat) = true ∧
      digitValue (UInt8.ofNat c.toNat) = c.toNat - 48 := by
  have hc : 48 ≤ c.toNat ∧ c.toNat ≤ 57 := by
    simp only [Char.isDigit, Bool.and_eq_true, decide_eq_true_eq, ge_iff_le,
      UInt32.le_iff_toNat_le] at h
    exact h
  have hn : (UInt8.ofNat c.toNat).toNat = c.toNat := by
    rw [UInt8.toNat_ofNat']
    omega
  refine ⟨?_, by rw [digitValue, hn]⟩
  simp only [isDigit, UInt8.le_iff_toNat_le, hn, Bool.and_eq_true, decide_eq_true_eq]
  exact hc

theorem all_isDigit_digits {cs : List Char} (h : ∀ c ∈ cs, c.isDigit = true) :
    (cs.map fun c => UInt8.ofNat c.toNat).all isDigit = true := by
  simp only [List.all_map, List.all_eq_true, Function.comp]
  exact fun c hc => (digit_of_char (h c hc)).1

theorem all_isDigit_render (n : Nat) : (render n).all isDigit = true :=
  all_isDigit_digits fun _ hc => Nat.isDigit_of_mem_toDigits (by decide) (by decide) hc

theorem value_digits {cs : List Char} (h : ∀ c ∈ cs, c.isDigit = true) :
    value (cs.map fun c => UInt8.ofNat c.toNat) = Nat.ofDigitChars 10 cs 0 := by
  have key : ∀ (cs : List Char) (m : Nat), (∀ c ∈ cs, c.isDigit = true) →
      (cs.map fun c => UInt8.ofNat c.toNat).foldl (fun n d => 10 * n + digitValue d) m =
        Nat.ofDigitChars 10 cs m := by
    intro cs
    induction cs with
    | nil => intro m _; rfl
    | cons c cs ih =>
      intro m h
      rw [List.map_cons, List.foldl_cons, Nat.ofDigitChars_cons,
        (digit_of_char (h c List.mem_cons_self)).2]
      exact ih _ fun d hd => h d (List.mem_cons_of_mem _ hd)
  exact key cs 0 h

theorem value_render (n : Nat) : value (render n) = n := by
  rw [render, value_digits fun c hc => Nat.isDigit_of_mem_toDigits (by decide)
    (by decide) hc, Nat.ofDigitChars_toDigits (by decide) (by decide)]

theorem render_ne_nil (n : Nat) : render n ≠ [] := by
  simp [render, Nat.toDigits_ne_nil]

private theorem le_foldl_digits (ds : Bytes) (n : Nat) :
    n ≤ ds.foldl (fun n d => 10 * n + digitValue d) n := by
  induction ds generalizing n with
  | nil => exact Nat.le_refl n
  | cons d ds ih => exact Nat.le_trans (by omega) (ih (10 * n + digitValue d))

private theorem foldl_digits_eq {limit : Nat} (ds : Bytes) (n : Nat)
    (h : ds.foldl (fun n d => 10 * n + digitValue d) n < limit) :
    ds.foldl (fun n d => if n < limit then 10 * n + digitValue d else n) n =
      ds.foldl (fun n d => 10 * n + digitValue d) n := by
  induction ds generalizing n with
  | nil => rfl
  | cons d ds ih =>
    have hn : n < limit := Nat.lt_of_le_of_lt (le_foldl_digits (d :: ds) n) h
    rw [List.foldl_cons, List.foldl_cons, if_pos hn]
    exact ih _ h

theorem valueBelow_eq_value {limit : Nat} {ds : Bytes} (h : value ds < limit) :
    valueBelow limit ds = value ds :=
  foldl_digits_eq ds 0 h

/-- Digits stand for their value, with zeros in front or without. -/
theorem read?_digits {limit : Nat} {ds : Bytes} (hne : ds ≠ [])
    (hall : ds.all isDigit = true) (h : value ds < limit) :
    read? limit ds = some (value ds) := by
  have hplus : ds.head? ≠ some 0x2B := by
    intro hh
    obtain ⟨b, bs, hb⟩ := List.exists_cons_of_ne_nil hne
    rw [hb] at hh hall
    simp only [List.head?_cons, Option.some.injEq] at hh
    subst hh
    simp [isDigit] at hall
  have he : ds.isEmpty = false := by simpa using hne
  simp [read?, hplus, he, hall, valueBelow_eq_value h, h]

theorem read?_render {limit n : Nat} (h : n < limit) :
    read? limit (render n) = some n := by
  have hread :=
    read?_digits (render_ne_nil n) (all_isDigit_render n) (by rwa [value_render])
  rwa [value_render] at hread

theorem lt_of_read? {limit n : Nat} {s : Bytes}
    (h : read? limit s = some n) : n < limit := by
  simp only [read?, Option.ite_none_right_eq_some, Bool.and_eq_true, decide_eq_true_eq,
    Option.some.injEq] at h
  obtain ⟨⟨_, hlt⟩, rfl⟩ := h
  exact hlt

end Chronicle.Text.Decimal
