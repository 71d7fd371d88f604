import Chronicle.Proofs.Text.Ascii
import Chronicle.Text.Decimal

/-!
# Numerals of one width

Among numerals with equally many digits the order of the texts is the order of the
numbers, and zeros in front do not change what a numeral stands for.

* `padded_lt_padded_iff`: the order of padded numerals.
* `read?_padded`: a padded numeral is read back.
-/

namespace Chronicle.Text.Decimal

/-! ## Digits -/

theorem toNat_of_isDigit {c : Char} (h : c.isDigit = true) :
    48 ≤ c.toNat ∧ c.toNat ≤ 57 := by
  simp only [Char.isDigit, Bool.and_eq_true, decide_eq_true_eq, ge_iff_le,
    UInt32.le_iff_toNat_le] at h
  exact h

/-- What was smaller before stays smaller, whatever digits follow. -/
theorem ofDigitChars_lt_of_lt {cs ds : List Char} (hlength : cs.length = ds.length)
    (hcs : ∀ c ∈ cs, c.isDigit = true) {m n : Nat} (h : m < n) :
    Nat.ofDigitChars 10 cs m < Nat.ofDigitChars 10 ds n := by
  induction cs generalizing ds m n with
  | nil =>
    rw [List.length_eq_zero_iff.1 hlength.symm]
    exact h
  | cons c cs ih =>
    obtain ⟨d, ds, rfl⟩ := List.exists_cons_of_length_eq_add_one hlength.symm
    rw [Nat.ofDigitChars_cons, Nat.ofDigitChars_cons]
    refine ih (Nat.succ.inj hlength) (fun x hx => hcs x (List.mem_cons_of_mem _ hx)) ?_
    have hc := toNat_of_isDigit (hcs c List.mem_cons_self)
    have hzero : '0'.toNat = 48 := rfl
    omega

theorem lt_iff_ofDigitChars_lt {cs ds : List Char} (hlength : cs.length = ds.length)
    (hcs : ∀ c ∈ cs, c.isDigit = true) (hds : ∀ d ∈ ds, d.isDigit = true) (m : Nat) :
    cs < ds ↔ Nat.ofDigitChars 10 cs m < Nat.ofDigitChars 10 ds m := by
  induction cs generalizing ds m with
  | nil =>
    rw [List.length_eq_zero_iff.1 hlength.symm]
    exact iff_of_false (List.lt_irrefl _) (Nat.lt_irrefl _)
  | cons c cs ih =>
    obtain ⟨d, ds, rfl⟩ := List.exists_cons_of_length_eq_add_one hlength.symm
    have hcs' : ∀ x ∈ cs, x.isDigit = true :=
      fun x hx => hcs x (List.mem_cons_of_mem _ hx)
    have hds' : ∀ x ∈ ds, x.isDigit = true :=
      fun x hx => hds x (List.mem_cons_of_mem _ hx)
    have hlength' : cs.length = ds.length := Nat.succ.inj hlength
    have hc := toNat_of_isDigit (hcs c List.mem_cons_self)
    have hd := toNat_of_isDigit (hds d List.mem_cons_self)
    have hzero : '0'.toNat = 48 := rfl
    rw [List.cons_lt_cons_iff, Nat.ofDigitChars_cons, Nat.ofDigitChars_cons]
    -- The first digits decide, and if they are equal the others do.
    rcases Nat.lt_trichotomy c.toNat d.toNat with hlt | heq | hgt
    · have hval := ofDigitChars_lt_of_lt hlength' hcs'
        (show 10 * m + (c.toNat - '0'.toNat) < 10 * m + (d.toNat - '0'.toNat) by omega)
      exact iff_of_true (.inl hlt) hval
    · have hcd : c = d := Char.toNat_inj.1 heq
      subst hcd
      have hirrefl : ¬c < c := Nat.lt_irrefl c.toNat
      simp only [hirrefl, false_or, true_and]
      exact ih hlength' hcs' hds' _
    · have hval := ofDigitChars_lt_of_lt hlength'.symm hds'
        (show 10 * m + (d.toNat - '0'.toNat) < 10 * m + (c.toNat - '0'.toNat) by omega)
      refine iff_of_false ?_ (Nat.lt_asymm hval)
      rintro (hlt | ⟨rfl, _⟩)
      · exact Nat.lt_asymm hgt hlt
      · exact Nat.lt_irrefl _ hgt

/-! ## Padded numerals -/

/-- The number has no more digits than the width. -/
def FitsIn (width n : Nat) : Prop := (Nat.toDigits 10 n).length ≤ width

theorem fitsIn_uint64 (n : UInt64) : FitsIn 20 n.toNat :=
  (Nat.length_toDigits_le_iff (by decide) (by decide)).2
    (Nat.lt_trans n.toNat_lt (by decide))

theorem fitsIn_uint32 (n : UInt32) : FitsIn 10 n.toNat :=
  (Nat.length_toDigits_le_iff (by decide) (by decide)).2
    (Nat.lt_trans n.toNat_lt (by decide))

theorem toList_padded (width n : Nat) :
    (padded width n).toList =
      List.replicate (width - (Nat.toDigits 10 n).length) '0' ++ Nat.toDigits 10 n := by
  have hlist : (toString n).toList = Nat.toDigits 10 n := Nat.toList_repr
  have hlength : (toString n).length = (Nat.toDigits 10 n).length := by
    rw [← String.length_toList, hlist]
  rw [padded, String.toList_append, String.toList_ofList, hlist, hlength]

theorem length_padded {width n : Nat} (h : FitsIn width n) :
    (padded width n).toList.length = width := by
  rw [FitsIn] at h
  rw [toList_padded, List.length_append, List.length_replicate]
  omega

theorem isDigit_of_mem_padded {width n : Nat} :
    ∀ c ∈ (padded width n).toList, c.isDigit = true := by
  intro c hc
  rw [toList_padded] at hc
  rcases List.mem_append.1 hc with hzero | hdigit
  · rw [List.eq_of_mem_replicate hzero]
    rfl
  · exact Nat.isDigit_of_mem_toDigits (by decide) (by decide) hdigit

theorem ofDigitChars_padded (width n : Nat) :
    Nat.ofDigitChars 10 (padded width n).toList 0 = n := by
  rw [toList_padded, Nat.ofDigitChars_append, Nat.ofDigitChars_replicate_zero,
    Nat.mul_zero, Nat.ofDigitChars_toDigits (by decide) (by decide)]

/-- Padded numerals of one width are ordered like their numbers. -/
theorem padded_lt_padded_iff {width m n : Nat} (hm : FitsIn width m)
    (hn : FitsIn width n) :
    (padded width m).toList < (padded width n).toList ↔ m < n := by
  rw [lt_iff_ofDigitChars_lt ((length_padded hm).trans (length_padded hn).symm)
    isDigit_of_mem_padded isDigit_of_mem_padded 0, ofDigitChars_padded,
    ofDigitChars_padded]

theorem padded_inj {width m n : Nat}
    (h : (padded width m).toList = (padded width n).toList) : m = n := by
  rw [← ofDigitChars_padded width m, h, ofDigitChars_padded]

/-- A padded numeral is read back. -/
theorem read?_padded {limit width n : Nat} (h : n < limit) :
    read? limit (Bytes.ofText (String.ofList (padded width n).toList)) = some n := by
  have hascii : ∀ c ∈ (padded width n).toList, c.toNat < 128 := by
    intro c hc
    have := toNat_of_isDigit (isDigit_of_mem_padded c hc)
    omega
  have hvalue :=
    (value_digits (@isDigit_of_mem_padded width n)).trans (ofDigitChars_padded width n)
  rw [Bytes.ofText_ofList_ascii hascii]
  refine (read?_digits ?_ (all_isDigit_digits isDigit_of_mem_padded)
    (by rwa [hvalue])).trans (by rw [hvalue])
  intro hnil
  rw [List.map_eq_nil_iff, toList_padded, List.append_eq_nil_iff] at hnil
  exact Nat.toDigits_ne_nil hnil.2

end Chronicle.Text.Decimal
