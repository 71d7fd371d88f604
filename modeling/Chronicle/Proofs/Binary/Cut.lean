import Chronicle.Bytes

/-!
# Parts that a cut leaves whole

Parts stand one after another, and what they make up is cut after some bytes. Some of
the parts are left whole, and after them there is at most a beginning of the next
one.

* `take_flatten`: what a cut leaves.
* `lt_wholeWithin_iff`: a part is left whole if it ends before the cut.
-/

namespace Chronicle.Bytes

/-- How many parts are whole within the first `n` bytes of all of them. -/
def wholeWithin : Nat → List Bytes → Nat
  | _, [] => 0
  | n, p :: ps => if p.length ≤ n then wholeWithin (n - p.length) ps + 1 else 0

theorem wholeWithin_le (n : Nat) (ps : List Bytes) : wholeWithin n ps ≤ ps.length := by
  induction ps generalizing n with
  | nil => exact Nat.le_refl _
  | cons p ps ih =>
    rw [wholeWithin]
    split
    · exact Nat.succ_le_succ (ih _)
    · exact Nat.zero_le _

theorem lt_wholeWithin_iff {n i : Nat} {ps : List Bytes} (hi : i < ps.length) :
    i < wholeWithin n ps ↔ (ps.take (i + 1)).flatten.length ≤ n := by
  induction ps generalizing n i with
  | nil => cases hi
  | cons p ps ih =>
    rw [wholeWithin, List.take_succ_cons, List.flatten_cons, List.length_append]
    split
    · cases i with
      | zero => simpa using ‹p.length ≤ n›
      | succ i =>
        rw [Nat.succ_lt_succ_iff, ih (Nat.lt_of_succ_lt_succ hi)]
        omega
    · simp only [Nat.not_lt_zero, false_iff]
      omega

theorem wholeWithin_of_le {n : Nat} {ps : List Bytes} (h : ps.flatten.length ≤ n) :
    wholeWithin n ps = ps.length := by
  induction ps generalizing n with
  | nil => rfl
  | cons p ps ih =>
    rw [List.flatten_cons, List.length_append] at h
    rw [wholeWithin, if_pos (by omega), ih (by omega), List.length_cons]

/-- The parts that are counted are within the bytes. -/
theorem length_take_wholeWithin (n : Nat) (ps : List Bytes) :
    (ps.take (wholeWithin n ps)).flatten.length ≤ n := by
  induction ps generalizing n with
  | nil => exact Nat.zero_le _
  | cons p ps ih =>
    rw [wholeWithin]
    split
    · have hrest := ih (n - p.length)
      rw [List.take_succ_cons, List.flatten_cons, List.length_append]
      omega
    · exact Nat.zero_le _

/-- No more parts than those that are counted are within the bytes. -/
theorem le_wholeWithin {n k : Nat} {ps : List Bytes} (hk : k ≤ ps.length)
    (h : (ps.take k).flatten.length ≤ n) : k ≤ wholeWithin n ps := by
  cases k with
  | zero => exact Nat.zero_le _
  | succ i => exact (lt_wholeWithin_iff hk).2 h

/-- A cut leaves the parts that are whole before it, and less than the next one. -/
theorem take_flatten (n : Nat) (ps : List Bytes) :
    ∃ rest, ps.flatten.take n = (ps.take (wholeWithin n ps)).flatten ++ rest ∧
      (rest = [] ∨ ∃ p ∈ ps, rest <+: p ∧ rest.length < p.length) := by
  induction ps generalizing n with
  | nil => exact ⟨[], by simp [wholeWithin], .inl rfl⟩
  | cons p ps ih =>
    rw [wholeWithin, List.flatten_cons]
    split
    · next hle =>
      obtain ⟨rest, htake, hrest⟩ := ih (n - p.length)
      refine ⟨rest, ?_, ?_⟩
      · rw [List.take_append, List.take_of_length_le hle, htake, List.take_succ_cons,
          List.flatten_cons, List.append_assoc]
      · rcases hrest with hnil | ⟨q, hq, hless⟩
        · exact .inl hnil
        · exact .inr ⟨q, List.mem_cons_of_mem _ hq, hless⟩
    · next hlt =>
      have hlt : n < p.length := Nat.lt_of_not_le hlt
      refine ⟨p.take n, ?_, .inr ⟨p, List.mem_cons_self, List.take_prefix _ _, ?_⟩⟩
      · rw [List.take_append_of_le_length (Nat.le_of_lt hlt), List.take_zero,
          List.flatten_nil, List.nil_append]
      · rw [List.length_take]
        omega

end Chronicle.Bytes
