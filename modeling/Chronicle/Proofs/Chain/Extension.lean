import Chronicle.Chain

/-!
# Chains that grow

The verifier looks at the blocks one after the other, so what it says about a list is
decided by what it says about a beginning of the list and, if that is sound, about
the rest after it.

* `verifyFrom_append`: verifying a list is verifying a beginning and then the rest.
* `verify_concat_of_link`: a block that links to the end of a list leaves the verdict
  as it was, also when the list is damaged.
-/

namespace Chronicle.Chain

/-! ## The end of a list of blocks -/

theorem headFrom_append (prev : Digest) (as bs : List Block) :
    headFrom prev (as ++ bs) = headFrom (headFrom prev as) bs := by
  induction as generalizing prev with
  | nil => rfl
  | cons a as ih => exact ih a.hash

@[simp] theorem headFrom_concat (prev : Digest) (bs : List Block) (b : Block) :
    headFrom prev (bs ++ [b]) = b.hash := by
  rw [headFrom_append]
  rfl

/-- The head of a list that is not empty is the stored hash of its last block. -/
theorem headFrom_eq_getLast (prev : Digest) {bs : List Block} (hne : bs ≠ []) :
    headFrom prev bs = (bs.getLast hne).hash := by
  have hlast := headFrom_concat prev bs.dropLast (bs.getLast hne)
  rw [List.dropLast_concat_getLast hne] at hlast
  exact hlast

/-! ## Lists in two parts -/

theorem sound_append (start : Nat) (prev : Digest) (as bs : List Block) :
    Sound start prev (as ++ bs) ↔
      Sound start prev as ∧ Sound (start + as.length) (headFrom prev as) bs := by
  induction as generalizing start prev with
  | nil => simp [Sound, headFrom]
  | cons a as ih =>
    rw [List.cons_append, Sound, ih, Sound, headFrom, List.length_cons, and_assoc,
      Nat.add_assoc, Nat.add_comm 1]

theorem sound_concat (start : Nat) (prev : Digest) (bs : List Block) (b : Block) :
    Sound start prev (bs ++ [b]) ↔
      Sound start prev bs ∧ Link (start + bs.length) (headFrom prev bs) b := by
  rw [sound_append, Sound, Sound, and_true]

/-- A fault of the beginning is the fault of the whole; after a sound beginning the
rest decides. -/
theorem verifyFrom_append (start : Nat) (prev : Digest) (as bs : List Block) :
    verifyFrom start prev (as ++ bs) =
      match verifyFrom start prev as with
      | .error f => .error f
      | .ok () => verifyFrom (start + as.length) (headFrom prev as) bs := by
  induction as generalizing start prev with
  | nil => rfl
  | cons a as ih =>
    rw [List.cons_append, verifyFrom, verifyFrom]
    cases hcheck : check start prev a with
    | error f => rfl
    | ok u =>
      simp only [ih]
      rw [headFrom, List.length_cons, Nat.add_assoc, Nat.add_comm 1]

/-- A block that links to the end of a list leaves the verdict as it was. -/
theorem verify_concat_of_link {bs : List Block} {b : Block}
    (hlink : Link bs.length (headFrom Digest.zero bs) b) :
    verify (bs ++ [b]) = verify bs := by
  have hlast : verifyFrom bs.length (headFrom Digest.zero bs) [b] = .ok () := by
    rw [verifyFrom_eq_ok_iff]
    refine ⟨fun _ => ?_, hlink, trivial⟩
    -- The block carries its position as its index, so the position is one of 64 bits.
    have hlt : b.index.toNat < UInt64.size := b.index.toNat_lt
    rw [hlink.1] at hlt
    exact hlt
  rw [verify, verifyFrom_append, Nat.zero_add, hlast]
  cases hv : verifyFrom 0 Digest.zero bs with
  | error f => rw [verify, hv]
  | ok u => rw [verify, hv]

theorem firstDivergence_eq_none_iff (bs : List Block) :
    firstDivergence bs = none ↔ verify bs = .ok () := by
  rw [firstDivergence]
  cases verify bs with
  | error f => simp
  | ok u => simp

end Chronicle.Chain
