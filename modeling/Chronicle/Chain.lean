import Chronicle.Block

/-!
# Hash chains

A list of blocks is a chain when the blocks carry consecutive indexes, each names the
stored hash of the one before as its predecessor, and each stored hash is that of the
block's fields. `Sound` says so, and `verifyFrom` decides it and attributes the first
violation.

* `verifyFrom_eq_ok_iff`: the verifier accepts exactly the sound lists whose indexes
  exist.
-/

namespace Chronicle.Chain

/-- The first thing that is wrong with a list of blocks (`ChainError`). -/
inductive Fault where
  /-- The block at `index` carries another index. -/
  | indexMismatch (index : Nat) (found : UInt64)
  /-- The block at `index` does not name its predecessor's hash. -/
  | brokenLink (index : Nat)
  /-- The stored hash of the block at `index` is not that of its fields. -/
  | hashMismatch (index : Nat)
  /-- There is no index for the block: the one before has the greatest. -/
  | noIndexLeft
deriving DecidableEq, Repr

namespace Fault

/-- The fault in words. -/
def message : Fault → String
  | indexMismatch index found => s!"link at position {index} carries index {found}"
  | brokenLink index => s!"broken link at index {index}: prev_hash does not match"
  | hashMismatch index =>
    s!"hash mismatch at index {index}: computed hash differs from stored"
  | noIndexLeft => "no index left"

/-- The position of the fault. -/
def index : Fault → Nat
  | indexMismatch i _ | brokenLink i | hashMismatch i => i
  | noIndexLeft => UInt64.size

end Fault

/-- The block can stand at position `index` after a block with stored hash `prev`. -/
def Link (index : Nat) (prev : Digest) (b : Block) : Prop :=
  b.index.toNat = index ∧ b.prev = prev ∧ b.toBlockFields.digest = b.hash

/-- The blocks form a chain that begins at position `start` after a block with stored
hash `prev`. -/
def Sound : Nat → Digest → List Block → Prop
  | _, _, [] => True
  | start, prev, b :: bs => Link start prev b ∧ Sound (start + 1) b.hash bs

/-- What is wrong with one block at position `index` after a block with stored hash
`prev`: the index is looked at first, then the link, then the hash. -/
def check (index : Nat) (prev : Digest) (b : Block) : Except Fault Unit :=
  if UInt64.size ≤ index then .error .noIndexLeft
  else if b.index.toNat ≠ index then .error (.indexMismatch index b.index)
  else if b.prev ≠ prev then .error (.brokenLink index)
  else if b.toBlockFields.digest ≠ b.hash then .error (.hashMismatch index)
  else .ok ()

/-- The first fault of a list of blocks that should begin at position `start` after a
block with stored hash `prev` (`verify_from`). -/
def verifyFrom (start : Nat) (prev : Digest) : List Block → Except Fault Unit
  | [] => .ok ()
  | b :: bs =>
    match check start prev b with
    | .error f => .error f
    | .ok () => verifyFrom (start + 1) b.hash bs

/-- The first fault of a whole chain (`verify_chain`). -/
def verify (bs : List Block) : Except Fault Unit := verifyFrom 0 Digest.zero bs

/-- The position of the first fault of a whole chain (`first_divergence`). -/
def firstDivergence (bs : List Block) : Option Nat :=
  match verify bs with
  | .ok () => none
  | .error f => some f.index

/-- The stored hash of the last block, `prev` if there is none. -/
def headFrom (prev : Digest) : List Block → Digest
  | [] => prev
  | b :: bs => headFrom b.hash bs

theorem check_eq_ok_iff {index : Nat} {prev : Digest} {b : Block} :
    check index prev b = .ok () ↔ index < UInt64.size ∧ Link index prev b := by
  rw [check, Link]
  by_cases h0 : UInt64.size ≤ index
  · rw [if_pos h0]
    exact ⟨fun h => (by cases h), fun h => absurd h.1 (Nat.not_lt.2 h0)⟩
  by_cases h1 : b.index.toNat = index
  · by_cases h2 : b.prev = prev
    · by_cases h3 : b.toBlockFields.digest = b.hash
      · rw [if_neg h0, if_neg (not_not_intro h1), if_neg (not_not_intro h2),
          if_neg (not_not_intro h3)]
        exact ⟨fun _ => ⟨Nat.lt_of_not_le h0, h1, h2, h3⟩, fun _ => rfl⟩
      · rw [if_neg h0, if_neg (not_not_intro h1), if_neg (not_not_intro h2), if_pos h3]
        exact ⟨fun h => (by cases h), fun h => absurd h.2.2.2 h3⟩
    · rw [if_neg h0, if_neg (not_not_intro h1), if_pos h2]
      exact ⟨fun h => (by cases h), fun h => absurd h.2.2.1 h2⟩
  · rw [if_neg h0, if_pos h1]
    exact ⟨fun h => (by cases h), fun h => absurd h.2.1 h1⟩

theorem verifyFrom_eq_ok_iff (bs : List Block) (start : Nat) (prev : Digest) :
    verifyFrom start prev bs = .ok () ↔ (bs ≠ [] → start + bs.length ≤ UInt64.size) ∧
      Sound start prev bs := by
  induction bs generalizing start prev with
  | nil => simp [verifyFrom, Sound]
  | cons b bs ih =>
    have hstep : verifyFrom start prev (b :: bs) = .ok () ↔
        check start prev b = .ok () ∧ verifyFrom (start + 1) b.hash bs = .ok () := by
      rw [verifyFrom]
      cases check start prev b <;> simp
    rw [hstep, check_eq_ok_iff, ih, Sound]
    constructor
    · rintro ⟨⟨hlt, hl⟩, hle, hs⟩
      refine ⟨fun _ => ?_, hl, hs⟩
      by_cases hbs : bs = []
      · subst hbs
        simp only [List.length_cons, List.length_nil]
        omega
      · have := hle hbs
        simp only [List.length_cons]
        omega
    · rintro ⟨hle, hl, hs⟩
      have := hle (by simp)
      simp only [List.length_cons] at this
      exact ⟨⟨by omega, hl⟩, fun _ => by omega, hs⟩

end Chronicle.Chain
