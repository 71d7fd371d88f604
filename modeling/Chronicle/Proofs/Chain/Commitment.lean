import Mathlib.Data.List.Induction
import Chronicle.Proofs.Block.Message
import Chronicle.Proofs.Chain.Extension

/-!
# The head of a chain commits to the chain

Two sound chains that end in the same hash are the same chain, whatever their
lengths, or somewhere in them a block of one and a block of the other have different
fields and the same hash. Nothing is assumed of the hash function: the collision is
shown.

The argument goes backwards from the last blocks. Equal hashes mean equal fields or a
collision; equal fields mean equal positions, and that the blocks before have equal
hashes.
-/

namespace Chronicle.Chain

/-- Some block of one list and some block of the other differ in a field and have the
same hash. -/
def ShowCollision (as bs : List Block) : Prop :=
  ∃ a ∈ as, ∃ b ∈ bs, BlockFields.Collide a.toBlockFields b.toBlockFields

instance (as bs : List Block) : Decidable (ShowCollision as bs) :=
  inferInstanceAs (Decidable
    (∃ a ∈ as, ∃ b ∈ bs, BlockFields.Collide a.toBlockFields b.toBlockFields))

theorem ShowCollision.concat {as bs : List Block} (h : ShowCollision as bs)
    (a b : Block) :
    ShowCollision (as ++ [a]) (bs ++ [b]) := by
  obtain ⟨x, hx, y, hy, hxy⟩ := h
  exact ⟨x, List.mem_append_left _ hx, y, List.mem_append_left _ hy, hxy⟩

/-- Blocks whose stored hashes are those of their fields, and equal: they are the
same block, or they collide. -/
theorem eq_or_collide_of_hash_eq {a b : Block} (ha : a.toBlockFields.digest = a.hash)
    (hb : b.toBlockFields.digest = b.hash) (hh : a.hash = b.hash) :
    a = b ∨ BlockFields.Collide a.toBlockFields b.toBlockFields := by
  by_cases hf : a.toBlockFields = b.toBlockFields
  · left
    cases a
    cases b
    simp only at hf hh
    rw [hf, hh]
  · right
    exact ⟨hf, by rw [ha, hb, hh]⟩

/-- Sound chains from the same beginning with the same head are equal, or show a
collision. -/
theorem Sound.eq_or_showCollision {start : Nat} {prev : Digest} {as bs : List Block}
    (has : Sound start prev as) (hbs : Sound start prev bs) (hane : as ≠ [])
    (hbne : bs ≠ []) (hhead : headFrom prev as = headFrom prev bs) :
    as = bs ∨ ShowCollision as bs := by
  induction as using List.reverseRecOn generalizing bs with
  | nil => exact absurd rfl hane
  | append_singleton as a ih =>
    obtain ⟨bs, b, rfl⟩ : ∃ cs c, bs = cs ++ [c] :=
      ⟨_, _, (List.dropLast_concat_getLast hbne).symm⟩
    rw [headFrom_concat, headFrom_concat] at hhead
    obtain ⟨hsa, hla⟩ := (sound_concat start prev as a).1 has
    obtain ⟨hsb, hlb⟩ := (sound_concat start prev bs b).1 hbs
    rcases eq_or_collide_of_hash_eq hla.2.2 hlb.2.2 hhead with hab | hcollide
    · subst hab
      -- The one block has one position and one predecessor in both chains.
      have hlength : as.length = bs.length := by
        have hindex := hla.1.symm.trans hlb.1
        omega
      have hprev : headFrom prev as = headFrom prev bs := hla.2.1.symm.trans hlb.2.1
      by_cases hnil : as = []
      · subst hnil
        left
        rw [List.eq_nil_of_length_eq_zero hlength.symm]
      · have hbnil : bs ≠ [] := by
          intro hb
          rw [hb] at hlength
          exact hnil (List.eq_nil_of_length_eq_zero hlength)
        rcases ih hsa hsb hnil hbnil hprev with heq | hcollision
        · exact .inl (by rw [heq])
        · exact .inr (hcollision.concat a a)
    · right
      exact ⟨a, by simp, b, by simp, hcollide⟩

/-- Verified chains of one length with one head are equal, or show a collision. -/
theorem eq_or_showCollision_of_head {as bs : List Block} (has : verify as = .ok ())
    (hbs : verify bs = .ok ()) (hlength : bs.length = as.length)
    (hhead : headFrom Digest.zero bs = headFrom Digest.zero as) :
    bs = as ∨ ShowCollision as bs := by
  obtain ⟨_, hsa⟩ := (verifyFrom_eq_ok_iff as 0 Digest.zero).1 has
  obtain ⟨_, hsb⟩ := (verifyFrom_eq_ok_iff bs 0 Digest.zero).1 hbs
  by_cases hnil : as = []
  · subst hnil
    exact .inl (List.eq_nil_of_length_eq_zero hlength)
  · have hbnil : bs ≠ [] := by
      rintro rfl
      exact hnil (List.eq_nil_of_length_eq_zero hlength.symm)
    rcases hsa.eq_or_showCollision hsb hnil hbnil hhead.symm with heq | hcollision
    · exact .inl heq.symm
    · exact .inr hcollision

/-- Two verified chains that end in blocks with the same stored hash are the same
chain, of the same length in particular, or they show two different messages with one
hash: those of a block of the one and of a block of the other that differ in a field. -/
theorem verified_chains_with_one_head {as bs : List Block} (has : verify as = .ok ())
    (hbs : verify bs = .ok ()) (hane : as ≠ []) (hbne : bs ≠ [])
    (hlast : (as.getLast hane).hash = (bs.getLast hbne).hash) :
    as = bs ∨ ∃ a ∈ as, ∃ b ∈ bs,
      a.toBlockFields ≠ b.toBlockFields ∧
      a.toBlockFields.digest = b.toBlockFields.digest ∧
      a.toBlockFields.message ≠ b.toBlockFields.message ∧
      Hash.Blake3.hash a.toBlockFields.message =
        Hash.Blake3.hash b.toBlockFields.message := by
  obtain ⟨_, hsa⟩ := (verifyFrom_eq_ok_iff as 0 Digest.zero).1 has
  obtain ⟨_, hsb⟩ := (verifyFrom_eq_ok_iff bs 0 Digest.zero).1 hbs
  have hhead : headFrom Digest.zero as = headFrom Digest.zero bs := by
    rw [headFrom_eq_getLast _ hane, headFrom_eq_getLast _ hbne, hlast]
  rcases hsa.eq_or_showCollision hsb hane hbne hhead with heq | ⟨a, ha, b, hb, hcollide⟩
  · exact .inl heq
  · exact .inr ⟨a, ha, b, hb, hcollide.1, hcollide.2, hcollide.messages⟩

/-- Two linked blocks, of which the second records a failure, meet the conditions. -/
theorem verified_chains_with_one_head_pair :
    let first := Block.sealed 0 Digest.zero (Digest.ofByte 1) ⟨1, 0⟩ 1
    let second := Block.sealed 1 first.hash (Digest.ofByte 2) ⟨1, 1⟩ 0
    verify [first, second] = .ok () ∧
      ([first, second] = [first, second] ∨ ∃ a ∈ [first, second], ∃ b ∈ [first, second],
        a.toBlockFields ≠ b.toBlockFields ∧
        a.toBlockFields.digest = b.toBlockFields.digest ∧
        a.toBlockFields.message ≠ b.toBlockFields.message ∧
        Hash.Blake3.hash a.toBlockFields.message =
          Hash.Blake3.hash b.toBlockFields.message) := by
  intro first second
  have hverify : verify [first, second] = .ok () :=
    (verifyFrom_eq_ok_iff _ _ _).2
      ⟨fun _ => by decide, ⟨rfl, rfl, rfl⟩, ⟨rfl, rfl, rfl⟩, trivial⟩
  exact ⟨hverify, verified_chains_with_one_head hverify hverify (List.cons_ne_nil _ _)
    (List.cons_ne_nil _ _) rfl⟩

end Chronicle.Chain
