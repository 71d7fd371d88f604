import Chronicle.Proofs.Chain.Commitment

/-!
# Where the verifier finds a fault

Soundness is said position by position: every block has its index, names the stored
hash of the block before it, and stores the hash of its fields. The verifier goes
through a list with a position and an expected hash in hand. What it reports is the
fault of the first position that is not sound, and where a list is cut in two does
not matter to it.

* `Violates`: what is wrong with one block at one position, the index before the link
  and the link before the hash.
* `verifyFrom_eq_error_iff`: the fault that is reported is that of the least unsound
  position.
* `verify_replaced_of_not_link`, `verify_replaced_of_link`: the verdict on a chain in
  which one block was replaced.
-/

namespace Chronicle.Chain

/-! ## One position -/

/-- The stored hash of the block before position `i`, `prev` before the first one. -/
def hashBefore (prev : Digest) (bs : List Block) : Nat → Digest
  | 0 => prev
  | i + 1 => (bs[i]?.map (·.hash)).getD Digest.zero

/-- The block at position `i` stands where it should, in a list that begins at
`start` after the hash `prev`. -/
def SoundAt (start : Nat) (prev : Digest) (bs : List Block) (i : Nat) : Prop :=
  ∀ b, bs[i]? = some b → Link (start + i) (hashBefore prev bs i) b

/-- The block violates what is expected at position `index` after the hash `prev`. A
wrong index counts before a wrong link, and a wrong link before a wrong hash. -/
inductive Violates (index : Nat) (prev : Digest) (b : Block) : Fault → Prop where
  | index (hindex : b.index.toNat ≠ index) :
      Violates index prev b (.indexMismatch index b.index)
  | link (hindex : b.index.toNat = index) (hprev : b.prev ≠ prev) :
      Violates index prev b (.brokenLink index)
  | hash (hindex : b.index.toNat = index) (hprev : b.prev = prev)
      (hhash : b.toBlockFields.digest ≠ b.hash) :
      Violates index prev b (.hashMismatch index)

theorem Violates.index_eq {index : Nat} {prev : Digest} {b : Block} {f : Fault}
    (h : Violates index prev b f) : f.index = index := by
  cases h <;> rfl

theorem Violates.not_link {index : Nat} {prev : Digest} {b : Block} {f : Fault}
    (h : Violates index prev b f) : ¬ Link index prev b := by
  rintro ⟨hindex, hprev, hhash⟩
  cases h with
  | index hne => exact hne hindex
  | link _ hne => exact hne hprev
  | hash _ _ hne => exact hne hhash

/-- Looking at one block finds what it violates. -/
theorem check_eq_error_iff {index : Nat} {prev : Digest} {b : Block} {f : Fault}
    (hroom : index < UInt64.size) :
    check index prev b = .error f ↔ Violates index prev b f := by
  unfold check
  rw [if_neg (Nat.not_le.2 hroom)]
  constructor
  · intro h
    split at h
    · next hindex =>
      cases h
      exact .index hindex
    · next hindex =>
      split at h
      · next hprev =>
        cases h
        exact .link (Decidable.not_not.1 hindex) hprev
      · next hprev =>
        split at h
        · next hhash =>
          cases h
          exact .hash (Decidable.not_not.1 hindex) (Decidable.not_not.1 hprev) hhash
        · cases h
  · intro h
    cases h with
    | index hindex => simp [hindex]
    | link hindex hprev => simp [hindex, hprev]
    | hash hindex hprev hhash => simp [hindex, hprev, hhash]

theorem exists_violates {index : Nat} {prev : Digest} {b : Block}
    (h : ¬ Link index prev b) :
    ∃ f, Violates index prev b f := by
  by_cases hindex : b.index.toNat = index
  · by_cases hprev : b.prev = prev
    · exact ⟨_, .hash hindex hprev fun hhash => h ⟨hindex, hprev, hhash⟩⟩
    · exact ⟨_, .link hindex hprev⟩
  · exact ⟨_, .index hindex⟩

/-! ## All positions -/

theorem hashBefore_cons (prev : Digest) (b : Block) (bs : List Block) (i : Nat) :
    hashBefore prev (b :: bs) (i + 1) = hashBefore b.hash bs i := by
  cases i <;> simp [hashBefore]

/-- The hash before the end of a list is that of its last block. -/
theorem headFrom_eq_getLast? (prev : Digest) (bs : List Block) :
    headFrom prev bs = (bs.getLast?.map (·.hash)).getD prev := by
  by_cases hne : bs = []
  · subst hne
    rfl
  · rw [headFrom_eq_getLast prev hne, List.getLast?_eq_some_getLast hne]
    rfl

theorem soundAt_cons_zero (start : Nat) (prev : Digest) (b : Block) (bs : List Block) :
    SoundAt start prev (b :: bs) 0 ↔ Link start prev b := by
  simp [SoundAt, hashBefore]

theorem soundAt_cons_succ (start : Nat) (prev : Digest) (b : Block) (bs : List Block)
    (i : Nat) :
    SoundAt start prev (b :: bs) (i + 1) ↔ SoundAt (start + 1) b.hash bs i := by
  rw [SoundAt, SoundAt, hashBefore_cons, List.getElem?_cons_succ, Nat.add_right_comm,
    Nat.add_assoc]

/-- A list is a chain exactly if every position is sound. -/
theorem sound_iff_soundAt (start : Nat) (prev : Digest) (bs : List Block) :
    Sound start prev bs ↔ ∀ i, SoundAt start prev bs i := by
  induction bs generalizing start prev with
  | nil => simp [Sound, SoundAt]
  | cons b bs ih =>
    rw [Sound, ih]
    constructor
    · rintro ⟨hfirst, hrest⟩ i
      cases i with
      | zero => exact (soundAt_cons_zero start prev b bs).2 hfirst
      | succ i => exact (soundAt_cons_succ start prev b bs i).2 (hrest i)
    · intro h
      exact ⟨(soundAt_cons_zero start prev b bs).1 (h 0),
        fun i => (soundAt_cons_succ start prev b bs i).1 (h (i + 1))⟩

/-- The fault that is reported is that of the least position that is not sound. -/
theorem verifyFrom_eq_error_iff (bs : List Block) (start : Nat) (prev : Digest)
    (f : Fault) (hroom : start + bs.length ≤ UInt64.size) :
    verifyFrom start prev bs = .error f ↔
      ∃ i b, bs[i]? = some b ∧ Violates (start + i) (hashBefore prev bs i) b f ∧
        ∀ j, j < i → SoundAt start prev bs j := by
  induction bs generalizing start prev with
  | nil => simp [verifyFrom]
  | cons b bs ih =>
    rw [List.length_cons] at hroom
    have hrest := ih (start + 1) b.hash (by omega)
    rw [verifyFrom]
    cases hcheck : check start prev b with
    | error g =>
      have hg : Violates start prev b g := (check_eq_error_iff (by omega)).1 hcheck
      constructor
      · intro h
        cases h
        exact ⟨0, b, rfl, hg, fun j hj => absurd hj (Nat.not_lt_zero j)⟩
      · -- The first block is not sound, so no later position can be the least one.
        rintro ⟨i, c, hc, hf, hbefore⟩
        cases i with
        | zero =>
          cases hc
          have hf' : check start prev b = .error f :=
            (check_eq_error_iff (by omega)).2 hf
          exact hcheck.symm.trans hf'
        | succ i =>
          exact absurd ((soundAt_cons_zero start prev b bs).1 (hbefore 0 (by omega)))
            hg.not_link
    | ok u =>
      have hlink : Link start prev b := (check_eq_ok_iff.1 hcheck).2
      simp only [hrest]
      constructor
      · rintro ⟨i, c, hc, hf, hbefore⟩
        refine ⟨i + 1, c, hc, ?_, ?_⟩
        · rw [hashBefore_cons, ← Nat.add_assoc, Nat.add_right_comm]
          exact hf
        · intro j hj
          cases j with
          | zero => exact (soundAt_cons_zero start prev b bs).2 hlink
          | succ j =>
            exact (soundAt_cons_succ start prev b bs j).2 (hbefore j (by omega))
      · rintro ⟨i, c, hc, hf, hbefore⟩
        cases i with
        | zero =>
          cases hc
          exact absurd hlink hf.not_link
        | succ i =>
          rw [hashBefore_cons, ← Nat.add_assoc, Nat.add_right_comm] at hf
          refine ⟨i, c, hc, hf, ?_⟩
          intro j hj
          exact (soundAt_cons_succ start prev b bs j).1 (hbefore (j + 1) (by omega))

/-- The verifier accepts a list exactly if every block has its index, names the
stored hash of the block before it and stores the hash of its fields. Otherwise it
reports what the block at the least unsound position violates. A list in two parts is
verified by verifying the first part and, if that is sound, the second part after it. -/
theorem verifier_reports_least_violation (bs : List Block) (start : Nat) (prev : Digest)
    (hroom : start + bs.length ≤ UInt64.size) :
    (verifyFrom start prev bs = .ok () ↔
      ∀ i b, bs[i]? = some b → Link (start + i) (hashBefore prev bs i) b) ∧
    (∀ f, verifyFrom start prev bs = .error f ↔
      ∃ i b, bs[i]? = some b ∧ Violates (start + i) (hashBefore prev bs i) b f ∧
        ∀ j c, j < i → bs[j]? = some c → Link (start + j) (hashBefore prev bs j) c) ∧
    ∀ front back, bs = front ++ back →
      (∀ f, verifyFrom start prev front = .error f →
        verifyFrom start prev bs = .error f) ∧
      (verifyFrom start prev front = .ok () →
        verifyFrom start prev bs =
          verifyFrom (start + front.length)
            ((front.getLast?.map (·.hash)).getD prev) back) := by
  refine ⟨?_, ?_, ?_⟩
  · rw [verifyFrom_eq_ok_iff, sound_iff_soundAt]
    exact ⟨fun h => h.2, fun h => ⟨fun _ => hroom, h⟩⟩
  · intro f
    rw [verifyFrom_eq_error_iff bs start prev f hroom]
    constructor
    · rintro ⟨i, b, hb, hf, hbefore⟩
      exact ⟨i, b, hb, hf, fun j c hj hc => hbefore j hj c hc⟩
    · rintro ⟨i, b, hb, hf, hbefore⟩
      exact ⟨i, b, hb, hf, fun j hj c hc => hbefore j c hj hc⟩
  · rintro front back rfl
    rw [verifyFrom_append]
    refine ⟨fun f hf => ?_, fun hok => ?_⟩
    · rw [hf]
    · rw [hok, headFrom_eq_getLast?]

/-- A segment of two blocks that begins at index 3: the second one carries the index
7. -/
theorem verifier_reports_least_violation_segment :
    let first := Block.sealed 3 (Digest.ofByte 5) (Digest.ofByte 1) ⟨1, 0⟩ 1
    let second := Block.sealed 7 first.hash (Digest.ofByte 2) ⟨1, 1⟩ 0
    verifyFrom 3 (Digest.ofByte 5) [first, second] = .error (.indexMismatch 4 7) ∧
      ∃ i b, [first, second][i]? = some b ∧
        Violates (3 + i) (hashBefore (Digest.ofByte 5) [first, second] i) b
          (.indexMismatch 4 7) := by
  intro first second
  obtain ⟨_, hleast, _⟩ :=
    verifier_reports_least_violation [first, second] 3 (Digest.ofByte 5) (by decide)
  have hfault : verifyFrom 3 (Digest.ofByte 5) [first, second] =
      .error (.indexMismatch 4 7) := by
    refine (hleast _).2 ⟨1, second, rfl, .index (by decide), ?_⟩
    intro j c hj hc
    obtain rfl : j = 0 := by omega
    cases hc
    exact ⟨rfl, rfl, rfl⟩
  obtain ⟨i, b, hb, hviolates, _⟩ := (hleast _).1 hfault
  exact ⟨hfault, i, b, hb, hviolates⟩

/-! ## A chain with one block replaced -/

/-- The blocks differ in a field, and their messages are two byte strings with one
hash. -/
def Clash (b c : Block) : Prop :=
  b.toBlockFields ≠ c.toBlockFields ∧
    b.toBlockFields.message ≠ c.toBlockFields.message ∧
    Hash.Blake3.hash b.toBlockFields.message = Hash.Blake3.hash c.toBlockFields.message

/-- Different blocks that store the hash of their fields store different hashes, or
they clash. -/
theorem clash_of_hash_eq {b c : Block} (hb : b.toBlockFields.digest = b.hash)
    (hc : c.toBlockFields.digest = c.hash) (hne : c ≠ b)
    (hhash : c.hash = b.hash) : Clash b c := by
  have hcollide := (eq_or_collide_of_hash_eq hb hc hhash.symm).resolve_left hne.symm
  exact ⟨hcollide.1, hcollide.messages⟩

variable {before after : List Block} {b c : Block}

/-- What a verified chain says of one of its blocks and of those on either side of
it. -/
theorem verify_parts (h : verify (before ++ b :: after) = .ok ()) :
    verifyFrom 0 Digest.zero before = .ok () ∧ before.length < UInt64.size ∧
      Link before.length (headFrom Digest.zero before) b ∧
      verifyFrom (before.length + 1) b.hash after = .ok () := by
  rw [verify, verifyFrom_append, Nat.zero_add] at h
  cases hv : verifyFrom 0 Digest.zero before with
  | error f =>
    rw [hv] at h
    cases h
  | ok u =>
    rw [hv] at h
    simp only [verifyFrom] at h
    cases hcheck : check before.length (headFrom Digest.zero before) b with
    | error f =>
      rw [hcheck] at h
      cases h
    | ok u =>
      rw [hcheck] at h
      obtain ⟨hroom, hlink⟩ := check_eq_ok_iff.1 hcheck
      exact ⟨rfl, hroom, hlink, h⟩

/-- The blocks before the replaced one are sound, so verification comes to the new
block. -/
theorem verify_replaced (h : verify (before ++ b :: after) = .ok ()) (c : Block) :
    verify (before ++ c :: after) = verifyFrom before.length b.prev (c :: after) := by
  obtain ⟨hbefore, _, ⟨_, hprev, _⟩, _⟩ := verify_parts h
  rw [verify, verifyFrom_append, hbefore, Nat.zero_add, hprev]

/-- A block that does not fit in its place is where the verifier stops. -/
theorem verify_replaced_of_not_link (h : verify (before ++ b :: after) = .ok ())
    (hc : ¬ Link before.length b.prev c) :
    ∃ f, Violates before.length b.prev c f ∧
      verify (before ++ c :: after) = .error f := by
  obtain ⟨_, hroom, _, _⟩ := verify_parts h
  obtain ⟨f, hf⟩ := exists_violates hc
  refine ⟨f, hf, ?_⟩
  rw [verify_replaced h, verifyFrom, (check_eq_error_iff hroom).2 hf]

/-- After a block that fits in its place the verifier goes on, and expects its hash
to be named. -/
theorem verify_replaced_of_link (h : verify (before ++ b :: after) = .ok ())
    (hc : Link before.length b.prev c) :
    (after = [] ∨ c.hash = b.hash → verify (before ++ c :: after) = .ok ()) ∧
    (after ≠ [] → c.hash ≠ b.hash →
      verify (before ++ c :: after) = .error (.brokenLink (before.length + 1))) := by
  obtain ⟨_, hroom, _, hafter⟩ := verify_parts h
  have hgo : verify (before ++ c :: after) =
      verifyFrom (before.length + 1) c.hash after := by
    rw [verify_replaced h, verifyFrom, check_eq_ok_iff.2 ⟨hroom, hc⟩]
  rw [hgo]
  constructor
  · rintro (rfl | hhash)
    · rfl
    · rw [hhash, hafter]
  · intro hne hhash
    -- The next block was sound after the old one, so its index is right and it names
    -- the old hash.
    obtain ⟨next, rest, rfl⟩ := List.exists_cons_of_ne_nil hne
    obtain ⟨hlimit, hsound⟩ := (verifyFrom_eq_ok_iff _ _ _).1 hafter
    obtain ⟨⟨hindex, hprev, _⟩, _⟩ := hsound
    have hbroken : Violates (before.length + 1) c.hash
        next (.brokenLink (before.length + 1)) :=
      .link hindex fun hnamed => hhash (hnamed.symm.trans hprev)
    have hnext : before.length + 1 < UInt64.size := by
      have hle := hlimit (List.cons_ne_nil _ _)
      rw [List.length_cons] at hle
      omega
    rw [verifyFrom, (check_eq_error_iff hnext).2 hbroken]

theorem firstDivergence_of_error {bs : List Block} {f : Fault}
    (h : verify bs = .error f) :
    firstDivergence bs = some f.index := by
  rw [firstDivergence, h]

/-- In a verified chain the block `b` at position `i` is replaced by another block
`c`. If `c` does not fit there, the first divergence is `i`, and only then. If it
fits, the chain is sound up to the end if `i` is the last position, and the link
after it is broken if not, unless the fields of the two blocks differ and have one
hash. So whatever is changed in the fields, if the stored hash is kept then the
change is found at `i`, or such a clash is shown. -/
theorem replaced_block_is_found {bs : List Block} {i : Nat} (hbs : verify bs = .ok ())
    (hb : bs[i]? = some b) (hne : c ≠ b) :
    (firstDivergence (bs.set i c) = some i ↔ ¬ Link i b.prev c) ∧
    (Link i b.prev c →
      (i + 1 = bs.length → verify (bs.set i c) = .ok () ∧
        firstDivergence (bs.set i c) = none) ∧
      (i + 1 < bs.length → verify (bs.set i c) = .error (.brokenLink (i + 1)) ∨
        Clash b c)) ∧
    (c.hash = b.hash → firstDivergence (bs.set i c) = some i ∨ Clash b c) := by
  obtain ⟨hi, rfl⟩ := List.getElem?_eq_some_iff.1 hb
  obtain ⟨before, after, heq, rfl, hset⟩ := @List.exists_of_set _ i c bs hi
  generalize bs[before.length] = b at *
  subst heq
  rw [hset]
  obtain ⟨_, _, hlink, _⟩ := verify_parts hbs
  have hclash : Link before.length b.prev c → c.hash = b.hash → Clash b c :=
    fun hc hhash => clash_of_hash_eq hlink.2.2 hc.2.2 hne hhash
  have hlast : before.length + 1 = (before ++ b :: after).length ↔ after = [] := by
    simp
  have hmore : before.length + 1 < (before ++ b :: after).length ↔ after ≠ [] := by
    simp [List.length_pos_iff]
  have hmiss : ¬ Link before.length b.prev c →
      firstDivergence (before ++ c :: after) = some before.length := by
    intro hc
    obtain ⟨f, hf, hverify⟩ := verify_replaced_of_not_link hbs hc
    rw [firstDivergence_of_error hverify, hf.index_eq]
  refine ⟨⟨?_, hmiss⟩, ?_, ?_⟩
  · intro hfirst hc
    obtain ⟨hok, hbroken⟩ := verify_replaced_of_link hbs hc
    by_cases hcase : after = [] ∨ c.hash = b.hash
    · rw [(firstDivergence_eq_none_iff _).2 (hok hcase)] at hfirst
      cases hfirst
    · rw [not_or] at hcase
      rw [firstDivergence_of_error (hbroken hcase.1 hcase.2)] at hfirst
      exact absurd (Option.some.inj hfirst) (Nat.succ_ne_self _)
  · intro hc
    obtain ⟨hok, hbroken⟩ := verify_replaced_of_link hbs hc
    refine ⟨fun hend => ?_, fun hgoes => ?_⟩
    · have hverify := hok (.inl (hlast.1 hend))
      exact ⟨hverify, (firstDivergence_eq_none_iff _).2 hverify⟩
    · by_cases hhash : c.hash = b.hash
      · exact .inr (hclash hc hhash)
      · exact .inl (hbroken (hmore.1 hgoes) hhash)
  · intro hhash
    by_cases hc : Link before.length b.prev c
    · exact .inr (hclash hc hhash)
    · exact .inl (hmiss hc)

/-- The first of two linked blocks is sealed anew over another payload: it fits in
its place, and the second block no longer links to it. -/
theorem replaced_block_is_found_resealed :
    let first := Block.sealed 0 Digest.zero (Digest.ofByte 1) ⟨1, 0⟩ 1
    let second := Block.sealed 1 first.hash (Digest.ofByte 2) ⟨1, 1⟩ 0
    let forged := Block.sealed 0 Digest.zero (Digest.ofByte 9) ⟨1, 0⟩ 1
    verify [first, second] = .ok () ∧ Link 0 first.prev forged ∧
      (verify [forged, second] = .error (.brokenLink 1) ∨ Clash first forged) := by
  intro first second forged
  have hverify : verify [first, second] = .ok () :=
    (verifyFrom_eq_ok_iff _ _ _).2
      ⟨fun _ => by decide, ⟨rfl, rfl, rfl⟩, ⟨rfl, rfl, rfl⟩, trivial⟩
  have hne : forged ≠ first := by
    intro heq
    have hpayload : Digest.ofByte 9 = Digest.ofByte 1 :=
      congrArg (fun b : Block => b.payload) heq
    exact absurd hpayload (by decide)
  have hfits : Link 0 first.prev forged := ⟨rfl, rfl, rfl⟩
  obtain ⟨_, hfound, _⟩ := replaced_block_is_found (i := 0) hverify rfl hne
  exact ⟨hverify, hfits, (hfound hfits).2 (by decide)⟩

end Chronicle.Chain
