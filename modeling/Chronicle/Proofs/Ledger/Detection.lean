import Chronicle.Proofs.Chain.Commitment
import Chronicle.Proofs.Ledger.Run

/-!
# Which rewritings verification detects

Somebody puts other blocks in the place of those that a ledger has appended.
Verification looks at the blocks and at their number, and not at the head that the
ledger has at hand. So it detects every rewriting that is no chain; one that is a
chain it detects by nothing but its head, and does not look at that.

* `Run.sound_of_empty`: what a run adds to an empty log is a sound chain.
* `exists_chain_other_than`: next to every chain there is another one of its length.
* `accepted_rewriting_with_kept_head_is_history`: an accepted rewriting with the head
  that the ledger has at hand is no rewriting.
-/

namespace Chronicle.Ledger

/-- What a run adds to an empty log is a sound chain, whose head the ledger has at
hand. -/
theorem Run.sound_of_empty {log : BlockLog} {faults : Faults} {d d' : Disk}
    {l l' : Ledger} (hlog : log.Live d) (hempty : log.length = 0)
    (hexact : faults.extraLength = 0) (hopen : openOver log faults d = .ok l)
    (hrun : Run l d l' d') :
    ∃ bs w, l'.Follows d' bs w ∧ Chain.verify bs = .ok () := by
  obtain ⟨rfl, before, hbefore⟩ := follows_of_openOver hlog hexact hopen
  have hnil : before = [] := by
    apply List.eq_nil_of_length_eq_zero
    rw [← hbefore.left.shows.length, hempty]
  obtain ⟨bs, w, hfollows, hverify⟩ := hrun.follows hbefore
  rw [hnil, List.nil_append] at hfollows hverify
  exact ⟨bs, w, hfollows, hverify⟩

/-- The chain with the last block sealed anew over another payload is a chain too. -/
theorem exists_chain_other_than {bs : List Block} (hbs : Chain.verify bs = .ok ())
    (hne : bs ≠ []) :
    ∃ cs, cs.length = bs.length ∧ cs ≠ bs ∧ Chain.verify cs = .ok () := by
  obtain ⟨as, b, rfl⟩ : ∃ as b, bs = as ++ [b] :=
    ⟨_, _, (List.dropLast_concat_getLast hne).symm⟩
  obtain ⟨hroom, hsound⟩ := (Chain.verifyFrom_eq_ok_iff _ _ _).1 hbs
  obtain ⟨has, hindex, hprev, _⟩ := (Chain.sound_concat 0 Digest.zero as b).1 hsound
  obtain ⟨payload, hpayload⟩ : ∃ payload, payload ≠ b.payload := by
    by_cases h : b.payload = Digest.zero
    · refine ⟨Digest.ofByte 1, ?_⟩
      rw [h]
      decide
    · exact ⟨Digest.zero, fun h0 => h h0.symm⟩
  -- Only the last block is changed, and no other block names its hash.
  let c : Block := BlockFields.toBlock { b.toBlockFields with payload }
  refine ⟨as ++ [c], by simp, ?_,
    (Chain.verifyFrom_eq_ok_iff _ _ _).2 ⟨fun _ => ?_, ?_⟩⟩
  · intro heq
    have hc : c = b := List.singleton_inj.1 (List.append_cancel_left heq)
    exact hpayload (congrArg (·.payload) hc)
  · have hlimit := hroom hne
    simpa using hlimit
  · exact (Chain.sound_concat 0 Digest.zero as c).2 ⟨has, hindex, hprev, rfl⟩

/-- The ledger has appended `bs`. Whatever list `cs` of the same length is stored in
their place, verification accepts it exactly if it is a chain. If that ends in the
head that the ledger has at hand, then nothing was rewritten, or two blocks are shown
whose fields differ and have one hash. But the head is not compared: every history
that is not empty can be replaced by another one that is accepted. -/
theorem accepted_rewriting_with_kept_head_is_history {log log' : BlockLog}
    {faults : Faults} {d d' d'' : Disk} {l l' : Ledger} {cs : List Block}
    (hlog : log.Live d) (hempty : log.length = 0) (hexact : faults.extraLength = 0)
    (hopen : openOver log faults d = .ok l) (hrun : Run l d l' d')
    (hread : log'.readRange 0 l'.tail.nextIndex d'' = .ok cs)
    (hlength : cs.length = l'.tail.nextIndex) :
    ∃ bs, l'.log.Shows d' bs ∧
      (∃ v, Ledger.verify { l' with log := log' } d'' = .ok v ∧
        (v.ok = true ↔ Chain.verify cs = .ok ()) ∧
        (v.ok = true → Chain.headFrom Digest.zero cs = l'.tail.head →
          cs = bs ∨ Chain.ShowCollision bs cs) ∧
        (cs = bs → v.ok = true ∧ Chain.headFrom Digest.zero cs = l'.tail.head)) ∧
      (bs ≠ [] → ∃ other, other.length = bs.length ∧ other ≠ bs ∧
        ∀ log'' e, log''.readRange 0 l'.tail.nextIndex e = .ok other →
          Ledger.verify { l' with log := log'' } e = .ok ⟨none, bs.length⟩) := by
  obtain ⟨bs, _, hfollows, hbs⟩ := Run.sound_of_empty hlog hempty hexact hopen hrun
  have hindex : l'.tail.nextIndex = bs.length := by
    rw [hfollows.tail, Tail.nextIndex_ofBlocks]
  have hhead : l'.tail.head = Chain.headFrom Digest.zero bs := by
    rw [hfollows.tail, Tail.head_ofBlocks]
  have hok : (Chain.firstDivergence cs).isNone = true ↔ Chain.verify cs = .ok () := by
    rw [Option.isNone_iff_eq_none, Chain.firstDivergence_eq_none_iff]
  refine ⟨bs, hfollows.left.shows,
    ⟨⟨Chain.firstDivergence cs, cs.length⟩, ?_, hok, ?_, ?_⟩, ?_⟩
  · exact verify_of_readRange hfollows.sane hfollows.attached hread hlength
  · intro haccepted hkept
    exact Chain.eq_or_showCollision_of_head hbs (hok.1 haccepted) (hindex ▸ hlength)
      (hhead ▸ hkept)
  · rintro rfl
    exact ⟨hok.2 hbs, hhead.symm⟩
  · intro hne
    obtain ⟨other, hsame, hother, hverify⟩ := exists_chain_other_than hbs hne
    refine ⟨other, hsame, hother, ?_⟩
    intro log'' e hstored
    have hverdict := verify_of_readRange (l := { l' with log := log'' }) hfollows.sane
      hfollows.attached hstored (hsame.trans hindex.symm)
    rw [hverdict, (Chain.firstDivergence_eq_none_iff other).2 hverify, hsame]

/-- One block is appended to an empty ledger, and stored blocks are read that are
another chain of one block. -/
theorem accepted_rewriting_with_kept_head_is_history_single :
    let a : Attempt := ⟨⟨5, 0⟩, Digest.zero, 1, false, [], none⟩
    let l := (a.make inMemory {}).2.1
    let forged := Block.sealed 0 Digest.zero (Digest.ofByte 9) ⟨5, 0⟩ 1
    openOver (.memory []) {} {} = .ok inMemory ∧ Run inMemory {} l {} ∧
      l.tail.nextIndex = 1 ∧
      ∃ bs, l.log.Shows {} bs ∧
      ∃ v, Ledger.verify { l with log := .memory [forged] } {} = .ok v ∧
        (v.ok = true → Chain.headFrom Digest.zero [forged] = l.tail.head →
          [forged] = bs ∨ Chain.ShowCollision bs [forged]) := by
  intro a l forged
  have hopen : openOver (.memory []) {} {} = .ok inMemory := rfl
  have hrun : Run inMemory {} l {} :=
    Run.start.attempt a (Attempt.proper_of_clean rfl (by decide) rfl)
  have hread : BlockLog.readRange (.memory [forged]) 0 l.tail.nextIndex {} =
      .ok [forged] := rfl
  obtain ⟨bs, hshows, ⟨v, hv, _, hkept, _⟩, _⟩ :=
    accepted_rewriting_with_kept_head_is_history (.memory [] {}) rfl rfl hopen
      hrun hread rfl
  exact ⟨hopen, hrun, rfl, bs, hshows, v, hv, hkept⟩

/-- The one block of a ledger is replaced by one with another payload, sealed anew.
Verification finds every block there and right, and no two messages with one hash are
involved. -/
theorem resealed_block_is_accepted :
    let a : Attempt := ⟨⟨5, 0⟩, Digest.zero, 1, false, [], none⟩
    let l := (a.make inMemory {}).2.1
    let appended := Block.sealed 0 Digest.zero Digest.zero ⟨5, 0⟩ 1
    let forged := Block.sealed 0 Digest.zero (Digest.ofByte 9) ⟨5, 0⟩ 1
    Run inMemory {} l {} ∧ l.log = .memory [appended] ∧
      Ledger.verify { l with log := .memory [forged] } {} = .ok ⟨none, 1⟩ ∧
      [forged] ≠ [appended] ∧ ¬ Chain.ShowCollision [appended] [forged] := by
  intro a l appended forged
  have hrun : Run inMemory {} l {} :=
    Run.start.attempt a (Attempt.proper_of_clean rfl (by decide) rfl)
  have hforged : Chain.verify [forged] = .ok () :=
    (Chain.verifyFrom_eq_ok_iff _ _ _).2 ⟨fun _ => by decide, ⟨rfl, rfl, rfl⟩, trivial⟩
  have hverdict : Ledger.verify { l with log := .memory [forged] } {} =
      .ok ⟨Chain.firstDivergence [forged], 1⟩ := verify_of_readRange rfl rfl rfl rfl
  have hdigest : appended.toBlockFields.digest ≠ forged.toBlockFields.digest := by
    decide +kernel
  refine ⟨hrun, rfl, ?_, ?_, ?_⟩
  · rw [hverdict, (Chain.firstDivergence_eq_none_iff _).2 hforged]
  · intro heq
    exact hdigest (congrArg (fun b : Block => b.toBlockFields.digest)
      (List.singleton_inj.1 heq)).symm
  · rintro ⟨x, hx, y, hy, hcollide⟩
    rw [List.mem_singleton.1 hx, List.mem_singleton.1 hy] at hcollide
    exact hdigest hcollide.2

end Chronicle.Ledger
