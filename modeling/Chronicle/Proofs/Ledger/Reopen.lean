import Chronicle.Proofs.Disk.Within
import Chronicle.Proofs.Ledger.Recovery
import Chronicle.Store.Setup

/-!
# Ledgers that can be opened again

A ledger in a file that nobody else changes can be opened again with the blocks it
has. That holds of a ledger in which somebody broke down as well: only the one that
is open is lost to its users.

* `Entered`: the blocks of the ledger stand in its file and form a sound chain.
* `Entered.turn`, `Entered.append`: neither its neighbours nor appending change that.
* `Entered.reopen`, `entered_of_openLedger`: what opening gives.
-/

namespace Chronicle.Ledger

variable {d d' : Disk} {p q : Path} {T : Path → Prop}

/-! ## What a log file changes on the disk -/

namespace FileLog

variable {l l' : FileLog} {b : Block}

theorem write_within {bs : Bytes} {r : Except Disk.Fault Unit} (hd : d.Sound)
    (hq : d.entry? q = some (.file l.file)) (hT : T q) (h : l.write bs d = (r, d')) :
    Disk.Within T d d' := by
  rw [write] at h
  cases ha : d.append l.file bs with
  | mk a d₁ =>
    have happended := Disk.append_within hd hq hT ha
    rw [ha] at h
    cases a with
    | error f =>
      cases h
      exact happended
    | ok u =>
      simp only at h
      split at h
      · exact happended.trans (Disk.sync_within happended.sound h)
      · cases h
        exact happended

/-- What happens elsewhere on the disk does not matter to a log. -/
theorem Intact.turn {ls : List Bytes} (h : l.Intact d ls) (hw : Disk.Within T d d')
    (hout : ¬T l.path.place) : l.Intact d' ls := by
  obtain ⟨hstat, hcontent⟩ := hw.stat hout h.stat
  exact { h with
    stat := hstat
    present := hw.sound.wellFormed.lt_of_stat hstat
    content := hcontent.trans h.content }

/-- Appending a block changes nothing but the file of the log. -/
theorem Intact.append_within {ls : List Bytes} {r : Except Error Unit}
    (h : l.Intact d ls) (hd : d.Sound) (hT : T l.path.place)
    (ha : l.append b d = (r, l', d')) : Disk.Within T d d' := by
  have hq := Disk.entry_of_stat h.stat
  rw [FileLog.append] at ha
  split at ha
  · cases ha
    exact .refl hd T
  · cases hw : l.write (line b) d with
    | mk a d₁ =>
      have hwritten := write_within hd hq hT hw
      rw [hw] at ha
      cases a with
      | ok u =>
        cases ha
        exact hwritten
      | error f =>
        cases ha
        have hq₁ :=
          (Disk.entry_of_entries (write_spec h.present hw).1.entries
            l.path.place).trans hq
        exact hwritten.trans (Disk.truncate_within hwritten.sound hq₁ hT rfl)

theorem discardTornTail_within {r : Except Error (Nat × Nat)} (hd : d.Sound)
    (hT : T p.place) (h : discardTornTail p d = (r, d')) : Disk.Within T d d' := by
  rw [discardTornTail] at h
  split at h
  · cases h
    exact .refl hd T
  · cases h
    exact .refl hd T
  · simp only at h
    split at h
    · cases h
      exact .refl hd T
    · split at h
      · cases h
        exact .refl hd T
      · next id hopen =>
        have hq := Disk.entry_of_stat (Disk.openFile_eq_ok_iff.1 hopen)
        split at h
        · next ht =>
          cases h
          exact Disk.truncate_within hd hq hT ht
        · next ht =>
          have hcut := Disk.truncate_within hd hq hT ht
          split at h
          · next hs =>
            cases h
            exact hcut.trans (Disk.sync_within hcut.sound hs)
          · next hs =>
            cases h
            exact hcut.trans (Disk.sync_within hcut.sound hs)

/-- Opening a log changes nothing but its file and the directories that were missing
above it. -/
theorem openAt_within {mode : SyncMode} {r : Except Error FileLog} (hd : d.Sound)
    (hparts : ∀ part : Path, part <+: p.parent →
      d.entry? part.place = none → T part.place)
    (hT : T p.place) (h : openAt p mode d = (r, d')) : Disk.Within T d d' := by
  rw [openAt] at h
  cases hm : d.makeDirectories p.parent with
  | mk r₁ d₁ =>
    obtain ⟨h₁, _⟩ := Disk.makeDirectories_within hd hparts hm
    rw [hm] at h
    cases r₁ with
    | error f =>
      cases h
      exact h₁
    | ok u =>
      simp only at h
      cases ht : discardTornTail p d₁ with
      | mk r₂ d₂ =>
        have h₂ := h₁.trans (discardTornTail_within h₁.sound hT ht)
        rw [ht] at h
        cases r₂ with
        | error e =>
          cases h
          exact h₂
        | ok counts =>
          simp only at h
          cases ho : d₂.openOrCreate p with
          | mk r₃ d₃ =>
            have h₃ := h₂.trans (Disk.openOrCreate_within h₂.sound hT ho).1
            rw [ho] at h
            cases r₃ <;> cases h <;> exact h₃

/-- Where there was no file the log begins without blocks. -/
theorem openAt_of_free {mode : SyncMode} (hd : d.WellFormed)
    (hfree : ∀ id, d.entry? p.place ≠ some (.file id))
    (h : openAt p mode d = (.ok l, d')) : l.path = p ∧ l.Intact d' [] := by
  obtain ⟨ls, hls⟩ := openAt_intact hd h
  have hcount : l.count = 0 := by
    rw [openAt] at h
    cases hm : d.makeDirectories p.parent with
    | mk r₁ d₁ =>
      have hnone : ∀ bs, d₁.read p ≠ .ok bs := by
        intro bs hread
        obtain ⟨id, hstat, _⟩ := Disk.stat_of_read hread
        exact hfree id (Disk.file_of_makeDirectories hm (Disk.entry_of_stat hstat))
      rw [hm] at h
      cases r₁ with
      | error f => cases h
      | ok u =>
        simp only [discardTornTail] at h
        cases hread : d₁.read p with
        | ok bs => exact absurd hread (hnone bs)
        | error f =>
          rw [hread] at h
          cases f <;> simp only at h <;> first | cases h | (split at h <;> cases h; rfl)
  have hempty : ls = [] := List.length_eq_zero_iff.1 (hls.count.symm.trans hcount)
  exact ⟨path_openAt h, hempty ▸ hls⟩

end FileLog

theorem BlockLog.Lists.append_within {log log' : BlockLog} {bs : List Block} {b : Block}
    {r : Except Error Unit} (h : log.Lists p d bs) (hd : d.Sound)
    (ha : log.append b d = (r, log', d')) :
    Disk.Within (· = p.place) d d' := by
  obtain ⟨f, rfl, rfl, hf⟩ := h
  obtain ⟨f', _, hl⟩ := BlockLog.append_file ha
  exact hf.append_within hd rfl hl

/-! ## Ledgers whose blocks stand in a file -/

/-- The blocks of the ledger stand in the file at the path, line by line. They form a
sound chain, the tail is theirs, and nothing is in the way of the next one but the
end of time. -/
structure Entered (l : Ledger) (p : Path) (d : Disk) (bs : List Block) : Prop where
  lists : l.log.Lists p d bs
  attached : l.faults = {}
  tail : l.tail = Tail.ofBlocks bs
  verified : Chain.verify bs = .ok ()
  spent : l.poisoned = true → l.tail.lastStamp.succ? = none

namespace Entered

variable {l l' : Ledger} {bs : List Block}

theorem follows (h : l.Entered p d bs) (hsane : l.poisoned = false) :
    l.Follows d bs [] :=
  ⟨h.lists.listsBefore.left, h.tail, hsane, by rw [h.attached], by rw [h.attached]⟩

theorem entry (h : l.Entered p d bs) : ∃ id, d.entry? p.place = some (.file id) := by
  obtain ⟨f, _, rfl, hf⟩ := h.lists
  exact ⟨f.file, Disk.entry_of_stat hf.stat⟩

/-- The ledger shows its tail until there is no timestamp left. -/
theorem tail?_cases (h : l.Entered p d bs) :
    l.tail? = .ok l.tail ∨
      (l.tail? = .error .poisoned ∧ l.tail.lastStamp.succ? = none) := by
  rw [tail?]
  split
  · next hpoisoned => exact .inr ⟨rfl, h.spent hpoisoned⟩
  · exact .inl rfl

/-- What happens elsewhere on the disk does not matter to a ledger. -/
theorem turn (h : l.Entered p d bs) (hw : Disk.Within T d d') (hout : ¬T p.place) :
    l.Entered p d' bs := by
  obtain ⟨f, hlog, rfl, hf⟩ := h.lists
  exact { h with lists := ⟨f, hlog, rfl, hf.turn hw hout⟩ }

section

variable {now : Timestamp} {payload : Digest} {acks : UInt32}
    {r : Except (Failure Error) Block}

/-- On a disk with nothing in the way, appending adds a block to the chain or leaves
it as it is. Somebody breaks down only if there is no timestamp left. -/
theorem append (h : l.Entered p d bs) (hd : d.Sound) (hcalm : d.Calm)
    (ha : l.append now payload (decide (1 ≤ acks)) acks d = (r, l', d')) :
    Disk.Within (· = p.place) d d' ∧ ∃ bs', l'.Entered p d' bs' := by
  cases hsane : l.poisoned with
  | true =>
    rw [Ledger.append, if_neg (not_not_intro rfl), if_pos hsane] at ha
    cases ha
    exact ⟨.refl hd _, bs, h⟩
  | false =>
    cases hb : nextBlock? l.tail now payload acks with
    | none =>
      rw [Ledger.append, if_neg (not_not_intro rfl),
        if_neg (by rw [hsane]; exact Bool.false_ne_true), hb] at ha
      cases ha
      have hspent := Timestamp.succ?_of_nextAfter (Option.map_eq_none_iff.1 hb)
      exact ⟨.refl hd _, bs, { h with spent := fun _ => hspent }⟩
    | some b =>
      obtain ⟨hnone, _⟩ | ⟨c, hc, hcases⟩ := append_cases hsane ha
      · rw [hb] at hnone
        cases hnone
      · rcases hcases with ⟨_, _, rfl, rfl⟩ | ⟨_, e, log, happend, _, rfl⟩ |
          ⟨_, log, happend, _, rfl⟩
        · exact ⟨.refl hd _, bs, h⟩
        · have hback := l.log.rollsBack_calm c hcalm.plan hcalm.limit
          exact ⟨h.lists.append_within hd happend, bs,
            { h with lists := h.lists.append_error hback happend }⟩
        · obtain ⟨_, hprev, _, _, _, hhash⟩ := nextBlock?_eq_some hc
          rw [h.tail, Tail.head_ofBlocks] at hprev
          have hindex := (h.lists.holds.append_ok happend).1
          refine ⟨h.lists.append_within hd happend, bs ++ [c],
            h.lists.append_ok happend, h.attached, ?_, ?_, ?_⟩
          · show l.tail.push c = _
            rw [h.tail, Tail.ofBlocks_append]
          · rw [Chain.verify_concat_of_link ⟨hindex, hprev, hhash⟩, h.verified]
          · intro hpoisoned
            rw [show l.poisoned = true from hpoisoned] at hsane
            cases hsane

/-- As long as there is an index and a timestamp left, the next block is the one that
links to the last. -/
theorem append_next {b : Block} (h : l.Entered p d bs) (hcalm : d.Calm)
    (hsane : l.poisoned = false) (hb : nextBlock? l.tail now payload acks = some b)
    (hroom : l.tail.nextIndex < UInt64.size)
    (ha : l.append now payload (decide (1 ≤ acks)) acks d = (r, l', d')) :
    r = .ok b ∧ l'.tail? = .ok (l.tail.push b) ∧ b.index.toNat = l.tail.nextIndex ∧
      b.prev = l.tail.head := by
  obtain ⟨hindex, hprev, _⟩ := nextBlock?_eq_some hb
  have hlength : bs.length < UInt64.size := by
    rwa [h.tail, Tail.nextIndex_ofBlocks] at hroom
  have hattached : l.faults.append = false := by
    rw [h.attached]
  obtain ⟨rfl, log, rfl⟩ :=
    append_calm h.lists.listsBefore.left h.tail hsane hattached hcalm hlength hb ha
  refine ⟨rfl, ?_, ?_, hprev⟩
  · rw [tail?, show l.poisoned = false from hsane]
    rfl
  · rw [hindex]
    exact Nat.mod_eq_of_lt hroom

end

end Entered

/-! ## Opening -/

theorem openLedger_within {mode : SyncMode} {r : Except Store.Error Ledger}
    (hd : d.Sound)
    (hparts : ∀ part : Path, part <+: p.parent →
      d.entry? part.place = none → T part.place)
    (hT : T p.place) (h : Store.openLedger p mode d = (r, d')) :
    Disk.Within T d d' := by
  rw [Store.openLedger] at h
  cases ho : FileLog.openAt p mode d with
  | mk a d₁ =>
    have hopened := FileLog.openAt_within hd hparts hT ho
    rw [ho] at h
    cases a with
    | error e =>
      cases h
      exact hopened
    | ok f =>
      simp only at h
      split at h <;> cases h <;> exact hopened

/-- Over a log file of these blocks opening gives a ledger that has them. -/
theorem openOver_of_intact {f : FileLog} {bs : List Block}
    (hf : f.Intact d (bs.map Block.toLine)) (hverified : Chain.verify bs = .ok ()) :
    ∃ l, openOver (.file f) {} d = .ok l ∧ l.Entered f.path d bs ∧
      l.poisoned = false := by
  have hlists : BlockLog.Lists (.file f) f.path d bs := ⟨f, rfl, rfl, hf⟩
  have hfollows : Follows ⟨.file f, {}, Tail.ofBlocks bs, false⟩ d bs [] :=
    ⟨hlists.listsBefore.left, rfl, rfl, rfl, rfl⟩
  exact ⟨_, hfollows.openOver rfl rfl,
    ⟨hlists, rfl, rfl, hverified, fun h => by cases h⟩, rfl⟩

/-- The ledger can be opened again, and nothing changes on the disk. -/
theorem Entered.reopen {l : Ledger} {bs : List Block} (h : l.Entered p d bs)
    (mode : SyncMode) :
    ∃ l', Store.openLedger p mode d = (.ok l', d) ∧ l'.Entered p d bs ∧
      l'.poisoned = false := by
  obtain ⟨f, _, rfl, hf⟩ := h.lists
  have hsame : ({ f with mode } : FileLog).Intact d (bs.map Block.toLine) := { hf with }
  obtain ⟨l', hopen, hentered⟩ := openOver_of_intact hsame h.verified
  refine ⟨l', ?_, hentered⟩
  simp only [Store.openLedger, hf.openAt, hopen]

/-- Where there was no file a ledger begins without blocks. -/
theorem entered_of_openLedger {mode : SyncMode} {l : Ledger} (hd : d.WellFormed)
    (hfree : ∀ id, d.entry? p.place ≠ some (.file id))
    (h : Store.openLedger p mode d = (.ok l, d')) : l.Entered p d' [] := by
  rw [Store.openLedger] at h
  cases ho : FileLog.openAt p mode d with
  | mk a d₁ =>
    rw [ho] at h
    cases a with
    | error e => cases h
    | ok f =>
      obtain ⟨rfl, hf⟩ := FileLog.openAt_of_free hd hfree ho
      have hnone : f.Intact d₁ (([] : List Block).map Block.toLine) := hf
      obtain ⟨l', hopen, hentered, _⟩ := openOver_of_intact hnone rfl
      simp only [hopen] at h
      cases h
      exact hentered

end Chronicle.Ledger
