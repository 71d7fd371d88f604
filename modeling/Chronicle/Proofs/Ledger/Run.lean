import Chronicle.Ledger.Basic
import Chronicle.Proofs.Chain.Extension
import Chronicle.Proofs.Ledger.BlockLog

/-!
# Runs of a ledger

A ledger is opened over any log that can be read, and then attempts to append follow,
each in its own circumstances: the log may be cut off, and the disk may have any
limit and any mishaps ahead. What a refused attempt has written may then stay in the
log, and a block that is accepted after it is lost.

* `Follows.attempt`: what one attempt does to a ledger that follows its log.
* `Run.follows`: after every run the ledger follows its log, to which the run has
  only added.
* `Follows.verify`: what verification says of a ledger that follows its log.
* `Follows.meets`: what the next attempt comes to, also if something was left behind.
* `ledger_agrees_with_log_while_nothing_is_left`: tail, log and verifier agree after
  every run.
-/

namespace Chronicle.Ledger

/-! ## Attempts and runs -/

/-- A call to append, and the circumstances in which it is made. -/
structure Attempt where
  now : Timestamp
  payload : Digest
  acks : UInt32
  /-- The log is cut off from appends. -/
  detached : Bool
  /-- The mishaps ahead. -/
  plan : List (Option Nat)
  /-- The limit of the disk. -/
  limit : Option Nat

namespace Attempt

/-- The ledger as the attempt finds it. -/
def ledger (a : Attempt) (l : Ledger) : Ledger :=
  { l with faults := { l.faults with append := a.detached } }

/-- The disk as the attempt finds it. -/
def disk (a : Attempt) (d : Disk) : Disk := { d with plan := a.plan, limit := a.limit }

/-- Makes the attempt. The caller counts it a success if there is an acknowledgement. -/
def make (a : Attempt) (l : Ledger) (d : Disk) :
    Except (Failure Error) Block × Ledger × Disk :=
  (a.ledger l).append a.now a.payload (decide (1 ≤ a.acks)) a.acks (a.disk d)

/-- The log can take back the block if it refuses it. -/
def TakesBack (a : Attempt) (l : Ledger) (d : Disk) : Prop :=
  ∀ b, nextBlock? l.tail a.now a.payload a.acks = some b → l.log.RollsBack b (a.disk d)

/-- The caller does not break down, and no block is accepted after something that a
refused one has left. -/
def Proper (a : Attempt) (l : Ledger) (d : Disk) : Prop :=
  (a.make l d).1 ≠ .error .breakdown ∧ ∀ b, (a.make l d).1 = .ok b →
    l.log.leftover d = []

end Attempt

/-- The states of ledger and disk that are reached from one by proper attempts. -/
inductive Run (l : Ledger) (d : Disk) : Ledger → Disk → Prop where
  | start : Run l d l d
  | attempt {l' : Ledger} {d' : Disk} (h : Run l d l' d') (a : Attempt)
      (ha : a.Proper l' d') :
      Run l d (a.make l' d').2.1 (a.make l' d').2.2

/-- The states that are reached by attempts of which the log can take back every one
that it refuses. -/
inductive CleanRun (l : Ledger) (d : Disk) : Ledger → Disk → Prop where
  | start : CleanRun l d l d
  | attempt {l' : Ledger} {d' : Disk} (h : CleanRun l d l' d') (a : Attempt)
      (hgoes : (a.make l' d').1 ≠ .error .breakdown) (hback : a.TakesBack l' d') :
      CleanRun l d (a.make l' d').2.1 (a.make l' d').2.2

/-! ## The tail that a log determines -/

/-- What the tail says is what there is to say of the blocks. -/
structure Tail.Describes (t : Tail) (bs : List Block) : Prop where
  nextIndex : t.nextIndex = bs.length
  head : t.head = (bs.getLast?.map (·.hash)).getD Digest.zero
  lastStamp : t.lastStamp = (bs.getLast?.map (·.stamp)).getD Timestamp.zero
  succeeded : t.succeeded = bs.countP (·.succeeded)

theorem Tail.describes_ofBlocks (bs : List Block) :
    (Tail.ofBlocks bs).Describes bs := by
  refine ⟨nextIndex_ofBlocks bs, ?_, ?_, succeeded_ofBlocks bs⟩
  · rw [ofBlocks]
    cases bs.getLast? <;> rfl
  · rw [ofBlocks]
    cases bs.getLast? <;> rfl

theorem Tail.head_ofBlocks (bs : List Block) :
    (Tail.ofBlocks bs).head = Chain.headFrom Digest.zero bs := by
  by_cases hne : bs = []
  · rw [hne]
    rfl
  · rw [ofBlocks, List.getLast?_eq_some_getLast hne, Chain.headFrom_eq_getLast _ hne]

/-! ## Ledgers that follow their log -/

/-- The log counts the blocks, the tail is theirs, and the log is read as it is. -/
structure Follows (l : Ledger) (d : Disk) (bs : List Block) (w : Bytes) : Prop where
  left : l.log.Left d bs w
  tail : l.tail = Tail.ofBlocks bs
  sane : l.poisoned = false
  attached : l.faults.read = false
  exactLength : l.faults.extraLength = 0

theorem readLog_of_attached {log : BlockLog} {faults : Faults} (h : faults.read = false)
    (start stop : Nat) (d : Disk) :
    readLog log faults start stop d = log.readRange start stop d := by
  rw [readLog, h]
  exact if_neg Bool.false_ne_true

theorem reportedLength_of_exact {log : BlockLog} {faults : Faults}
    (h : faults.extraLength = 0) :
    reportedLength log faults = log.length := by
  rw [reportedLength, h, Int.add_zero, Int.toNat_natCast]

/-- A ledger that was opened over a log follows it. -/
theorem follows_of_openOver {log : BlockLog} {faults : Faults} {d : Disk} {l : Ledger}
    (hlog : log.Live d) (hexact : faults.extraLength = 0)
    (h : openOver log faults d = .ok l) :
    l.log = log ∧ ∃ bs, l.Follows d bs (log.leftover d) := by
  rw [openOver, reportedLength_of_exact hexact] at h
  cases hr : readLog log faults 0 log.length d with
  | error e =>
    rw [hr] at h
    cases h
  | ok bs =>
    have hread : faults.read = false := by
      rw [readLog] at hr
      split at hr
      · cases hr
      · next hf => exact Bool.not_eq_true _ ▸ hf
    rw [readLog_of_attached hread] at hr
    simp only [readLog_of_attached hread, hr] at h
    split at h
    · cases h
    · cases h
      exact ⟨rfl, bs, hlog.whole.left hr, rfl, rfl, hread, hexact⟩

/-- A ledger that is opened over the log of one that follows it gets the same tail. -/
theorem Follows.openOver {l : Ledger} {d : Disk} {bs : List Block} {w : Bytes}
    (h : l.Follows d bs w) {faults : Faults} (hread : faults.read = false)
    (hexact : faults.extraLength = 0) :
    Ledger.openOver l.log faults d = .ok ⟨l.log, faults, l.tail, false⟩ := by
  have hshows := h.left.shows
  rw [Ledger.openOver, reportedLength_of_exact hexact, hshows.length]
  simp only [readLog_of_attached hread, hshows.readRange_all]
  rw [if_neg (not_not_intro rfl), h.tail]

/-- The verdict on a full list of stored blocks depends on nothing but those blocks. -/
theorem verify_of_readRange {l : Ledger} {d : Disk} {cs : List Block}
    (hsane : l.poisoned = false) (hattached : l.faults.read = false)
    (hread : l.log.readRange 0 l.tail.nextIndex d = .ok cs)
    (hlength : cs.length = l.tail.nextIndex) :
    l.verify d = .ok ⟨Chain.firstDivergence cs, cs.length⟩ := by
  have htail : l.tail? = .ok l.tail := by
    rw [tail?, hsane]
    rfl
  rw [verify, htail]
  simp only [readLog_of_attached hattached, hread]
  rw [← hlength, judge]
  cases Chain.firstDivergence cs with
  | some i => rfl
  | none => simp only [Nat.lt_irrefl, if_false]

/-- The verdict on a ledger that follows its log names the first fault of the chain. -/
theorem Follows.verify {l : Ledger} {d : Disk} {bs : List Block} {w : Bytes}
    (h : l.Follows d bs w) :
    l.verify d = .ok ⟨Chain.firstDivergence bs, bs.length⟩ := by
  have hindex : bs.length = l.tail.nextIndex := by rw [h.tail, Tail.nextIndex_ofBlocks]
  refine verify_of_readRange h.sane h.attached ?_ hindex
  rw [← hindex]
  exact h.left.shows.readRange_all

/-! ## One attempt -/

theorem nextBlock?_eq_some {t : Tail} {now : Timestamp} {payload : Digest}
    {acks : UInt32} {b : Block} (h : nextBlock? t now payload acks = some b) :
    b.index = UInt64.ofNat t.nextIndex ∧ b.prev = t.head ∧ b.payload = payload ∧
      b.succeeded = decide (1 ≤ acks) ∧ b.acks = acks ∧
      b.toBlockFields.digest = b.hash := by
  obtain ⟨stamp, _, rfl⟩ := Option.map_eq_some_iff.1 h
  exact ⟨rfl, rfl, rfl, rfl, rfl, rfl⟩

/-- All that an append can do if the caller goes by the acknowledgements and nobody
broke down before. -/
theorem append_cases {l l' : Ledger} {now : Timestamp} {payload : Digest}
    {acks : UInt32} {d d' : Disk} {r : Except (Failure Error) Block}
    (hsane : l.poisoned = false)
    (h : l.append now payload (decide (1 ≤ acks)) acks d = (r, l', d')) :
    (nextBlock? l.tail now payload acks = none ∧ r = .error .breakdown) ∨
      ∃ b, nextBlock? l.tail now payload acks = some b ∧
        ((l.faults.append = true ∧ r = .error (.error detached) ∧ l' = l ∧ d' = d) ∨
          (l.faults.append = false ∧ ∃ e log, l.log.append b d = (.error e, log, d') ∧
            r = .error (.error e) ∧ l' = { l with log }) ∨
          (l.faults.append = false ∧ ∃ log, l.log.append b d = (.ok (), log, d') ∧
            r = .ok b ∧ l' = { l with log, tail := l.tail.push b })) := by
  rw [append, if_neg (not_not_intro rfl),
    if_neg (by rw [hsane]; exact Bool.false_ne_true)] at h
  cases hb : nextBlock? l.tail now payload acks with
  | none =>
    rw [hb] at h
    cases h
    exact .inl ⟨rfl, rfl⟩
  | some b =>
    rw [hb] at h
    refine .inr ⟨b, rfl, ?_⟩
    simp only at h
    split at h
    · next hcut =>
      cases h
      exact .inl ⟨hcut, rfl, rfl, rfl⟩
    · next hcut =>
      have hcut : l.faults.append = false := Bool.not_eq_true _ ▸ hcut
      cases ha : l.log.append b d with
      | mk a rest =>
        obtain ⟨log, d₁⟩ := rest
        rw [ha] at h
        cases a with
        | error e =>
          cases h
          exact .inr (.inl ⟨hcut, e, log, rfl, rfl, rfl⟩)
        | ok u =>
          cases h
          exact .inr (.inr ⟨hcut, log, rfl, rfl, rfl⟩)

/-- An attempt is refused and changes neither log nor tail, or its block is the next
one. It is added to the log if nothing was left behind there. -/
theorem Follows.attempt {l l' : Ledger} {d d' : Disk} {bs : List Block} {w : Bytes}
    {a : Attempt} {r : Except (Failure Error) Block} (h : l.Follows d bs w)
    (hgoes : r ≠ .error .breakdown) (hmake : a.make l d = (r, l', d')) :
    (∃ e w', r = .error (.error e) ∧ l'.log = l.log ∧ l'.tail = l.tail ∧
        l'.Follows d' bs w' ∧
        (w = [] → (∀ b, nextBlock? l.tail a.now a.payload a.acks = some b →
          w' <+: FileLog.line b) ∧
          (a.TakesBack l d → w' = []))) ∨
      ∃ b log, r = .ok b ∧ nextBlock? l.tail a.now a.payload a.acks = some b ∧
        l.log.append b (a.disk d) = (.ok (), log, d') ∧
        l' = { a.ledger l with log, tail := l.tail.push b } ∧
        (w = [] → b.index.toNat = bs.length ∧ l'.Follows d' (bs ++ [b]) []) := by
  have hturned : l.log.Left (a.disk d) bs w := h.left.turned a.plan a.limit
  rcases append_cases (l := a.ledger l) h.sane hmake with ⟨_, rfl⟩ | ⟨b, hb, hcases⟩
  · exact absurd rfl hgoes
  · rcases hcases with ⟨_, rfl, rfl, rfl⟩ | ⟨_, e, log, happend, rfl, rfl⟩ |
      ⟨_, log, happend, rfl, rfl⟩
    · refine .inl ⟨_, w, rfl, rfl, rfl,
        ⟨hturned, h.tail, h.sane, h.attached, h.exactLength⟩, ?_⟩
      rintro rfl
      exact ⟨fun _ _ => List.nil_prefix, fun _ => rfl⟩
    · obtain ⟨rfl, w', hleft, hnone⟩ := hturned.append_error happend
      refine .inl ⟨e, w', rfl, rfl, rfl,
        ⟨hleft, h.tail, h.sane, h.attached, h.exactLength⟩, fun hw => ?_⟩
      obtain ⟨hbegin, hback⟩ := hnone hw
      refine ⟨fun c hc => ?_, fun hall => hback (hall b hb)⟩
      obtain rfl : b = c := Option.some.inj (hb.symm.trans hc)
      exact hbegin
    · refine .inr ⟨b, log, rfl, hb, happend, rfl, ?_⟩
      rintro rfl
      obtain ⟨hindex, hholds⟩ := (BlockLog.left_nil_iff.1 hturned).append_ok happend
      refine ⟨hindex, BlockLog.left_nil_iff.2 hholds, ?_, h.sane, h.attached,
        h.exactLength⟩
      show l.tail.push b = _
      rw [h.tail, Tail.ofBlocks_append]

/-- A block is accepted if there is an index left for it and nothing is in the way. -/
theorem append_calm {l l' : Ledger} {d d' : Disk} {bs : List Block} {w : Bytes}
    {now : Timestamp} {payload : Digest} {acks : UInt32} {b : Block}
    {r : Except (Failure Error) Block} (hleft : l.log.Left d bs w)
    (htail : l.tail = Tail.ofBlocks bs) (hsane : l.poisoned = false)
    (hattached : l.faults.append = false) (hcalm : d.Calm)
    (hindex : bs.length < UInt64.size)
    (hb : nextBlock? l.tail now payload acks = some b)
    (h : l.append now payload (decide (1 ≤ acks)) acks d = (r, l', d')) :
    r = .ok b ∧ ∃ log, l' = { l with log, tail := l.tail.push b } := by
  rcases append_cases hsane h with ⟨hnone, _⟩ | ⟨c, hc, hcases⟩
  · rw [hb] at hnone
    cases hnone
  · obtain rfl : b = c := Option.some.inj (hb.symm.trans hc)
    rcases hcases with ⟨hcut, _⟩ | ⟨_, e, log, happend, _⟩ | ⟨_, log, _, rfl, rfl⟩
    · rw [hattached] at hcut
      cases hcut
    · -- The index of the block is the number of blocks, so the log has no reason to
      -- refuse it.
      have hnext : b.index.toNat = bs.length := by
        rw [(nextBlock?_eq_some hb).1, htail, Tail.nextIndex_ofBlocks]
        exact Nat.mod_eq_of_lt hindex
      have hok := hleft.append_calm hnext hcalm.plan hcalm.limit
      rw [happend] at hok
      cases hok
    · exact ⟨rfl, log, rfl⟩

/-! ## Attempts with nothing in their way -/

/-- The log is not cut off, the disk has no limit and no mishap is ahead. -/
def Attempt.Calm (a : Attempt) : Prop :=
  a.detached = false ∧ a.plan = [] ∧ a.limit = none

/-- As long as there is a timestamp left the caller does not break down. -/
theorem Attempt.ne_breakdown {a : Attempt} {l : Ledger} (d : Disk)
    (hsane : l.poisoned = false)
    (hstamp : (Timestamp.nextAfter a.now l.tail.lastStamp).isSome) :
    (a.make l d).1 ≠ .error .breakdown := by
  intro hbroken
  cases hmake : a.make l d with
  | mk r rest =>
    obtain ⟨l', d'⟩ := rest
    rw [hmake] at hbroken
    cases hbroken
    rcases append_cases (l := a.ledger l) hsane hmake with ⟨hnone, _⟩ | ⟨b, _, hcases⟩
    · rw [nextBlock?, Option.map_eq_none_iff] at hnone
      rw [show Timestamp.nextAfter a.now l.tail.lastStamp = none from hnone] at hstamp
      cases hstamp
    · rcases hcases with ⟨_, hr, _⟩ | ⟨_, e, log, _, hr, _⟩ |
        ⟨_, log, _, hr, _⟩ <;> cases hr

theorem Attempt.proper_of_clean {a : Attempt} {l : Ledger} {d : Disk}
    (hsane : l.poisoned = false)
    (hstamp : (Timestamp.nextAfter a.now l.tail.lastStamp).isSome)
    (hclean : l.log.leftover d = []) : a.Proper l d :=
  ⟨a.ne_breakdown d hsane hstamp, fun _ _ => hclean⟩

/-- A calm attempt adds a block, if there is an index left for it. -/
theorem Follows.attempt_calm {l l' : Ledger} {d d' : Disk} {bs : List Block} {w : Bytes}
    {a : Attempt} {r : Except (Failure Error) Block} (h : l.Follows d bs w)
    (hcalm : a.Calm) (hindex : bs.length < UInt64.size) (hgoes : r ≠ .error .breakdown)
    (hmake : a.make l d = (r, l', d')) : ∃ b, r = .ok b := by
  have hturned : l.log.Left (a.disk d) bs w := h.left.turned a.plan a.limit
  rcases append_cases (l := a.ledger l) h.sane hmake with ⟨_, rfl⟩ | ⟨b, hb, _⟩
  · exact absurd rfl hgoes
  · have hdisk : (a.disk d).Calm := ⟨hcalm.2.1, hcalm.2.2⟩
    exact ⟨b, (append_calm (l := a.ledger l) hturned h.tail h.sane hcalm.1 hdisk hindex
      hb hmake).1⟩

/-! ## Runs -/

/-- After every run the ledger follows its log. The run has only added blocks, and
none that would change what the verifier says. -/
theorem Run.follows {l l' : Ledger} {d d' : Disk} {bs : List Block} {w : Bytes}
    (h : l.Follows d bs w) (hrun : Run l d l' d') :
    ∃ added w', l'.Follows d' (bs ++ added) w' ∧
      Chain.verify (bs ++ added) = Chain.verify bs := by
  induction hrun with
  | start => exact ⟨[], w, by rwa [List.append_nil], by rw [List.append_nil]⟩
  | @attempt l' d' hrun a ha ih =>
    obtain ⟨added, w', hfollows, hverify⟩ := ih
    -- A refused attempt keeps the blocks, and an accepted one links to the last of
    -- them.
    rcases hfollows.attempt ha.1 rfl with ⟨_, w'', _, _, _, hsame, _⟩ |
      ⟨b, _, hr, hb, _, _, hadded⟩
    · exact ⟨added, w'', hsame, hverify⟩
    · obtain ⟨hindex, hmore⟩ :=
        hadded (hfollows.left.leftover_eq.symm.trans (ha.2 b hr))
      obtain ⟨_, hprev, _, _, _, hhash⟩ := nextBlock?_eq_some hb
      rw [hfollows.tail, Tail.head_ofBlocks] at hprev
      refine ⟨added ++ [b], [], ?_, ?_⟩
      · rw [← List.append_assoc]
        exact hmore
      · rw [← List.append_assoc,
          Chain.verify_concat_of_link ⟨hindex, hprev, hhash⟩, hverify]

/-- Nothing is ever left behind if every refused attempt can be taken back. -/
theorem CleanRun.follows {l l' : Ledger} {d d' : Disk} {bs : List Block}
    (h : l.Follows d bs []) (hrun : CleanRun l d l' d') :
    Run l d l' d' ∧ ∃ added, l'.Follows d' (bs ++ added) [] := by
  induction hrun with
  | start => exact ⟨.start, [], by rwa [List.append_nil]⟩
  | @attempt l' d' hrun a hgoes hback ih =>
    obtain ⟨hrun, added, hfollows⟩ := ih
    refine ⟨hrun.attempt a ⟨hgoes, fun _ _ => hfollows.left.leftover_eq⟩, ?_⟩
    rcases hfollows.attempt hgoes rfl with ⟨_, w', _, _, _, hsame, hnone⟩ |
      ⟨b, _, _, _, _, _, hadded⟩
    · obtain rfl : w' = [] := (hnone rfl).2 hback
      exact ⟨added, hsame⟩
    · refine ⟨added ++ [b], ?_⟩
      rw [← List.append_assoc]
      exact (hadded rfl).2

/-! ## Agreement of tail, log and verifier -/

/-- Three views of a ledger that agree on its blocks: the log, the tail, and the
verdict. Whoever opens a ledger over the same log gets the same tail. -/
structure Agrees (l : Ledger) (d : Disk) (bs : List Block) : Prop where
  shows : l.log.Shows d bs
  tail : l.tail? = .ok l.tail
  describes : l.tail.Describes bs
  verdict : l.verify d = .ok ⟨Chain.firstDivergence bs, bs.length⟩
  reopened : ∀ faults : Faults, faults.read = false → faults.extraLength = 0 →
    openOver l.log faults d = .ok ⟨l.log, faults, l.tail, false⟩

theorem Follows.agrees {l : Ledger} {d : Disk} {bs : List Block} {w : Bytes}
    (h : l.Follows d bs w) : l.Agrees d bs where
  shows := h.left.shows
  tail := by
    rw [tail?, h.sane]
    rfl
  describes := h.tail ▸ Tail.describes_ofBlocks bs
  verdict := h.verify
  reopened := fun _ hread hexact => h.openOver hread hexact

/-- The attempt is refused, and neither log nor tail changes. -/
def Attempt.IsRefused (a : Attempt) (l : Ledger) (d : Disk) (bs : List Block) : Prop :=
  ∃ e l' d', a.make l d = (.error (.error e), l', d') ∧ l'.log = l.log ∧
    l'.tail = l.tail ∧ l'.Agrees d' bs

/-- The attempt adds exactly one block, after the others. -/
def Attempt.IsAccepted (a : Attempt) (l : Ledger) (d : Disk) (bs : List Block) : Prop :=
  ∃ b l' d', a.make l d = (.ok b, l', d') ∧ b.index.toNat = bs.length ∧
    b.prev = l.tail.head ∧
    b.succeeded = decide (1 ≤ a.acks) ∧ l'.Agrees d' (bs ++ [b])

/-- The attempt is accepted and the tail counts its block, but `w` was left behind in
the log, part of the line of a block that was refused or all of it. Then the log does
not have the accepted block: its line cannot be read, which is what the verifier
reports and whoever opens a ledger over the log; or the refused block stands in its
place. -/
structure Attempt.IsLost (a : Attempt) (l : Ledger) (d : Disk) (bs : List Block)
    (w : Bytes) (refused : Block) : Prop where
  tail : ∃ b, (a.make l d).1 = .ok b ∧ (a.make l d).2.1.tail = l.tail.push b
  torn : w ≠ FileLog.line refused →
    (a.make l d).2.1.log.readRange 0 (bs.length + 1) (a.make l d).2.2 =
      .error (.corruptEntry bs.length .unreadable) ∧
      (a.make l d).2.1.verify (a.make l d).2.2 = .ok ⟨some bs.length, bs.length + 1⟩ ∧
      ∀ faults : Faults, faults.read = false → faults.extraLength = 0 →
        openOver (a.make l d).2.1.log faults (a.make l d).2.2 =
          .error (.corruptEntry bs.length .unreadable)
  whole : w = FileLog.line refused →
    (a.make l d).2.1.log.Shows (a.make l d).2.2 (bs ++ [refused])

theorem Follows.isRefused {l : Ledger} {d : Disk} {bs : List Block} {w : Bytes}
    {a : Attempt} {e : Error} (h : l.Follows d bs w)
    (hr : (a.make l d).1 = .error (.error e)) : a.IsRefused l d bs := by
  cases hmake : a.make l d with
  | mk r rest =>
    obtain ⟨l', d'⟩ := rest
    rw [hmake] at hr
    rcases h.attempt (by rw [show r = _ from hr]; simp) hmake
      with ⟨e, _, rfl, hlog, htail, hsame, _⟩ | ⟨b, _, rfl, _⟩
    · exact ⟨e, l', d', hmake, hlog, htail, hsame.agrees⟩
    · cases hr

theorem Follows.isAccepted {l : Ledger} {d : Disk} {bs : List Block} {a : Attempt}
    {b : Block} (h : l.Follows d bs []) (hr : (a.make l d).1 = .ok b) :
    a.IsAccepted l d bs := by
  cases hmake : a.make l d with
  | mk r rest =>
    obtain ⟨l', d'⟩ := rest
    rw [hmake] at hr
    rcases h.attempt (by rw [show r = _ from hr]; simp) hmake with ⟨e, _, rfl, _⟩ |
      ⟨b, _, rfl, hb, _, _, hadded⟩
    · cases hr
    · obtain ⟨hindex, hmore⟩ := hadded rfl
      obtain ⟨_, hprev, _, hsucceeded, _, _⟩ := nextBlock?_eq_some hb
      exact ⟨b, l', d', hmake, hindex, hprev, hsucceeded, hmore.agrees⟩

theorem Follows.isLost {l : Ledger} {d : Disk} {bs : List Block} {w : Bytes}
    {a : Attempt} {b c : Block} (h : l.Follows d bs w) (hr : (a.make l d).1 = .ok b)
    (hne : w ≠ []) (hw : w <+: FileLog.line c) : a.IsLost l d bs w c := by
  have hindex : l.tail.nextIndex = bs.length := by rw [h.tail, Tail.nextIndex_ofBlocks]
  have hturned : l.log.Left (a.disk d) bs w := h.left.turned a.plan a.limit
  cases hmake : a.make l d with
  | mk r rest =>
    obtain ⟨l', d'⟩ := rest
    rw [hmake] at hr
    rcases h.attempt (by rw [show r = _ from hr]; simp) hmake with ⟨e, _, rfl, _⟩ |
      ⟨b, log, rfl, _, happend, rfl, _⟩
    · cases hr
    · refine ⟨⟨b, by rw [hmake], by rw [hmake]⟩, fun hpart => ?_, fun hwhole => ?_⟩
      · obtain ⟨hlength, hread⟩ := hturned.append_torn hne hw hpart happend
        rw [hmake]
        have htail : Ledger.tail? { a.ledger l with log, tail := l.tail.push b } =
            .ok (l.tail.push b) := by
          rw [tail?, show (a.ledger l).poisoned = false from h.sane]
          exact if_neg Bool.false_ne_true
        refine ⟨hread, ?_, fun faults hattached hexact => ?_⟩
        · have hattached : (a.ledger l).faults.read = false := h.attached
          rw [Ledger.verify, htail]
          simp only [readLog_of_attached hattached, Tail.push, hindex, hread]
        · rw [Ledger.openOver, reportedLength_of_exact hexact, hlength]
          simp only [readLog_of_attached hattached, hread]
      · subst hwhole
        rw [hmake]
        exact hturned.append_whole happend

theorem Follows.isAccepted_of_calm {l : Ledger} {d : Disk} {bs : List Block} {w : Bytes}
    {a : Attempt} (h : l.Follows d bs w) (ha : a.Proper l d) (hcalm : a.Calm)
    (hindex : bs.length < UInt64.size) : a.IsAccepted l d bs := by
  obtain ⟨b, hb⟩ := h.attempt_calm hcalm hindex ha.1 rfl
  obtain rfl : w = [] := h.left.leftover_eq.symm.trans (ha.2 b hb)
  exact h.isAccepted hb

/-- What an attempt comes to whose caller does not break down. -/
structure Attempt.Meets (a : Attempt) (l : Ledger) (d : Disk)
    (bs : List Block) : Prop where
  answered : (∃ e, (a.make l d).1 = .error (.error e)) ∨ ∃ b, (a.make l d).1 = .ok b
  /-- Refused attempts change nothing, whatever is left behind. -/
  refused : ∀ e, (a.make l d).1 = .error (.error e) → a.IsRefused l d bs
  /-- Accepted ones add a block if nothing is left behind. -/
  accepted : ∀ b, (a.make l d).1 = .ok b → l.log.leftover d = [] → a.IsAccepted l d bs
  lost : ∀ b c, (a.make l d).1 = .ok b → l.log.leftover d ≠ [] →
    l.log.leftover d <+: FileLog.line c →
    a.IsLost l d bs (l.log.leftover d) c
  calm : a.Calm → bs.length < UInt64.size → ∃ b, (a.make l d).1 = .ok b
  /-- What an attempt leaves behind is a beginning of the line of its block. -/
  begins : l.log.leftover d = [] →
    ∀ b, nextBlock? l.tail a.now a.payload a.acks = some b →
    (a.make l d).2.1.log.leftover (a.make l d).2.2 <+: FileLog.line b
  /-- Nothing is left behind by an attempt that is accepted or can be taken back. -/
  clean : l.log.leftover d = [] → a.TakesBack l d →
    (a.make l d).2.1.log.leftover (a.make l d).2.2 = []

theorem Follows.meets {l : Ledger} {d : Disk} {bs : List Block} {w : Bytes}
    {a : Attempt} (h : l.Follows d bs w) (hgoes : (a.make l d).1 ≠ .error .breakdown) :
    a.Meets l d bs where
  answered := by
    rcases h.attempt hgoes rfl with ⟨e, _, hr, _⟩ | ⟨b, _, hr, _⟩
    · exact .inl ⟨e, hr⟩
    · exact .inr ⟨b, hr⟩
  refused := fun e hr => h.isRefused hr
  accepted := by
    intro b hr hclean
    obtain rfl : w = [] := h.left.leftover_eq.symm.trans hclean
    exact h.isAccepted hr
  lost := by
    intro b c hr hne hbegin
    rw [h.left.leftover_eq] at hne hbegin ⊢
    exact h.isLost hr hne hbegin
  calm := fun hcalm hindex => h.attempt_calm hcalm hindex hgoes rfl
  begins := by
    intro hclean b hb
    obtain rfl : w = [] := h.left.leftover_eq.symm.trans hclean
    rcases h.attempt hgoes rfl with ⟨_, w', _, _, _, hsame, hnone⟩ |
      ⟨_, _, _, _, _, _, hadded⟩
    · exact hsame.left.leftover_eq.symm ▸ (hnone rfl).1 b hb
    · exact (hadded rfl).2.left.leftover_eq.symm ▸ List.nil_prefix
  clean := by
    intro hclean hback
    obtain rfl : w = [] := h.left.leftover_eq.symm.trans hclean
    rcases h.attempt hgoes rfl with ⟨_, w', _, _, _, hsame, hnone⟩ |
      ⟨b, _, _, _, _, _, hadded⟩
    · exact hsame.left.leftover_eq.trans ((hnone rfl).2 hback)
    · exact (hadded rfl).2.left.leftover_eq

/-- Over whatever log a ledger was opened, sound or damaged, after every run its
tail, its log and the verifier agree on the blocks that were there before and those
that were added. The first fault of the chain is where it was. The next attempt adds
one block or is refused and changes nothing, unless a refused one could not be taken
back before: then a block that is accepted is lost. That cannot happen in a run in
which everything can be taken back. -/
theorem ledger_agrees_with_log_while_nothing_is_left {log : BlockLog} {faults : Faults}
    {d : Disk} {l : Ledger} (hlog : log.Live d) (hexact : faults.extraLength = 0)
    (hopen : openOver log faults d = .ok l) :
    l.log = log ∧ ∃ before, l.Agrees d before ∧
      (∀ l' d', Run l d l' d' → ∃ added, l'.Agrees d' (before ++ added) ∧
        Chain.firstDivergence (before ++ added) = Chain.firstDivergence before ∧
        ∀ a : Attempt, (a.make l' d').1 ≠ .error .breakdown →
        a.Meets l' d' (before ++ added)) ∧
      (log.leftover d = [] → ∀ l' d', CleanRun l d l' d' → Run l d l' d' ∧
        l'.log.leftover d' = []) := by
  obtain ⟨hsame, before, hbefore⟩ := follows_of_openOver hlog hexact hopen
  refine ⟨hsame, before, hbefore.agrees, fun l' d' hrun => ?_,
    fun hclean l' d' hrun => ?_⟩
  · obtain ⟨added, w, hfollows, hverify⟩ := hrun.follows hbefore
    refine ⟨added, hfollows.agrees, ?_, fun a hgoes => hfollows.meets hgoes⟩
    rw [Chain.firstDivergence, Chain.firstDivergence, hverify]
  · rw [hclean] at hbefore
    obtain ⟨hrun, added, hfollows⟩ := hrun.follows hbefore
    exact ⟨hrun, hfollows.left.leftover_eq⟩

/-! A new file, and what becomes of it if an append cannot be taken back. -/

section

/-- A log in a new file. -/
def newFileLog : FileLog := ⟨["ledger"], .everyWrite, 0, 0, 0⟩

def newFileDisk : Disk := { entries := [((1, ["ledger"]), .file 0)], contents := [[]] }

def newFileLedger : Ledger := ⟨.file newFileLog, {}, Tail.empty, false⟩

/-- Only three bytes of the line are written, and they cannot be taken back. -/
def stuckAttempt : Attempt := ⟨⟨5, 0⟩, Digest.zero, 1, false, [some 3, some 0], none⟩

def calmAttempt : Attempt := ⟨⟨5, 0⟩, Digest.zero, 1, false, [], none⟩

/-- The block that either of them would add. -/
def newFileBlock : Block := Block.sealed 0 Digest.zero Digest.zero ⟨5, 0⟩ 1

/-- The disk after the attempt that is stuck. -/
def stuckDisk : Disk :=
  { newFileDisk with contents := [((FileLog.line newFileBlock).take 3).reverse] }

theorem append_stuck {b : Block} (hb : b.index.toNat = 0) :
    newFileLog.append b (stuckAttempt.disk newFileDisk) =
      (.error .disk, newFileLog,
        { newFileDisk with contents := [((FileLog.line b).take 3).reverse] }) := by
  rw [FileLog.append, if_neg
    (show ¬b.index.toNat ≠ newFileLog.count from not_not_intro hb)]
  simp [FileLog.write, Disk.append, Disk.draw, Disk.room, Disk.extend, Disk.truncate,
    newFileLog, newFileDisk, stuckAttempt, Attempt.disk, List.reverseAux_eq]

theorem make_stuckAttempt :
    stuckAttempt.make newFileLedger newFileDisk =
      (.error (.error .disk), newFileLedger, stuckDisk) := by
  have hnext : nextBlock? (stuckAttempt.ledger newFileLedger).tail stuckAttempt.now
      stuckAttempt.payload stuckAttempt.acks = some newFileBlock := rfl
  have happend : (stuckAttempt.ledger newFileLedger).log.append newFileBlock
      (stuckAttempt.disk newFileDisk) =
      (.error .disk, .file newFileLog, stuckDisk) := by
    rw [show (stuckAttempt.ledger newFileLedger).log = .file newFileLog from rfl,
      BlockLog.append, append_stuck rfl]
    rfl
  have hsane : (stuckAttempt.ledger newFileLedger).poisoned ≠ true :=
    Bool.false_ne_true
  rw [Attempt.make, append, if_neg (not_not_intro rfl), if_neg hsane, hnext]
  simp only [happend]
  rfl

theorem live_newFileLog : BlockLog.Live (.file newFileLog) newFileDisk :=
  .opened Disk.wellFormed_empty (show FileLog.openAt ["ledger"] .everyWrite {} =
    (.ok newFileLog, newFileDisk) from rfl)

theorem openOver_newFileLog :
    openOver (.file newFileLog) {} newFileDisk = .ok newFileLedger :=
  rfl

theorem follows_newFile : newFileLedger.Follows newFileDisk [] [] :=
  ⟨⟨[], ⟨rfl, Nat.zero_lt_one, rfl, List.forall_mem_nil _, rfl, rfl⟩, rfl⟩, rfl,
    rfl, rfl, rfl⟩

theorem follows_stuckDisk :
    newFileLedger.Follows stuckDisk [] ((FileLog.line newFileBlock).take 3) :=
  ⟨⟨[], ⟨rfl, Nat.zero_lt_one, List.reverse_reverse _, List.forall_mem_nil _, rfl, rfl⟩,
    rfl⟩, rfl, rfl, rfl, rfl⟩

theorem proper_newFile {a : Attempt}
    (ha : (Timestamp.nextAfter a.now Timestamp.zero).isSome) :
    a.Proper newFileLedger newFileDisk :=
  Attempt.proper_of_clean rfl ha rfl

/-- Two runs over a new file: in one an attempt is accepted, in the other three bytes
of one that was refused stay. -/
theorem ledger_agrees_with_log_while_nothing_is_left_newFile :
    BlockLog.Live (.file newFileLog) newFileDisk ∧
      openOver (.file newFileLog) {} newFileDisk = .ok newFileLedger ∧
      (∃ l' d', Run newFileLedger newFileDisk l' d' ∧
        (∃ b, (calmAttempt.make newFileLedger newFileDisk).1 = .ok b) ∧
        ∃ before added, l'.Agrees d' (before ++ added)) ∧
      Run newFileLedger newFileDisk newFileLedger stuckDisk ∧
        ∃ before added, newFileLedger.Agrees stuckDisk (before ++ added) := by
  have hcalm := Run.start.attempt calmAttempt (proper_newFile rfl)
  have hstuck := Run.start.attempt stuckAttempt (proper_newFile rfl)
  rw [make_stuckAttempt] at hstuck
  obtain ⟨_, before, _, hruns, _⟩ :=
    ledger_agrees_with_log_while_nothing_is_left live_newFileLog rfl openOver_newFileLog
  obtain ⟨added, hafter, _⟩ := hruns _ _ hcalm
  obtain ⟨added', hafter', _⟩ := hruns _ _ hstuck
  have haccepted :=
    (follows_newFile.meets (calmAttempt.ne_breakdown newFileDisk rfl rfl)).calm
      ⟨rfl, rfl, rfl⟩
    (by decide)
  exact ⟨live_newFileLog, openOver_newFileLog,
    ⟨_, _, hcalm, haccepted, before, added, hafter⟩, hstuck, before, added', hafter'⟩

/-- An attempt is refused of which three bytes stay in the file. The next one is
accepted, and the tail counts its block; but the log does not have it, the verifier
reports it, and no ledger can be opened over the log any more. -/
theorem accepted_block_is_missing_after_stuck_attempt :
    ∃ (b : Block) (l : Ledger) (d : Disk),
      stuckAttempt.make newFileLedger newFileDisk =
        (.error (.error .disk), newFileLedger, stuckDisk) ∧
      calmAttempt.make newFileLedger stuckDisk = (.ok b, l, d) ∧ l.tail.nextIndex = 1 ∧
      l.log.readRange 0 1 d = .error (.corruptEntry 0 .unreadable) ∧
      l.verify d = .ok ⟨some 0, 1⟩ ∧
      openOver l.log {} d = .error (.corruptEntry 0 .unreadable) := by
  obtain ⟨b, hb⟩ :=
    (follows_stuckDisk.meets (calmAttempt.ne_breakdown stuckDisk rfl rfl)).calm
      ⟨rfl, rfl, rfl⟩
    (by decide)
  have hlost :=
    follows_stuckDisk.isLost hb (List.cons_ne_nil _ _) (List.take_prefix 3 _)
  have hpart : (FileLog.line newFileBlock).take 3 ≠ FileLog.line newFileBlock := by
    intro hwhole
    have hthree : ∀ b : Block, (FileLog.line b).take 3 = [123, 34, 105] := fun b => rfl
    have hmem : Text.Lines.newline ∈ FileLog.line newFileBlock :=
      List.mem_append_right _ (List.mem_singleton_self _)
    rw [← hwhole, hthree] at hmem
    exact absurd hmem (by decide)
  obtain ⟨_, _, htail⟩ := hlost.tail
  obtain ⟨hread, hverify, hopen⟩ := hlost.torn hpart
  have hopen := hopen {} rfl rfl
  cases hmake : calmAttempt.make newFileLedger stuckDisk with
  | mk r rest =>
    obtain ⟨l, d⟩ := rest
    rw [hmake] at hb htail hread hverify hopen
    refine ⟨b, l, d, make_stuckAttempt, by rw [show r = .ok b from hb], ?_, hread,
      hverify, hopen⟩
    rw [htail]
    rfl

end

end Chronicle.Ledger
