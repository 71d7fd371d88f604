import Chronicle.Proofs.Store.Attempt
import Chronicle.Proofs.Store.Setup

/-!
# The accounts of a store

A store keeps several accounts of what it did: the counts of each medium, the number
of blocks and of successes in the tail of the ledger, the blocks themselves, and the
receipts. Calls may be refused for their type or key, media may answer in every way,
the ledger may refuse a block, and still the accounts agree.

* `Ledger.append_ends`: all that an append can do.
* `Accounted.attempt`: one attempt keeps the accounts, and what it leaves in each of
  them.
* `History.accounted`: so does every history.
* `every_call_is_accounted_for`: the accounts after every history, and what any
  further call does.
-/

namespace Chronicle

namespace Ledger

/-! ## Appending -/

/-- Nothing has been done to the blocks of a log. -/
def BlockLog.Kept (log : BlockLog) (d d' : Disk) : Prop :=
  ∀ bs, log.Holds d bs → log.Holds d' bs

/-- A log in memory is out of everybody's reach. -/
theorem BlockLog.kept_memory {log : BlockLog} {bs : List Block} (h : log = .memory bs)
    (d d' : Disk) : log.Kept d d' := by
  subst h
  exact fun _ hholds => hholds

theorem BlockLog.append_error {log log' : BlockLog} {b : Block} {d d' : Disk}
    {e : Error} (h : log.append b d = (.error e, log', d')) : log' = log := by
  cases log with
  | memory blocks =>
    rw [append] at h
    split at h <;> cases h
    rfl
  | file l =>
    obtain ⟨l', rfl, hl⟩ := append_file h
    rw [FileLog.append] at hl
    split at hl
    · cases hl
      rfl
    · split at hl <;> cases hl
      rfl

/-- All that an append can do if the caller goes by the acknowledgements: it adds the
next block, or it is refused and the ledger stays as it is, or there is no timestamp
left for the block and nobody gets at the tail any more. -/
theorem append_ends {l l' : Ledger} {now : Timestamp} {payload : Digest} {acks : UInt32}
    {d d' : Disk} {a : Except (Failure Error) Block}
    (h : l.append now payload (decide (1 ≤ acks)) acks d = (a, l', d')) :
    (∃ b log, a = .ok b ∧ l.poisoned = false ∧
        nextBlock? l.tail now payload acks = some b ∧
        l.log.append b d = (.ok (), log, d') ∧
        l' = { l with log, tail := l.tail.push b }) ∨
      (∃ e, a = .error (.error e) ∧ l' = l ∧
        (d' = d ∨ ∃ b, nextBlock? l.tail now payload acks = some b ∧
          l.log.append b d = (.error e, l.log, d'))) ∨
      (a = .error .breakdown ∧ Timestamp.nextAfter now l.tail.lastStamp = none ∧
        l' = { l with poisoned := true } ∧ d' = d) := by
  rw [append, if_neg (not_not_intro rfl)] at h
  by_cases hsane : l.poisoned = true
  · rw [if_pos hsane] at h
    cases h
    exact .inr (.inl ⟨_, rfl, rfl, .inl rfl⟩)
  · rw [if_neg hsane] at h
    cases hb : nextBlock? l.tail now payload acks with
    | none =>
      rw [hb] at h
      cases h
      exact .inr (.inr ⟨rfl, Option.map_eq_none_iff.1 hb, rfl, rfl⟩)
    | some b =>
      rw [hb] at h
      simp only at h
      split at h
      · cases h
        exact .inr (.inl ⟨_, rfl, rfl, .inl rfl⟩)
      · cases ha : l.log.append b d with
        | mk answer rest =>
          obtain ⟨log, d₁⟩ := rest
          rw [ha] at h
          cases answer with
          | ok u =>
            cases h
            exact .inl ⟨b, log, rfl, by simpa using hsane, rfl, ha, rfl⟩
          | error e =>
            cases h
            have hlog := BlockLog.append_error ha
            subst hlog
            exact .inr (.inl ⟨e, rfl, rfl, .inr ⟨b, rfl, ha⟩⟩)

/-- A ledger is opened with the tail of the blocks that its log reads. -/
theorem openOver_eq_ok {log : BlockLog} {faults : Faults} {d : Disk} {l : Ledger}
    (h : openOver log faults d = .ok l) :
    ∃ bs, readLog log faults 0 (reportedLength log faults) d = .ok bs ∧
      l = ⟨log, faults, Tail.ofBlocks bs, false⟩ := by
  rw [openOver] at h
  split at h
  · cases h
  · next bs hbs =>
    split at h
    · cases h
    · cases h
      exact ⟨bs, hbs, rfl⟩

theorem holds_of_readLog {log : BlockLog} {faults : Faults} {d : Disk} {bs : List Block}
    (hlog : log.Live d) (hclean : log.leftover d = []) (hexact : faults.extraLength = 0)
    (h : readLog log faults 0 (reportedLength log faults) d = .ok bs) :
    log.Holds d bs := by
  rw [reportedLength_of_exact hexact, readLog] at h
  split at h
  · cases h
  · have hleft := hlog.whole.left h
    rw [hclean] at hleft
    exact BlockLog.left_nil_iff.1 hleft

theorem Tail.succeeded_le (bs : List Block) :
    (ofBlocks bs).succeeded ≤ (ofBlocks bs).nextIndex := by
  rw [succeeded_ofBlocks, nextIndex_ofBlocks]
  exact List.countP_le_length

end Ledger

namespace Store

open Medium (Adapter)
open Ledger (Tail)

variable {μ : Type} [Adapter μ]

/-! ## Calls -/

/-- The type and the key are in order. -/
def Call.Valid (c : Call) : Prop :=
  Record.checkKind c.kind = .ok () ∧ Record.checkKey c.key = .ok ()

/-- The record of the call. -/
def Call.record (c : Call) : Record := Record.sign c.kind c.key c.value c.taken

theorem Call.prepare_of_valid {c : Call} (h : c.Valid) :
    prepare c.kind c.key c.value c.taken = .ok c.record := by
  rw [prepare, h.1]
  simp only [h.2]
  rfl

theorem Call.prepare_of_not_valid {c : Call} (h : ¬c.Valid) :
    ∃ e, prepare c.kind c.key c.value c.taken = .error e := by
  rw [prepare]
  cases hkind : Record.checkKind c.kind with
  | error e => exact ⟨e, rfl⟩
  | ok u =>
    cases hkey : Record.checkKey c.key with
    | error e => exact ⟨e, rfl⟩
    | ok u => exact absurd ⟨hkind, hkey⟩ h

/-- What the media answer to the call, what they are afterwards, and what they do to
the disk. -/
def Call.handOut (c : Call) (s : Store μ) (d : Disk) :
    List (String × Outcome) × List (Member μ) × Disk :=
  dispatch s.slots c.record s.members d

/-- What the ledger answers to the call, and what becomes of it. -/
def Call.enter (c : Call) (s : Store μ) (d : Disk) :
    Except (Failure Ledger.Error) Block × Ledger × Disk :=
  let acks := ackWord (c.handOut s d).1
  s.ledger.append c.entered c.record.signature (decide (1 ≤ acks)) acks
    (c.handOut s d).2.2

theorem Call.make_of_valid {c : Call} (h : c.Valid) (s : Store μ) (d : Disk) :
    c.make s d = settle { s with members := (c.handOut s d).2.1 } c.record
      (c.handOut s d).1 c.entered (c.handOut s d).2.2 :=
  c.make_of_prepare_ok (c.prepare_of_valid h) s d

theorem Call.make_of_enter {c : Call} {s : Store μ} {d d' : Disk}
    {a : Except (Failure Ledger.Error) Block} {l' : Ledger} (h : c.Valid)
    (henter : c.enter s d = (a, l', d')) :
    c.make s d = (answerOf c.record (c.handOut s d).1 a,
      { s with members := (c.handOut s d).2.1, ledger := l' }, d') := by
  rw [c.make_of_valid h]
  exact settle_of_append (s := { s with members := (c.handOut s d).2.1 }) henter

/-- Every medium is handed the record. -/
theorem getElem?_dispatch {slots i : Nat} {r : Record} {ms : List (Member μ)}
    {m : Member μ} (hm : ms[i]? = some m) (d : Disk) :
    ∃ d', (dispatch slots r ms d).2.1[i]? = some (m.write slots r d').2.1 := by
  induction ms generalizing i d with
  | nil => cases hm
  | cons first ms ih =>
    cases i with
    | zero =>
      cases hm
      exact ⟨d, rfl⟩
    | succ i => exact ih hm (first.write slots r d).2.2

theorem Call.getElem?_make {c : Call} {s : Store μ} {m : Member μ} {i : Nat}
    (hc : c.Valid) (hm : s.members[i]? = some m) (d : Disk) :
    ∃ d', (c.make s d).2.1.members[i]? = some (m.write s.slots c.record d').2.1 := by
  rw [c.make_of_valid hc, members_settle]
  exact getElem?_dispatch hm d

/-- The media leave the log of the ledger alone, and the log can take back a block
that it refuses. -/
def Call.Quiet (c : Call) (s : Store μ) (d : Disk) : Prop :=
  s.ledger.log.Kept d (c.handOut s d).2.2 ∧
    ∀ acks b,
      Ledger.nextBlock? s.ledger.tail c.entered c.record.signature acks = some b →
      s.ledger.log.RollsBack b (c.handOut s d).2.2

theorem Call.quiet_memory {c : Call} {s : Store μ} {bs : List Block}
    (h : s.ledger.log = .memory bs) (d : Disk) : c.Quiet s d := by
  refine ⟨Ledger.BlockLog.kept_memory h _ _, ?_⟩
  rw [h]
  exact fun _ _ _ => trivial

/-! ## One attempt -/

/-- How an attempt ends: what the caller gets, and which blocks come to the ledger. -/
inductive Call.Ends (c : Call) (s : Store μ) (d : Disk) :
    Except Error Receipt → List Block → Prop where
  /-- The ledger takes a block. The caller learns of it, and of a success exactly if
  some medium acknowledged. -/
  | entered {b : Block} {x : Receipt}
      (hindex : b.index = UInt64.ofNat s.ledger.tail.nextIndex)
      (hprev : b.prev = s.ledger.tail.head)
      (hblock : Recorded c.record (c.handOut s d).1 b)
      (hreceipt : Reports c.record (c.handOut s d).1 b x) :
      c.Ends s d (if 1 ≤ b.acks then .ok x else .error (.noBackendAvailable x)) [b]
  /-- The ledger refuses the block. -/
  | refused {e : Ledger.Error} (hrefused : (c.enter s d).1 = .error (.error e)) :
      c.Ends s d (.error (.ledger e)) []
  /-- The last block has the last of all timestamps, and the ledger breaks down. -/
  | brokeDown (hlast : Timestamp.nextAfter c.entered s.ledger.tail.lastStamp = none) :
      c.Ends s d (.error .runtime) []

/-- The accounts after `n` attempts, of which the ledger took the blocks. -/
structure Accounted (s : Store μ) (n : Nat) (bs : List Block) : Prop where
  names : s.names.Nodup
  counted : ∀ m ∈ s.members, m.acks + m.failures = n
  tail : s.ledger.tail = Tail.ofBlocks bs
  /-- Nobody breaks down while there is a timestamp left. -/
  poisoned : s.ledger.poisoned = true → s.ledger.tail.lastStamp.succ? = none

/-- The call is an attempt, of which the ledger takes the new blocks: what the media
answer and count, how it ends, and the accounts afterwards. -/
structure Call.Attempts (c : Call) (s : Store μ) (d : Disk) (n : Nat) (bs : List Block)
    (x : Except Error Receipt) (s' : Store μ) (d' : Disk)
    (new : List Block) : Prop where
  make : c.make s d = (x, s', d')
  dispatched : Dispatched s.slots c.record s.members s'.members (c.handOut s d).1
  ends : c.Ends s d x new
  accounted : Accounted s' (n + 1) (bs ++ new)
  holds : c.Quiet s d → s.ledger.log.Holds d bs → s'.ledger.log.Holds d' (bs ++ new)

/-- One attempt: what the media count, how it ends, and that the accounts still
agree. -/
theorem Accounted.attempt {s : Store μ} {n : Nat} {bs : List Block}
    (h : Accounted s n bs) (hnames : NamesStay μ) {c : Call} (hc : c.Valid) (d : Disk) :
    ∃ x s' d' new, c.Attempts s d n bs x s' d' new := by
  have hdispatched : Dispatched s.slots c.record s.members (c.handOut s d).2.1
      (c.handOut s d).1 :=
    dispatched_dispatch hnames s.slots c.record s.members d
  have hdistinct : ((c.handOut s d).1.map (·.1)).Nodup := hdispatched.names ▸ h.names
  have hnodup : ((c.handOut s d).2.1.map Member.name).Nodup :=
    hdispatched.names_eq ▸ h.names
  -- Every medium has counted this attempt once, on one side or the other.
  have hcounted : ∀ m ∈ (c.handOut s d).2.1, m.acks + m.failures = n + 1 := by
    intro m' hm'
    obtain ⟨m, hm, o, _, hcounts⟩ := hdispatched.mem hm'
    have hbefore := h.counted m hm
    rw [hcounts.acks, hcounts.failures]
    split <;> omega
  cases hanswer : c.enter s d with
  | mk a rest =>
    obtain ⟨l', d'⟩ := rest
    have hmake := c.make_of_enter hc hanswer
    refine ⟨answerOf c.record (c.handOut s d).1 a,
      { s with members := (c.handOut s d).2.1, ledger := l' }, d', ?_⟩
    rcases Ledger.append_ends hanswer with
      ⟨b, log, rfl, hsane, hb, hlog, rfl⟩ | ⟨e, rfl, rfl, hd⟩ | ⟨rfl, hlast, rfl, rfl⟩
    · -- The ledger took the block.
      obtain ⟨hindex, hprev, _, hsucceeded, hacks, _⟩ := Ledger.nextBlock?_eq_some hb
      have hends := Call.Ends.entered (c := c) (s := s) (d := d) hindex hprev
        (recorded_of_nextBlock? hdistinct hb) (reports_receipt b hdistinct)
      have hreceived : answerOf c.record (c.handOut s d).1 (.ok b) =
          if 1 ≤ b.acks then .ok (receipt c.record (c.handOut s d).1 b)
          else .error (.noBackendAvailable (receipt c.record (c.handOut s d).1 b)) := by
        rw [answerOf, hsucceeded, hacks]
        simp only [decide_eq_true_eq]
      refine ⟨[b], hmake, hdispatched, hreceived ▸ hends,
        ⟨hnodup, hcounted, ?_, ?_⟩, ?_⟩
      · show s.ledger.tail.push b = _
        rw [h.tail, Tail.ofBlocks_append]
      · intro hpoisoned
        rw [show s.ledger.poisoned = true from hpoisoned] at hsane
        cases hsane
      · intro hquiet hholds
        exact ((hquiet.1 bs hholds).append_ok hlog).2
    · -- The ledger refused it.
      refine ⟨[], hmake, hdispatched, .refused (by rw [hanswer]),
        ⟨hnodup, hcounted, ?_, h.poisoned⟩, ?_⟩
      · rw [List.append_nil]
        exact h.tail
      · intro hquiet hholds
        rw [List.append_nil]
        rcases hd with rfl | ⟨b, hb, hlog⟩
        · exact hquiet.1 bs hholds
        · exact ((hquiet.1 bs hholds).append_error (hquiet.2 _ b hb) hlog).2
    · -- There was no timestamp left.
      refine ⟨[], hmake, hdispatched, .brokeDown hlast,
        ⟨hnodup, hcounted, ?_, fun _ => Timestamp.succ?_of_nextAfter hlast⟩, ?_⟩
      · rw [List.append_nil]
        exact h.tail
      · intro hquiet hholds
        rw [List.append_nil]
        exact hquiet.1 bs hholds

/-! ## Histories -/

/-- Between calls everything about the media may change but their names and what they
have counted. Of the ledger only the switches change that let it refuse. -/
structure Turned (s s' : Store μ) : Prop where
  counts : s'.members.map (fun m => (m.name, m.acks, m.failures)) =
    s.members.map (fun m => (m.name, m.acks, m.failures))
  log : s'.ledger.log = s.ledger.log
  tail : s'.ledger.tail = s.ledger.tail
  poisoned : s'.ledger.poisoned = s.ledger.poisoned

theorem Turned.names_eq {s s' : Store μ} (h : Turned s s') : s'.names = s.names := by
  have hnames := congrArg (List.map (·.1)) h.counts
  simp only [List.map_map] at hnames
  exact hnames

/-- The states that a store comes to by calls one after the other, with the number of
attempts so far. In a quiet history nobody but the ledger touches the blocks in its
log, and the log takes back what it refuses. -/
inductive History (s₀ : Store μ) (d₀ : Disk) : Store μ → Disk → Nat → Prop → Prop where
  | start : History s₀ d₀ s₀ d₀ 0 True
  | turn {s s' : Store μ} {d : Disk} {n : Nat} {quiet : Prop}
      (h : History s₀ d₀ s d n quiet) (d' : Disk) (hturned : Turned s s') :
      History s₀ d₀ s' d' n (quiet ∧ s.ledger.log.Kept d d')
  | invalid {s : Store μ} {d : Disk} {n : Nat} {quiet : Prop}
      (h : History s₀ d₀ s d n quiet) (c : Call) (hc : ¬c.Valid) :
      History s₀ d₀ (c.make s d).2.1 (c.make s d).2.2 n quiet
  | attempt {s : Store μ} {d : Disk} {n : Nat} {quiet : Prop}
      (h : History s₀ d₀ s d n quiet) (c : Call) (hc : c.Valid) :
      History s₀ d₀ (c.make s d).2.1 (c.make s d).2.2 (n + 1) (quiet ∧ c.Quiet s d)

theorem Accounted.turn {s s' : Store μ} {n : Nat} {bs : List Block}
    (h : Accounted s n bs) (hturned : Turned s s') : Accounted s' n bs := by
  refine ⟨?_, ?_, hturned.tail.trans h.tail, ?_⟩
  · rw [hturned.names_eq]
    exact h.names
  · intro m' hm'
    have hin : (m'.name, m'.acks, m'.failures) ∈ s.members.map
        (fun m => (m.name, m.acks, m.failures)) :=
      hturned.counts ▸ List.mem_map_of_mem hm'
    obtain ⟨m, hm, heq⟩ := List.mem_map.1 hin
    simp only [Prod.mk.injEq] at heq
    rw [← heq.2.1, ← heq.2.2]
    exact h.counted m hm
  · rw [hturned.poisoned, hturned.tail]
    exact h.poisoned

theorem Call.make_of_not_valid {c : Call} (h : ¬c.Valid) (s : Store μ) (d : Disk) :
    ∃ e, c.make s d = (.error (.invalid e), s, d) := by
  obtain ⟨e, he⟩ := c.prepare_of_not_valid h
  exact ⟨e, c.make_of_prepare_error he s d⟩

/-- Every history keeps the accounts, and a quiet one keeps the blocks in the log
too. -/
theorem History.accounted {s₀ s : Store μ} {d₀ d : Disk} {n : Nat} {quiet : Prop}
    {before : List Block} (hnames : NamesStay μ) (h₀ : Accounted s₀ 0 before)
    (h : History s₀ d₀ s d n quiet) :
    ∃ added, Accounted s n (before ++ added) ∧
      (s₀.ledger.log.Holds d₀ before → quiet →
        s.ledger.log.Holds d (before ++ added)) := by
  induction h with
  | start =>
    exact ⟨[], by rwa [List.append_nil], fun hholds _ => by rwa [List.append_nil]⟩
  | turn _ d' hturned ih =>
    obtain ⟨added, haccounted, hholds⟩ := ih
    refine ⟨added, haccounted.turn hturned, ?_⟩
    rintro hbefore ⟨hquiet, hkept⟩
    rw [hturned.log]
    exact hkept _ (hholds hbefore hquiet)
  | @invalid s d n quiet _ c hc ih =>
    obtain ⟨e, he⟩ := c.make_of_not_valid hc s d
    rw [he]
    exact ih
  | @attempt s d n quiet _ c hc ih =>
    obtain ⟨added, haccounted, hholds⟩ := ih
    obtain ⟨x, s', d', new, hattempts⟩ := haccounted.attempt hnames hc d
    rw [hattempts.make]
    refine ⟨added ++ new, ?_, ?_⟩
    · rw [← List.append_assoc]
      exact hattempts.accounted
    · rintro hbefore ⟨hquiet, hcall⟩
      rw [← List.append_assoc]
      exact hattempts.holds hcall (hholds hbefore hquiet)

/-! ## The counts that are shown -/

/-- What the counts say after `n` attempts over these blocks. -/
structure Balanced (s : Store μ) (n : Nat) (bs : List Block) (st : Stats) : Prop where
  totalRecords : st.totalRecords = UInt64.ofNat (bs.countP (·.succeeded))
  chainLength : st.chainLength = UInt64.ofNat bs.length
  sum : st.totalRecords + st.failedAttempts = st.chainLength
  /-- The difference is taken of numbers that allow it. -/
  noUnderflow : s.ledger.tail.succeeded ≤ s.ledger.tail.nextIndex
  exact : bs.length < UInt64.size →
    st.totalRecords.toNat + st.failedAttempts.toNat = bs.length ∧
    st.chainLength.toNat = bs.length
  media : ∀ m ∈ s.members, st.acks.get? m.name = some (UInt64.ofNat m.acks) ∧
    st.failures.get? m.name = some (UInt64.ofNat m.failures) ∧ m.acks + m.failures = n

theorem get?_counts {s : Store μ} (hnames : s.names.Nodup) (f : Member μ → Nat)
    {m : Member μ} (hm : m ∈ s.members) :
    (NameMap.ofList (s.members.map fun m => (m.name, UInt64.ofNat (f m)))).get? m.name =
      some (UInt64.ofNat (f m)) := by
  have hfst : (s.members.map fun m => (m.name, UInt64.ofNat (f m))).map (·.1) =
      s.names := by
    rw [List.map_map]
    rfl
  have hnodup := hfst ▸ hnames
  rw [NameMap.get?_ofList hnodup, NameMap.lookup_eq_some_iff_mem hnodup]
  exact List.mem_map_of_mem hm

theorem Accounted.stats {s : Store μ} {n : Nat} {bs : List Block}
    (h : Accounted s n bs) :
    (s.stats = .error (.ledger .poisoned) ∧ s.ledger.tail.lastStamp.succ? = none) ∨
      ∃ st, s.stats = .ok st ∧ Balanced s n bs st := by
  cases hsane : s.ledger.poisoned with
  | true =>
    refine .inl ⟨?_, h.poisoned hsane⟩
    rw [Store.stats, Ledger.tail?, if_pos hsane]
  | false =>
    have htail : s.ledger.tail? = .ok s.ledger.tail := by
      rw [Ledger.tail?, if_neg (by rw [hsane]; exact Bool.false_ne_true)]
    have hle : s.ledger.tail.succeeded ≤ s.ledger.tail.nextIndex := by
      rw [h.tail]
      exact Tail.succeeded_le bs
    have hcount : s.ledger.tail.succeeded = bs.countP (·.succeeded) := by
      rw [h.tail, Tail.succeeded_ofBlocks]
    have hlength : s.ledger.tail.nextIndex = bs.length := by
      rw [h.tail, Tail.nextIndex_ofBlocks]
    rw [Store.stats, htail]
    refine .inr ⟨_, rfl, by rw [hcount], by rw [hlength], ?_, hle, ?_, ?_⟩
    · rw [← UInt64.ofNat_add]
      congr 1
      omega
    · intro hsize
      simp only [UInt64.toNat_ofNat']
      rw [UInt64.size] at hsize
      omega
    · intro m hm
      exact ⟨get?_counts h.names Member.acks hm, get?_counts h.names Member.failures hm,
        h.counted m hm⟩

/-! ## The accounts after every history -/

/-- All accounts after `n` attempts, and what a further call does to them. If nobody
else touches the blocks and the log takes back what it refuses, the log has the
blocks that the tail counts. -/
structure AllAccounts (s : Store μ) (d : Disk) (n : Nat) (bs : List Block)
    (quiet : Prop) : Prop where
  accounted : Accounted s n bs
  /-- The counts can be shown unless the ledger broke down for want of a timestamp,
  and they balance. -/
  stats : (s.stats = .error (.ledger .poisoned) ∧
    s.ledger.tail.lastStamp.succ? = none) ∨
    ∃ st, s.stats = .ok st ∧ Balanced s n bs st
  log : quiet → s.ledger.log.Shows d bs
  invalid : ∀ c : Call, ¬c.Valid → ∃ e, c.make s d = (.error (.invalid e), s, d)
  valid : ∀ c : Call, c.Valid → ∃ x s' d' new, c.Attempts s d n bs x s' d' new ∧
    (quiet → c.Quiet s d → s'.ledger.log.Shows d' (bs ++ new))

/-- A store was built over a ledger that was opened over some log, and has made any
calls since. Then its accounts agree. A further call is refused for its type or key
and changes nothing, or it is counted once by every medium and ends with one block
that says what the media did, with none because the ledger refused it, or with none
because the ledger broke down. -/
theorem every_call_is_accounted_for {setup : Setup μ} {log : Ledger.BlockLog}
    {faults : Ledger.Faults} {s₀ s : Store μ} {d₀ d : Disk} {n : Nat} {quiet : Prop}
    (hnames : NamesStay μ) (hopen : Ledger.openOver log faults d₀ = .ok setup.ledger)
    (hbuild : setup.build = .ok s₀) (hhistory : History s₀ d₀ s d n quiet) :
    ∃ before added, s₀.ledger.tail = Tail.ofBlocks before ∧
      AllAccounts s d n (before ++ added)
        (log.Live d₀ ∧ log.leftover d₀ = [] ∧ faults.extraLength = 0 ∧ quiet) := by
  obtain ⟨hdistinct, hfresh, hledger⟩ := Setup.build_eq_ok hbuild
  obtain ⟨before, hread, hopened⟩ := Ledger.openOver_eq_ok hopen
  rw [← hledger] at hopened
  have hstart : Accounted s₀ 0 before := by
    refine ⟨hdistinct, ?_, by rw [hopened], ?_⟩
    · intro m hm
      rw [(hfresh m hm).1, (hfresh m hm).2]
    · rw [hopened]
      intro hpoisoned
      cases hpoisoned
  obtain ⟨added, haccounted, hholds⟩ := hhistory.accounted hnames hstart
  have hlog : log.Live d₀ ∧ log.leftover d₀ = [] ∧ faults.extraLength = 0 ∧ quiet →
      s.ledger.log.Holds d (before ++ added) := by
    rintro ⟨hlive, hclean, hexact, hquiet⟩
    refine hholds ?_ hquiet
    rw [hopened]
    exact Ledger.holds_of_readLog hlive hclean hexact hread
  refine ⟨before, added, by rw [hopened], haccounted, haccounted.stats,
    fun hquiet => (hlog hquiet).shows,
    fun c hc => c.make_of_not_valid hc s d, fun c hc => ?_⟩
  obtain ⟨x, s', d', new, hattempts⟩ := haccounted.attempt hnames hc d
  exact ⟨x, s', d', new, hattempts,
    fun hquiet hcall => (hattempts.holds hcall (hlog hquiet)).shows⟩

/-- The ledger refuses blocks from now on. -/
def refuseBlocks (s : Store Medium) : Store Medium :=
  { s with ledger := { s.ledger
    with faults := { s.ledger.faults with append := true } } }

theorem valid_storeByte (b : UInt8) : (storeByte b).Valid :=
  ⟨show Record.checkKind "note" = .ok () by rfl,
    show Record.checkKey "k" = .ok () by rfl⟩

/-- With two media, of which one refuses the second call, and a ledger that refuses
the last one. -/
theorem every_call_is_accounted_for_mixed :
    let setup : Setup Medium :=
      { media := [.rehearsal { inner := { name := "a" } },
        .rehearsal { inner := { name := "b" } }]
        timeoutMs := 1000, maxParallel := 4 }
    let first := ((storeByte 1).make twoMedia {}).2.1
    let second := ((storeByte 2).make firstRefuses {}).2.1
    let last := ((storeByte 3).make (refuseBlocks second) {}).2.1
    setup.build = .ok twoMedia ∧ Turned first firstRefuses ∧
      Turned second (refuseBlocks second) ∧
      ∃ quiet, History twoMedia {} last {} 3 quiet ∧ quiet ∧
        ∃ before added, Accounted last 3 (before ++ added) ∧
        last.ledger.log.Shows {} (before ++ added) := by
  intro setup first second last
  have hbuild : setup.build = .ok twoMedia := rfl
  have hfirst : Turned first firstRefuses := ⟨rfl, rfl, rfl, rfl⟩
  have hsecond : Turned second (refuseBlocks second) := ⟨rfl, rfl, rfl, rfl⟩
  have hopen : Ledger.openOver (.memory []) {} {} = .ok setup.ledger := rfl
  have hstart : History twoMedia {} twoMedia {} 0 True := .start
  have hhistory : History twoMedia {} last {} 3 _ :=
    (((hstart.attempt (storeByte 1) (valid_storeByte 1)).turn {} hfirst).attempt
      (storeByte 2)
      (valid_storeByte 2) |>.turn {} hsecond).attempt (storeByte 3) (valid_storeByte 3)
  obtain ⟨before, added, _, haccounts⟩ :=
    every_call_is_accounted_for namesStay_medium hopen hbuild hhistory
  have hkept : first.ledger.log.Kept {} {} := Ledger.BlockLog.kept_memory rfl {} {}
  have hkept' : second.ledger.log.Kept {} {} := Ledger.BlockLog.kept_memory rfl {} {}
  have hquiet := And.intro (And.intro (And.intro (And.intro (And.intro trivial
    (Call.quiet_memory (c := storeByte 1) (s := twoMedia) rfl {})) hkept)
    (Call.quiet_memory (c := storeByte 2) (s := firstRefuses) rfl {})) hkept')
    (Call.quiet_memory (c := storeByte 3) (s := refuseBlocks second) rfl {})
  exact ⟨hbuild, hfirst, hsecond, _, hhistory, hquiet, before, added,
    haccounts.accounted, haccounts.log ⟨.memory [] {}, rfl, rfl, hquiet⟩⟩

end Store

end Chronicle
