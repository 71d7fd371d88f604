import Mathlib.Data.List.Chain
import Mathlib.Order.Defs.PartialOrder
import Chronicle.Proofs.Ledger.Run

/-!
# When blocks were made

A block is stamped with what the clock reads if that is later than the stamp of the
block before, and with the direct successor of that stamp if not. So stamps increase
whatever the clock does: it may stand still, go back, or read a time before 1970.
There is one stamp without a successor. Whoever has to stamp a block after that one
breaks down with the tail in hand, and from then on nobody gets at it.

* `Timestamp.covBy_of_succ?`, `Timestamp.nextAfter_eq_none_iff`: the order of
  timestamps has no gaps, and one end.
* `Call.make_cases`: what a call to append does to the tail.
* `Story.tail_eq`, `Story.increasing`: the tail and the stamps after any calls and
  openings.
* `locked_of_poisoned`: what is left of a ledger when somebody broke down with its
  tail.
-/

namespace Chronicle

/-! ## The order of timestamps -/

namespace Timestamp

/-- The timestamp after which there is none. -/
def greatest : Timestamp := ⟨0xFFFFFFFFFFFFFFFF, 0xFFFFFFFF⟩

theorem lt_trans {s t u : Timestamp} (hst : s < t) (htu : t < u) : s < u := by
  rw [lt_iff_toNat] at *
  omega

instance :
    Trans (fun s t : Timestamp => s < t) (fun s t : Timestamp => s < t)
      (fun s t : Timestamp => s < t) :=
  ⟨lt_trans⟩

/-- The successor has the next count, or the next reading if there is no next count. -/
theorem toNat_of_succ? {t u : Timestamp} (h : t.succ? = some u) :
    (u.unixMs.toNat = t.unixMs.toNat ∧ u.logical.toNat = t.logical.toNat + 1) ∨
      (t.logical.toNat + 1 = UInt32.size ∧ u.unixMs.toNat = t.unixMs.toNat + 1 ∧
        u.logical.toNat = 0) := by
  have hlogical : t.logical.toNat < UInt32.size := t.logical.toNat_lt_size
  unfold succ? at h
  split at h
  · next hroom =>
    cases h
    left
    refine ⟨rfl, ?_⟩
    show (t.logical + 1).toNat = _
    rw [UInt32.toNat_add]
    exact Nat.mod_eq_of_lt hroom
  · split at h
    · next hfull hroom =>
      cases h
      right
      refine ⟨by omega, ?_, rfl⟩
      show (t.unixMs + 1).toNat = _
      rw [UInt64.toNat_add]
      exact Nat.mod_eq_of_lt hroom
    · cases h

/-- There is no timestamp between one and its successor. -/
theorem covBy_of_succ? {t u : Timestamp} (h : t.succ? = some u) : t ⋖ u := by
  refine ⟨lt_of_succ? h, ?_⟩
  intro v htv hvu
  have hv : v.logical.toNat < UInt32.size := v.logical.toNat_lt_size
  rw [lt_iff_toNat] at htv hvu
  rcases toNat_of_succ? h with ⟨hms, hlogical⟩ | ⟨hfull, hms, hlogical⟩ <;> omega

theorem succ?_eq_none_iff (t : Timestamp) : t.succ? = none ↔ t = greatest := by
  have hms : t.unixMs.toNat < UInt64.size := t.unixMs.toNat_lt_size
  have hlogical : t.logical.toNat < UInt32.size := t.logical.toNat_lt_size
  have hgreatest : greatest.unixMs.toNat + 1 = UInt64.size ∧
      greatest.logical.toNat + 1 = UInt32.size :=
    ⟨rfl, rfl⟩
  rw [eq_iff_toNat, succ?]
  constructor
  · intro h
    split at h
    · cases h
    · split at h
      · cases h
      · omega
  · intro h
    rw [if_neg (by omega), if_neg (by omega)]

/-- No stamp is left only after the greatest one, if the clock is not ahead of it. -/
theorem nextAfter_eq_none_iff (now previous : Timestamp) :
    nextAfter now previous = none ↔ previous = greatest ∧ ¬ previous < now := by
  unfold nextAfter
  split
  · next hahead => simp [hahead]
  · next hbehind => simp [hbehind, succ?_eq_none_iff]

/-- `stamp` is for an event after the one stamped `previous` when the clock reads
`now`. -/
structure IsNext (now previous stamp : Timestamp) : Prop where
  later : previous < stamp
  ahead : previous < now → stamp = now
  behind : ¬ previous < now → previous ⋖ stamp

theorem isNext_of_nextAfter {now previous stamp : Timestamp}
    (h : nextAfter now previous = some stamp) :
    IsNext now previous stamp := by
  refine ⟨lt_of_nextAfter h, fun hahead => ?_, fun hbehind => ?_⟩
  · rw [nextAfter, if_pos hahead] at h
    exact (Option.some.inj h).symm
  · rw [nextAfter, if_neg hbehind] at h
    exact covBy_of_succ? h

end Timestamp

namespace Ledger

/-! ## Calls to append -/

/-- A call to append and the circumstances in which it is made. -/
structure Call where
  /-- What the clock reads, in milliseconds since 1970. -/
  clock : Int
  payload : Digest
  /-- What the caller takes for a success. -/
  succeeded : Bool
  acks : UInt32
  /-- The log is cut off from appends. -/
  detached : Bool
  /-- The mishaps ahead. -/
  plan : List (Option Nat)
  /-- The limit of the disk. -/
  limit : Option Nat

namespace Call

/-- The stamp of what the clock reads. -/
def now (c : Call) : Timestamp := Timestamp.ofClock c.clock

/-- The attempt of a caller who goes by the acknowledgements. -/
def attempt (c : Call) : Attempt :=
  ⟨c.now, c.payload, c.acks, c.detached, c.plan, c.limit⟩

/-- Makes the call. -/
def make (c : Call) (l : Ledger) (d : Disk) :
    Except (Failure Error) Block × Ledger × Disk :=
  (c.attempt.ledger l).append c.now c.payload c.succeeded c.acks (c.attempt.disk d)

/-- The caller counts the attempt a success exactly if there is an acknowledgement. -/
def Consistent (c : Call) : Prop := c.succeeded = decide (1 ≤ c.acks)

theorem make_of_consistent {c : Call} (h : c.Consistent) (l : Ledger) (d : Disk) :
    c.make l d = c.attempt.make l d := by
  rw [make, h]
  rfl

end Call

/-- The stamp of the last block, the zero stamp if there is none. -/
def lastStamp (bs : List Block) : Timestamp :=
  (bs.getLast?.map (·.stamp)).getD Timestamp.zero

theorem lastStamp_ofBlocks (bs : List Block) :
    (Tail.ofBlocks bs).lastStamp = lastStamp bs :=
  (Tail.describes_ofBlocks bs).lastStamp

/-- The same directories and files with the same contents. -/
def SameFiles (d d' : Disk) : Prop := d'.entries = d.entries ∧ d'.contents = d.contents

/-- The log does not take the block, and gives the error. -/
def Call.RefusedBy (c : Call) (l : Ledger) (d : Disk) (b : Block) (e : Error) : Prop :=
  (c.detached = true ∧ e = Ledger.detached) ∨
    (l.log.append b (c.attempt.disk d)).1 = .error e

/-- All that a call can come to: what it answers, and the ledger and the disk after
it. -/
inductive Call.Outcome (c : Call) (l : Ledger) (d : Disk) :
    Except (Failure Error) Block → Ledger → Disk → Prop where
  /-- The caller breaks down before it gets at the tail. -/
  | inconsistent (hcontradicts : ¬ c.Consistent) :
      Outcome c l d (.error .breakdown) (c.attempt.ledger l) (c.attempt.disk d)
  /-- Somebody broke down before. -/
  | locked (hconsistent : c.Consistent) (hpoisoned : l.poisoned = true) :
      Outcome c l d (.error (.error .poisoned)) (c.attempt.ledger l) (c.attempt.disk d)
  /-- There is no stamp left. -/
  | exhausted (hconsistent : c.Consistent) (hsane : l.poisoned = false)
      (hnone : Timestamp.nextAfter c.now l.tail.lastStamp = none) :
      Outcome c l d (.error .breakdown) { c.attempt.ledger l with poisoned := true }
        (c.attempt.disk d)
  /-- The log does not take the block. -/
  | refused {b : Block} {e : Error} {log : BlockLog} {d' : Disk}
      (hconsistent : c.Consistent) (hsane : l.poisoned = false)
      (hstamp : Timestamp.nextAfter c.now l.tail.lastStamp = some b.stamp)
      (hrefused : c.RefusedBy l d b e)
      (hlog : (log = l.log ∧ d' = c.attempt.disk d) ∨
        l.log.append b (c.attempt.disk d) = (.error e, log, d')) :
      Outcome c l d (.error (.error e)) { c.attempt.ledger l with log } d'
  /-- The block is added. -/
  | accepted {b : Block} {log : BlockLog} {d' : Disk} (hconsistent : c.Consistent)
      (hsane : l.poisoned = false)
      (hstamp : Timestamp.nextAfter c.now l.tail.lastStamp = some b.stamp)
      (happend : l.log.append b (c.attempt.disk d) = (.ok (), log, d')) :
      Outcome c l d (.ok b) { c.attempt.ledger l with log, tail := l.tail.push b } d'

theorem stamp_of_nextBlock? {t : Tail} {now : Timestamp} {payload : Digest}
    {acks : UInt32} {b : Block} (h : nextBlock? t now payload acks = some b) :
    Timestamp.nextAfter now t.lastStamp = some b.stamp := by
  obtain ⟨stamp, hstamp, rfl⟩ := Option.map_eq_some_iff.1 h
  exact hstamp

theorem Call.outcome {c : Call} {l l' : Ledger} {d d' : Disk}
    {r : Except (Failure Error) Block} (h : c.make l d = (r, l', d')) :
    c.Outcome l d r l' d' := by
  rw [Call.make, append] at h
  split at h
  · next hcontradicts =>
    cases h
    exact .inconsistent hcontradicts
  · next hconsistent =>
    have hconsistent : c.Consistent := Classical.not_not.1 hconsistent
    split at h
    · next hpoisoned =>
      cases h
      exact .locked hconsistent hpoisoned
    · next hsane =>
      have hsane : l.poisoned = false := Bool.not_eq_true _ ▸ hsane
      split at h
      · next hnone =>
        cases h
        exact .exhausted hconsistent hsane (Option.map_eq_none_iff.1 hnone)
      · next b hb =>
        have hstamp := stamp_of_nextBlock? hb
        split at h
        · next hcut =>
          cases h
          exact .refused hconsistent hsane hstamp (.inl ⟨hcut, rfl⟩) (.inl ⟨rfl, rfl⟩)
        · split at h
          · next e log d₁ ha =>
            cases h
            refine .refused hconsistent hsane hstamp (.inr ?_) (.inr ha)
            show ((c.attempt.ledger l).log.append b (c.attempt.disk d)).1 = .error e
            rw [ha]
          · next log d₁ ha =>
            cases h
            exact .accepted hconsistent hsane hstamp ha

/-! ## Calls and openings -/

/-- The ledger was opened over a log, and these blocks were read. -/
def OpenedOver (l : Ledger) (d : Disk) (bs : List Block) : Prop :=
  ∃ log faults, openOver log faults d = .ok l ∧
    readLog log faults 0 (reportedLength log faults) d = .ok bs

theorem OpenedOver.fresh {l : Ledger} {d : Disk} {bs : List Block}
    (h : l.OpenedOver d bs) :
    l.tail = Tail.ofBlocks bs ∧ l.poisoned = false := by
  obtain ⟨log, faults, hopen, hread⟩ := h
  rw [openOver, hread] at hopen
  simp only at hopen
  split at hopen
  · cases hopen
  · cases hopen
    exact ⟨rfl, rfl⟩

/-- A ledger was opened over a log with the blocks `before`, and then any calls were
made, of which those accepted have added `added`. In between it may have been opened
anew over a log that has all these blocks. -/
inductive Story (before : List Block) : List Block → Ledger → Disk → Prop where
  | opened {l : Ledger} {d : Disk} (h : l.OpenedOver d before) : Story before [] l d
  | reopened {added : List Block} {l l' : Ledger} {d d' : Disk}
      (hstory : Story before added l d) (h : l'.OpenedOver d' (before ++ added)) :
      Story before added l' d'
  | accepted {added : List Block} {l l' : Ledger} {d d' : Disk} {b : Block}
      (hstory : Story before added l d) (c : Call) (h : c.make l d = (.ok b, l', d')) :
      Story before (added ++ [b]) l' d'
  | failed {added : List Block} {l l' : Ledger} {d d' : Disk} {f : Failure Error}
      (hstory : Story before added l d) (c : Call)
      (h : c.make l d = (.error f, l', d')) : Story before added l' d'

variable {before added : List Block} {l : Ledger} {d : Disk}

/-- The tail is that of the blocks, and it was lost only if no stamp is left after
them. -/
theorem Story.tail_eq (h : Story before added l d) :
    l.tail = Tail.ofBlocks (before ++ added) ∧
      (l.poisoned = true → lastStamp (before ++ added) = Timestamp.greatest) := by
  induction h with
  | opened h =>
    obtain ⟨htail, hsane⟩ := h.fresh
    simp [htail, hsane]
  | reopened _ h _ =>
    obtain ⟨htail, hsane⟩ := h.fresh
    simp [htail, hsane]
  | @accepted added l l' d d' b _ c h ih =>
    obtain ⟨htail, _⟩ := ih
    cases Call.outcome h with
    | accepted _ hsane _ _ =>
      refine ⟨?_, fun hp => ?_⟩
      · show l.tail.push b = _
        rw [htail, ← List.append_assoc, Tail.ofBlocks_append]
      · rw [show l.poisoned = true from hp] at hsane
        cases hsane
  | @failed added l l' d d' f _ c h ih =>
    obtain ⟨htail, hlost⟩ := ih
    cases Call.outcome h with
    | inconsistent _ => exact ⟨htail, hlost⟩
    | locked _ _ => exact ⟨htail, hlost⟩
    | exhausted _ _ hnone =>
      refine ⟨htail, fun _ => ?_⟩
      rw [htail, lastStamp_ofBlocks] at hnone
      exact ((Timestamp.nextAfter_eq_none_iff _ _).1 hnone).1
    | refused _ _ _ _ _ => exact ⟨htail, hlost⟩

theorem Story.lastStamp_eq (h : Story before added l d) :
    l.tail.lastStamp = lastStamp (before ++ added) := by
  rw [h.tail_eq.1, lastStamp_ofBlocks]

theorem getLast?_stamps (before added : List Block) :
    (lastStamp before :: added.map (·.stamp)).getLast? =
      some (lastStamp (before ++ added)) := by
  rw [List.getLast?_cons, List.getLast?_map, lastStamp, lastStamp, List.getLast?_append]
  cases added.getLast? <;> rfl

/-- Every added block is stamped later than the one before it. -/
theorem Story.increasing (h : Story before added l d) :
    (lastStamp before :: added.map (·.stamp)).IsChain (· < ·) := by
  induction h with
  | opened _ => simp
  | reopened _ _ ih => exact ih
  | @accepted added l l' d d' b hstory c h ih =>
    cases Call.outcome h with
    | accepted _ _ hstamp _ =>
      rw [hstory.lastStamp_eq] at hstamp
      rw [List.map_append, ← List.cons_append, List.isChain_append]
      refine ⟨ih, by simp, ?_⟩
      intro x hx y hy
      rw [getLast?_stamps] at hx
      cases hx
      cases hy
      exact Timestamp.lt_of_nextAfter hstamp
  | failed _ _ _ ih => exact ih

/-! ## Ledgers whose tail is lost -/

/-- Calls made one after the other, whatever becomes of them. -/
inductive Calls (l : Ledger) (d : Disk) : Ledger → Disk → Prop where
  | start : Calls l d l d
  | call {l' l'' : Ledger} {d' d'' : Disk} {r : Except (Failure Error) Block}
      (h : Calls l d l' d') (c : Call)
      (hmake : c.make l' d' = (r, l'', d'')) : Calls l d l'' d''

/-- Everybody who asks for the tail is told that it is poisoned. -/
structure TellsNothing (l : Ledger) (d : Disk) : Prop where
  append : ∀ c : Call, c.Consistent → (c.make l d).1 = .error (.error .poisoned)
  verify : l.verify d = .error .poisoned
  length : l.length = .error .poisoned
  head : l.head = .error .poisoned
  succeeded : l.succeeded = .error .poisoned
  counts : l.tail? = .error .poisoned
  block : ∀ index, l.block? index d = .error .poisoned
  blocks : ∀ start stop, l.blocks start stop d = .error .poisoned

theorem tellsNothing_of_poisoned (h : l.poisoned = true) (d : Disk) :
    l.TellsNothing d := by
  have htail : l.tail? = .error .poisoned := by rw [tail?, if_pos h]
  refine ⟨?_, ?_, ?_, ?_, ?_, htail, ?_, ?_⟩
  · intro c hconsistent
    cases hmake : c.make l d with
    | mk r rest =>
      obtain ⟨l', d'⟩ := rest
      cases Call.outcome hmake with
      | inconsistent hcontradicts => exact absurd hconsistent hcontradicts
      | locked _ _ => rfl
      | exhausted _ hsane _ => rw [h] at hsane; cases hsane
      | refused _ hsane _ _ _ => rw [h] at hsane; cases hsane
      | accepted _ hsane _ _ => rw [h] at hsane; cases hsane
  · rw [verify, htail]
  · rw [length, htail]; rfl
  · rw [head, htail]; rfl
  · rw [succeeded, htail]; rfl
  · intro index
    rw [block?, htail]
  · intro start stop
    rw [blocks, htail]

/-- Whatever calls follow, nothing is told of the chain any more, and the log stays
as it is. -/
def Locked (l : Ledger) (d : Disk) : Prop :=
  ∀ l' d', Calls l d l' d' → l'.TellsNothing d' ∧ l'.log = l.log ∧ SameFiles d d'

theorem Calls.of_poisoned {l' : Ledger} {d' : Disk} (hp : l.poisoned = true)
    (h : Calls l d l' d') :
    l'.poisoned = true ∧ l'.log = l.log ∧ SameFiles d d' := by
  induction h with
  | start => exact ⟨hp, rfl, rfl, rfl⟩
  | @call l' l'' d' d'' r _ c hmake ih =>
    obtain ⟨hp', hlog, hfiles⟩ := ih
    cases Call.outcome hmake with
    | inconsistent _ => exact ⟨hp', hlog, hfiles⟩
    | locked _ _ => exact ⟨hp', hlog, hfiles⟩
    | exhausted _ hsane _ => rw [hp'] at hsane; cases hsane
    | refused _ hsane _ _ _ => rw [hp'] at hsane; cases hsane
    | accepted _ hsane _ _ => rw [hp'] at hsane; cases hsane

theorem locked_of_poisoned (h : l.poisoned = true) (d : Disk) : l.Locked d := by
  intro l' d' hcalls
  obtain ⟨hp, hlog, hfiles⟩ := hcalls.of_poisoned h
  exact ⟨tellsNothing_of_poisoned hp d', hlog, hfiles⟩

/-! ## The next call -/

/-- A caller who contradicts itself breaks down and changes nothing. -/
theorem Call.make_of_inconsistent {c : Call} (h : ¬ c.Consistent) (l : Ledger)
    (d : Disk) :
    c.make l d = (.error .breakdown, c.attempt.ledger l, c.attempt.disk d) := by
  rw [Call.make, append]
  exact if_pos h

/-- Without a stamp left the call breaks down with the tail in hand. -/
theorem Call.make_of_exhausted {c : Call} (hconsistent : c.Consistent)
    (hsane : l.poisoned = false)
    (hnone : Timestamp.nextAfter c.now l.tail.lastStamp = none) :
    c.make l d = (.error .breakdown, { c.attempt.ledger l with poisoned := true },
        c.attempt.disk d) := by
  cases hmake : c.make l d with
  | mk r rest =>
    obtain ⟨l', d'⟩ := rest
    cases Call.outcome hmake with
    | inconsistent hcontradicts => exact absurd hconsistent hcontradicts
    | locked _ hp => rw [hsane] at hp; cases hp
    | exhausted _ _ _ => rfl
    | refused _ _ hstamp _ _ => rw [hnone] at hstamp; cases hstamp
    | accepted _ _ hstamp _ => rw [hnone] at hstamp; cases hstamp

/-- With a stamp left there is a block that bears it, and it is for the log to take
it or not. -/
theorem Call.make_of_stamp {c : Call} {stamp : Timestamp} (hconsistent : c.Consistent)
    (hsane : l.poisoned = false)
    (hstamp : Timestamp.nextAfter c.now l.tail.lastStamp = some stamp) :
    ∃ b : Block, b.stamp = stamp ∧
      ((c.make l d).1 = .ok b ∨ ∃ e, (c.make l d).1 = .error (.error e) ∧
        c.RefusedBy l d b e) := by
  cases hmake : c.make l d with
  | mk r rest =>
    obtain ⟨l', d'⟩ := rest
    cases Call.outcome hmake with
    | inconsistent hcontradicts => exact absurd hconsistent hcontradicts
    | locked _ hp => rw [hsane] at hp; cases hp
    | exhausted _ _ hnone => rw [hnone] at hstamp; cases hstamp
    | @refused b e _ _ _ _ hb hrefused _ =>
      rw [hb] at hstamp
      exact ⟨b, Option.some.inj hstamp, .inr ⟨e, rfl, hrefused⟩⟩
    | @accepted b _ _ _ _ hb _ =>
      rw [hb] at hstamp
      exact ⟨b, Option.some.inj hstamp, .inl rfl⟩

/-- Whatever the clock reads at the calls, and however often the ledger is opened
anew, the blocks that are added are stamped later and later, beginning after the last
block that was there before. The block of a call bears what the clock reads if that
is later than the stamp before, and otherwise the stamp directly after that one;
nobody but the log can refuse it. Only after the greatest stamp of all, with the
clock not ahead of it, the call breaks down and adds nothing. Then the ledger is
locked: every later call for the tail is refused, and the log does not change any
more. -/
theorem stamps_increase_whatever_the_clock_reads (h : Story before added l d) :
    (lastStamp before :: added.map (·.stamp)).Pairwise (· < ·) ∧
    (l.poisoned = true → l.Locked d) ∧
    ∀ c : Call,
      (¬ c.Consistent → ∃ l' d', c.make l d = (.error .breakdown, l', d') ∧
        l'.log = l.log ∧ l'.tail = l.tail ∧
        l'.poisoned = l.poisoned ∧ SameFiles d d') ∧
      (c.Consistent → l.poisoned = false →
        (lastStamp (before ++ added) = Timestamp.greatest ∧
          ¬ lastStamp (before ++ added) < c.now →
          ∃ l' d', c.make l d = (.error .breakdown, l', d') ∧ l'.log = l.log ∧
          SameFiles d d' ∧ l'.Locked d') ∧
        (¬ (lastStamp (before ++ added) = Timestamp.greatest ∧
          ¬ lastStamp (before ++ added) < c.now) →
          ∃ b : Block, Timestamp.IsNext c.now (lastStamp (before ++ added)) b.stamp ∧
            ((c.make l d).1 = .ok b ∨ ∃ e, (c.make l d).1 = .error (.error e) ∧
              c.RefusedBy l d b e))) := by
  refine ⟨List.isChain_iff_pairwise.1 h.increasing,
    fun hp => locked_of_poisoned hp d, ?_⟩
  intro c
  refine ⟨fun hcontradicts =>
    ⟨_, _, c.make_of_inconsistent hcontradicts l d, rfl, rfl, rfl, rfl, rfl⟩, ?_⟩
  intro hconsistent hsane
  rw [← h.lastStamp_eq, ← Timestamp.nextAfter_eq_none_iff]
  refine ⟨fun hnone => ?_, fun hleft => ?_⟩
  · exact ⟨_, _, c.make_of_exhausted hconsistent hsane hnone, rfl, ⟨rfl, rfl⟩,
      locked_of_poisoned rfl _⟩
  · obtain ⟨stamp, hstamp⟩ := Option.ne_none_iff_exists'.1 hleft
    obtain ⟨b, rfl, hmade⟩ := c.make_of_stamp hconsistent hsane hstamp
    exact ⟨b, Timestamp.isNext_of_nextAfter hstamp, hmade⟩

/-- Two blocks are added to an empty ledger, the second when the clock was set back
to before 1970, and then the ledger is opened anew. And a ledger whose only block
bears the greatest stamp is locked by the next call. -/
theorem stamps_increase_whatever_the_clock_reads_setBack :
    (∃ (b c : Block) (l : Ledger), b.stamp = ⟨7, 0⟩ ∧ c.stamp = ⟨7, 1⟩ ∧
        Story [] [b, c] l {} ∧
      [Timestamp.zero, b.stamp, c.stamp].Pairwise (· < ·)) ∧
    ∃ (b : Block) (l l' : Ledger) (d' : Disk) (c : Call), b.stamp = Timestamp.greatest ∧
    Story [b] [] l {} ∧
      c.make l {} = (.error .breakdown, l', d') ∧ l'.Locked d' := by
  let call (clock : Int) : Call := ⟨clock, Digest.zero, true, 1, false, [], none⟩
  constructor
  · let b := Block.sealed 0 Digest.zero Digest.zero ⟨7, 0⟩ 1
    let c := Block.sealed 1 b.hash Digest.zero ⟨7, 1⟩ 1
    have hopen : inMemory.OpenedOver {} [] := ⟨.memory [], {}, rfl, rfl⟩
    have hfirst := (Story.opened hopen).accepted (call 7) (b := b) rfl
    have hsecond := hfirst.accepted (call (-3)) (b := c) rfl
    have hagain : (⟨.memory [b, c], {}, Tail.ofBlocks [b, c], false⟩ :
        Ledger).OpenedOver {} [b, c] :=
      ⟨.memory [b, c], {}, rfl, rfl⟩
    have hstory := hsecond.reopened hagain
    exact ⟨b, c, _, rfl, rfl, hstory,
      (stamps_increase_whatever_the_clock_reads hstory).1⟩
  · let b := Block.sealed 0 Digest.zero Digest.zero Timestamp.greatest 1
    have hopen : (⟨.memory [b], {}, Tail.ofBlocks [b], false⟩ : Ledger).OpenedOver {}
        [b] :=
      ⟨.memory [b], {}, rfl, rfl⟩
    have hstory := Story.opened hopen
    obtain ⟨_, _, hnext⟩ := stamps_increase_whatever_the_clock_reads hstory
    obtain ⟨hlast, _⟩ := (hnext (call 5)).2 rfl rfl
    obtain ⟨l', d', hmake, _, _, hlocked⟩ := hlast ⟨rfl, by decide⟩
    exact ⟨b, _, l', d', call 5, rfl, hstory, hmake, hlocked⟩

end Ledger

end Chronicle
