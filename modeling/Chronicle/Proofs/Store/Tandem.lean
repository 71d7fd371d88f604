import Mathlib.Data.List.Forall2
import Chronicle.Proofs.Store.Accounting

/-!
# Stores in tandem

Two stores have the same media, but for one of them, and are given the same calls at
the same times. What the media do not feel of each other is found by following both:
what is alike before a call is alike after it.

Media share one disk. That they do not meet there is supposed of them: each medium
has a part of the disk to itself.

* `Apart`: how media share a disk.
* `Apart.dispatch_at`: what becomes of one medium when a record is handed to all.
* `Twins.dispatch`, `SameBook.append`: what stays alike when both stores hand out a
  record and enter the attempt.
* `Tandem.alike`: what is alike after any number of calls.
* `Tandem.exchange`: the one medium can become another one at any time.
-/

namespace Chronicle

/-- Both blocks are about the same attempt: only their acknowledgements and hashes
may be different. -/
structure Block.SameEntry (b c : Block) : Prop where
  index : b.index = c.index
  payload : b.payload = c.payload
  stamp : b.stamp = c.stamp

/-! ## Two ledgers -/

namespace Ledger

/-- Ledgers over blocks of the same attempts. -/
structure SameBook (l : Ledger) (d : Disk) (l' : Ledger) (e : Disk)
    (bs cs : List Block) : Prop where
  entries : List.Forall₂ Block.SameEntry bs cs
  holds : l.log.Holds d bs ∧ l'.log.Holds e cs
  nextIndex : l.tail.nextIndex = l'.tail.nextIndex
  lastStamp : l.tail.lastStamp = l'.tail.lastStamp
  poisoned : l.poisoned = l'.poisoned
  faults : l.faults = l'.faults

/-- What two ledgers answer: blocks of the same attempt, or the same failure. -/
inductive SameEnd :
    Except (Failure Error) Block → Except (Failure Error) Block → Prop where
  | taken {b c : Block} (h : b.SameEntry c) : SameEnd (.ok b) (.ok c)
  | refused (f : Failure Error) : SameEnd (.error f) (.error f)

/-- The logs answer alike if both are given a block of the same attempt, and take
back what they refuse. -/
structure LogsAnswerAlike (log : BlockLog) (d : Disk) (log' : BlockLog)
    (e : Disk) : Prop where
  alike : ∀ b c, b.SameEntry c → (log.append b d).1 = (log'.append c e).1
  rollsBack : ∀ b, log.RollsBack b d ∧ log'.RollsBack b e

variable {l l' : Ledger} {d e : Disk} {bs cs : List Block}

/-- The next blocks are about the same attempt, whatever the acknowledgements were. -/
theorem SameBook.nextBlock? (h : SameBook l d l' e bs cs) (now : Timestamp)
    (payload : Digest) (acks acks' : UInt32) :
    (nextBlock? l.tail now payload acks = none ∧
        nextBlock? l'.tail now payload acks' = none) ∨
      ∃ b c, nextBlock? l.tail now payload acks = some b ∧
      nextBlock? l'.tail now payload acks' = some c ∧
        b.SameEntry c := by
  rw [Ledger.nextBlock?, Ledger.nextBlock?, h.lastStamp, h.nextIndex]
  cases Timestamp.nextAfter now l'.tail.lastStamp with
  | none => exact .inl ⟨rfl, rfl⟩
  | some stamp => exact .inr ⟨_, _, rfl, rfl, rfl, rfl, rfl⟩

/-- An attempt that is entered in both ledgers ends alike, whatever the
acknowledgements were. -/
theorem SameBook.append (h : SameBook l d l' e bs cs)
    (hlogs : LogsAnswerAlike l.log d l'.log e) (now : Timestamp) (payload : Digest)
    (acks acks' : UInt32) :
    ∃ a k d' a' k' e' new new',
      l.append now payload (decide (1 ≤ acks)) acks d = (a, k, d') ∧
      l'.append now payload (decide (1 ≤ acks')) acks' e = (a', k', e') ∧ SameEnd a a' ∧
      SameBook k d' k' e' (bs ++ new) (cs ++ new') := by
  rw [Ledger.append, Ledger.append, if_neg (not_not_intro rfl),
    if_neg (not_not_intro rfl), h.poisoned]
  have hsame : SameBook l d l' e (bs ++ []) (cs ++ []) := by
    rwa [List.append_nil, List.append_nil]
  by_cases hpoisoned : l'.poisoned = true
  · rw [if_pos hpoisoned, if_pos hpoisoned]
    exact ⟨_, _, _, _, _, _, [], [], rfl, rfl, .refused _, hsame⟩
  · rw [if_neg hpoisoned, if_neg hpoisoned]
    rcases h.nextBlock? now payload acks acks' with ⟨hnone, hnone'⟩ |
      ⟨b, c, hb, hc, hentry⟩
    · rw [hnone, hnone']
      exact ⟨_, _, _, _, _, _, [], [], rfl, rfl, .refused _,
        ⟨hsame.entries, hsame.holds, h.nextIndex, h.lastStamp, rfl, h.faults⟩⟩
    · rw [hb, hc, h.faults]
      simp only
      by_cases hfault : l'.faults.append = true
      · rw [if_pos hfault, if_pos hfault]
        exact ⟨_, _, _, _, _, _, [], [], rfl, rfl, .refused _, hsame⟩
      · rw [if_neg hfault, if_neg hfault]
        have halike := hlogs.alike b c hentry
        cases happend : l.log.append b d with
        | mk x rest =>
          obtain ⟨log, d'⟩ := rest
          cases happend' : l'.log.append c e with
          | mk y rest =>
            obtain ⟨log', e'⟩ := rest
            rw [happend, happend'] at halike
            cases halike
            cases x with
            | ok u =>
              refine ⟨_, _, _, _, _, _, [b], [c], rfl, rfl, .taken hentry, ?_, ?_, ?_,
                hentry.stamp, rfl, rfl⟩
              · exact List.rel_append h.entries (.cons hentry .nil)
              · exact ⟨(h.holds.1.append_ok happend).2,
                  (h.holds.2.append_ok happend').2⟩
              · exact congrArg (· + 1) h.nextIndex
            | error f =>
              obtain ⟨rfl, hholds⟩ :=
                h.holds.1.append_error (hlogs.rollsBack b).1 happend
              obtain ⟨rfl, hholds'⟩ :=
                h.holds.2.append_error (hlogs.rollsBack c).2 happend'
              refine ⟨_, _, _, _, _, _, [], [], rfl, rfl, .refused _,
                ⟨hsame.entries, ?_, h.nextIndex, h.lastStamp, rfl, rfl⟩⟩
              rw [List.append_nil, List.append_nil]
              exact ⟨hholds, hholds'⟩

end Ledger

namespace Store

open Medium (Adapter Answer)

variable {μ : Type} [Adapter μ]

/-! ## Media on one disk -/

/-- How media share a disk. With `At k m d` the medium `m` is at work on the `k`-th
part of the disk `d`, and with `Same k d e` nothing on that part tells the disks
apart. A medium sees its own part alone and changes nothing else. -/
structure Apart (At : Nat → μ → Disk → Prop)
    (Same : Nat → Disk → Disk → Prop) : Prop where
  same : ∀ k, Equivalence (Same k)
  write : ∀ {k : Nat} {m : μ} {d e : Disk} (r : Record), At k m d →
    At k m e → Same k d e →
    (Adapter.write m r d).1 = (Adapter.write m r e).1 ∧
    (Adapter.write m r d).2.1 = (Adapter.write m r e).2.1 ∧
      Same k (Adapter.write m r d).2.2 (Adapter.write m r e).2.2
  read : ∀ {k : Nat} {m : μ} {d e : Disk} (key : String), At k m d →
    At k m e → Same k d e →
    (Adapter.read m key d).1 = (Adapter.read m key e).1
  own : ∀ {k : Nat} {m : μ} {d : Disk} (r : Record), At k m d →
    At k (Adapter.write m r d).2.1 (Adapter.write m r d).2.2
  others : ∀ {k l : Nat} {m : μ} {d : Disk} (r : Record), At k m d → l ≠ k →
    Same l d (Adapter.write m r d).2.2 ∧ ∀ m', At l m' d →
    At l m' (Adapter.write m r d).2.2

variable {At : Nat → μ → Disk → Prop} {Same : Nat → Disk → Disk → Prop} {k l : Nat}
    {m : Member μ} {d e : Disk}

omit [Adapter μ] in
@[simp] theorem Member.medium_count (m : Member μ) (o : Outcome) :
    (m.count o).medium = m.medium := by
  rw [count]
  split <;> rfl

/-- A member cannot tell the disks apart. -/
theorem Apart.write_member (h : Apart At Same) (slots : Nat) (r : Record)
    (hd : At k m.medium d) (he : At k m.medium e) (hsame : Same k d e) :
    (m.write slots r d).1 = (m.write slots r e).1 ∧
      (m.write slots r d).2.1 = (m.write slots r e).2.1 ∧
      Same k (m.write slots r d).2.2 (m.write slots r e).2.2 := by
  obtain ⟨hanswer, hmedium, hafter⟩ := h.write r hd he hsame
  rw [Member.write, Member.write, Member.call, Member.call]
  by_cases hslot : slots ≤ m.held
  · rw [if_pos hslot, if_pos hslot]
    exact ⟨rfl, rfl, hsame⟩
  · rw [if_neg hslot, if_neg hslot]
    generalize Adapter.write m.medium r d = x at hanswer hmedium hafter
    generalize Adapter.write m.medium r e = y at hanswer hmedium hafter
    obtain ⟨a, medium, d'⟩ := x
    obtain ⟨b, medium', e'⟩ := y
    cases hanswer
    cases hmedium
    cases a <;> exact ⟨rfl, rfl, hafter⟩

omit [Adapter μ] in
theorem Member.fst_call {α : Type} (slots : Nat) (m : Member μ)
    (run : μ → Disk → Answer α × μ × Disk) (d : Disk) :
    (m.call slots run d).1 = if slots ≤ m.held then .unanswered
      else (run m.medium d).1 := by
  rw [call]
  split
  · rfl
  · generalize run m.medium d = x
    obtain ⟨a, medium, d'⟩ := x
    cases a <;> rfl

theorem Apart.read_member (h : Apart At Same) (slots : Nat) (key : String)
    (hd : At k m.medium d) (he : At k m.medium e) (hsame : Same k d e) :
    (m.read slots key d).1 = (m.read slots key e).1 := by
  rw [Member.read, Member.read, Member.fst_call, Member.fst_call,
    h.read key hd he hsame]

/-- A member is at work on its part after a write as well. -/
theorem Apart.own_member (h : Apart At Same) (slots : Nat) (r : Record)
    (hd : At k m.medium d) :
    At k (m.write slots r d).2.1.medium (m.write slots r d).2.2 := by
  rw [Member.write]
  rcases m.call_cases slots (fun medium d => Adapter.write medium r d) d with hcall |
    ⟨held, hcall⟩ <;> simp only [hcall, Member.medium_count]
  · exact hd
  · exact h.own r hd

/-- What a member writes stays on its part. -/
theorem Apart.others_member (h : Apart At Same) (slots : Nat) (r : Record)
    (hd : At k m.medium d) (hl : l ≠ k) :
    Same l d (m.write slots r d).2.2 ∧ ∀ m', At l m' d →
      At l m' (m.write slots r d).2.2 := by
  rw [Member.write]
  rcases m.call_cases slots (fun medium d => Adapter.write medium r d) d with hcall |
    ⟨held, hcall⟩ <;> simp only [hcall]
  · exact ⟨(h.same l).refl d, fun _ h => h⟩
  · exact h.others r hd hl

/-- The members are at work on the parts from the `n`-th on. -/
def Placed (At : Nat → μ → Disk → Prop) (n : Nat) (ms : List (Member μ))
    (d : Disk) : Prop :=
  ∀ k m, ms[k]? = some m → At (n + k) m.medium d

variable {n : Nat} {ms : List (Member μ)}

/-- When the first member has got the record, the others are still in their places. -/
theorem Apart.placed_tail (h : Apart At Same) (slots : Nat) (r : Record)
    (hplaced : Placed At n (m :: ms) d) :
    At n m.medium d ∧ Placed At (n + 1) ms (m.write slots r d).2.2 := by
  have hfirst : At n m.medium d := hplaced 0 m rfl
  refine ⟨hfirst, ?_⟩
  intro k m' hm'
  have hat := hplaced (k + 1) m' hm'
  rw [show n + (k + 1) = n + 1 + k by omega] at hat
  exact (h.others_member slots r hfirst (by omega)).2 _ hat

/-- What members write stays on their parts. -/
theorem Apart.dispatch_others (h : Apart At Same) (slots : Nat) (r : Record)
    (hplaced : Placed At n ms d) (hl : l < n ∨ n + ms.length ≤ l) :
    Same l d (dispatch slots r ms d).2.2 ∧ ∀ m', At l m' d →
      At l m' (dispatch slots r ms d).2.2 := by
  induction ms generalizing n d with
  | nil => exact ⟨(h.same l).refl d, fun _ h => h⟩
  | cons m ms ih =>
    obtain ⟨hfirst, hrest⟩ := h.placed_tail slots r hplaced
    rw [List.length_cons] at hl
    obtain ⟨hsame, hat⟩ := h.others_member slots r hfirst (show l ≠ n by omega)
    obtain ⟨hsame', hat'⟩ := ih hrest (by omega)
    exact ⟨(h.same l).trans hsame hsame', fun m' hm' => hat' m' (hat m' hm')⟩

/-- What becomes of one member when a record is handed to all: it is written on a
disk `e` where its part is as it was, and after that its part stays as it is. -/
theorem Apart.dispatch_at (h : Apart At Same) (slots : Nat) (r : Record)
    (hplaced : Placed At n ms d) (hm : ms[k]? = some m) :
    ∃ e, Same (n + k) d e ∧ At (n + k) m.medium e ∧
      (dispatch slots r ms d).1[k]? =
        some ((m.write slots r e).2.1.name, (m.write slots r e).1) ∧
      (dispatch slots r ms d).2.1[k]? = some (m.write slots r e).2.1 ∧
      Same (n + k) (m.write slots r e).2.2 (dispatch slots r ms d).2.2 ∧
      At (n + k) (m.write slots r e).2.1.medium (dispatch slots r ms d).2.2 := by
  induction ms generalizing n k d with
  | nil => cases hm
  | cons first ms ih =>
    obtain ⟨hfirst, hrest⟩ := h.placed_tail slots r hplaced
    cases k with
    | zero =>
      cases hm
      obtain ⟨hsame, hat⟩ := h.dispatch_others slots r hrest (.inl (Nat.lt_succ_self n))
      exact ⟨d, (h.same n).refl d, hfirst, rfl, rfl, hsame,
        hat _ (h.own_member slots r hfirst)⟩
    | succ k =>
      obtain ⟨hsame, _⟩ :=
        h.others_member slots r hfirst (show n + (k + 1) ≠ n by omega)
      obtain ⟨e, hbefore, hrest⟩ := ih hrest hm
      rw [show n + 1 + k = n + (k + 1) by omega] at hbefore hrest
      exact ⟨e, (h.same _).trans hsame hbefore, hrest⟩

/-! ## Two stores -/

/-- Stores that have the same media in the same places, but for the `i`-th one, of
which only the name is the same. -/
structure Twins (At : Nat → μ → Disk → Prop) (Same : Nat → Disk → Disk → Prop) (i : Nat)
    (s : Store μ) (d : Disk) (t : Store μ) (e : Disk) : Prop where
  slots : s.slots = t.slots
  names : s.names = t.names
  distinct : s.names.Nodup
  members : ∀ k ≠ i, s.members[k]? = t.members[k]?
  parts : ∀ k ≠ i, Same k d e
  placed : Placed At 0 s.members d ∧ Placed At 0 t.members e

variable {i : Nat} {s t : Store μ}

theorem Apart.placed_dispatch (h : Apart At Same) (slots : Nat) (r : Record)
    (hplaced : Placed At 0 ms d) :
    Placed At 0 (dispatch slots r ms d).2.1 (dispatch slots r ms d).2.2 := by
  intro k m' hm'
  have hk : k < ms.length := by
    rw [← (length_dispatch slots r ms d).2]
    exact (List.getElem?_eq_some_iff.1 hm').1
  obtain ⟨e, _, _, _, hmember, _, hat⟩ :=
    h.dispatch_at slots r hplaced (List.getElem?_eq_getElem hk)
  rw [hmember] at hm'
  cases hm'
  exact hat

/-- A record that is handed out in both stores leaves them alike, and every other
medium has the same outcome. -/
theorem Twins.dispatch (h : Twins At Same i s d t e) (hapart : Apart At Same)
    (hnames : NamesStay μ) (r : Record) :
    Twins At Same i { s with members := (dispatch s.slots r s.members d).2.1 }
      (dispatch s.slots r s.members d).2.2
        { t with members := (dispatch t.slots r t.members e).2.1 }
          (dispatch t.slots r t.members e).2.2 ∧
      (dispatch s.slots r s.members d).1.map (·.1) = s.names ∧
      (dispatch t.slots r t.members e).1.map (·.1) = s.names ∧
      ∀ k ≠ i, (dispatch s.slots r s.members d).1[k]? =
        (dispatch t.slots r t.members e).1[k]? := by
  have hs := dispatched_dispatch hnames s.slots r s.members d
  have ht := dispatched_dispatch hnames t.slots r t.members e
  -- Each of the other members is written on disks that it cannot tell apart.
  have hothers : ∀ k ≠ i, (Store.dispatch s.slots r s.members d).1[k]? =
      (Store.dispatch t.slots r t.members e).1[k]? ∧
      (Store.dispatch s.slots r s.members d).2.1[k]? =
        (Store.dispatch t.slots r t.members e).2.1[k]? ∧
      Same k (Store.dispatch s.slots r s.members d).2.2
        (Store.dispatch t.slots r t.members e).2.2 := by
    intro k hk
    have hsame := h.members k hk
    have heq := hapart.same k
    cases hm : s.members[k]? with
    | none =>
      rw [hm] at hsame
      have hout := List.getElem?_eq_none_iff.1 hm
      have hout' := List.getElem?_eq_none_iff.1 hsame.symm
      have hd :=
        (hapart.dispatch_others (l := k) s.slots r h.placed.1
          (.inr (by rwa [Nat.zero_add]))).1
      have he :=
        (hapart.dispatch_others (l := k) t.slots r h.placed.2
          (.inr (by rwa [Nat.zero_add]))).1
      refine ⟨?_, ?_, heq.trans (heq.symm hd) (heq.trans (h.parts k hk) he)⟩
      · rw [List.getElem?_eq_none (hs.length_outcomes ▸ hout),
          List.getElem?_eq_none (ht.length_outcomes ▸ hout')]
      · rw [List.getElem?_eq_none (hs.length ▸ hout),
          List.getElem?_eq_none (ht.length ▸ hout')]
    | some m =>
      rw [hm] at hsame
      obtain ⟨d₁, hd₁, hat, houtcome, hmember, hd₂, _⟩ :=
        hapart.dispatch_at s.slots r h.placed.1 hm
      obtain ⟨e₁, he₁, hat', houtcome', hmember', he₂, _⟩ :=
        hapart.dispatch_at t.slots r h.placed.2 hsame.symm
      rw [Nat.zero_add] at hd₁ hat hd₂ he₁ hat' he₂
      obtain ⟨ho, hm', hafter⟩ := hapart.write_member s.slots r hat hat'
        (heq.trans (heq.symm hd₁) (heq.trans (h.parts k hk) he₁))
      rw [houtcome, houtcome', hmember, hmember', ← h.slots, ho, hm']
      exact ⟨rfl, rfl, heq.trans (heq.symm hd₂) (heq.trans hafter (h.slots ▸ he₂))⟩
  refine ⟨⟨h.slots, ?_, ?_, fun k hk => (hothers k hk).2.1,
    fun k hk => (hothers k hk).2.2,
    hapart.placed_dispatch _ r h.placed.1, hapart.placed_dispatch _ r h.placed.2⟩,
    hs.names, ht.names.trans h.names.symm, fun k hk => (hothers k hk).1⟩
  · show (Store.dispatch s.slots r s.members d).2.1.map Member.name =
      (Store.dispatch t.slots r t.members e).2.1.map Member.name
    rw [hs.names_eq, ht.names_eq]
    exact h.names
  · show ((Store.dispatch s.slots r s.members d).2.1.map Member.name).Nodup
    rw [hs.names_eq]
    exact h.distinct

theorem Twins.of_disk {d' e' : Disk} (h : Twins At Same i s d t e)
    (hapart : Apart At Same) (hd : ∀ k, Same k d d' ∧ ∀ m, At k m d → At k m d')
    (he : ∀ k, Same k e e' ∧ ∀ m, At k m e → At k m e') :
    Twins At Same i s d' t e' where
  slots := h.slots
  names := h.names
  distinct := h.distinct
  members := h.members
  parts k hk := (hapart.same k).trans ((hapart.same k).symm (hd k).1)
    ((hapart.same k).trans (h.parts k hk) (he k).1)
  placed := ⟨fun k m hm => (hd _).2 _ (h.placed.1 k m hm),
    fun k m hm => (he _).2 _ (h.placed.2 k m hm)⟩

/-! ## What callers are told -/

/-- The receipt of an attempt that is in the ledger, whether some medium took the
record or none. -/
def receipt? : Except Error Receipt → Option Receipt
  | .ok x => some x
  | .error (.noBackendAvailable x) => some x
  | .error _ => none

/-- Receipts of the same attempt that say the same about every medium but the `i`-th. -/
structure SameReceipt (names : List String) (i : Nat) (x y : Receipt) : Prop where
  key : x.key = y.key
  signature : x.signature = y.signature
  stamp : x.stamp = y.stamp
  blockIndex : x.blockIndex = y.blockIndex
  outcomes : ∀ k ≠ i, ∀ name, names[k]? = some name →
    ∃ o, x.outcomes.get? name = some o ∧ y.outcomes.get? name = some o
  acked : ∀ k ≠ i, ∀ name, names[k]? = some name →
    (name ∈ x.acked.names ↔ name ∈ y.acked.names)

/-- Both calls were refused for the same reason, or both were entered in the ledger. -/
inductive SameAnswer (names : List String) (i : Nat) :
    Except Error Receipt → Except Error Receipt → Prop where
  | refused (e : Error) : SameAnswer names i (.error e) (.error e)
  | entered {x y : Except Error Receipt} {a b : Receipt} (hx : receipt? x = some a)
      (hy : receipt? y = some b) (h : SameReceipt names i a b) : SameAnswer names i x y

variable {names : List String} {os os' : List (String × Outcome)} {r : Record}

theorem sameReceipt {b c : Block} (hdistinct : names.Nodup) (hos : os.map (·.1) = names)
    (hos' : os'.map (·.1) = names) (hsame : ∀ k ≠ i, os[k]? = os'[k]?)
    (hentry : b.SameEntry c) :
    SameReceipt names i (receipt r os b) (receipt r os' c) := by
  have hreports :=
    reports_receipt (r := r) b (show (os.map (·.1)).Nodup from hos ▸ hdistinct)
  have hreports' :=
    reports_receipt (r := r) c (show (os'.map (·.1)).Nodup from hos' ▸ hdistinct)
  have houtcomes : ∀ k ≠ i, ∀ name, names[k]? = some name →
      ∃ o, (receipt r os b).outcomes.get? name = some o ∧
      (receipt r os' c).outcomes.get? name = some o := by
    intro k hk name hname
    rw [← hos, List.getElem?_map] at hname
    obtain ⟨⟨_, o⟩, ho, rfl⟩ := Option.map_eq_some_iff.1 hname
    exact ⟨o, (hreports.outcome _ o).2 (List.mem_of_getElem? ho),
      (hreports'.outcome _ o).2 (List.mem_of_getElem? (hsame k hk ▸ ho))⟩
  refine ⟨rfl, rfl, rfl, hentry.index, houtcomes, ?_⟩
  intro k hk name hname
  obtain ⟨o, ho, ho'⟩ := houtcomes k hk name hname
  rw [hreports.acked, hreports'.acked, ho, ho']

theorem sameAnswer {a a' : Except (Failure Ledger.Error) Block}
    (hdistinct : names.Nodup) (hos : os.map (·.1) = names)
    (hos' : os'.map (·.1) = names) (hsame : ∀ k ≠ i, os[k]? = os'[k]?)
    (hend : Ledger.SameEnd a a') :
    SameAnswer names i (answerOf r os a) (answerOf r os' a') := by
  have hreceipt (os : List (String × Outcome)) (b : Block) :
      receipt? (answerOf r os (.ok b)) = some (receipt r os b) := by
    rw [answerOf]
    split <;> rfl
  cases hend with
  | taken hentry =>
    exact .entered (hreceipt os _) (hreceipt os' _)
      (sameReceipt hdistinct hos hos' hsame hentry)
  | refused f => cases f <;> exact .refused _

/-! ## Runs in tandem -/

/-- The media leave the logs alone and the ledgers leave the media alone, and both
logs answer alike. -/
structure Call.Undisturbed (At : Nat → μ → Disk → Prop)
    (Same : Nat → Disk → Disk → Prop) (c : Call) (s : Store μ) (d : Disk) (t : Store μ)
    (e : Disk) : Prop where
  kept : s.ledger.log.Kept d (c.handOut s d).2.2 ∧
    t.ledger.log.Kept e (c.handOut t e).2.2
  alike : Ledger.LogsAnswerAlike s.ledger.log (c.handOut s d).2.2 t.ledger.log
    (c.handOut t e).2.2
  media : (∀ k, Same k (c.handOut s d).2.2 (c.make s d).2.2 ∧
      ∀ m, At k m (c.handOut s d).2.2 → At k m (c.make s d).2.2) ∧
    ∀ k, Same k (c.handOut t e).2.2 (c.make t e).2.2 ∧ ∀ m, At k m (c.handOut t e).2.2 →
    At k m (c.make t e).2.2

/-- Two stores that are given the same calls at the same times, and what they answer.
At first only the `i`-th medium is different. Between the calls it may change in any
way in both stores, and the others in the same way in both. -/
inductive Tandem (At : Nat → μ → Disk → Prop) (Same : Nat → Disk → Disk → Prop)
    (i : Nat) :
    Store μ → Disk → Store μ → Disk → List (Except Error Receipt) →
      List (Except Error Receipt) → Prop where
  | start {s t : Store μ} {d e : Disk} {bs : List Block} (h : Twins At Same i s d t e)
      (hledger : t.ledger = s.ledger)
      (hholds : s.ledger.log.Holds d bs ∧ t.ledger.log.Holds e bs) :
      Tandem At Same i s d t e [] []
  | call {s t : Store μ} {d e : Disk} {xs ys : List (Except Error Receipt)}
      (h : Tandem At Same i s d t e xs ys) (c : Call)
      (hc : c.Valid → c.Undisturbed At Same s d t e) :
      Tandem At Same i (c.make s d).2.1 (c.make s d).2.2 (c.make t e).2.1
        (c.make t e).2.2 (xs ++ [(c.make s d).1]) (ys ++ [(c.make t e).1])
  | turn {s t s' t' : Store μ} {d e d' e' : Disk} {xs ys : List (Except Error Receipt)}
      (h : Tandem At Same i s d t e xs ys) (hs : Turned s s') (ht : Turned t t')
      (htwins : Twins At Same i s' d' t' e')
      (hfaults : s'.ledger.faults = t'.ledger.faults)
      (hkept : s.ledger.log.Kept d d' ∧ t.ledger.log.Kept e e') :
      Tandem At Same i s' d' t' e' xs ys

open Ledger (SameBook)

variable {bs cs : List Block} {xs ys : List (Except Error Receipt)}

theorem Call.names_make (hnames : NamesStay μ) (c : Call) (s : Store μ) (d : Disk) :
    (c.make s d).2.1.names = s.names := by
  by_cases hc : c.Valid
  · cases henter : c.enter s d with
    | mk a rest =>
      rw [c.make_of_enter hc henter]
      exact (dispatched_dispatch hnames s.slots c.record s.members d).names_eq
  · obtain ⟨x, hx⟩ := c.prepare_of_not_valid hc
    rw [c.make_of_prepare_error hx]

theorem Call.slots_make (c : Call) (s : Store μ) (d : Disk) :
    (c.make s d).2.1.slots = s.slots := by
  by_cases hc : c.Valid
  · cases henter : c.enter s d with
    | mk a rest => rw [c.make_of_enter hc henter]
  · obtain ⟨x, hx⟩ := c.prepare_of_not_valid hc
    rw [c.make_of_prepare_error hx]

/-- One call on both stores. -/
theorem Twins.call {c : Call} (h : Twins At Same i s d t e)
    (hbook : SameBook s.ledger d t.ledger e bs cs) (hapart : Apart At Same)
    (hnames : NamesStay μ) (hc : c.Valid → c.Undisturbed At Same s d t e) :
    ∃ new new', Twins At Same i (c.make s d).2.1 (c.make s d).2.2 (c.make t e).2.1
      (c.make t e).2.2 ∧
      SameBook (c.make s d).2.1.ledger (c.make s d).2.2 (c.make t e).2.1.ledger
        (c.make t e).2.2 (bs ++ new) (cs ++ new') ∧
      SameAnswer s.names i (c.make s d).1 (c.make t e).1 := by
  by_cases hvalid : c.Valid
  · obtain ⟨hkept, halike, hmedia⟩ := hc hvalid
    obtain ⟨htwins, hos, hos', hsame⟩ := h.dispatch hapart hnames c.record
    have hmoved : SameBook s.ledger (c.handOut s d).2.2 t.ledger
        (c.handOut t e).2.2 bs cs :=
      ⟨hbook.entries, ⟨hkept.1 bs hbook.holds.1, hkept.2 cs hbook.holds.2⟩,
        hbook.nextIndex, hbook.lastStamp, hbook.poisoned, hbook.faults⟩
    obtain ⟨a, l, d', a', l', e', new, new', henter, henter', hend, hafter⟩ :=
      hmoved.append halike c.entered
      c.record.signature (ackWord (c.handOut s d).1) (ackWord (c.handOut t e).1)
    rw [c.make_of_enter hvalid henter, c.make_of_enter hvalid henter'] at hmedia ⊢
    have hfinal := htwins.of_disk hapart hmedia.1 hmedia.2
    exact ⟨new, new', ⟨hfinal.slots, hfinal.names, hfinal.distinct, hfinal.members,
      hfinal.parts, hfinal.placed⟩, hafter, sameAnswer h.distinct hos hos' hsame hend⟩
  · obtain ⟨x, hx⟩ := c.prepare_of_not_valid hvalid
    rw [c.make_of_prepare_error hx, c.make_of_prepare_error hx]
    exact ⟨[], [], h, by rwa [List.append_nil, List.append_nil], .refused _⟩

/-- What is alike after any number of calls. -/
theorem Tandem.alike (h : Tandem At Same i s d t e xs ys) (hapart : Apart At Same)
    (hnames : NamesStay μ) :
    Twins At Same i s d t e ∧ List.Forall₂ (SameAnswer s.names i) xs ys ∧
      ∃ bs cs, SameBook s.ledger d t.ledger e bs cs := by
  induction h with
  | @start s t d e bs h hledger hholds =>
    refine ⟨h, .nil, bs, bs, ?_, hholds, ?_, ?_, ?_, ?_⟩
    · exact List.forall₂_same.2 fun b _ => ⟨rfl, rfl, rfl⟩
    all_goals rw [hledger]
  | call _ c hc ih =>
    obtain ⟨htwins, hanswers, bs, cs, hbook⟩ := ih
    obtain ⟨new, new', htwins', hbook', hanswer⟩ := htwins.call hbook hapart hnames hc
    refine ⟨htwins', ?_, _, _, hbook'⟩
    rw [Call.names_make hnames]
    exact List.rel_append hanswers (.cons hanswer .nil)
  | @turn s t s' t' d e d' e' xs ys _ hs ht htwins hfaults hkept ih =>
    obtain ⟨_, hanswers, bs, cs, hbook⟩ := ih
    refine ⟨htwins, hs.names_eq ▸ hanswers, bs, cs, hbook.entries, ?_, ?_,
      ?_, ?_, hfaults⟩
    · rw [hs.log, ht.log]
      exact ⟨hkept.1 bs hbook.holds.1, hkept.2 cs hbook.holds.2⟩
    · rw [hs.tail, ht.tail, hbook.nextIndex]
    · rw [hs.tail, ht.tail, hbook.lastStamp]
    · rw [hs.poisoned, ht.poisoned, hbook.poisoned]

/-- Any store runs in tandem with itself. -/
theorem twins_self (hapart : Apart At Same) (hdistinct : s.names.Nodup)
    (hplaced : Placed At 0 s.members d) : Twins At Same i s d s d :=
  ⟨rfl, rfl, hdistinct, fun _ _ => rfl, fun k _ => (hapart.same k).refl d,
    hplaced, hplaced⟩

/-- The store with another medium in the `i`-th place. -/
def exchange (s : Store μ) (i : Nat) (m : Member μ) : Store μ :=
  { s with members := s.members.set i m }

omit [Adapter μ] in
theorem members_exchange (s : Store μ) (i : Nat) (m : Member μ) :
    (s.exchange i m).members = s.members.set i m :=
  rfl

/-- At any time the `i`-th medium of one store can become another one of its name. -/
theorem Tandem.exchange {m : Member μ} (h : Tandem At Same i s d t e xs ys)
    (hapart : Apart At Same) (hnames : NamesStay μ) (hm : t.members[i]? = some m)
    (m' : Member μ)
    (hsame : (m'.name, m'.acks, m'.failures) = (m.name, m.acks, m.failures))
    (hat : At i m'.medium e) :
    Tandem At Same i s d (t.exchange i m') e xs ys := by
  obtain ⟨htwins, _, _, _, hbook⟩ := h.alike hapart hnames
  have hturned : Turned t (t.exchange i m') := by
    refine ⟨?_, rfl, rfl, rfl⟩
    obtain ⟨hi, rfl⟩ := List.getElem?_eq_some_iff.1 hm
    rw [members_exchange, List.map_set, hsame]
    conv => rhs; rw [← List.set_getElem_self hi, List.map_set]
  refine h.turn ⟨rfl, rfl, rfl, rfl⟩ hturned ?_ hbook.faults
    ⟨fun _ h => h, fun _ h => h⟩
  refine ⟨htwins.slots, htwins.names.trans hturned.names_eq.symm, htwins.distinct,
    ?_, htwins.parts, htwins.placed.1, ?_⟩
  · intro k hk
    rw [members_exchange, List.getElem?_set_ne (Ne.symm hk)]
    exact htwins.members k hk
  · intro k m₁ hm₁
    rw [members_exchange] at hm₁
    by_cases hk : i = k
    · subst hk
      rw [List.getElem?_set_self (List.getElem?_eq_some_iff.1 hm).1] at hm₁
      cases hm₁
      rwa [Nat.zero_add]
    · rw [List.getElem?_set_ne hk] at hm₁
      exact htwins.placed.2 k m₁ hm₁

end Store

end Chronicle
