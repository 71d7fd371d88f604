import Mathlib.Data.List.Nodup
import Chronicle.Proofs.Store.Accounting

/-!
# Calls that overlap

Any number of calls are on their way in one store. The media answer them in any order
or not in time, each call is entered in the ledger when all its answers are there,
and callers may go away without waiting. The ledger takes one block after the other,
so there is one chain whatever the order of all this was.

* `Step`: what may happen next, to any of the calls.
* `Booked`: which call has which block.
* `Chained.step`: nothing that may happen next breaks the chain or the books.
* `overlapping_calls_form_one_chain`: when all calls have ended, calls and new blocks
  are in bijection.
-/

namespace Chronicle.Store

open Medium (Adapter Answer)

variable {μ : Type} [Adapter μ]

/-! ## Calls on their way -/

/-- What the medium itself says to a write, if there is a slot for it. -/
def Member.reply (slots : Nat) (m : Member μ) (r : Record) (d : Disk) :
    Option (Answer Unit) :=
  if m.held < slots then some (Adapter.write m.medium r d).1 else none

theorem Member.write_acked_iff_reply (slots : Nat) (m : Member μ) (r : Record)
    (d : Disk) :
    (m.write slots r d).1 = .acked ↔ m.reply slots r d = some (.done ()) := by
  rw [write_acked_iff, reply]
  split <;> simp [*]

/-- Who made the call: somebody who waits, went away, or was told what it came to. -/
inductive Caller where
  | waiting
  | gone
  | told (x : Except Error Receipt)

/-- A valid call on its way. Answers and replies are in the order of the media. -/
structure Flight where
  call : Call
  /-- What the store has heard of each medium, `none` where it still waits. -/
  answers : List (Option Outcome)
  /-- What each medium has said, `none` where it had no slot or did not say anything
  in time. -/
  replies : List (Option (Answer Unit))
  /-- What the call came to when it was entered in the ledger. -/
  ended : Option (Except Error Receipt) := none
  caller : Caller := .waiting

namespace Flight

/-- The number of media that took the record of this call: they had a slot for it and
said that it is done. -/
def acked (f : Flight) : Nat := f.replies.countP (· == some (.done ()))

/-- An answer counts as an acknowledgement exactly if the medium said that it is
done. -/
def Tallied (f : Flight) : Prop :=
  f.answers.map (· == some .acked) = f.replies.map (· == some (.done ()))

theorem Tallied.acked {f : Flight} (h : f.Tallied) :
    f.acked = f.answers.countP (· == some .acked) := by
  have hcount := congrArg (List.countP id) h
  rw [List.countP_map, List.countP_map] at hcount
  exact hcount.symm

theorem Tallied.answer {f : Flight} (h : f.Tallied) (j : Nat) {o : Outcome}
    {reply : Option (Answer Unit)} (ho : o = .acked ↔ reply = some (.done ())) :
    ({ f with answers := f.answers.set j (some o), replies := f.replies.set j reply } :
        Flight).Tallied := by
  have hsame : (some o == some .acked) = (reply == some (.done ())) := by
    rw [Bool.eq_iff_iff, beq_iff_eq, beq_iff_eq, Option.some_inj]
    exact ho
  show (f.answers.set j (some o)).map _ = (f.replies.set j reply).map _
  rw [List.map_set, List.map_set, h, hsame]

/-- The attempt is over, and so is the wait for it. -/
def Finished (f : Flight) : Prop := f.ended.isSome = true ∧ f.caller ≠ .waiting

/-- All answers are there, and these are they under the names of the media. -/
structure Heard (f : Flight) (names : List String)
    (outcomes : List (String × Outcome)) : Prop where
  names : outcomes.map (·.1) = names
  answers : outcomes.map (fun o => some o.2) = f.answers

theorem Heard.acked {f : Flight} {names : List String}
    {outcomes : List (String × Outcome)} (h : f.Heard names outcomes)
    (htallied : f.Tallied) : f.acked = ackCount outcomes := by
  rw [htallied.acked, ← h.answers, List.countP_map, ackCount]
  rfl

theorem Heard.length {f : Flight} {names : List String}
    {outcomes : List (String × Outcome)} (h : f.Heard names outcomes) :
    f.answers.length = outcomes.length := by
  rw [← h.answers, List.length_map]

/-- Once all answers are there, no medium has one to give. -/
theorem Heard.not_open {f : Flight} {names : List String}
    {outcomes : List (String × Outcome)} (h : f.Heard names outcomes) (j : Nat) :
    f.answers[j]? ≠ some none := by
  intro hopen
  rw [← h.answers, List.getElem?_map, Option.map_eq_some_iff] at hopen
  obtain ⟨o, _, ho⟩ := hopen
  cases ho

/-- The block says what the call did, and the call came to a receipt that says where
the block is. -/
structure EnteredAs (f : Flight) (names : List String) (b : Block) : Prop where
  payload : b.payload = f.call.record.signature
  acks : b.acks = UInt32.ofNat f.acked
  /-- No store has so many media that their number is cut. -/
  exact : f.answers.length < UInt32.size → b.acks.toNat = f.acked
  succeeded : b.succeeded = decide (1 ≤ b.acks)
  receipt : ∃ outcomes x, f.Heard names outcomes ∧ Reports f.call.record outcomes b x ∧
    f.ended = some (if 1 ≤ b.acks then .ok x else .error (.noBackendAvailable x))

end Flight

/-- A store, the disk, and all calls that were made, in the order in which they were
made. -/
structure Traffic (μ : Type) where
  store : Store μ
  disk : Disk
  flights : List Flight

/-- The traffic with one medium and one call changed. -/
def Traffic.put (t : Traffic μ) (j : Nat) (m : Member μ) (d : Disk) (i : Nat)
    (f : Flight) : Traffic μ :=
  ⟨{ t.store with members := t.store.members.set j m }, d, t.flights.set i f⟩

/-- What may happen next. -/
inductive Step : Traffic μ → Traffic μ → Prop where
  /-- Somebody makes a valid call. -/
  | make {t : Traffic μ} (c : Call) (hc : c.Valid) :
      Step t { t with flights := t.flights ++
        [⟨c, List.replicate t.store.members.length none,
        List.replicate t.store.members.length none, none, .waiting⟩] }
  /-- A medium answers a call, in whatever way it does. -/
  | answer {t : Traffic μ} {i j : Nat} {f : Flight} {m m' : Member μ} {o : Outcome}
      {d' : Disk} (hf : t.flights[i]? = some f) (hopen : f.answers[j]? = some none)
      (hm : t.store.members[j]? = some m)
      (hwrite : m.write t.store.slots f.call.record t.disk = (o, m', d'))
      (hkept : t.store.ledger.log.Kept t.disk d') :
      Step t (t.put j m' d' i { f with
        answers := f.answers.set j (some o)
        replies := f.replies.set j (m.reply t.store.slots f.call.record t.disk) })
  /-- The time for an answer is over. The write may still land at any time later, in
  a turn. -/
  | abandon {t : Traffic μ} {i j : Nat} {f : Flight} {m m' : Member μ}
      (hf : t.flights[i]? = some f) (hopen : f.answers[j]? = some none)
      (hm : t.store.members[j]? = some m) (hcounts : m.Counts m' .timedOut) :
      Step t (t.put j m' t.disk i { f with
        answers := f.answers.set j (some .timedOut)
        replies := f.replies.set j none })
  /-- Anything happens to the media and to the disk apart from the blocks. -/
  | turn {t : Traffic μ} {s' : Store μ} {d' : Disk}
      (hledger : s'.ledger = t.store.ledger) (hnames : s'.names = t.store.names)
      (hkept : t.store.ledger.log.Kept t.disk d') :
      Step t ⟨s', d', t.flights⟩
  /-- A call with all its answers is entered in the ledger, which does not fail. -/
  | enter {t : Traffic μ} {i : Nat} {f : Flight} {outcomes : List (String × Outcome)}
      {b : Block} {l' : Ledger} {x : Except Error Receipt} {s' : Store μ} {d' : Disk}
      (hf : t.flights[i]? = some f) (hnew : f.ended = none)
      (hheard : f.Heard t.store.names outcomes)
      (hledger : t.store.ledger.append f.call.entered f.call.record.signature
        (decide (1 ≤ ackWord outcomes)) (ackWord outcomes) t.disk = (.ok b, l', d'))
      (hsettle : t.store.settle f.call.record outcomes f.call.entered t.disk =
        (x, s', d')) :
      Step t ⟨s', d', t.flights.set i { f with ended := some x }⟩
  /-- A caller goes away, before or after the call has ended. -/
  | leave {t : Traffic μ} {i : Nat} {f : Flight} (hf : t.flights[i]? = some f)
      (hwaits : f.caller = .waiting) :
      Step t { t with flights := t.flights.set i { f with caller := .gone } }
  /-- A caller is told what the call came to. -/
  | tell {t : Traffic μ} {i : Nat} {f : Flight} {x : Except Error Receipt}
      (hf : t.flights[i]? = some f) (hwaits : f.caller = .waiting)
      (hended : f.ended = some x) :
      Step t { t with flights := t.flights.set i { f with caller := .told x } }

/-- The states that traffic comes to. -/
inductive Steps (t₀ : Traffic μ) : Traffic μ → Prop where
  | start : Steps t₀ t₀
  | step {t t' : Traffic μ} (h : Steps t₀ t) (hstep : Step t t') : Steps t₀ t'

/-! ## Which call has which block -/

/-- The books: `order` has the calls that have ended, in the order of their blocks. -/
structure Booked (names : List String) (flights : List Flight) (added : List Block)
    (order : List Nat) : Prop where
  distinct : order.Nodup
  length : order.length = added.length
  bounded : ∀ i ∈ order, i < flights.length
  ended : ∀ (i : Nat) (f : Flight), flights[i]? = some f →
    (i ∈ order ↔ f.ended.isSome = true)
  entered : ∀ (p i : Nat) (b : Block) (f : Flight), order[p]? = some i →
    added[p]? = some b →
    flights[i]? = some f → f.EnteredAs names b
  told : ∀ (i : Nat) (f : Flight) (x : Except Error Receipt), flights[i]? = some f →
    f.caller = .told x →
    f.ended = some x
  tallied : ∀ (i : Nat) (f : Flight), flights[i]? = some f → f.Tallied

variable {names : List String} {flights : List Flight} {added : List Block}
    {order : List Nat}

theorem booked_nil (names : List String) : Booked names [] [] [] where
  distinct := .nil
  length := rfl
  bounded := by simp
  ended := by simp
  entered := by simp
  told := by simp
  tallied := by simp

/-- A call that is just made has no block. -/
theorem Booked.make (h : Booked names flights added order) (f : Flight)
    (hnew : f.ended = none) (hwaits : f.caller = .waiting) (htallied : f.Tallied) :
    Booked names (flights ++ [f]) added order := by
  have hlast : ∀ {i : Nat} {g : Flight}, (flights ++ [f])[i]? = some g →
      flights[i]? = some g ∨ (i = flights.length ∧ g = f) := by
    intro i g hg
    rw [List.getElem?_append] at hg
    split at hg
    · exact .inl hg
    · next hle =>
      rw [List.getElem?_singleton] at hg
      split at hg
      · exact .inr ⟨by omega, (Option.some.inj hg).symm⟩
      · cases hg
  refine ⟨h.distinct, h.length, ?_, ?_, ?_, ?_, ?_⟩
  · intro i hi
    rw [List.length_append]
    exact Nat.lt_of_lt_of_le (h.bounded i hi) (Nat.le_add_right _ _)
  · intro i g hg
    rcases hlast hg with hg | ⟨rfl, rfl⟩
    · exact h.ended i g hg
    · rw [hnew]
      refine ⟨fun hi => absurd (h.bounded _ hi) (Nat.lt_irrefl _), ?_⟩
      intro hsome
      cases hsome
  · intro p i b g hp hb hg
    rcases hlast hg with hg | ⟨rfl, rfl⟩
    · exact h.entered p i b g hp hb hg
    · exact absurd (h.bounded _ (List.mem_of_getElem? hp)) (Nat.lt_irrefl _)
  · intro i g x hg hx
    rcases hlast hg with hg | ⟨rfl, rfl⟩
    · exact h.told i g x hg hx
    · rw [hwaits] at hx
      cases hx
  · intro i g hg
    rcases hlast hg with hg | ⟨rfl, rfl⟩
    · exact h.tallied i g hg
    · exact htallied

/-- A call may change as long as it keeps what its block speaks of: what it asked
for, what it came to, and its answers if it has ended. -/
theorem Booked.replace (h : Booked names flights added order) {i : Nat} {f f' : Flight}
    (hf : flights[i]? = some f) (hcall : f'.call = f.call) (hended : f'.ended = f.ended)
    (hanswers : f.ended.isSome = true → f'.answers = f.answers)
    (htold : ∀ x, f'.caller = .told x → f'.ended = some x) (htallied : f'.Tallied) :
    Booked names (flights.set i f') added order := by
  have hlt : i < flights.length := (List.getElem?_eq_some_iff.1 hf).1
  have hat : ∀ {k : Nat} {g : Flight}, (flights.set i f')[k]? = some g →
      (k = i ∧ g = f') ∨ flights[k]? = some g := by
    intro k g hg
    by_cases hk : i = k
    · subst hk
      rw [List.getElem?_set_self hlt] at hg
      exact .inl ⟨rfl, (Option.some.inj hg).symm⟩
    · rw [List.getElem?_set_ne hk] at hg
      exact .inr hg
  refine ⟨h.distinct, h.length, ?_, ?_, ?_, ?_, ?_⟩
  · intro k hk
    rw [List.length_set]
    exact h.bounded k hk
  · intro k g hg
    rcases hat hg with ⟨rfl, rfl⟩ | hg
    · rw [hended]
      exact h.ended _ f hf
    · exact h.ended k g hg
  · intro p k b g hp hb hg
    rcases hat hg with ⟨rfl, rfl⟩ | hg
    · -- A call with a block has ended, so its answers are the same.
      have hsome := (h.ended _ f hf).1 (List.mem_of_getElem? hp)
      have hbefore := h.entered p k b f hp hb hf
      obtain ⟨outcomes, x, hheard, hreports, hx⟩ := hbefore.receipt
      have hacked : g.acked = f.acked := by
        rw [htallied.acked, hanswers hsome, (h.tallied _ f hf).acked]
      refine ⟨by rw [hcall]; exact hbefore.payload,
        by rw [hacked]; exact hbefore.acks, ?_,
        hbefore.succeeded, outcomes, x,
        ⟨hheard.names, by rw [hanswers hsome]; exact hheard.answers⟩,
        by rw [hcall]; exact hreports, hended.trans hx⟩
      rw [hanswers hsome, hacked]
      exact hbefore.exact
    · exact h.entered p k b g hp hb hg
  · intro k g x hg hx
    rcases hat hg with ⟨rfl, rfl⟩ | hg
    · exact htold x hx
    · exact h.told k g x hg hx
  · intro k g hg
    rcases hat hg with ⟨rfl, rfl⟩ | hg
    · exact htallied
    · exact h.tallied k g hg

/-- A medium that has an answer to give has it for a call that has not ended. -/
theorem Booked.not_ended (h : Booked names flights added order) {i j : Nat} {f : Flight}
    (hf : flights[i]? = some f) (hopen : f.answers[j]? = some none) :
    f.ended.isSome = false := by
  by_cases hsome : f.ended.isSome = true
  · obtain ⟨p, hp⟩ := List.mem_iff_getElem?.1 ((h.ended i f hf).2 hsome)
    have hlt : p < added.length := h.length ▸ (List.getElem?_eq_some_iff.1 hp).1
    obtain ⟨outcomes, _, hheard, _⟩ :=
      (h.entered p i added[p] f hp (List.getElem?_eq_getElem hlt) hf).receipt
    exact absurd hopen (hheard.not_open j)
  · simpa using hsome

/-- A call that has not ended may get one more answer. -/
theorem Booked.answer (h : Booked names flights added order) {i j : Nat} {f : Flight}
    (hf : flights[i]? = some f) (hopen : f.answers[j]? = some none) {o : Outcome}
    {reply : Option (Answer Unit)} (ho : o = .acked ↔ reply = some (.done ())) :
    Booked names (flights.set i { f with
      answers := f.answers.set j (some o)
      replies := f.replies.set j reply }) added order := by
  refine h.replace hf rfl rfl ?_ (fun x hx => h.told i f x hf hx)
    ((h.tallied i f hf).answer j ho)
  rw [h.not_ended hf hopen]
  intro hfalse
  cases hfalse

/-- The call that ends now has the next block. -/
theorem Booked.enter (h : Booked names flights added order) {i : Nat} {f : Flight}
    {b : Block} {x : Except Error Receipt} (hf : flights[i]? = some f)
    (hnew : f.ended = none)
    (hentered : ({ f with ended := some x } : Flight).EnteredAs names b) :
    Booked names (flights.set i { f with ended := some x }) (added ++ [b])
      (order ++ [i]) := by
  have hlt : i < flights.length := (List.getElem?_eq_some_iff.1 hf).1
  have hout : i ∉ order := by
    rw [h.ended i f hf, hnew]
    exact Bool.false_ne_true
  refine ⟨?_, ?_, ?_, ?_, ?_, ?_, ?_⟩
  · rw [List.nodup_append]
    refine ⟨h.distinct, List.pairwise_singleton _ _, ?_⟩
    rintro k hk k' hk' rfl
    rw [List.mem_singleton.1 hk'] at hk
    exact hout hk
  · rw [List.length_append, List.length_append, h.length]
    rfl
  · intro k hk
    rw [List.length_set]
    rcases List.mem_append.1 hk with hk | hk
    · exact h.bounded k hk
    · rw [List.mem_singleton.1 hk]
      exact hlt
  · intro k g hg
    by_cases hk : i = k
    · subst hk
      rw [List.getElem?_set_self hlt] at hg
      cases hg
      simp
    · rw [List.getElem?_set_ne hk] at hg
      rw [List.mem_append, List.mem_singleton, h.ended k g hg]
      exact ⟨fun hor => hor.resolve_right fun heq => hk heq.symm, .inl⟩
  · intro p k b' g hp hb hg
    -- The new block is at the end, and so is the call that it belongs to.
    by_cases hold : p < order.length
    · rw [List.getElem?_append_left hold] at hp
      rw [List.getElem?_append_left (h.length ▸ hold)] at hb
      have hk : i ≠ k := by
        rintro rfl
        exact hout (List.mem_of_getElem? hp)
      rw [List.getElem?_set_ne hk] at hg
      exact h.entered p k b' g hp hb hg
    · rw [List.getElem?_append_right (Nat.not_lt.1 hold), List.getElem?_singleton] at hp
      rw [List.getElem?_append_right (h.length ▸ Nat.not_lt.1 hold), ← h.length,
        List.getElem?_singleton] at hb
      split at hp
      · next hzero =>
        rw [if_pos hzero] at hb
        cases hp
        cases hb
        rw [List.getElem?_set_self hlt] at hg
        cases hg
        exact hentered
      · cases hp
  · intro k g y hg hy
    by_cases hk : i = k
    · subst hk
      rw [List.getElem?_set_self hlt] at hg
      cases hg
      have hbefore := h.told i f y hf hy
      rw [hnew] at hbefore
      cases hbefore
    · rw [List.getElem?_set_ne hk] at hg
      exact h.told k g y hg hy
  · intro k g hg
    by_cases hk : i = k
    · subst hk
      rw [List.getElem?_set_self hlt] at hg
      cases hg
      exact h.tallied i f hf
    · rw [List.getElem?_set_ne hk] at hg
      exact h.tallied k g hg

/-- When all calls have ended, the books are a bijection between the calls and the
new blocks. -/
theorem Booked.bijection (h : Booked names flights added order)
    (hall : ∀ f ∈ flights, f.ended.isSome = true) :
    added.length = flights.length ∧ ∃ place : Fin flights.length → Fin added.length,
      Function.Bijective place ∧
      ∀ i, (flights.get i).EnteredAs names (added.get (place i)) := by
  have hmem : ∀ i, i ∈ order ↔ i < flights.length := by
    intro i
    refine ⟨h.bounded i, fun hi => ?_⟩
    exact (h.ended i flights[i] (List.getElem?_eq_getElem hi)).2
      (hall _ (List.getElem_mem hi))
  have hperm : order.Perm (List.range flights.length) := by
    rw [List.perm_ext_iff_of_nodup h.distinct List.nodup_range]
    intro i
    rw [hmem i, List.mem_range]
  have hlength : added.length = flights.length := by
    rw [← h.length, hperm.length_eq, List.length_range]
  have hplace : ∀ i : Fin flights.length, order.idxOf i.1 < added.length := by
    intro i
    rw [← h.length]
    exact List.idxOf_lt_length_of_mem ((hmem i).2 i.2)
  refine ⟨hlength, fun i => ⟨order.idxOf i.1, hplace i⟩, ⟨?_, ?_⟩, ?_⟩
  · intro i k hik
    exact Fin.ext ((List.idxOf_inj ((hmem i).2 i.2)).1 (Fin.mk.inj hik))
  · rintro ⟨p, hp⟩
    have hpo : p < order.length := h.length.symm ▸ hp
    refine ⟨⟨order[p], (hmem _).1 (List.getElem_mem hpo)⟩, Fin.ext ?_⟩
    exact h.distinct.idxOf_getElem p hpo
  · intro i
    have hpo : order.idxOf i.1 < order.length := h.length.symm ▸ hplace i
    refine h.entered (order.idxOf i.1) i.1 _ _ ?_ (List.getElem?_eq_getElem (hplace i))
      (List.getElem?_eq_getElem i.2)
    rw [List.getElem?_eq_getElem hpo, List.getElem_idxOf hpo]

/-! ## The chain -/

/-- The ledger follows its log, no block that was added changes the verdict, and the
books are right. -/
structure Chained (t : Traffic μ) (before added : List Block)
    (order : List Nat) : Prop where
  names : t.store.names.Nodup
  follows : t.store.ledger.Follows t.disk (before ++ added) []
  verdict : Chain.verify (before ++ added) = Chain.verify before
  booked : Booked t.store.names t.flights added order

theorem Chained.of_turn {t : Traffic μ} {before : List Block}
    (h : Chained t before added order) {s' : Store μ} {d' : Disk}
    {flights' : List Flight} (hledger : s'.ledger = t.store.ledger)
    (hnames : s'.names = t.store.names) (hkept : t.store.ledger.log.Kept t.disk d')
    (hbooked : Booked t.store.names flights' added order) :
    Chained ⟨s', d', flights'⟩ before added order := by
  have hholds := hkept _ (Ledger.BlockLog.left_nil_iff.1 h.follows.left)
  refine ⟨by rw [hnames]; exact h.names, ?_, h.verdict, by rw [hnames]; exact hbooked⟩
  show s'.ledger.Follows d' _ []
  rw [hledger]
  exact { h.follows with left := Ledger.BlockLog.left_nil_iff.2 hholds }

/-- A medium that counts what it did has the same name. -/
theorem names_set {s : Store μ} {j : Nat} {m m' : Member μ} {o : Outcome}
    (hm : s.members[j]? = some m) (hcounts : m.Counts m' o) :
    ({ s with members := s.members.set j m' } : Store μ).names = s.names := by
  show (s.members.set j m').map Member.name = s.members.map Member.name
  obtain ⟨hj, rfl⟩ := List.getElem?_eq_some_iff.1 hm
  rw [List.map_set, hcounts.name, ← List.getElem_map Member.name
    (h := by rwa [List.length_map]), List.set_getElem_self]

theorem Chained.step {t t' : Traffic μ} {before : List Block} (hstay : NamesStay μ)
    (h : Chained t before added order) (hstep : Step t t') :
    ∃ added' order', Chained t' before added' order' := by
  cases hstep with
  | make c hc =>
    have htallied : ∀ n, Flight.Tallied
        ⟨c, List.replicate n none, List.replicate n none, none, .waiting⟩ := by
      intro n
      show (List.replicate n none).map _ = (List.replicate n none).map _
      rw [List.map_replicate, List.map_replicate]
      rfl
    exact ⟨added, order, h.of_turn rfl rfl (fun _ hb => hb)
      (h.booked.make _ rfl rfl (htallied _))⟩
  | @answer i j f m m' o d' hf hopen hm hwrite hkept =>
    have hcounts := m.write_counts hstay t.store.slots f.call.record t.disk
    have hacked := m.write_acked_iff_reply t.store.slots f.call.record t.disk
    rw [hwrite] at hcounts hacked
    exact ⟨added, order, h.of_turn rfl (names_set hm hcounts) hkept
      (h.booked.answer hf hopen hacked)⟩
  | abandon hf hopen hm hcounts =>
    have hlate : Outcome.timedOut = .acked ↔
        (none : Option (Answer Unit)) = some (.done ()) := by simp
    exact ⟨added, order, h.of_turn rfl (names_set hm hcounts) (fun _ hb => hb)
      (h.booked.answer hf hopen hlate)⟩
  | turn hledger hnames hkept =>
    exact ⟨added, order, h.of_turn hledger hnames hkept h.booked⟩
  | @enter i f outcomes b l' x s' d' hf hnew hheard hledger hsettle =>
    rw [settle_of_append hledger] at hsettle
    cases hsettle
    have hdistinct : (outcomes.map (·.1)).Nodup := hheard.names ▸ h.names
    -- The ledger took the block, so the block is the next one and links to the last
    -- one.
    rcases Ledger.append_ends hledger with
      ⟨b', log, hb', hsane, hb, hlog, rfl⟩ | ⟨e, he, _⟩ | ⟨he, _⟩
    · cases hb'
      obtain ⟨_, hprev, _, hsucceeded, hacks, hhash⟩ := Ledger.nextBlock?_eq_some hb
      rw [h.follows.tail, Ledger.Tail.head_ofBlocks] at hprev
      obtain ⟨hindex, hholds⟩ :=
        (Ledger.BlockLog.left_nil_iff.1 h.follows.left).append_ok hlog
      have hacked := hheard.acked (h.booked.tallied i f hf)
      have hrecorded := recorded_of_nextBlock? hdistinct hb
      refine ⟨added ++ [b], order ++ [i], h.names, ?_, ?_, h.booked.enter hf hnew ?_⟩
      · rw [← List.append_assoc]
        refine ⟨Ledger.BlockLog.left_nil_iff.2 hholds, ?_, h.follows.sane,
          h.follows.attached, h.follows.exactLength⟩
        show t.store.ledger.tail.push b = _
        rw [h.follows.tail, Ledger.Tail.ofBlocks_append]
      · rw [← List.append_assoc,
          Chain.verify_concat_of_link ⟨hindex, hprev, hhash⟩, h.verdict]
      · refine ⟨hrecorded.payload, hrecorded.acks.trans (congrArg _ hacked.symm), ?_,
          hrecorded.succeeded, outcomes, _, ⟨hheard.names, hheard.answers⟩,
          reports_receipt b hdistinct, ?_⟩
        · intro hlt
          exact (hrecorded.exact (hheard.length ▸ hlt)).trans hacked.symm
        · show some (answerOf f.call.record outcomes (.ok b)) = _
          rw [answerOf, hsucceeded, hacks]
          simp only [decide_eq_true_eq]
    · cases he
    · cases he
  | @leave i f hf hwaits =>
    refine ⟨added, order, h.of_turn rfl rfl (fun _ hb => hb)
      (h.booked.replace hf rfl rfl (fun _ => rfl) ?_ (h.booked.tallied i f hf))⟩
    intro x hx
    cases hx
  | @tell i f x hf hwaits hended =>
    refine ⟨added, order, h.of_turn rfl rfl (fun _ hb => hb)
      (h.booked.replace hf rfl rfl (fun _ => rfl) ?_ (h.booked.tallied i f hf))⟩
    intro y hy
    cases hy
    exact hended

theorem Steps.chained {t₀ t : Traffic μ} {before : List Block} (hstay : NamesStay μ)
    (h₀ : Chained t₀ before [] []) (h : Steps t₀ t) :
    ∃ added order, Chained t before added order := by
  induction h with
  | start => exact ⟨[], [], h₀⟩
  | step _ hstep ih =>
    obtain ⟨added, order, hchained⟩ := ih
    exact hchained.step hstay hstep

omit [Adapter μ] in
theorem verify_of_follows {s : Store μ} {d : Disk} {bs : List Block} {w : Bytes}
    (h : s.ledger.Follows d bs w) :
    s.verify d = .ok ⟨Chain.firstDivergence bs, bs.length⟩ := by
  rw [Store.verify, h.verify]

/-- A store is built over a ledger that was opened over some log, in which nothing
was left behind, and then calls overlap in any way. When all of them have ended,
there is one chain with one new block for each: the verdict is what it was, calls and
new blocks are in bijection, each block counts the media that had a slot for its own
call and said that it is done, and each caller who waited has learned where the block
of their own call is. -/
theorem overlapping_calls_form_one_chain {setup : Setup μ} {log : Ledger.BlockLog}
    {faults : Ledger.Faults} {s₀ : Store μ} {d₀ : Disk} {t : Traffic μ}
    (hstay : NamesStay μ) (hlog : log.Live d₀) (hclean : log.leftover d₀ = [])
    (hexact : faults.extraLength = 0)
    (hopen : Ledger.openOver log faults d₀ = .ok setup.ledger)
    (hbuild : setup.build = .ok s₀) (hsteps : Steps ⟨s₀, d₀, []⟩ t)
    (hall : ∀ f ∈ t.flights, f.Finished) :
    ∃ before added, s₀.verify d₀ = .ok ⟨Chain.firstDivergence before, before.length⟩ ∧
      t.store.verify t.disk = .ok
        ⟨Chain.firstDivergence before, before.length + t.flights.length⟩ ∧
      t.store.ledger.log.Shows t.disk (before ++ added) ∧
      added.length = t.flights.length ∧
      ∃ place : Fin t.flights.length → Fin added.length, Function.Bijective place ∧
        ∀ i, (t.flights.get i).EnteredAs t.store.names (added.get (place i)) ∧
          ((t.flights.get i).caller = .gone ∨ ∃ x, (t.flights.get i).caller = .told x ∧
            (t.flights.get i).ended = some x) := by
  obtain ⟨hdistinct, _, hledger⟩ := Setup.build_eq_ok hbuild
  obtain ⟨_, before, hbefore⟩ := Ledger.follows_of_openOver hlog hexact hopen
  rw [← hledger, hclean] at hbefore
  have hstart : Chained ⟨s₀, d₀, []⟩ before [] [] :=
    ⟨hdistinct, by rwa [List.append_nil], by rw [List.append_nil], booked_nil _⟩
  obtain ⟨added, order, hchained⟩ := hsteps.chained hstay hstart
  obtain ⟨hlength, place, hbijective, hentered⟩ :=
    hchained.booked.bijection fun f hf => (hall f hf).1
  refine ⟨before, added, verify_of_follows hbefore, ?_, hchained.follows.left.shows,
    hlength, place, hbijective, fun i => ⟨hentered i, ?_⟩⟩
  · rw [verify_of_follows hchained.follows, List.length_append, hlength,
      Chain.firstDivergence, hchained.verdict]
    rfl
  · have hdone := (hall _ (List.get_mem t.flights i)).2
    cases hcaller : (t.flights.get i).caller with
    | waiting => exact absurd hcaller hdone
    | gone => exact .inl rfl
    | told x => exact .inr ⟨x, rfl,
      hchained.booked.told i.1 _ x (List.getElem?_eq_getElem i.2) hcaller⟩

/-- Two calls overlap. The second one is answered and entered first. The first one
has given up on a medium, and nobody waits for it when it is entered. -/
theorem overlapping_calls_form_one_chain_pair :
    ∃ t : Traffic Medium, Steps ⟨twoMedia, {}, []⟩ t ∧
      t.flights.map (·.call) = [storeByte 1, storeByte 2] ∧
      t.flights.map (·.acked) = [1, 2] ∧ (∀ f ∈ t.flights, f.Finished) ∧
      ∃ before added : List Block,
        t.store.verify t.disk = .ok
          ⟨Chain.firstDivergence before, before.length + t.flights.length⟩ ∧
        ∃ place : Fin t.flights.length → Fin added.length, Function.Bijective place ∧
          ∀ i, (t.flights.get i).EnteredAs t.store.names (added.get (place i)) := by
  let setup : Setup Medium :=
    { media := [.rehearsal { inner := { name := "a" } },
      .rehearsal { inner := { name := "b" } }]
      timeoutMs := 1000, maxParallel := 4 }
  have hopen : Ledger.openOver (.memory []) {} {} = .ok setup.ledger := rfl
  have hbuild : setup.build = .ok twoMedia := rfl
  have hkept (d d' : Disk) : (Ledger.BlockLog.memory []).Kept d d' :=
    Ledger.BlockLog.kept_memory rfl d d'
  have hcounts (m : Member Medium) : m.Counts (m.count .timedOut) .timedOut :=
    ⟨rfl, rfl, rfl⟩
  have h₀ : Steps ⟨twoMedia, {}, []⟩ ⟨twoMedia, {}, []⟩ := .start
  have h₁ := (h₀.step (.make _ (valid_storeByte 1))).step (.make _ (valid_storeByte 2))
  have h₂ := h₁.step (.answer (i := 1) (j := 0) rfl rfl rfl rfl (hkept _ _))
  have h₃ := h₂.step (.answer (i := 0) (j := 0) rfl rfl rfl rfl (hkept _ _))
  have h₄ := h₃.step (.abandon (i := 0) (j := 1) rfl rfl rfl (hcounts _))
  have h₅ := h₄.step (.answer (i := 1) (j := 1) rfl rfl rfl rfl (hkept _ _))
  have h₆ := h₅.step (.enter (i := 1) rfl rfl
    (show Flight.Heard _ _ [("a", .acked), ("b", .acked)] from ⟨rfl, rfl⟩) rfl rfl)
  have h₇ := h₆.step (.leave (i := 0) rfl rfl)
  have h₈ := h₇.step (.enter (i := 0) rfl rfl
    (show Flight.Heard _ _ [("a", .acked), ("b", .timedOut)] from ⟨rfl, rfl⟩) rfl rfl)
  have hlast := h₈.step (.tell (i := 1) rfl rfl rfl)
  obtain ⟨t, hsteps, hcalls, hacked, hall⟩ : ∃ t : Traffic Medium,
    Steps ⟨twoMedia, {}, []⟩ t ∧
      t.flights.map (·.call) = [storeByte 1, storeByte 2] ∧
      t.flights.map (·.acked) = [1, 2] ∧
      ∀ f ∈ t.flights, f.Finished :=
    ⟨_, hlast, rfl, rfl, List.forall_mem_cons.2
      ⟨⟨rfl, nofun⟩, List.forall_mem_singleton.2 ⟨rfl, nofun⟩⟩⟩
  obtain ⟨before, added, _, hverdict, _, _, place, hbijective, hentered⟩ :=
    overlapping_calls_form_one_chain namesStay_medium (.memory [] {}) rfl rfl hopen
      hbuild hsteps hall
  exact ⟨t, hsteps, hcalls, hacked, hall, before, added, hverdict, place, hbijective,
    fun i => (hentered i).1⟩

end Chronicle.Store
