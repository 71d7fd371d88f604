import Chronicle.Proofs.Store.Accounting

/-!
# Where recalled values come from

Media may answer with anything when they are asked for a key: with records of other
keys, with records whose signature does not fit, with an error, or not at all. The
store takes the first answer that has the right key and a signature that fits. If
what the media find was handed to them by calls on the store, whether these were
acknowledged or not and whenever it landed, then a value that is recalled is one that
was stored under that very key.

* `ask_eq_some_iff`, `ask_eq_none_iff`: which record is served.
* `ask_append`: media after the one that serves are not asked.
* `Course`: what may happen to a store and its media.
* `Course.stems`: whatever a medium finds is the record of a call.
* `recall_serves_first_genuine_record`: what is recalled, and where it comes from.
-/

namespace Chronicle.Store

open Medium (Adapter Answer)

variable {μ : Type} [Adapter μ]

/-! ## The order in which media are asked -/

/-- What media answer when all of them are asked for a key, one after the other. -/
def readings (slots : Nat) (key : String) :
    List (Member μ) → Disk → List (Answer (Option Record))
  | [], _ => []
  | m :: ms, d =>
    (m.read slots key d).1 :: readings slots key ms (m.read slots key d).2.2

/-- The answer at this position is a record of the key, and its signature is that of
its value. -/
def ServedAt (key : String) (answers : List (Answer (Option Record))) (i : Nat)
    (r : Record) : Prop :=
  answers[i]? = some (.done (some r)) ∧ r.key = key ∧ r.verify = true

/-- The first answer of this kind is at this position. -/
def ServedFirst (key : String) (answers : List (Answer (Option Record))) (i : Nat)
    (r : Record) : Prop :=
  ServedAt key answers i r ∧ ∀ j < i, ∀ x, ¬ServedAt key answers j x

variable {slots : Nat} {key : String} {m : Member μ} {ms : List (Member μ)}
    {d : Disk} {r : Record}

theorem offered?_eq_some_iff {a : Answer (Option Record)} :
    offered? key a = some r ↔ a = .done (some r) ∧ r.key = key ∧ r.verify = true := by
  rcases a with (_ | x) | _ | _ | _
  · simp [offered?]
  · simp only [offered?, serves, Bool.and_eq_true, beq_iff_eq,
      Option.ite_none_right_eq_some, Option.some.injEq, Answer.done.injEq]
    constructor
    · rintro ⟨hx, rfl⟩
      exact ⟨rfl, hx⟩
    · rintro ⟨rfl, hx⟩
      exact ⟨hx, rfl⟩
  all_goals simp [offered?]

theorem servedAt_zero {a : Answer (Option Record)}
    {as : List (Answer (Option Record))} :
    ServedAt key (a :: as) 0 r ↔ offered? key a = some r := by
  rw [offered?_eq_some_iff, ServedAt, List.getElem?_cons_zero, Option.some.injEq]

theorem ask_cons_some (h : offered? key (m.read slots key d).1 = some r) :
    ask slots key (m :: ms) d =
      (some ⟨r, (m.read slots key d).2.1.name⟩, (m.read slots key d).2.1 :: ms,
        (m.read slots key d).2.2) := by
  simp only [ask, h]

theorem ask_cons_none (h : offered? key (m.read slots key d).1 = none) :
    ask slots key (m :: ms) d =
      ((ask slots key ms (m.read slots key d).2.2).1,
        (m.read slots key d).2.1 :: (ask slots key ms (m.read slots key d).2.2).2.1,
        (ask slots key ms (m.read slots key d).2.2).2.2) := by
  simp only [ask, h]

/-- Asking a medium for a record does not change its name. -/
def ReadingKeepsName (μ : Type) [Adapter μ] : Prop :=
  ∀ (m : μ) (key : String) (d : Disk), Adapter.name (Adapter.read m key d).2.1 =
    Adapter.name m

theorem Member.name_read (hnames : ReadingKeepsName μ) (slots : Nat) (m : Member μ)
    (key : String) (d : Disk) :
    (m.read slots key d).2.1.name = m.name := by
  obtain ⟨_, _, hmedium | hmedium⟩ :=
    m.call_spec slots (fun medium d => Adapter.read medium key d) d
  · exact congrArg Adapter.name hmedium
  · exact (congrArg Adapter.name hmedium).trans (hnames _ _ _)

/-- The record that is served is that of the first medium that answers with a record
for the key. -/
theorem ask_eq_some_iff (hnames : ReadingKeepsName μ) {x : Recalled} :
    (ask slots key ms d).1 = some x ↔
      ∃ i m, ms[i]? = some m ∧ ServedFirst key (readings slots key ms d) i x.record ∧
      x.backend = m.name := by
  induction ms generalizing d with
  | nil =>
    refine ⟨fun h => (by cases h), ?_⟩
    rintro ⟨i, m, hm, _⟩
    cases hm
  | cons m ms ih =>
    rw [readings]
    cases hoffered : offered? key (m.read slots key d).1 with
    | some r =>
      rw [ask_cons_some hoffered, m.name_read hnames]
      have hserved {as : List (Answer (Option Record))} : ServedAt key
          ((m.read slots key d).1 :: as) 0 r :=
        servedAt_zero.2 hoffered
      constructor
      · rintro ⟨⟩
        exact ⟨0, m, rfl, ⟨hserved, fun j hj => absurd hj (Nat.not_lt_zero j)⟩, rfl⟩
      · rintro ⟨i, m', hm', ⟨hat, hfirst⟩, hbackend⟩
        -- No later answer is the first one.
        cases i with
        | succ i => exact absurd hserved (hfirst 0 (Nat.succ_pos i) r)
        | zero =>
          cases hm'
          rw [servedAt_zero, hoffered] at hat
          cases hat
          rw [← hbackend]
    | none =>
      rw [ask_cons_none hoffered, ih]
      have hnot (x : Record) {as : List (Answer (Option Record))} :
          ¬ServedAt key ((m.read slots key d).1 :: as) 0 x := by
        rw [servedAt_zero, hoffered]
        exact Option.some_ne_none x ∘ Eq.symm
      constructor
      · rintro ⟨i, m', hm', ⟨hat, hfirst⟩, hbackend⟩
        refine ⟨i + 1, m', hm', ⟨hat, ?_⟩, hbackend⟩
        intro j hj x
        cases j with
        | zero => exact hnot x
        | succ j => exact hfirst j (Nat.lt_of_succ_lt_succ hj) x
      · rintro ⟨i, m', hm', ⟨hat, hfirst⟩, hbackend⟩
        cases i with
        | zero => exact absurd hat (hnot _)
        | succ i =>
          exact ⟨i, m', hm', ⟨hat, fun j hj => hfirst (j + 1) (Nat.succ_lt_succ hj)⟩,
            hbackend⟩

/-- Nothing is served if no medium answers with a record for the key. -/
theorem ask_eq_none_iff :
    (ask slots key ms d).1 = none ↔
      ∀ i r, ¬ServedAt key (readings slots key ms d) i r := by
  induction ms generalizing d with
  | nil =>
    refine ⟨fun _ i r h => ?_, fun _ => rfl⟩
    cases h.1
  | cons m ms ih =>
    rw [readings]
    cases hoffered : offered? key (m.read slots key d).1 with
    | some r =>
      rw [ask_cons_some hoffered]
      refine ⟨fun h => (by cases h), fun h => ?_⟩
      exact absurd (servedAt_zero.2 hoffered) (h 0 r)
    | none =>
      rw [ask_cons_none hoffered, ih]
      constructor
      · intro h i r hat
        cases i with
        | zero =>
          rw [servedAt_zero, hoffered] at hat
          cases hat
        | succ i => exact h i r hat
      · exact fun h i r hat => h (i + 1) r hat

/-- Media after the one that serves are not asked. -/
theorem ask_append {x : Recalled} (h : (ask slots key ms d).1 = some x)
    (later : List (Member μ)) :
    ask slots key (ms ++ later) d =
      (some x, (ask slots key ms d).2.1 ++ later, (ask slots key ms d).2.2) := by
  induction ms generalizing d with
  | nil => cases h
  | cons m ms ih =>
    rw [List.cons_append]
    cases hoffered : offered? key (m.read slots key d).1 with
    | some r =>
      rw [ask_cons_some hoffered] at h ⊢
      rw [ask_cons_some hoffered, ← h]
      rfl
    | none =>
      rw [ask_cons_none hoffered] at h ⊢
      rw [ask_cons_none hoffered, ih h]
      rfl

theorem readings_take (n : Nat) :
    readings slots key (ms.take n) d = (readings slots key ms d).take n := by
  induction ms generalizing d n with
  | nil => rw [List.take_nil, readings, List.take_nil]
  | cons m ms ih =>
    cases n with
    | zero => rfl
    | succ n => rw [List.take_succ_cons, readings, readings, List.take_succ_cons, ih]

theorem ServedFirst.take {answers : List (Answer (Option Record))} {i : Nat}
    (h : ServedFirst key answers i r) :
    ServedFirst key (answers.take (i + 1)) i r := by
  have hat (j : Nat) (hj : j < i + 1) (x : Record) :
      ServedAt key (answers.take (i + 1)) j x ↔ ServedAt key answers j x := by
    rw [ServedAt, ServedAt, List.getElem?_take_of_lt hj]
  refine ⟨(hat i (Nat.lt_succ_self i) r).2 h.1, ?_⟩
  intro j hj x
  rw [hat j (Nat.lt_succ_of_lt hj) x]
  exact h.2 j hj x

/-! ## What asking leaves alone -/

/-- Nothing happens to a disk but what the reads of single media do to it. -/
theorem ask_disk {P : Disk → Prop}
    (h : ∀ (m : μ) (key : String) (d : Disk), P d → P (Adapter.read m key d).2.2)
    (hd : P d) : P (ask slots key ms d).2.2 := by
  induction ms generalizing d with
  | nil => exact hd
  | cons m ms ih =>
    have hread : P (m.read slots key d).2.2 := by
      rcases m.call_cases slots (fun medium d => Adapter.read medium key d) d
        with hcall | ⟨held, hcall⟩
      · rw [Member.read, hcall]
        exact hd
      · rw [Member.read, hcall]
        exact h _ _ _ hd
    cases hoffered : offered? key (m.read slots key d).1 with
    | some r =>
      rw [ask_cons_some hoffered]
      exact hread
    | none =>
      rw [ask_cons_none hoffered]
      exact ih hread

theorem counts_ask (hnames : ReadingKeepsName μ) :
    (ask slots key ms d).2.1.map (fun m => (m.name, m.acks, m.failures)) =
      ms.map (fun m => (m.name, m.acks, m.failures)) := by
  induction ms generalizing d with
  | nil => rfl
  | cons m ms ih =>
    obtain ⟨hacks, hfailures, _⟩ :=
      m.call_spec slots (fun medium d => Adapter.read medium key d) d
    have hfirst : ((m.read slots key d).2.1.name, (m.read slots key d).2.1.acks,
        (m.read slots key d).2.1.failures) = (m.name, m.acks, m.failures) := by
      rw [m.name_read hnames, Member.read, hacks, hfailures]
    cases hoffered : offered? key (m.read slots key d).1 with
    | some r => rw [ask_cons_some hoffered, List.map_cons, List.map_cons, hfirst]
    | none => rw [ask_cons_none hoffered, List.map_cons, List.map_cons, hfirst, ih]

theorem length_readings : (readings slots key ms d).length = ms.length := by
  induction ms generalizing d with
  | nil => rfl
  | cons m ms ih => rw [readings, List.length_cons, List.length_cons, ih]

/-- Media after the one that serves are left alone, and others in their place would
make no difference. -/
theorem ask_of_take {i : Nat} {ms' : List (Member μ)} (hnames : ReadingKeepsName μ)
    (hserved : ServedFirst key (readings slots key ms d) i r)
    (hsame : ms'.take (i + 1) = ms.take (i + 1)) :
    (ask slots key ms' d).1 = (ask slots key ms d).1 ∧
      (ask slots key ms' d).2.1.drop (i + 1) = ms'.drop (i + 1) := by
  have hi : i < ms.length := by
    have hlt := (List.getElem?_eq_some_iff.1 hserved.1.1).1
    rwa [length_readings] at hlt
  have hask : (ask slots key (ms.take (i + 1)) d).1 = some ⟨r, ms[i].name⟩ := by
    refine (ask_eq_some_iff hnames).2 ⟨i, ms[i], ?_, ?_, rfl⟩
    · rw [List.getElem?_take_of_lt (Nat.lt_succ_self i), List.getElem?_eq_getElem hi]
    · rw [readings_take]
      exact hserved.take
  have hlength : (ask slots key (ms.take (i + 1)) d).2.1.length = i + 1 := by
    have hcounts : (((ask slots key (ms.take (i + 1)) d).2.1).map fun m =>
        (m.name, m.acks, m.failures)).length = _ :=
      congrArg List.length (counts_ask hnames)
    rw [List.length_map, List.length_map, List.length_take] at hcounts
    omega
  have hsplit (ms'' : List (Member μ)) (h : ms''.take (i + 1) = ms.take (i + 1)) :
      ask slots key ms'' d = (some ⟨r, ms[i].name⟩,
        (ask slots key (ms.take (i + 1)) d).2.1 ++ ms''.drop (i + 1),
        (ask slots key (ms.take (i + 1)) d).2.2) := by
    rw [← ask_append hask, ← h, List.take_append_drop]
  rw [hsplit ms' hsame, hsplit ms rfl]
  exact ⟨rfl, List.drop_left' hlength⟩

/-! ## What media find -/

/-- Some key reads the record. -/
def Finds (m : μ) (d : Disk) (r : Record) : Prop :=
  ∃ key, (Adapter.read m key d).1 = .done (some r)

/-- When a medium is asked for a record, this brings no record to it or to any other
medium. -/
structure ReadingBringsNothing (μ : Type) [Adapter μ] : Prop where
  own : ∀ (m : μ) (key : String) (d d' : Disk) (r : Record),
    Finds (Adapter.read m key d).2.1 d' r → Finds m d' r
  others : ∀ (m other : μ) (key : String) (d : Disk) (r : Record),
    Finds other (Adapter.read m key d).2.2 r → Finds other d r

theorem readingKeepsName_medium [Compression] [Table.Engine] :
    ReadingKeepsName Medium :=
  fun _ _ _ => rfl

theorem readingBringsNothing_medium [Compression] [Table.Engine] :
    ReadingBringsNothing Medium :=
  ⟨fun _ _ _ _ _ h => h, fun _ _ _ _ _ h => h⟩

/-- Each of the media finds only what one of them found before. -/
theorem finds_ask (hreads : ReadingBringsNothing μ) {m' : Member μ}
    (hm' : m' ∈ (ask slots key ms d).2.1) {d' : Disk} (hfinds : Finds m'.medium d' r) :
    ∃ m ∈ ms, Finds m.medium d' r := by
  induction ms generalizing d with
  | nil => cases hm'
  | cons m ms ih =>
    have hfirst : Finds (m.read slots key d).2.1.medium d' r → Finds m.medium d' r := by
      rcases m.call_cases slots (fun medium d => Adapter.read medium key d) d
        with hcall | ⟨held, hcall⟩
      · rw [Member.read, hcall]
        exact id
      · rw [Member.read, hcall]
        exact hreads.own _ _ _ _ _
    cases hoffered : offered? key (m.read slots key d).1 with
    | some x =>
      rw [ask_cons_some hoffered] at hm'
      rcases List.mem_cons.1 hm' with rfl | hm'
      · exact ⟨m, List.mem_cons_self, hfirst hfinds⟩
      · exact ⟨m', List.mem_cons_of_mem _ hm', hfinds⟩
    | none =>
      rw [ask_cons_none hoffered] at hm'
      rcases List.mem_cons.1 hm' with rfl | hm'
      · exact ⟨m, List.mem_cons_self, hfirst hfinds⟩
      · obtain ⟨x, hx, hxfinds⟩ := ih hm'
        exact ⟨x, List.mem_cons_of_mem _ hx, hxfinds⟩

/-- A record that is served was found before by one of the media. -/
theorem finds_of_ask (hreads : ReadingBringsNothing μ) {x : Recalled}
    (h : (ask slots key ms d).1 = some x) :
    x.record.key = key ∧ ∃ m ∈ ms, Finds m.medium d x.record := by
  induction ms generalizing d with
  | nil => cases h
  | cons m ms ih =>
    have hcases := m.call_cases slots (fun medium d => Adapter.read medium key d) d
    cases hoffered : offered? key (m.read slots key d).1 with
    | some r =>
      rw [ask_cons_some hoffered] at h
      cases h
      obtain ⟨hanswer, hkey, _⟩ := offered?_eq_some_iff.1 hoffered
      refine ⟨hkey, m, List.mem_cons_self, key, ?_⟩
      rcases hcases with hcall | ⟨held, hcall⟩ <;> rw [Member.read, hcall] at hanswer
      · cases hanswer
      · exact hanswer
    | none =>
      rw [ask_cons_none hoffered] at h
      obtain ⟨hkey, y, hy, hfinds⟩ := ih h
      refine ⟨hkey, y, List.mem_cons_of_mem _ hy, ?_⟩
      rcases hcases with hcall | ⟨held, hcall⟩ <;> rw [Member.read, hcall] at hfinds
      · exact hfinds
      · exact hreads.others _ _ _ _ _ hfinds

/-! ## Runs -/

/-- The record is that of one of the calls, which got as far as the media. -/
def Stems (calls : List Call) (r : Record) : Prop := ∃ c ∈ calls, c.Valid ∧ r = c.record

/-- What media find now, some of them found before, or it is the record of a call. -/
def BringsOnly (calls : List Call) (s : Store μ) (d : Disk) (s' : Store μ)
    (d' : Disk) : Prop :=
  ∀ m' ∈ s'.members, ∀ r, Finds m'.medium d' r →
    (∃ m ∈ s.members, Finds m.medium d r) ∨ Stems calls r

/-- What becomes of a store, with the calls that were made on it so far. At first the
media find nothing. Calls are made one after the other or overlap, and keys are
recalled. The media answer in whatever way, and a record that was handed to them in a
call lands at once, at any later time, or never. But no record comes to them that was
not in a call. -/
inductive Course : Store μ → Disk → List Call → Prop where
  | start {s : Store μ} {d : Disk}
      (hnothing : ∀ m ∈ s.members, ∀ r, ¬Finds m.medium d r) : Course s d []
  /-- A call is made and has ended. -/
  | call {s : Store μ} {d : Disk} {calls : List Call} (h : Course s d calls) (c : Call)
      (hbrings : c.Valid →
        BringsOnly (calls ++ [c]) s d (c.make s d).2.1 (c.make s d).2.2) :
      Course (c.make s d).2.1 (c.make s d).2.2 (calls ++ [c])
  /-- A call is made and goes on while other things happen. -/
  | begun {s : Store μ} {d : Disk} {calls : List Call} (h : Course s d calls)
      (c : Call) : Course s d (calls ++ [c])
  /-- Somebody recalls a key. -/
  | asked {s : Store μ} {d : Disk} {calls : List Call} (h : Course s d calls)
      (key : String) :
      Course (s.recallRecord key d).2.1 (s.recallRecord key d).2.2 calls
  /-- Anything else happens to the media, to the ledger and to the disk. -/
  | turn {s s' : Store μ} {d d' : Disk} {calls : List Call} (h : Course s d calls)
      (hbrings : BringsOnly calls s d s' d') : Course s' d' calls

variable {s s' : Store μ} {d' : Disk} {calls : List Call}

theorem Stems.concat (h : Stems calls r) (c : Call) : Stems (calls ++ [c]) r := by
  obtain ⟨x, hx, hrest⟩ := h
  exact ⟨x, List.mem_append_left _ hx, hrest⟩

theorem recallRecord_of_check (hkey : Record.checkKey key = .ok ()) :
    s.recallRecord key d =
      ((ask s.slots key s.members d).1,
        { s with members := (ask s.slots key s.members d).2.1 },
        (ask s.slots key s.members d).2.2) := by
  rw [recallRecord, hkey]

theorem recallRecord_of_not_check (hkey : Record.checkKey key ≠ .ok ()) :
    s.recallRecord key d = (none, s, d) := by
  rw [recallRecord]
  split
  · rfl
  · next hok => exact absurd hok hkey

/-- Whatever a medium finds is the record of a call. -/
theorem Course.stems (hreads : ReadingBringsNothing μ) (h : Course s d calls) :
    ∀ m ∈ s.members, ∀ r, Finds m.medium d r → Stems calls r := by
  induction h with
  | start hnothing => exact fun m hm r hfinds => absurd hfinds (hnothing m hm r)
  | @call s d calls _ c hbrings ih =>
    intro m hm r hfinds
    by_cases hc : c.Valid
    · rcases hbrings hc m hm r hfinds with ⟨m₀, hm₀, hbefore⟩ | hstems
      · exact (ih m₀ hm₀ r hbefore).concat c
      · exact hstems
    · obtain ⟨e, he⟩ := c.make_of_not_valid hc s d
      rw [he] at hm hfinds
      exact (ih m hm r hfinds).concat c
  | begun _ c ih => exact fun m hm r hfinds => (ih m hm r hfinds).concat c
  | @asked s d calls _ key ih =>
    intro m hm r hfinds
    by_cases hkey : Record.checkKey key = .ok ()
    · rw [recallRecord_of_check hkey] at hm hfinds
      obtain ⟨m₀, hm₀, hbefore⟩ := finds_ask hreads hm hfinds
      have hdisk : Finds m₀.medium d r :=
        ask_disk (P := fun d' => Finds m₀.medium d' r → Finds m₀.medium d r)
          (fun m key d hd hfinds => hd (hreads.others m _ key d r hfinds)) id hbefore
      exact ih m₀ hm₀ r hdisk
    · rw [recallRecord_of_not_check hkey] at hm hfinds
      exact ih m hm r hfinds
  | turn _ hbrings ih =>
    intro m hm r hfinds
    rcases hbrings m hm r hfinds with ⟨m₀, hm₀, hbefore⟩ | hstems
    · exact ih m₀ hm₀ r hbefore
    · exact hstems

/-- What a store recalls for a key, and what that changes. -/
structure Recalls (s : Store μ) (key : String) (d : Disk) : Prop where
  /-- The record is the answer of the first medium, in the order in which they are
  asked, that answers with a record of the key whose signature fits. -/
  first : ∀ x, (s.recallRecord key d).1 = some x ↔ Record.checkKey key = .ok () ∧
    ∃ i m, s.members[i]? = some m ∧
    ServedFirst key (readings s.slots key s.members d) i x.record ∧ x.backend = m.name
  /-- There is none exactly if the key cannot be asked for or no medium answers so. -/
  none : (s.recallRecord key d).1 = none ↔ Record.checkKey key ≠ .ok () ∨
    ∀ i r, ¬ServedAt key (readings s.slots key s.members d) i r
  /-- Media that come later are not asked. -/
  later : ∀ i r (s' : Store μ), ServedFirst key (readings s.slots key s.members d) i r →
    s'.slots = s.slots →
    s'.members.take (i + 1) = s.members.take (i + 1) →
    (s'.recallRecord key d).1 = (s.recallRecord key d).1 ∧
      (s'.recallRecord key d).2.1.members.drop (i + 1) = s'.members.drop (i + 1)
  ledger : (s.recallRecord key d).2.1.ledger = s.ledger
  log : (∀ (m : μ) key d, s.ledger.log.Kept d (Adapter.read m key d).2.2) →
    s.ledger.log.Kept d (s.recallRecord key d).2.2
  counts : (s.recallRecord key d).2.1.members.map
    (fun m => (m.name, m.acks, m.failures)) =
    s.members.map (fun m => (m.name, m.acks, m.failures))

theorem recalls (hnames : ReadingKeepsName μ) (s : Store μ) (key : String) (d : Disk) :
    s.Recalls key d := by
  by_cases hkey : Record.checkKey key = .ok ()
  · have hrecall := recallRecord_of_check (s := s) (d := d) hkey
    refine ⟨?_, ?_, ?_, by rw [hrecall], ?_, by rw [hrecall]; exact counts_ask hnames⟩
    · intro x
      rw [hrecall, ask_eq_some_iff hnames]
      exact ⟨fun h => ⟨hkey, h⟩, fun h => h.2⟩
    · rw [hrecall, ask_eq_none_iff]
      exact ⟨.inr, fun h => h.resolve_left (not_not_intro hkey)⟩
    · intro i r s' hserved hslots hsame
      rw [hrecall, recallRecord_of_check hkey, hslots]
      exact ask_of_take hnames hserved hsame
    · intro hlog bs
      rw [hrecall]
      exact ask_disk fun m key d hd => hlog m key d bs hd
  · have hrecall := recallRecord_of_not_check (s := s) (d := d) hkey
    refine ⟨?_, ?_, ?_, by rw [hrecall], ?_, by rw [hrecall]⟩
    · intro x
      rw [hrecall]
      exact ⟨fun h => (by cases h), fun h => absurd h.1 hkey⟩
    · rw [hrecall]
      exact ⟨fun _ => .inl hkey, fun _ => rfl⟩
    · intro i r s' _ _ _
      rw [hrecall, recallRecord_of_not_check hkey]
      exact ⟨rfl, rfl⟩
    · intro _ bs hd
      rw [hrecall]
      exact hd

/-- What is recalled is the answer of the first medium with a genuine record of the
key. A valid call hands its record to every medium. If no record ever came to the
media that was not in a call, the record that is recalled is that of a call for that
very key. -/
theorem recall_serves_first_genuine_record (hnames : ReadingKeepsName μ) (s : Store μ)
    (key : String) (d : Disk) :
    s.Recalls key d ∧
      (∀ (c : Call) (i : Nat) (m : Member μ), c.Valid → s.members[i]? = some m →
        ∃ d', (c.make s d).2.1.members[i]? = some (m.write s.slots c.record d').2.1) ∧
      ∀ calls x, ReadingBringsNothing μ → Course s d calls →
      (s.recallRecord key d).1 = some x →
        ∃ c ∈ calls, c.Valid ∧ c.key = key ∧ x.record = c.record ∧
        (s.recallValue key d).1 = some c.value := by
  refine ⟨recalls hnames s key d, fun c i m hc hm => c.getElem?_make hc hm d, ?_⟩
  intro calls x hreads hcourse hrecalled
  have hkey := ((recalls hnames s key d).first x).1 hrecalled |>.1
  have hask := hrecalled
  rw [recallRecord_of_check hkey] at hask
  obtain ⟨hsame, m, hm, hfinds⟩ := finds_of_ask hreads hask
  obtain ⟨c, hc, hvalid, hrecord⟩ := hcourse.stems hreads m hm _ hfinds
  refine ⟨c, hc, hvalid, ?_, hrecord, ?_⟩
  · rw [← hsame, hrecord]
    rfl
  · show (s.recallRecord key d).1.map (·.record.value) = some c.value
    rw [hrecalled, Option.map_some, hrecord]
    rfl

/-! ## A record that lands late -/

/-- Writes to the medium do not come back from now on. -/
def hangWrites (m : Member Medium) : Member Medium :=
  match m.medium with
  | .rehearsal r => { m with medium := .rehearsal { r with writing := .hanging } }
  | _ => m

/-- All calls on the medium come back. -/
def release (m : Member Medium) : Member Medium :=
  match m.medium with
  | .rehearsal r => m.settled (.rehearsal r.release)
  | _ => m

theorem mem_of_finds {m : Medium.Rehearsal} (hplain : m.planted = [])
    (h : Finds (Medium.rehearsal m) d r) :
    ∃ key, (key, r) ∈ m.inner.records := by
  obtain ⟨key, hread⟩ := h
  have hfind : m.find key = some r := by
    have hanswer : Medium.Rehearsal.answer (m.find key) m.reading = .done (some r) :=
      hread
    cases hmode : m.reading <;> rw [hmode] at hanswer
    · exact Answer.done.inj hanswer
    all_goals cases hanswer
  rw [Medium.Rehearsal.find, hplain] at hfind
  obtain ⟨before, after, hrecords, _⟩ := List.lookup_eq_some_iff.1 hfind
  exact ⟨key, by rw [hrecords]; exact List.mem_append_right _ List.mem_cons_self⟩

theorem bringsOnly_of_records {s s' : Store Medium}
    (h : ∀ m ∈ s'.members, ∃ x : Medium.Rehearsal, m.medium = .rehearsal x ∧
      x.planted = [] ∧ ∀ e ∈ x.inner.records, Stems calls e.2) :
    BringsOnly calls s d s' d' := by
  intro m hm r hfinds
  obtain ⟨x, hx, hplain, hstems⟩ := h m hm
  rw [hx] at hfinds
  obtain ⟨key, hkey⟩ := mem_of_finds hplain hfinds
  exact .inr (hstems _ hkey)

/-- The medium that is asked first does not come back from a write. Its record lands
after the call has ended, and is recalled. -/
theorem recall_serves_first_genuine_record_late :
    let hung := twoMedia.adjust "a" hangWrites
    let ended := ((storeByte 1).make hung {}).2.1
    let landed := ended.adjust "a" release
    (ended.recallRecord "k" {}).1 = some ⟨(storeByte 1).record, "b"⟩ ∧
      Course landed {} [storeByte 1] ∧
      (landed.recallRecord "k" {}).1 = some ⟨(storeByte 1).record, "a"⟩ ∧
      ∃ c ∈ [storeByte 1], c.Valid ∧ c.key = "k" ∧
      (landed.recallValue "k" {}).1 = some c.value := by
  intro hung ended landed
  have hstems : Stems [storeByte 1] (storeByte 1).record :=
    ⟨_, List.mem_singleton_self _, valid_storeByte 1, rfl⟩
  have hone (m : Medium.Rehearsal)
      (hm : m.inner.records = [("k", (storeByte 1).record)]) :
      ∀ e ∈ m.inner.records, Stems [storeByte 1] e.2 := by
    rw [hm]
    exact List.forall_mem_singleton.2 hstems
  have hended : BringsOnly [storeByte 1] hung {} ended {} :=
    bringsOnly_of_records (List.forall_mem_cons.2 ⟨⟨_, rfl, rfl, List.forall_mem_nil _⟩,
      List.forall_mem_singleton.2 ⟨_, rfl, rfl, hone _ rfl⟩⟩)
  have hlanded : BringsOnly [storeByte 1] ended {} landed {} :=
    bringsOnly_of_records (List.forall_mem_cons.2 ⟨⟨_, rfl, rfl, hone _ rfl⟩,
      List.forall_mem_singleton.2 ⟨_, rfl, rfl, hone _ rfl⟩⟩)
  have hstart : Course hung {} [] := by
    have hnothing (m : Medium.Rehearsal) (hplain : m.planted = [])
        (hrecords : m.inner.records = []) (r : Record) :
        ¬Finds (Medium.rehearsal m) {} r := by
      intro hfinds
      obtain ⟨key, hkey⟩ := mem_of_finds hplain hfinds
      rw [hrecords] at hkey
      cases hkey
    exact .start (List.forall_mem_cons.2
      ⟨hnothing _ rfl rfl, List.forall_mem_singleton.2 (hnothing _ rfl rfl)⟩)
  have hcourse : Course landed {} [storeByte 1] :=
    (hstart.call (storeByte 1) fun _ => hended).turn hlanded
  obtain ⟨hserved, _⟩ :=
    recall_serves_first_genuine_record readingKeepsName_medium ended "k" {}
  obtain ⟨hserved', _, hstored⟩ :=
    recall_serves_first_genuine_record readingKeepsName_medium landed "k" {}
  have hgenuine : (storeByte 1).record.verify = true := Record.verify_sign _ _ _ _
  have hfirst : (ended.recallRecord "k" {}).1 = some ⟨(storeByte 1).record, "b"⟩ := by
    refine (hserved.first _).2 ⟨rfl, 1, _, rfl, ⟨⟨rfl, rfl, hgenuine⟩, ?_⟩, rfl⟩
    intro j hj x hx
    obtain rfl : j = 0 := by omega
    cases hx.1
  have hsecond : (landed.recallRecord "k" {}).1 = some ⟨(storeByte 1).record, "a"⟩ :=
    (hserved'.first _).2 ⟨rfl, 0, _, rfl,
      ⟨⟨rfl, rfl, hgenuine⟩, fun j hj => absurd hj (Nat.not_lt_zero j)⟩, rfl⟩
  obtain ⟨c, hc, hvalid, hkey, _, hvalue⟩ :=
    hstored _ _ readingBringsNothing_medium hcourse hsecond
  exact ⟨hfirst, hcourse, hsecond, c, hc, hvalid, hkey, hvalue⟩

end Chronicle.Store
