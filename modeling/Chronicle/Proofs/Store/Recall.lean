import Chronicle.Compressed
import Chronicle.Medium.Basic
import Chronicle.Proofs.Ledger.Run
import Chronicle.Store.Basic
import Chronicle.Table.File

/-!
# What a store recalls after some media refused

A store asks its media in order and serves the first record that fits. A medium that
refused the last write of a key may still have an older record of it, and if it is
asked before those that took the write, then the older value is recalled.

Which medium took which record is followed through the run: `held` is, for each
medium, the last record of the key that it took. Of the media nothing is supposed but
that they answer with that record when they are asked.

* `ask_of_answers`: asking serves the record of the first medium that has one.
* `Tracked.call`, `Run.tracked`: after a successful call somebody has the value,
  whatever was called before.
* `recall_serves_first_holder`: what is recalled is the value of the first medium
  that has one.
-/

namespace Chronicle.Store

variable {μ : Type} [Medium.Adapter μ]

/-! ## Calls and runs -/

/-- A call to store a value, and what the clock says when the record and the block
are made. -/
structure Call where
  kind : String
  key : String
  value : Bytes
  taken : Timestamp
  entered : Timestamp

/-- Makes the call. -/
def Call.make (c : Call) (s : Store μ) (d : Disk) :
    Except Error Receipt × Store μ × Disk :=
  s.persist c.kind c.key c.value c.taken c.entered d

/-- What the media have of a key after they were handed a record. -/
def heldAfter (key : String) (r : Record) (outcomes : List (String × Outcome))
    (held : List (Option Record)) : List (Option Record) :=
  if r.key = key then
    List.zipWith (fun o h => if o.2.isAcked then some r else h) outcomes held
  else held

/-- What the media have of a key after the call. -/
def Call.held (c : Call) (key : String) (s : Store μ) (d : Disk)
    (held : List (Option Record)) : List (Option Record) :=
  match prepare c.kind c.key c.value c.taken with
  | .error _ => held
  | .ok r => heldAfter key r (dispatch s.slots r s.members d).1 held

/-- The value of the most recent call for a key, if that call succeeded. -/
def Call.latest (c : Call) (key : String) (s : Store μ) (d : Disk)
    (latest : Option Bytes) : Option Bytes :=
  if c.key = key then
    match (c.make s d).1 with
    | .ok _ => some c.value
    | .error _ => none
  else latest

/-- The states that are reached by calls one after the other, with what each medium
has last taken of a key and the value of the most recent call for it. At the start
media may have genuine records of the key. Between calls everything about the media
may change but which they are. -/
inductive Run (key : String) :
    Store μ → Disk → List (Option Record) → Option Bytes → Prop where
  | start {s : Store μ} {d : Disk} {held : List (Option Record)}
      (hlength : held.length = s.members.length)
      (hheld : ∀ r, some r ∈ held → serves key r = true) : Run key s d held none
  | turn {s s' : Store μ} {d d' : Disk} {held : List (Option Record)}
      {latest : Option Bytes} (h : Run key s d held latest)
      (hnames : s'.names = s.names) : Run key s' d' held latest
  | call {s : Store μ} {d : Disk} {held : List (Option Record)} {latest : Option Bytes}
      (h : Run key s d held latest) (c : Call) :
      Run key (c.make s d).2.1 (c.make s d).2.2 (c.held key s d held)
        (c.latest key s d latest)

/-- Asked for the key one after the other, the media all answer, with these records. -/
def Answers (slots : Nat) (key : String) :
    List (Member μ) → List (Option Record) → Disk → Prop
  | [], [], _ => True
  | m :: ms, h :: held, d =>
    (m.read slots key d).1 = .done h ∧
      Answers slots key ms held (m.read slots key d).2.2
  | _, _, _ => False

/-! ## Asking -/

theorem offered?_of_serves {key : String} {h : Option Record}
    (hserves : ∀ r, h = some r → serves key r = true) :
    offered? key (.done h) = h := by
  cases h with
  | none => rfl
  | some r => rw [offered?, if_pos (hserves r rfl)]

/-- Asking serves the record of the first medium that has one. -/
theorem ask_of_answers {slots : Nat} {key : String} {ms : List (Member μ)}
    {held : List (Option Record)} {d : Disk} (h : Answers slots key ms held d)
    (hserves : ∀ r, some r ∈ held → serves key r = true) :
    (ask slots key ms d).1.map (·.record) = held.findSome? id := by
  induction ms generalizing held d with
  | nil =>
    cases held with
    | nil => rfl
    | cons _ _ => exact h.elim
  | cons m ms ih =>
    cases held with
    | nil => exact h.elim
    | cons first held =>
      obtain ⟨hfirst, hrest⟩ := h
      rw [ask]
      cases hread : m.read slots key d with
      | mk a rest =>
        obtain ⟨m', d'⟩ := rest
        rw [hread] at hfirst hrest
        simp only at hfirst hrest
        subst hfirst
        have hoffered : offered? key (.done first) = first :=
          offered?_of_serves fun r hr => hserves r (hr ▸ List.mem_cons_self)
        simp only [hoffered]
        -- A record ends the search, and no record leads on to the other media.
        cases first with
        | some r => rfl
        | none =>
          rw [List.findSome?_cons]
          exact ih hrest fun r hr => hserves r (List.mem_cons_of_mem _ hr)

/-! ## Storing -/

theorem prepare_eq_ok {kind key : String} {value : Bytes} {now : Timestamp} {r : Record}
    (h : prepare kind key value now = .ok r) :
    Record.checkKey key = .ok () ∧ r = Record.sign kind key value now := by
  rw [prepare] at h
  split at h
  · cases h
  · split at h
    · cases h
    · next hkey =>
      cases h
      exact ⟨hkey, rfl⟩

theorem serves_sign (kind key : String) (value : Bytes) (now : Timestamp) :
    serves key (Record.sign kind key value now) = true := by
  rw [serves, Record.verify_sign, Bool.and_true]
  exact beq_self_eq_true key

theorem length_dispatch (slots : Nat) (r : Record) (ms : List (Member μ)) (d : Disk) :
    (dispatch slots r ms d).1.length = ms.length ∧
      (dispatch slots r ms d).2.1.length = ms.length := by
  induction ms generalizing d with
  | nil => exact ⟨rfl, rfl⟩
  | cons m ms ih =>
    obtain ⟨houtcomes, hmembers⟩ := ih (m.write slots r d).2.2
    exact ⟨congrArg (· + 1) houtcomes, congrArg (· + 1) hmembers⟩

omit [Medium.Adapter μ] in
theorem members_settle (s : Store μ) (r : Record) (outcomes : List (String × Outcome))
    (now : Timestamp) (d : Disk) :
    (s.settle r outcomes now d).2.1.members = s.members := by
  rw [settle]
  split <;> rfl

theorem succeeded_of_append_ok {l l' : Ledger} {now : Timestamp} {payload : Digest}
    {succeeded : Bool} {acks : UInt32} {d d' : Disk} {b : Block}
    (h : l.append now payload succeeded acks d = (.ok b, l', d')) :
    b.succeeded = decide (1 ≤ acks) := by
  rw [Ledger.append] at h
  split at h
  · cases h
  · split at h
    · cases h
    · split at h
      · cases h
      · next hb =>
        split at h
        · cases h
        · split at h
          · cases h
          · cases h
            exact (Ledger.nextBlock?_eq_some hb).2.2.2.1

omit [Medium.Adapter μ] in
/-- An attempt that nobody took is never reported as a success. -/
theorem exists_acked_of_settle_ok {s : Store μ} {r : Record}
    {outcomes : List (String × Outcome)} {now : Timestamp} {d : Disk}
    {receipt : Receipt} (h : (s.settle r outcomes now d).1 = .ok receipt) :
    ∃ o ∈ outcomes, o.2.isAcked = true := by
  have hnone : ackedNames outcomes ≠ [] := by
    intro hempty
    rw [settle, hempty] at h
    simp only at h
    split at h
    · cases h
    · cases h
    · next b _ _ happend =>
      have hb : b.succeeded = false := succeeded_of_append_ok happend
      rw [hb] at h
      cases h
  obtain ⟨name, hname⟩ := List.exists_mem_of_ne_nil _ hnone
  obtain ⟨o, ho, _⟩ := List.mem_map.1 hname
  exact ⟨o, (List.mem_filter.1 ho).1, (List.mem_filter.1 ho).2⟩

/-! ## What the media have -/

theorem mem_heldAfter {key : String} {r x : Record} {outcomes : List (String × Outcome)}
    {held : List (Option Record)} (h : some x ∈ heldAfter key r outcomes held) :
    (r.key = key ∧ x = r) ∨ some x ∈ held := by
  rw [heldAfter] at h
  split at h
  · next hkey =>
    induction outcomes generalizing held with
    | nil =>
      rw [List.zipWith_nil_left] at h
      cases h
    | cons o outcomes ih =>
      cases held with
      | nil => cases h
      | cons first held =>
        rw [List.zipWith_cons_cons] at h
        rcases List.mem_cons.1 h with hx | hx
        · split at hx
          · exact .inl ⟨hkey, Option.some.inj hx⟩
          · exact .inr (hx ▸ List.mem_cons_self)
        · rcases ih hx with hr | hin
          · exact .inl hr
          · exact .inr (List.mem_cons_of_mem _ hin)
  · exact .inr h

/-- A medium that took the record has it. -/
theorem mem_heldAfter_of_acked {r : Record} {outcomes : List (String × Outcome)}
    {held : List (Option Record)} (hlength : held.length = outcomes.length)
    {o : String × Outcome} (ho : o ∈ outcomes) (hacked : o.2.isAcked = true) :
    some r ∈ heldAfter r.key r outcomes held := by
  rw [heldAfter, if_pos rfl]
  induction outcomes generalizing held with
  | nil => cases ho
  | cons p outcomes ih =>
    cases held with
    | nil => cases hlength
    | cons first held =>
      rw [List.zipWith_cons_cons]
      rcases List.mem_cons.1 ho with rfl | ho
      · rw [if_pos hacked]
        exact List.mem_cons_self
      · exact List.mem_cons_of_mem _ (ih (Nat.succ.inj hlength) ho)

theorem length_heldAfter {key : String} {r : Record}
    {outcomes : List (String × Outcome)} {held : List (Option Record)}
    (hlength : held.length = outcomes.length) :
    (heldAfter key r outcomes held).length = held.length := by
  rw [heldAfter]
  split
  · rw [List.length_zipWith, hlength, Nat.min_self]
  · rfl

/-! ## What one call does -/

theorem Call.make_of_prepare_ok {c : Call} {r : Record}
    (hr : prepare c.kind c.key c.value c.taken = .ok r) (s : Store μ) (d : Disk) :
    c.make s d = settle { s with members := (dispatch s.slots r s.members d).2.1 } r
      (dispatch s.slots r s.members d).1 c.entered
        (dispatch s.slots r s.members d).2.2 := by
  rw [make, persist, hr]

theorem Call.make_of_prepare_error {c : Call} {e : Record.Invalid}
    (he : prepare c.kind c.key c.value c.taken = .error e) (s : Store μ) (d : Disk) :
    c.make s d = (.error (.invalid e), s, d) := by
  rw [make, persist, he]

/-- What a call leaves true of the media and of what they have of a key. -/
structure Tracked (key : String) (s : Store μ) (held : List (Option Record))
    (latest : Option Bytes) : Prop where
  length : held.length = s.members.length
  genuine : ∀ r, some r ∈ held → serves key r = true
  /-- If the most recent call succeeded, the key is one that can be asked for, and
  somebody has the value. -/
  latest : ∀ v, latest = some v → Record.checkKey key = .ok () ∧
    ∃ r, some r ∈ held ∧ r.value = v

theorem Tracked.call {key : String} {s : Store μ} {held : List (Option Record)}
    {latest : Option Bytes} (h : Tracked key s held latest) (c : Call) (d : Disk) :
    Tracked key (c.make s d).2.1 (c.held key s d held) (c.latest key s d latest) := by
  cases hp : prepare c.kind c.key c.value c.taken with
  | error e =>
    -- A call that is not valid reaches no medium.
    have hheld : c.held key s d held = held := by rw [Call.held, hp]
    rw [c.make_of_prepare_error hp, hheld]
    refine ⟨h.length, h.genuine, ?_⟩
    intro v hv
    rw [Call.latest, c.make_of_prepare_error hp] at hv
    split at hv
    · cases hv
    · exact h.latest v hv
  | ok r =>
    obtain ⟨hcheck, hr⟩ := prepare_eq_ok hp
    have hkey : r.key = c.key := congrArg Record.key hr
    have hvalue : r.value = c.value := congrArg Record.value hr
    have hserves : serves c.key r = true := hr ▸ serves_sign _ _ _ _
    have hheld : c.held key s d held =
        heldAfter key r (dispatch s.slots r s.members d).1 held := by
      rw [Call.held, hp]
    obtain ⟨houtcomes, hmembers⟩ := length_dispatch s.slots r s.members d
    have hlength : held.length = (dispatch s.slots r s.members d).1.length := by
      rw [houtcomes, h.length]
    rw [hheld]
    refine ⟨?_, ?_, ?_⟩
    · rw [length_heldAfter hlength, c.make_of_prepare_ok hp, members_settle,
        hmembers, h.length]
    · intro x hx
      rcases mem_heldAfter hx with ⟨hsame, rfl⟩ | hin
      · rw [← hsame, hkey]
        exact hserves
      · exact h.genuine x hin
    · intro v hv
      rw [Call.latest] at hv
      split at hv
      · next hsame =>
        subst hsame
        split at hv
        · next receipt hok =>
          -- The call succeeded, so one of the media took the record and has it now.
          rw [c.make_of_prepare_ok hp] at hok
          obtain ⟨o, ho, hacked⟩ := exists_acked_of_settle_ok hok
          refine ⟨hcheck, r, ?_, hvalue.trans (Option.some.inj hv)⟩
          rw [← hkey]
          exact mem_heldAfter_of_acked hlength ho hacked
        · cases hv
      · next hother =>
        obtain ⟨hkeyok, x, hx, hxv⟩ := h.latest v hv
        refine ⟨hkeyok, x, ?_, hxv⟩
        rw [heldAfter, if_neg (fun hsame => hother (hkey.symm.trans hsame))]
        exact hx

theorem Run.tracked {key : String} {s : Store μ} {d : Disk}
    {held : List (Option Record)} {latest : Option Bytes}
    (h : Run key s d held latest) : Tracked key s held latest := by
  induction h with
  | start hlength hheld => exact ⟨hlength, hheld, fun v hv => by cases hv⟩
  | turn _ hnames ih =>
    refine ⟨?_, ih.genuine, ih.latest⟩
    have hsame := congrArg List.length hnames
    rw [names, names, List.length_map, List.length_map] at hsame
    rw [ih.length, hsame]
  | call _ c ih => exact ih.call c _

/-! ## Recalling -/

/-- If all media answer, the value that is recalled is that of the first record that
some medium has. -/
theorem recallValue_of_answers {key : String} {s : Store μ} {d : Disk}
    {held : List (Option Record)} (hkey : Record.checkKey key = .ok ())
    (hgenuine : ∀ r, some r ∈ held → serves key r = true)
    (hanswers : Answers s.slots key s.members held d) :
    (s.recallValue key d).1 = (held.findSome? id).map (·.value) := by
  rw [← ask_of_answers hanswers hgenuine, recallValue, recallRecord, hkey,
    Option.map_map]
  rfl

/-- The most recent call for the key succeeded, and all media answer. Then a value is
recalled. It is the one that was stored last exactly if the first medium that has a
record of the key, in the order in which they are asked, has that value: a medium
that took an older value and refused the last one hides it. -/
theorem recall_serves_first_holder {key : String} {s : Store μ} {d : Disk}
    {held : List (Option Record)} {v : Bytes} (hrun : Run key s d held (some v))
    (hanswers : Answers s.slots key s.members held d) :
    (∃ r, some r ∈ held ∧ r.value = v) ∧
      ∃ first, held.findSome? id = some first ∧
      (s.recallValue key d).1 = some first.value ∧
        ((s.recallValue key d).1 = some v ↔ first.value = v) := by
  have htracked := hrun.tracked
  obtain ⟨hkey, r, hr, hvalue⟩ := htracked.latest v rfl
  have hrecall := recallValue_of_answers hkey htracked.genuine hanswers
  refine ⟨⟨r, hr, hvalue⟩, ?_⟩
  cases hfirst : held.findSome? id with
  | none =>
    have hnone := List.findSome?_eq_none_iff.1 hfirst (some r) hr
    cases hnone
  | some first =>
    rw [hfirst] at hrecall
    refine ⟨first, rfl, hrecall, ?_⟩
    rw [hrecall]
    exact ⟨fun h => Option.some.inj h, fun h => congrArg some h⟩

/-! ## A medium that refuses the second value -/

/-- Two media in memory. -/
def twoMedia : Store Medium :=
  ⟨[⟨.rehearsal { inner := { name := "a" } }, 0, 0, 0⟩,
    ⟨.rehearsal { inner := { name := "b" } }, 0, 0, 0⟩], Ledger.inMemory, 4, 1000⟩

/-- The medium refuses records from now on. -/
def refuseWrites (m : Member Medium) : Member Medium :=
  match m.medium with
  | .rehearsal r => { m with medium := .rehearsal { r with writing := .failing .disk } }
  | _ => m

/-- A call for one key. -/
def storeByte (b : UInt8) : Call := ⟨"note", "k", [b], ⟨5, 0⟩, ⟨5, 0⟩⟩

/-- Both media have taken the first value, and the medium that is asked first refuses
all others. -/
def firstRefuses : Store Medium :=
  ((storeByte 1).make twoMedia {}).2.1.adjust "a" refuseWrites

/-- After the second call one medium has the first value and the other the second
one, and the call succeeded. -/
theorem run_firstRefuses :
    Run "k" ((storeByte 2).make firstRefuses {}).2.1 {}
      [some (Record.sign "note" "k" [1] ⟨5, 0⟩),
        some (Record.sign "note" "k" [2] ⟨5, 0⟩)] (some [2]) := by
  have hstart : Run "k" twoMedia {} [none, none] none := by
    refine Run.start rfl ?_
    intro r hr
    rcases List.mem_cons.1 hr with h | h
    · cases h
    · cases List.mem_singleton.1 h
  have hturn : Run "k" firstRefuses {} ((storeByte 1).held "k" twoMedia {} [none, none])
      ((storeByte 1).latest "k" twoMedia {} none) :=
        (hstart.call (storeByte 1)).turn rfl
  exact hturn.call (storeByte 2)

theorem answers_firstRefuses :
    Answers 4 "k" ((storeByte 2).make firstRefuses {}).2.1.members
      [some (Record.sign "note" "k" [1] ⟨5, 0⟩),
        some (Record.sign "note" "k" [2] ⟨5, 0⟩)] {} :=
  ⟨rfl, rfl, trivial⟩

/-- With two media of which the first refuses the second call. -/
theorem recall_serves_first_holder_firstRefuses :
    let s := ((storeByte 2).make firstRefuses {}).2.1
    let held := [some (Record.sign "note" "k" [1] ⟨5, 0⟩),
      some (Record.sign "note" "k" [2] ⟨5, 0⟩)]
    Run "k" s {} held (some [2]) ∧ Answers s.slots "k" s.members held {} ∧
      ∃ first, held.findSome? id = some first ∧
      (s.recallValue "k" {}).1 = some first.value ∧
        ((s.recallValue "k" {}).1 = some [2] ↔ first.value = [2]) :=
  ⟨run_firstRefuses, answers_firstRefuses,
    (recall_serves_first_holder run_firstRefuses answers_firstRefuses).2⟩

/-- The second value was stored with success and both media answer, and the first
value is recalled. -/
theorem older_value_recalled_after_success :
    let s := ((storeByte 2).make firstRefuses {}).2.1
    Run "k" s {} [some (Record.sign "note" "k" [1] ⟨5, 0⟩),
      some (Record.sign "note" "k" [2] ⟨5, 0⟩)]
        (some [2]) ∧
      Answers s.slots "k" s.members
        [some (Record.sign "note" "k" [1] ⟨5, 0⟩),
          some (Record.sign "note" "k" [2] ⟨5, 0⟩)] {} ∧
      (s.recallValue "k" {}).1 = some [1] := by
  refine ⟨run_firstRefuses, answers_firstRefuses, ?_⟩
  exact recallValue_of_answers rfl run_firstRefuses.tracked.genuine answers_firstRefuses

end Chronicle.Store
