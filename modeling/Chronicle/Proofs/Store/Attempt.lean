import Chronicle.Proofs.NameMap
import Chronicle.Proofs.Store.Recall

/-!
# One attempt to store a value

A valid call hands its record to every medium and then enters the attempt in the
ledger. Each medium counts one acknowledgement or one failure, whatever it answered.
The block says how many media took the record, and the receipt says which.

* `Member.write_acked_iff`: when a write is acknowledged.
* `Dispatched`: what the media have counted, and what they answered.
* `Recorded`, `Reports`: what the block and the receipt say about the attempt.
* `settle_of_append`: an attempt ends as the ledger answers.
-/

namespace Chronicle.Store

open Medium (Adapter Answer)

variable {μ : Type} [Adapter μ]

/-! ## The media -/

/-- Taking a record does not change the name of a medium. -/
def NamesStay (μ : Type) [Adapter μ] : Prop :=
  ∀ (m : μ) (r : Record) (d : Disk), Adapter.name (Adapter.write m r d).2.1 =
    Adapter.name m

theorem namesStay_medium [Compression] [Table.Engine] : NamesStay Medium := by
  intro m r d
  cases m with
  | rehearsal m =>
    show (m.write r).2.inner.name = m.inner.name
    rw [Medium.Rehearsal.write]
    split <;> rfl
  | files m =>
    show (m.write r d).2.1.format.name = m.format.name
    rw [Medium.Files.write]
    split
    · rfl
    · simp only
      split
      · rfl
      · split
        · rfl
        · split <;> rfl
  | memory m => rfl
  | structured m => rfl
  | lineage m => rfl
  | archive m => rfl

/-- The member counts the outcome of one write: one acknowledgement or one failure. -/
structure Member.Counts (m m' : Member μ) (o : Outcome) : Prop where
  name : m'.name = m.name
  acks : m'.acks = m.acks + if o.isAcked then 1 else 0
  failures : m'.failures = m.failures + if o.isAcked then 0 else 1

omit [Adapter μ] in
/-- A call is made if there is a slot for it, and may keep the slot. -/
theorem Member.call_cases {α : Type} (slots : Nat) (m : Member μ)
    (run : μ → Disk → Answer α × μ × Disk) (d : Disk) :
    m.call slots run d = (.unanswered, m, d) ∨
      ∃ held, m.call slots run d =
        ((run m.medium d).1, { m with medium := (run m.medium d).2.1, held },
          (run m.medium d).2.2) := by
  rw [call]
  split
  · exact .inl rfl
  · cases hrun : run m.medium d with
    | mk a rest =>
      obtain ⟨medium, d'⟩ := rest
      cases a <;> exact .inr ⟨_, rfl⟩

omit [Adapter μ] in
/-- A call changes neither count. It leaves the medium alone if there is no slot for
it. -/
theorem Member.call_spec {α : Type} (slots : Nat) (m : Member μ)
    (run : μ → Disk → Answer α × μ × Disk) (d : Disk) :
    (m.call slots run d).2.1.acks = m.acks ∧
      (m.call slots run d).2.1.failures = m.failures ∧
      ((m.call slots run d).2.1.medium = m.medium ∨
        (m.call slots run d).2.1.medium = (run m.medium d).2.1) := by
  rcases m.call_cases slots run d with h | ⟨held, h⟩ <;> rw [h]
  · exact ⟨rfl, rfl, .inl rfl⟩
  · exact ⟨rfl, rfl, .inr rfl⟩

theorem Member.write_counts (hnames : NamesStay μ) (slots : Nat) (m : Member μ)
    (r : Record) (d : Disk) :
    m.Counts (m.write slots r d).2.1 (m.write slots r d).1 := by
  obtain ⟨hacks, hfailures, hmedium⟩ :=
    m.call_spec slots (fun medium d => Adapter.write medium r d) d
  rw [write]
  generalize m.call slots (fun medium d => Adapter.write medium r d) d = result at *
  obtain ⟨a, m₁, d₁⟩ := result
  simp only at hacks hfailures hmedium ⊢
  have hname : Adapter.name m₁.medium = Adapter.name m.medium := by
    rcases hmedium with h | h
    · rw [h]
    · rw [h, hnames]
  rw [count]
  split
  · exact ⟨hname, by simp [*], by simp [*]⟩
  · exact ⟨hname, by simp [*], by simp [*]⟩

/-- A write is acknowledged exactly if there was a slot for it and the medium did the
work: not if the medium failed, broke down or did not come back. -/
theorem Member.write_acked_iff (slots : Nat) (m : Member μ) (r : Record) (d : Disk) :
    (m.write slots r d).1 = .acked ↔ m.held < slots ∧
      (Adapter.write m.medium r d).1 = .done () := by
  rw [write, call]
  by_cases hfull : slots ≤ m.held
  · rw [if_pos hfull]
    simp [Outcome.ofAnswer, Nat.not_lt.2 hfull]
  · rw [if_neg hfull]
    cases hrun : Adapter.write m.medium r d with
    | mk a rest =>
      obtain ⟨medium, d'⟩ := rest
      cases a <;> simp [Outcome.ofAnswer, Nat.not_le.1 hfull]

/-! ## The outcomes -/

/-- Every medium was handed the record once. There is one outcome under its name,
which is what it answered, and it has counted that outcome. -/
structure Dispatched (slots : Nat) (r : Record) (members members' : List (Member μ))
    (outcomes : List (String × Outcome)) : Prop where
  names : outcomes.map (·.1) = members.map Member.name
  answers : ∀ (i : Nat) (m : Member μ) (o : String × Outcome), members[i]? = some m →
    outcomes[i]? = some o →
    ∃ m' d d', m.write slots r d = (o.2, m', d') ∧ members'[i]? = some m' ∧
    m.Counts m' o.2 ∧
      (o.2 = .acked ↔ m.held < slots ∧ (Adapter.write m.medium r d).1 = .done ())
  length : members'.length = members.length

theorem dispatched_dispatch (hnames : NamesStay μ) (slots : Nat) (r : Record)
    (ms : List (Member μ)) (d : Disk) :
    Dispatched slots r ms (dispatch slots r ms d).2.1 (dispatch slots r ms d).1 := by
  induction ms generalizing d with
  | nil => exact ⟨rfl, fun i m o hm => by simp at hm, rfl⟩
  | cons m ms ih =>
    have hcounts := m.write_counts hnames slots r d
    have hrest := ih (m.write slots r d).2.2
    refine ⟨?_, ?_, congrArg (· + 1) hrest.length⟩
    · show (m.write slots r d).2.1.name ::
        (dispatch slots r ms (m.write slots r d).2.2).1.map (·.1) = _
      rw [hcounts.name, hrest.names, List.map_cons]
    · intro i x o hx ho
      cases i with
      | zero =>
        cases hx
        cases ho
        exact ⟨_, d, _, rfl, rfl, hcounts, m.write_acked_iff slots r d⟩
      | succ i => exact hrest.answers i x o hx ho

variable {slots : Nat} {r : Record} {ms ms' : List (Member μ)}
    {outcomes : List (String × Outcome)}

theorem Dispatched.length_outcomes (h : Dispatched slots r ms ms' outcomes) :
    outcomes.length = ms.length := by
  have hlength := congrArg List.length h.names
  simpa using hlength

/-- Whatever a medium has counted now, it had counted one outcome less before. -/
theorem Dispatched.mem (h : Dispatched slots r ms ms' outcomes) {m' : Member μ}
    (hm' : m' ∈ ms') :
    ∃ m ∈ ms, ∃ o ∈ outcomes, m.Counts m' o.2 := by
  obtain ⟨i, hi⟩ := List.mem_iff_getElem?.1 hm'
  have hlt : i < ms'.length := (List.getElem?_eq_some_iff.1 hi).1
  have hms : i < ms.length := h.length ▸ hlt
  have hos : i < outcomes.length := h.length_outcomes ▸ hms
  obtain ⟨m'', _, _, _, hm'', hcounts, _⟩ :=
    h.answers i ms[i] outcomes[i] (List.getElem?_eq_getElem hms)
      (List.getElem?_eq_getElem hos)
  rw [hi] at hm''
  cases hm''
  exact ⟨ms[i], List.getElem_mem hms, outcomes[i], List.getElem_mem hos, hcounts⟩

theorem Dispatched.names_eq (h : Dispatched slots r ms ms' outcomes) :
    ms'.map Member.name = ms.map Member.name := by
  apply List.ext_getElem?
  intro i
  by_cases hi : i < ms.length
  · have hos : i < outcomes.length := h.length_outcomes ▸ hi
    obtain ⟨m', _, _, _, hm', hcounts, _⟩ :=
      h.answers i ms[i] outcomes[i] (List.getElem?_eq_getElem hi)
        (List.getElem?_eq_getElem hos)
    rw [List.getElem?_map, List.getElem?_map, hm', List.getElem?_eq_getElem hi]
    exact congrArg some hcounts.name
  · have hi' : ms'.length ≤ i := h.length ▸ Nat.not_lt.1 hi
    simp [List.getElem?_eq_none hi', List.getElem?_eq_none (Nat.not_lt.1 hi)]

/-! ## The block and the receipt -/

/-- How many media took the record. -/
def ackCount (outcomes : List (String × Outcome)) : Nat :=
  outcomes.countP fun o => o.2.isAcked

/-- How many media took the record, as the ledger is told. -/
def ackWord (outcomes : List (String × Outcome)) : UInt32 :=
  UInt32.ofNat (NameSet.ofNames (ackedNames outcomes)).size

theorem ackedNames_nodup {outcomes : List (String × Outcome)}
    (h : (outcomes.map (·.1)).Nodup) :
    (ackedNames outcomes).Nodup :=
  (List.filter_sublist.map _).nodup h

/-- With names that differ, no medium is counted for another one. -/
theorem ackWord_eq {outcomes : List (String × Outcome)}
    (h : (outcomes.map (·.1)).Nodup) :
    ackWord outcomes = UInt32.ofNat (ackCount outcomes) := by
  rw [ackWord, NameSet.size_ofNames (ackedNames_nodup h), ackedNames, List.length_map,
    ackCount, List.countP_eq_length_filter]

theorem toNat_ackWord {outcomes : List (String × Outcome)}
    (h : (outcomes.map (·.1)).Nodup) (hlength : outcomes.length < UInt32.size) :
    (ackWord outcomes).toNat = ackCount outcomes := by
  rw [ackWord_eq h]
  exact Nat.mod_eq_of_lt (Nat.lt_of_le_of_lt List.countP_le_length hlength)

/-- What the block of an attempt says. -/
structure Recorded (r : Record) (outcomes : List (String × Outcome))
    (b : Block) : Prop where
  payload : b.payload = r.signature
  acks : b.acks = UInt32.ofNat (ackCount outcomes)
  /-- No store has so many media that their number is cut. -/
  exact : outcomes.length < UInt32.size → b.acks.toNat = ackCount outcomes
  succeeded : b.succeeded = decide (1 ≤ b.acks)

theorem recorded_of_nextBlock? {t : Ledger.Tail} {now : Timestamp} {r : Record}
    {outcomes : List (String × Outcome)} {b : Block}
    (hnames : (outcomes.map (·.1)).Nodup)
    (h : Ledger.nextBlock? t now r.signature (ackWord outcomes) = some b) :
    Recorded r outcomes b := by
  obtain ⟨_, _, hpayload, hsucceeded, hacks, _⟩ := Ledger.nextBlock?_eq_some h
  refine ⟨hpayload, hacks.trans (ackWord_eq hnames), ?_, by rw [hsucceeded, hacks]⟩
  intro hlength
  rw [hacks, toNat_ackWord hnames hlength]

/-- What the receipt of an attempt says: one outcome for each medium, which of them
took the record, and where the attempt is in the ledger. -/
structure Reports (r : Record) (outcomes : List (String × Outcome)) (b : Block)
    (x : Receipt) : Prop where
  key : x.key = r.key
  signature : x.signature = r.signature
  stamp : x.stamp = r.stamp
  media : x.outcomes.names.Perm (outcomes.map (·.1))
  outcome : ∀ name o, x.outcomes.get? name = some o ↔ (name, o) ∈ outcomes
  acked : ∀ name, name ∈ x.acked.names ↔ x.outcomes.get? name = some .acked
  ackCount : x.ackCount = b.acks
  success : x.success = b.succeeded
  blockIndex : x.blockIndex = b.index
  chainHash : x.chainHash = b.hash

theorem mem_ackedNames {outcomes : List (String × Outcome)} {name : String} :
    name ∈ ackedNames outcomes ↔ (name, Outcome.acked) ∈ outcomes := by
  simp only [ackedNames, List.mem_map, List.mem_filter, Outcome.isAcked, beq_iff_eq]
  constructor
  · rintro ⟨⟨n, o⟩, ⟨hin, rfl⟩, rfl⟩
    exact hin
  · intro hin
    exact ⟨_, ⟨hin, rfl⟩, rfl⟩

theorem reports_receipt {r : Record} {outcomes : List (String × Outcome)} (b : Block)
    (h : (outcomes.map (·.1)).Nodup) : Reports r outcomes b (receipt r outcomes b) where
  key := rfl
  signature := rfl
  stamp := rfl
  media := NameMap.names_ofList_perm h
  outcome := by
    intro name o
    show (NameMap.ofList outcomes).get? name = some o ↔ _
    rw [NameMap.get?_ofList h, NameMap.lookup_eq_some_iff_mem h]
  acked := by
    intro name
    show name ∈ (NameSet.ofNames (ackedNames outcomes)).names ↔
      (NameMap.ofList outcomes).get? name = some .acked
    rw [(NameSet.names_ofNames_perm (ackedNames_nodup h)).mem_iff, mem_ackedNames,
      NameMap.get?_ofList h, NameMap.lookup_eq_some_iff_mem h]
  ackCount := rfl
  success := rfl
  blockIndex := rfl
  chainHash := rfl

/-! ## The end of an attempt -/

/-- What the caller gets for what the ledger answers. -/
def answerOf (r : Record) (outcomes : List (String × Outcome)) :
    Except (Failure Ledger.Error) Block → Except Error Receipt
  | .ok b =>
    if b.succeeded then .ok (receipt r outcomes b)
    else .error (.noBackendAvailable (receipt r outcomes b))
  | .error (.error e) => .error (.ledger e)
  | .error .breakdown => .error .runtime

omit [Adapter μ] in
theorem settle_of_append {s : Store μ} {r : Record} {outcomes : List (String × Outcome)}
    {now : Timestamp} {d d' : Disk} {a : Except (Failure Ledger.Error) Block}
    {l' : Ledger}
    (h : s.ledger.append now r.signature (decide (1 ≤ ackWord outcomes))
      (ackWord outcomes) d = (a, l', d')) :
    s.settle r outcomes now d =
      (answerOf r outcomes a, { s with ledger := l' }, d') := by
  rw [ackWord] at h
  simp only [settle, h]
  cases a with
  | ok b => rfl
  | error f => cases f <;> rfl

end Chronicle.Store
