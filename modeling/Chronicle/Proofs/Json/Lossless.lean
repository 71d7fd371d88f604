import Chronicle.Proofs.Ledger.FileLog
import Chronicle.Proofs.Medium.Document
import Chronicle.Proofs.NameMap
import Chronicle.Store.Report

/-!
# JSON forms lose nothing

A form is a writer to JSON values with its reader. It is faithful if the reader
undoes the writer and everything that is written has a text from which the value
comes back. Lists and tables of values have faithful forms if the values have, and
structures are put together from the forms of their fields.

* `Faithful.parse?_render`: a value is found again in its text, in either layout.
* `Faithful.list`, `NameMap.faithful`, `NameSet.faithful`: lists, tables and sets of
  names.
* `Receipt.faithful`, `Stats.faithful`, `Outcome.faithful`: what a store reports.
* `json_forms_lose_nothing`: documents, lines of the ledger and reports are all read
  back.
-/

namespace Chronicle

namespace Json

variable {α : Type}

/-- The reader undoes the writer, and what is written can be told from its text. -/
structure Faithful (write : α → Json) (read : Json → Option α) : Prop where
  plain : ∀ a, (write a).Plain
  read_write : ∀ a, read (write a) = some a

theorem Faithful.parse?_render {write : α → Json} {read : Json → Option α}
    (h : Faithful write read) (layout : Layout) (a : α) :
    (parse? (render layout (write a))).bind read = some a := by
  rw [Json.parse?_render layout (h.plain a)]
  exact h.read_write a

theorem faithful_string : Faithful string string? where
  plain _ := trivial
  read_write _ := rfl

theorem faithful_uint64 : Faithful (fun n : UInt64 => natural n.toNat) uint64? where
  plain := plain_uint64
  read_write := uint64?_natural

/-! ## Lists and tables -/

/-- Items that are read back one by one are all read back. -/
theorem mapM_map_eq_some {β : Type} {f : α → β} {g : β → Option α}
    (h : ∀ a, g (f a) = some a) (as : List α) :
    (as.map f).mapM g = some as := by
  induction as with
  | nil => rfl
  | cons a as ih =>
    rw [List.map_cons, List.mapM_cons, h, ih]
    rfl

theorem Faithful.list {write : α → Json} {read : Json → Option α}
    (h : Faithful write read) :
    Faithful (fun as => array (as.map write)) (list? read) where
  plain as := by
    apply plain_array
    intro v hv
    obtain ⟨a, _, rfl⟩ := List.mem_map.1 hv
    exact h.plain a
  read_write as := by
    show (as.map write).mapM read = some as
    exact mapM_map_eq_some h.read_write as

theorem Faithful.table {write : α → Json} {read : Json → Option α}
    (h : Faithful write read) :
    Faithful (fun es : List (String × α) => object (es.map fun e => (e.1, write e.2)))
      (table? read) where
  plain es := by
    apply plain_object
    intro m hm
    obtain ⟨e, _, rfl⟩ := List.mem_map.1 hm
    exact h.plain e.2
  read_write es := by
    have hentry : ∀ e : String × α,
        (read (write e.2)).map (fun a => (e.1, a)) = some e := by
      intro e
      rw [h.read_write]
      rfl
    show (es.map fun e => (e.1, write e.2)).mapM
      (fun m => (read m.2).map fun a => (m.1, a)) = some es
    exact mapM_map_eq_some hentry es

end Json

open Json

theorem NameMap.faithful {α : Type} {write : α → Json} {read : Json → Option α}
    (h : Faithful write read) :
    Faithful (toJson write) (ofJson? read) where
  plain m := h.table.plain m.entries
  read_write m := by
    have hentries : table? read (toJson write m) = some m.entries :=
      h.table.read_write m.entries
    rw [ofJson?, hentries, Option.map_some, ofList_entries]

theorem NameSet.faithful : Faithful toJson ofJson? where
  plain s := faithful_string.list.plain s.names
  read_write s := by
    have hnames : list? string? (toJson s) = some s.names :=
      faithful_string.list.read_write s.names
    rw [ofJson?, hnames, Option.map_some, ofNames_names]

/-! ## Reports -/

/-- Only a failure has a reason, and a missing reason is told apart from an empty
one. -/
theorem Outcome.faithful : Faithful toJson ofJson? where
  plain o := by
    cases o <;> exact plain_object (by simp [plain_string])
  read_write o := by
    cases o <;> rfl

theorem Receipt.faithful : Faithful toJson ofJson? where
  plain r := by
    apply plain_object
    simp [plain_string, Digest.plain_toJson, Timestamp.plain_toJson,
      NameSet.faithful.plain, (NameMap.faithful Outcome.faithful).plain, plain_uint32,
      plain_uint64, plain_bool]
  read_write r := by
    have hfields : r.toJson.fields?
        ["key", "signature", "timestamp", "acked_backends", "outcomes", "ack_count",
        "success", "block_index", "chain_hash"] =
        some [some (.string r.key), some r.signature.toJson, some r.stamp.toJson,
          some (NameSet.toJson r.acked),
          some (r.outcomes.toJson Outcome.toJson), some (.natural r.ackCount.toNat),
          some (.bool r.success),
          some (.natural r.blockIndex.toNat), some r.chainHash.toJson] := rfl
    simp only [ofJson?, hfields, Option.bind_eq_bind, Option.bind_some, string?, bool?,
      Digest.ofJson?_toJson, Timestamp.ofJson?_toJson, NameSet.faithful.read_write,
      (NameMap.faithful Outcome.faithful).read_write, uint32?_natural, uint64?_natural]
    rfl

theorem Stats.faithful : Faithful toJson ofJson? where
  plain s := by
    apply plain_object
    simp [plain_uint64, (NameMap.faithful faithful_uint64).plain]
  read_write s := by
    have hfields : s.toJson.fields?
        ["total_records", "chain_length", "failed_attempts", "per_backend_acks",
        "per_backend_failures"] =
        some [some (.natural s.totalRecords.toNat), some (.natural s.chainLength.toNat),
          some (.natural s.failedAttempts.toNat),
          some (s.acks.toJson fun n => .natural n.toNat),
          some (s.failures.toJson fun n => .natural n.toNat)] := rfl
    simp only [ofJson?, hfields, Option.bind_eq_bind, Option.bind_some, uint64?_natural,
      (NameMap.faithful faithful_uint64).read_write]
    rfl

/-- Nothing is lost in a document, in a line of the ledger or in a report, whatever
texts and numbers they hold. -/
theorem Json.json_forms_lose_nothing :
    (∀ (path : String) (r : Record), Record.ofDocument path r.toDocument = .ok r) ∧
      (∀ b : Block, Text.Lines.newline ∉ b.toLine ∧
        Ledger.FileLog.block? b.toLine = some b) ∧
      (∀ r : Receipt, (parse? r.toJson.compact).bind Receipt.ofJson? = some r) ∧
      (∀ s : Stats, (parse? s.toJson.compact).bind Stats.ofJson? = some s) ∧
      ∀ o : Outcome, (parse? o.toJson.compact).bind Outcome.ofJson? = some o := by
  refine ⟨Record.ofDocument_toDocument, ?_, ?_, ?_, ?_⟩
  · intro b
    exact ⟨b.newline_not_mem_toLine, Ledger.FileLog.block?_toLine b⟩
  · exact Receipt.faithful.parse?_render .compact
  · exact Stats.faithful.parse?_render .compact
  · exact Outcome.faithful.parse?_render .compact

end Chronicle
