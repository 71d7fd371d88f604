import Chronicle.Json.Forms
import Chronicle.NameMap

/-!
# What a store reports

The outcome of one write on one medium, the receipt of an attempt to store a value,
and the counts of a store, each with its JSON form.
-/

namespace Chronicle

/-- How the write of a record on one medium ended (`WriteOutcome`). -/
inductive Outcome where
  /-- The medium took the record. -/
  | acked
  /-- The medium reported an error. -/
  | failed (reason : String)
  /-- The medium did not answer in time. -/
  | timedOut
  /-- The medium broke down. -/
  | panicked
deriving DecidableEq, Repr, Inhabited

namespace Outcome

/-- The medium took the record. -/
def isAcked (o : Outcome) : Bool := o == acked

/-- The name of the outcome, and the reason behind it. -/
def toJson : Outcome → Json
  | acked => .object [("outcome", .string "acked")]
  | failed reason => .object [("outcome", .string "failed"), ("reason", .string reason)]
  | timedOut => .object [("outcome", .string "timed_out")]
  | panicked => .object [("outcome", .string "panicked")]

/-- The outcome with a name; a failure has a reason, the others none or `null`. -/
def ofParts? (name : String) (reason : Option Json) : Option Outcome :=
  let plain (o : Outcome) : Option Outcome :=
    match reason with
    | none | some .null => some o
    | _ => none
  if name == "acked" then plain acked
  else if name == "timed_out" then plain timedOut
  else if name == "panicked" then plain panicked
  else if name == "failed" then (reason.bind Json.string?).map failed
  else none

/-- An outcome from an object with its name and reason, or from a list of exactly
both, where the name is a text. -/
def ofJson? : Json → Option Outcome
  | .array [name, reason] => do ofParts? (← name.string?) (some reason)
  | .object ms => do
    let name ← (← Json.unique? "outcome" ms).bind Json.choice?
    ofParts? name (← Json.unique? "reason" ms)
  | _ => none

end Outcome

/-- What the caller learns about an attempt to store a value (`PersistResult`). -/
structure Receipt where
  /-- The key. -/
  key : String
  /-- The signature of the value. -/
  signature : Digest
  /-- When the record was taken in. -/
  stamp : Timestamp
  /-- The media that took the record. -/
  acked : NameSet
  /-- The outcome on each medium. -/
  outcomes : NameMap Outcome
  /-- How many media took the record. -/
  ackCount : UInt32
  /-- Some medium took it. -/
  success : Bool
  /-- The index of the block that records the attempt. -/
  blockIndex : UInt64
  /-- The hash of that block. -/
  chainHash : Digest
deriving DecidableEq, Inhabited

namespace NameMap

/-- A table as an object. -/
def toJson {α : Type} (write : α → Json) (m : NameMap α) : Json :=
  .object (m.entries.map fun (name, a) => (name, write a))

/-- A table from an object; of members with the same name the last one counts. -/
def ofJson? {α : Type} (read : Json → Option α) (v : Json) : Option (NameMap α) :=
  (v.table? read).map ofList

end NameMap

namespace NameSet

/-- A set as a list of names. -/
def toJson (s : NameSet) : Json := .array (s.names.map Json.string)

/-- A set from a list of names. -/
def ofJson? (v : Json) : Option NameSet := (v.list? Json.string?).map ofNames

end NameSet

namespace Receipt

/-- The fields of a receipt. -/
def toJson (r : Receipt) : Json :=
  .object [("key", .string r.key), ("signature", r.signature.toJson),
    ("timestamp", r.stamp.toJson),
    ("acked_backends", NameSet.toJson r.acked),
    ("outcomes", r.outcomes.toJson Outcome.toJson),
    ("ack_count", .natural r.ackCount.toNat), ("success", .bool r.success),
    ("block_index", .natural r.blockIndex.toNat), ("chain_hash", r.chainHash.toJson)]

/-- A receipt from its nine fields. -/
def ofJson? (v : Json) : Option Receipt := do
  match ← v.fields? ["key", "signature", "timestamp", "acked_backends", "outcomes",
    "ack_count", "success",
      "block_index", "chain_hash"] with
  | [some key, some signature, some stamp, some acked, some outcomes,
    some ackCount, some success,
      some blockIndex, some chainHash] =>
    return ⟨← key.string?, ← Digest.ofJson? signature, ← Timestamp.ofJson? stamp,
      ← NameSet.ofJson? acked,
      ← NameMap.ofJson? Outcome.ofJson? outcomes, ← ackCount.uint32?, ← success.bool?,
      ← blockIndex.uint64?, ← Digest.ofJson? chainHash⟩
  | _ => none

end Receipt

/-- The counts of a store (`StoreStats`). -/
structure Stats where
  /-- Attempts that some medium took. -/
  totalRecords : UInt64
  /-- Attempts in all. -/
  chainLength : UInt64
  /-- Attempts that no medium took. -/
  failedAttempts : UInt64
  /-- Writes that each medium took since the store was opened. -/
  acks : NameMap UInt64
  /-- Writes that each medium did not take since the store was opened. -/
  failures : NameMap UInt64
deriving DecidableEq, Inhabited

namespace Stats

/-- The fields of the counts. -/
def toJson (s : Stats) : Json :=
  let count (n : UInt64) : Json := .natural n.toNat
  .object [("total_records", count s.totalRecords),
    ("chain_length", count s.chainLength),
    ("failed_attempts", count s.failedAttempts),
    ("per_backend_acks", s.acks.toJson count),
    ("per_backend_failures", s.failures.toJson count)]

/-- Counts from their five fields. -/
def ofJson? (v : Json) : Option Stats := do
  match ← v.fields? ["total_records", "chain_length", "failed_attempts",
    "per_backend_acks",
      "per_backend_failures"] with
  | [some total, some length, some failed, some acks, some failures] =>
    return ⟨← total.uint64?, ← length.uint64?, ← failed.uint64?,
      ← NameMap.ofJson? Json.uint64? acks, ← NameMap.ofJson? Json.uint64? failures⟩
  | _ => none

end Stats

end Chronicle
