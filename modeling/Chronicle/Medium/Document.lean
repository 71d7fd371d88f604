import Chronicle.Json.Forms
import Chronicle.Medium.Error

/-!
# Records as documents

A document is the object of a record's fields, laid out for reading, with the value
as hexadecimal text.
-/

namespace Chronicle.Record

/-- The fields of a document. -/
def documentFields : List String := ["type", "key", "value", "signature", "timestamp"]

/-- The document of a record (`Document`). -/
def toDocument (r : Record) : Bytes :=
  Json.pretty (.object [("type", .string r.kind), ("key", .string r.key),
    ("value", .string (Text.Hex.toText r.value)), ("signature", r.signature.toJson),
    ("timestamp", r.stamp.toJson)])

/-- What a document says, with the value still as text. -/
def documentParts? (bs : Bytes) :
    Option (String × String × String × Digest × Timestamp) :=
  do
  match ← (← Json.parse? bs).fields? documentFields with
  | [some kind, some key, some value, some signature, some stamp] =>
    return (← kind.string?, ← key.string?, ← value.string?, ← Digest.ofJson? signature,
      ← Timestamp.ofJson? stamp)
  | _ => none

/-- The record in the document at a path. -/
def ofDocument (path : String) (bs : Bytes) : Except Medium.Error Record :=
  match documentParts? bs with
  | none => .error (.corrupt (.document path))
  | some (kind, key, value, signature, stamp) =>
    match Text.Hex.ofText value with
    | .error f => .error (.corrupt (.documentValue key f))
    | .ok value => .ok ⟨kind, key, value, signature, stamp⟩

end Chronicle.Record
