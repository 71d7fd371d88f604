import Chronicle.Json.Reader
import Chronicle.Json.Shape
import Chronicle.Block
import Chronicle.Record

/-!
# JSON forms of digests, timestamps, records and blocks

Each type has a writer to `Json` and a reader from it; a text is read as JSON first.
-/

namespace Chronicle

namespace Digest

/-- A digest is written as its digits. -/
def toJson (d : Digest) : Json := .string d.toHex

/-- A digest is read from its digits. -/
def ofJson? (v : Json) : Option Digest := do
  match ofHex (← v.string?) with
  | .ok d => some d
  | .error _ => none

end Digest

namespace Timestamp

/-- The reading and the count. -/
def toJson (t : Timestamp) : Json :=
  .object [("unix_ms", .natural t.unixMs.toNat), ("logical", .natural t.logical.toNat)]

/-- A timestamp from its two fields. -/
def ofJson? (v : Json) : Option Timestamp := do
  match ← v.fields? ["unix_ms", "logical"] with
  | [some unixMs, some logical] => return ⟨← unixMs.uint64?, ← logical.uint32?⟩
  | _ => none

end Timestamp

namespace Record

/-- The fields of a record, the value as a list of bytes. -/
def toJson (r : Record) : Json :=
  .object [("type", .string r.kind), ("key", .string r.key),
    ("value", .array (r.value.map fun b => .natural b.toNat)),
    ("signature", r.signature.toJson), ("timestamp", r.stamp.toJson)]

/-- A record from its five fields. -/
def ofJson? (v : Json) : Option Record := do
  match ← v.fields? ["type", "key", "value", "signature", "timestamp"] with
  | [some kind, some key, some value, some signature, some stamp] =>
    return ⟨← kind.string?, ← key.string?,
      (← value.list? (Json.natural? 256)).map UInt8.ofNat,
      ← Digest.ofJson? signature, ← Timestamp.ofJson? stamp⟩
  | _ => none

end Record

namespace Block

/-- The fields of a block, its hash last. -/
def toJson (b : Block) : Json :=
  .object [("index", .natural b.index.toNat), ("prev_hash", b.prev.toJson),
    ("payload_hash", b.payload.toJson), ("timestamp", b.stamp.toJson),
    ("succeeded", .bool b.succeeded),
    ("ack_count", .natural b.acks.toNat), ("hash", b.hash.toJson)]

/-- A block from its seven fields. -/
def ofJson? (v : Json) : Option Block := do
  match ← v.fields? ["index", "prev_hash", "payload_hash", "timestamp", "succeeded",
    "ack_count", "hash"] with
  | [some index, some prev, some payload, some stamp, some succeeded,
    some acks, some hash] =>
    return {
      index := ← index.uint64?
      prev := ← Digest.ofJson? prev
      payload := ← Digest.ofJson? payload
      stamp := ← Timestamp.ofJson? stamp
      succeeded := ← succeeded.bool?
      acks := ← acks.uint32?
      hash := ← Digest.ofJson? hash }
  | _ => none

/-- The block on one line. -/
def toLine (b : Block) : Bytes := b.toJson.compact

/-- The block that a line stands for. -/
def ofLine? (s : Bytes) : Option Block := (Json.parse? s).bind ofJson?

end Block

end Chronicle
