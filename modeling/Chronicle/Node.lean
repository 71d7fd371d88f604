import Chronicle.Binary
import Chronicle.Hash.Domain
import Chronicle.Json.Forms

/-!
# Nodes

A node holds one record of a key and the hash of the node that holds the record
before it, so that the newest node of a key leads to the whole history of the key.
-/

namespace Chronicle

/-- A record linked to the one before it. -/
structure Node where
  /-- The record. -/
  record : Record
  /-- The hash of the node before, the zero digest for the first of its key. -/
  prev : Digest
  /-- The stored hash. -/
  hash : Digest
deriving DecidableEq, Inhabited

namespace Node

/-- The parts of the hashed message. -/
def parts (record : Record) (prev : Digest) : List Bytes :=
  [prev.bytes, record.toBinary]

/-- The hash of a record after a node (`compute_hash`). -/
def digest (record : Record) (prev : Digest) : Digest :=
  Hash.Domain.node.hashParts (parts record prev)

/-- The node of a record after a node with hash `prev` (`new`). -/
def link (record : Record) (prev : Digest) : Node := ⟨record, prev, digest record prev⟩

/-- The stored hash is that of the record and the predecessor. -/
def verify (n : Node) : Bool := digest n.record n.prev == n.hash

@[simp] theorem verify_link (record : Record) (prev : Digest) :
    (link record prev).verify = true := by
  simp [link, verify]

/-- The binary form of a node: record, predecessor, hash. -/
def toBinary (n : Node) : Bytes :=
  n.record.toBinary ++ Binary.ofDigest n.prev ++ Binary.ofDigest n.hash

/-- Reads a node. -/
def reader : Binary.Reader Node := do
  return ⟨← Record.reader, ← Binary.digest, ← Binary.digest⟩

/-- The node at the front of a byte string. -/
def ofBinary (s : Bytes) : Except Binary.Fault Node := reader.run' s

/-- The fields of a node. -/
def toJson (n : Node) : Json :=
  .object [("record", n.record.toJson), ("prev", n.prev.toJson),
    ("hash", n.hash.toJson)]

/-- A node from its three fields. -/
def ofJson? (v : Json) : Option Node := do
  match ← v.fields? ["record", "prev", "hash"] with
  | [some record, some prev, some hash] =>
    return ⟨← Record.ofJson? record, ← Digest.ofJson? prev, ← Digest.ofJson? hash⟩
  | _ => none

end Node

end Chronicle
