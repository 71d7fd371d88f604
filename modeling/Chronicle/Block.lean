import Chronicle.Hash.Domain
import Chronicle.Timestamp

/-!
# Blocks

A block of the ledger records one attempt to store a value: the signature of the
value, when, and how many media took it. Its hash covers every other field, the
predecessor's hash among them.
-/

namespace Chronicle

/-- What a block says, without its hash. -/
structure BlockFields where
  /-- The position in the chain. -/
  index : UInt64
  /-- The hash of the block before, the zero digest for the first. -/
  prev : Digest
  /-- The signature of the value. -/
  payload : Digest
  /-- When the attempt was recorded. -/
  stamp : Timestamp
  /-- Some medium took the value. -/
  succeeded : Bool
  /-- How many media took it. -/
  acks : UInt32
deriving DecidableEq, Inhabited

/-- A block as it is stored. -/
structure Block extends BlockFields where
  /-- The stored hash. -/
  hash : Digest
deriving DecidableEq, Inhabited

namespace BlockFields

/-- The parts of the hashed message; each has a fixed length. -/
def parts (f : BlockFields) : List Bytes :=
  [Bytes.ofUInt64 f.index, f.prev.bytes, f.payload.bytes, f.stamp.bytes,
    [if f.succeeded then 1 else 0], Bytes.ofUInt32 f.acks]

/-- The hashed message. -/
def message (f : BlockFields) : Bytes := Hash.Domain.block.message f.parts

/-- The hash of the fields (`block_hash`). -/
def digest (f : BlockFields) : Digest := Hash.Domain.block.hashParts f.parts

/-- The block with these fields and their hash. -/
def toBlock (f : BlockFields) : Block := { f with hash := f.digest }

end BlockFields

namespace Block

/-- A new block; the attempt succeeded if at least one medium took the value
(`seal`). -/
def sealed (index : UInt64) (prev payload : Digest) (stamp : Timestamp)
    (acks : UInt32) : Block :=
  BlockFields.toBlock ⟨index, prev, payload, stamp, 1 ≤ acks, acks⟩

/-- The stored hash is that of the fields (what `compute_hash` gives). -/
def isSound (b : Block) : Bool := b.toBlockFields.digest == b.hash

end Block

end Chronicle
