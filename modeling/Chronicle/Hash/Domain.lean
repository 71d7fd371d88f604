import Chronicle.Hash.Blake3

/-!
# Hash domains

Blocks, keys and nodes are hashed under tags of their own, so that a message of one
kind is never a message of another. `message` is the byte string that is hashed; the
hash is a function of it alone.
-/

namespace Chronicle.Hash

/-- A kind of hashed message, named by its tag (`ContentHasher`). -/
structure Domain where
  /-- What every message of the kind begins with, before a colon. -/
  tag : String
deriving DecidableEq

namespace Domain

/-- Blocks of the ledger. -/
def block : Domain := ⟨"mnemo-block-v1"⟩

/-- Keys of records. -/
def key : Domain := ⟨"mnemo-key-v1"⟩

/-- Nodes of a lineage. -/
def node : Domain := ⟨"mnemo-node-v1"⟩

/-- The message made of several parts: tag, colon, and the parts one after the other. -/
def message (d : Domain) (parts : List Bytes) : Bytes :=
  Bytes.ofText d.tag ++ Bytes.ofText ":" ++ parts.flatten

/-- The hash of the parts (`hash_parts`). -/
def hashParts (d : Domain) (parts : List Bytes) : Digest :=
  Blake3.hash (d.message parts)

/-- The hash of one byte string. -/
def hash (d : Domain) (bs : Bytes) : Digest := d.hashParts [bs]

/-- The digest is the hash of the parts. -/
def verify (d : Domain) (parts : List Bytes) (expected : Digest) : Bool :=
  d.hashParts parts == expected

end Domain

end Chronicle.Hash
