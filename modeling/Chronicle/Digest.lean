import Chronicle.Text.Hex

/-!
# Digests

A digest is 32 bytes, written as 64 hexadecimal digits.
-/

namespace Chronicle

/-- The value of a hash function with 32 bytes. -/
structure Digest where
  /-- The bytes, in the order in which they are written. -/
  bytes : Bytes
  /-- There are 32 of them. -/
  size_eq : bytes.length = 32
deriving DecidableEq

namespace Digest

/-- Why a text is no digest (`TypeError`). -/
inductive ParseError where
  /-- It is no hexadecimal form. -/
  | hex (fault : Text.Hex.Fault)
  /-- It stands for a number of bytes other than 32. -/
  | length (found : Nat)
deriving DecidableEq, Repr

namespace ParseError

/-- The error in words. -/
def message : ParseError → String
  | hex fault => s!"invalid hex string: {fault.message}"
  | length found => s!"invalid byte length: expected 32, got {found}"

end ParseError

/-- The digest with the given bytes, if they are 32. -/
def ofBytes? (bs : Bytes) : Option Digest :=
  if h : bs.length = 32 then some ⟨bs, h⟩ else none

/-- The digest whose bytes are all `b`. -/
def ofByte (b : UInt8) : Digest := ⟨List.replicate 32 b, List.length_replicate⟩

/-- The digest of 32 zero bytes: what the first link of a chain names as its
predecessor (`GENESIS_SENTINEL`). -/
def zero : Digest := ofByte 0

instance : Inhabited Digest := ⟨zero⟩

/-- The digest is all zero bytes. -/
def isZero (d : Digest) : Bool := d == zero

/-- The 64 digits of a digest (`to_hex`). -/
def toHex (d : Digest) : String := Text.Hex.toText d.bytes

/-- The first eight digits, enough to tell digests apart in messages. -/
def short (d : Digest) : String := Text.Hex.toText (d.bytes.take 4)

/-- The digest with the given digits (`from_hex`). -/
def ofHex (s : String) : Except ParseError Digest :=
  match Text.Hex.ofText s with
  | .error fault => .error (.hex fault)
  | .ok bs => if h : bs.length = 32 then .ok ⟨bs, h⟩ else .error (.length bs.length)

/-- A digest as descriptions show it. -/
def describe (d : Digest) : String := s!"Digest({d.short})"

/-- Digests are ordered by their bytes, the first difference deciding. -/
def le (a b : Digest) : Bool := compare a.bytes b.bytes != .gt

end Digest

end Chronicle
