import Chronicle.Record
import Chronicle.Text.Utf8

/-!
# The binary form of records

Fields one after the other: numbers least significant byte first, texts and byte
strings behind their length in eight bytes, digests as texts of digits. A reader
takes what it needs from the front and gives back the rest, so bytes after a record
are allowed.
-/

namespace Chronicle.Binary

/-- Why bytes are no binary form. -/
inductive Fault where
  /-- The bytes end within a number. -/
  | endOfInput
  /-- The bytes end within a text. -/
  | cutText
  /-- The bytes of a text are not UTF-8. -/
  | utf8 (fault : Text.Utf8.Fault)
  /-- The text of a digest is none. -/
  | digest (error : Digest.ParseError)
deriving DecidableEq, Repr

namespace Fault

/-- The fault in words. -/
def message : Fault → String
  | endOfInput => "io error: unexpected end of file"
  | cutText => "io error: "
  | utf8 fault => s!"string is not valid utf8: {fault.message}"
  | digest error => error.message

end Fault

/-- A reader takes a value from the front of the bytes and leaves the rest, or
reports a fault. -/
abbrev Reader := StateT Bytes (Except Fault)

/-- The next `n` bytes, or the given fault if there are fewer. -/
def take (n : Nat) (fault : Fault) : Reader Bytes := fun s =>
  if (s.take n).length = n then .ok (s.take n, s.drop n) else .error fault

/-- A 64-bit number. -/
def uint64 : Reader UInt64 := do
  return UInt64.ofNat (Bytes.ofLittleEndian (← take 8 .endOfInput))

/-- A 32-bit number. -/
def uint32 : Reader UInt32 := do
  return UInt32.ofNat (Bytes.ofLittleEndian (← take 4 .endOfInput))

/-- A text behind its length. -/
def text : Reader String := do
  let n ← uint64
  let bs ← take n.toNat .cutText
  match Text.Utf8.decode bs with
  | .ok t => return t
  | .error f => throw (.utf8 f)

/-- A byte string behind its length. -/
def bytes : Reader Bytes := do
  let n ← uint64
  take n.toNat .endOfInput

/-- A digest. -/
def digest : Reader Digest := do
  match Digest.ofHex (← text) with
  | .ok d => return d
  | .error e => throw (.digest e)

/-- A timestamp. -/
def timestamp : Reader Timestamp := do
  return ⟨← uint64, ← uint32⟩

/-- A byte string behind its length. -/
def ofBytes (bs : Bytes) : Bytes := Bytes.ofUInt64 (UInt64.ofNat bs.length) ++ bs

/-- A text behind its length. -/
def ofText (s : String) : Bytes := ofBytes (Bytes.ofText s)

/-- A digest as the text of its digits. -/
def ofDigest (d : Digest) : Bytes := ofText d.toHex

end Chronicle.Binary

namespace Chronicle.Record

/-- The binary form of a record. -/
def toBinary (r : Record) : Bytes :=
  Binary.ofText r.kind ++ Binary.ofText r.key ++ Binary.ofBytes r.value ++
    Binary.ofDigest r.signature ++ r.stamp.bytes

/-- Reads a record. -/
def reader : Binary.Reader Record := do
  return ⟨← Binary.text, ← Binary.text, ← Binary.bytes, ← Binary.digest,
    ← Binary.timestamp⟩

/-- The record at the front of a byte string. -/
def ofBinary (s : Bytes) : Except Binary.Fault Record := reader.run' s

end Chronicle.Record
