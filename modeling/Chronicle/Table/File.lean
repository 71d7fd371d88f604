import Chronicle.Binary
import Chronicle.Frame
import Chronicle.Table.Engine

/-!
# Tables as files

The engine that programs run with. A table file begins with a signature of its own,
and each row is a frame of which the last byte is zero. The frame is written without
that byte, and only then is the file filled up with a zero: until that is done the
frame is not complete, and what is there of it is passed over and taken away by the
next insertion. So a row is in the table if and only if its insertion succeeded.
-/

namespace Chronicle.Table

/-- A cell: what it is, and its bytes behind their length. -/
def Cell.toBinary : Cell → Bytes
  | .integer (.ofNat n) => 0 :: Binary.ofBytes (Bytes.littleEndian 8 n)
  | .integer (.negSucc n) => 1 :: Binary.ofBytes (Bytes.littleEndian 8 n)
  | .text s => 2 :: Binary.ofText s
  | .blob bs => 3 :: Binary.ofBytes bs

/-- Reads a cell. -/
def Cell.reader : Binary.Reader Cell := do
  let tag ← Binary.take 1 .endOfInput
  if tag == [0] then return .integer (.ofNat (Bytes.ofLittleEndian (← Binary.bytes)))
  else if tag == [1] then
    return .integer (.negSucc (Bytes.ofLittleEndian (← Binary.bytes)))
  else if tag == [2] then return .text (← Binary.text)
  else return .blob (← Binary.bytes)

/-- A number has room in the eight bytes of a cell. -/
def Cell.isStorable : Cell → Bool
  | .integer n => -integerLimit ≤ n && n < integerLimit
  | .text _ | .blob _ => true

/-- The cells of a row, and a zero. -/
def Row.toBinary (r : Row) : Bytes :=
  r.unixMs.toBinary ++ r.logical.toBinary ++ r.kind.toBinary ++ r.key.toBinary ++
    r.value.toBinary ++ r.signature.toBinary ++ [0]

/-- Every cell of the row is one that a file can have. -/
def Row.isStorable (r : Row) : Bool :=
  [r.unixMs, r.logical, r.kind, r.key, r.value, r.signature].all Cell.isStorable

/-- Reads a row. -/
def Row.reader : Binary.Reader Row := do
  return ⟨← Cell.reader, ← Cell.reader, ← Cell.reader, ← Cell.reader, ← Cell.reader,
    ← Cell.reader⟩

/-- The row in the payload of a frame. -/
def Row.ofBinary? (s : Bytes) : Option Row := (Row.reader.run' s).toOption

/-- What a table file begins with. -/
def fileSignature : Bytes := Bytes.ofText "chronicle table\n"

/-- A table as a file. -/
def toFile (t : Table) : Bytes :=
  fileSignature ++ t.flatMap fun r => Frame.encode r.toBinary

/-- The table in a file; what follows the last complete frame is passed over. -/
def ofFile? (bs : Bytes) : Option Table :=
  let s := Frame.scan (bs.drop fileSignature.length)
  if bs.take fileSignature.length == fileSignature && s.skipped == 0 then
    s.intact.mapM fun t => Row.ofBinary? t.payload
  else none

namespace File

/-- How many bytes the path of a table file may have. -/
def pathLimit : Nat := 504

/-- A file with no more bytes than this counts as empty. -/
def blankLimit : Nat := 1

/-- No row has more bytes than this. -/
def rowLimit : Nat := 1000000000

/-- There is room for one more row. -/
def takes (t : Table) (r : Row) : Bool :=
  r.isStorable && r.toBinary.length ≤ rowLimit &&
    (t ++ [r]).toFile.length < Disk.sizeLimit

/-- Makes a file an empty table. -/
def clear (id : Nat) (d : Disk) : Disk.Result Unit :=
  match d.truncate id 0 with
  | (.error f, d) => (.error f, d)
  | (.ok (), d) => d.append id fileSignature

/-- Opens the table at a path. A missing file is made, and a file that counts as
empty becomes an empty table. -/
def connect (p : Path) (d : Disk) : Option Nat × Disk :=
  if pathLimit < (p.foldl Path.step []).toText.utf8ByteSize then (none, d)
  else
    match d.openOrCreate p with
    | (.error _, d) => (none, d)
    | (.ok id, d) =>
      if d.size id ≤ blankLimit then
        match clear id d with
        | (.error _, d) => (none, d)
        | (.ok (), d) => (some id, d)
      else if (ofFile? (d.content id)).isSome then (some id, d)
      else (none, d)

/-- Takes away what follows the first `size` bytes of a file. -/
def cut (id size : Nat) (d : Disk) : Disk.Result Unit :=
  if d.size id ≤ size then (.ok (), d) else d.truncate id size

/-- Writes all but the last of some bytes at the end of a file, and then a zero. -/
def commit (id : Nat) (bs : Bytes) (d : Disk) : Disk.Result Unit :=
  match d.append id bs.dropLast with
  | (.error f, d) => (.error f, d)
  | (.ok (), d) => d.truncate id (d.size id + 1)

/-- Adds a row. -/
def insert (id : Nat) (r : Row) (d : Disk) : Bool × Disk :=
  match ofFile? (d.content id) with
  | none => (false, d)
  | some t =>
    if !takes t r then (false, d)
    else
      match cut id t.toFile.length d with
      | (.error _, d) => (false, d)
      | (.ok (), d) =>
        match commit id (Frame.encode r.toBinary) d with
        | (.error _, d) => (false, d)
        | (.ok (), d) => (true, d)

instance : Engine where
  takes := takes
  connect := connect
  rows id d := ofFile? (d.content id)
  insert := insert

end File

end Chronicle.Table

/-- Works on the table file at a path, past whoever has it open. A missing file is
made, which has no table yet. -/
def Chronicle.Medium.Structured.edit {α : Type} (p : Path) (d : Disk)
    (f : Table → Except Error (α × Table)) : Except Error α × Disk :=
  match d.openOrCreate p with
  | (.error _, d) => (.error .table, d)
  | (.ok id, d) =>
    match Table.ofFile? (d.content id) with
    | none => (.error .table, d)
    | some t =>
      match f t with
      | .error e => (.error e, d)
      | .ok (a, t) => (.ok a, d.setContent id t.toFile)
