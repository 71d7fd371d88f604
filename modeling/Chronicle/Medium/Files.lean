import Chronicle.Disk.Atomic
import Chronicle.Hash.Domain
import Chronicle.Medium.Adapter
import Chronicle.Medium.Document
import Chronicle.Raster.Record
import Chronicle.Text.Decimal

/-!
# A file for each record

Each key has a directory, named for the hash of the key, and each record of the key a
file in it. The name of a file is made of the record's timestamp and a running
number, all with leading zeros, so that the names are ordered like the timestamps
and, where those are equal, like the writes. The last name is the latest record.

The running number goes on from the greatest one found when the directory is opened.
A write that finds no number left breaks down and lets the count begin again.
-/

namespace Chronicle.Medium

/-- How a record becomes the content of a file. -/
inductive Format where
  /-- As a document (`DocumentAdapter`). -/
  | document
  /-- As a grey image (`GlyphAdapter`). -/
  | glyph
deriving DecidableEq, Repr

namespace Format

/-- The name of the medium. -/
def name : Format → String
  | document => "document"
  | glyph => "glyph"

/-- The extension of the files. -/
def extension : Format → String
  | document => "json"
  | glyph => "pgm"

/-- The content of a record's file. -/
def encode (f : Format) (r : Record) : Except Error Bytes :=
  match f with
  | document => .ok r.toDocument
  | glyph =>
    match Raster.ofRecord r with
    | .ok g => .ok g.toGreyMap
    | .error e => .error e

/-- The record in the file at a path. -/
def decode (f : Format) (p : Path) (bs : Bytes) : Except Error Record :=
  match f with
  | document => Record.ofDocument p.toText bs
  | glyph =>
    match Raster.ofGreyMap bs with
    | .ok g => g.toRecord
    | .error e => .error (.corrupt (.greyMap e))

end Format

/-- A directory of records (`DocumentAdapter` and `GlyphAdapter`). -/
structure Files where
  /-- How records become files. -/
  format : Format
  /-- The directory. -/
  root : Path
  /-- The last running number. -/
  sequence : UInt64
deriving DecidableEq, Repr

namespace Files

/-- The directory of a key (`key_dir`). -/
def keyDirectory (root : Path) (key : String) : Path :=
  root ++ [(Hash.Domain.key.hash (Bytes.ofText key)).toHex]

/-- The name of a record's file (`record_file_name`). -/
def fileName (stamp : Timestamp) (sequence : UInt64) (extension : String) : String :=
  Text.Decimal.padded 20 stamp.unixMs.toNat ++ "-" ++
    Text.Decimal.padded 10 stamp.logical.toNat ++ "-" ++
    Text.Decimal.padded 20 sequence.toNat ++ "." ++ extension

/-- The running number in a file name: what is left of the first point and right of
the last dash before it. -/
def sequenceOf? (name : String) : Option Nat :=
  let stem := name.toList.takeWhile (· != '.')
  let last := (stem.reverse.takeWhile (· != '-')).reverse
  Text.Decimal.read? UInt64.size (Bytes.ofText (String.ofList last))

/-- The running numbers in the directories among the entries of a directory. -/
def sequencesBelow (d : Disk) (root : Path) :
    List (String × Disk.Entry) → Except Disk.Fault (List Nat)
  | [] => .ok []
  | (_, .file _) :: rest => sequencesBelow d root rest
  | (name, .directory) :: rest =>
    match d.list (root ++ [name]) with
    | .error f => .error f
    | .ok inner =>
      match sequencesBelow d root rest with
      | .error f => .error f
      | .ok ns => .ok ((inner.filterMap fun (file, _) => sequenceOf? file) ++ ns)

/-- The greatest running number below a directory, 0 if there is none (`max_seq`). -/
def lastSequence (d : Disk) (root : Path) : Except Disk.Fault Nat :=
  match d.list root with
  | .error .notFound => .ok 0
  | .error f => .error f
  | .ok entries =>
    match sequencesBelow d root entries with
    | .error f => .error f
    | .ok ns => .ok (ns.foldl max 0)

/-- The greatest of some names. -/
def greatest? (names : List String) : Option String :=
  names.foldl (fun best name =>
    match best with
    | none => some name
    | some b => if b < name then some name else some b) none

/-- The last file name with an extension in a directory (`latest_file`). -/
def latestName? (d : Disk) (dir : Path) (extension : String) :
    Except Disk.Fault (Option String) :=
  match d.list dir with
  | .error .notFound => .ok none
  | .error f => .error f
  | .ok entries =>
    .ok (greatest? ((entries.map (·.1)).filter fun n =>
      Path.extension? n == some extension))

/-- Opens the directory; what is missing of it is made. -/
def openAt (format : Format) (root : Path) (d : Disk) : Except Error Files × Disk :=
  match d.makeDirectories root with
  | (.error _, d) => (.error .disk, d)
  | (.ok (), d) =>
    match lastSequence d root with
    | .error _ => (.error .disk, d)
    | .ok n => (.ok ⟨format, root, UInt64.ofNat n⟩, d)

/-- The path of the latest record of a key (`latest_path`). -/
def latestPath? (f : Files) (key : String) (d : Disk) : Except Error (Option Path) :=
  let dir := keyDirectory f.root key
  match latestName? d dir f.format.extension with
  | .error _ => .error .disk
  | .ok name => .ok (name.map fun n => dir ++ [n])

/-- Writes a record into a file of its own. -/
def write (f : Files) (r : Record) (d : Disk) : Answer Unit × Files × Disk :=
  match f.format.encode r with
  | .error e => (.failed e, f, d)
  | .ok bs =>
    let dir := keyDirectory f.root r.key
    match d.makeDirectories dir with
    | (.error _, d) => (.failed .disk, f, d)
    | (.ok (), d) =>
      if f.sequence.toNat + 1 = UInt64.size then
        (.brokeDown, { f with sequence := 0 }, d)
      else
        let sequence := f.sequence + 1
        match d.writeAtomic (dir ++ [fileName r.stamp sequence f.format.extension]) bs
          with
        | (.error _, d) => (.failed .disk, { f with sequence }, d)
        | (.ok (), d) => (.done (), { f with sequence }, d)

/-- The latest record of a key. -/
def read (f : Files) (key : String) (d : Disk) : Except Error (Option Record) :=
  match f.latestPath? key d with
  | .error e => .error e
  | .ok none => .ok none
  | .ok (some p) =>
    match d.read p with
    | .error _ => .error .disk
    | .ok bs => (f.format.decode p bs).map some

end Files

end Chronicle.Medium
