import Chronicle.Assoc
import Chronicle.Compression
import Chronicle.Medium.Adapter

/-!
# Records in one archive file

Compressed records in frames, one after the other. Where the latest frame of each key
is stands in memory and is found again by scanning the file when it is opened;
damaged frames are passed over, and a torn one at the end is cut off.

A write that fails takes back what it wrote. If that fails too, the archive takes
nothing more until it is opened again.
-/

namespace Chronicle.Medium

/-- An open archive (`ArchiveAdapter` with its `Segment`). -/
structure Archive where
  /-- Where the file was opened. -/
  path : Path
  /-- The number of the open file. -/
  file : Nat
  /-- The end of the last complete frame. -/
  length : Nat
  /-- Where the latest frame of each key begins. -/
  index : List (String × Nat)
  /-- The file ends with a complete frame. -/
  appendable : Bool
deriving DecidableEq, Repr

namespace Archive

variable [Compression]

/-- The frame of a record (`encode_record`). -/
def frame (r : Record) : Except Error Bytes :=
  let payload := Compression.encode r.toBinary
  match Frame.encode? payload with
  | some bs => .ok bs
  | none => .error (.unwritable (.longPayload payload.length))

/-- The record in the payload of a frame (`decode_record`). -/
def record (payload : Bytes) : Except Error Record :=
  match Compression.decode? payload with
  | none => .error (.corrupt .compression)
  | some bs =>
    match Record.ofBinary bs with
    | .error f => .error (.corrupt (.record f))
    | .ok r => .ok r

/-- Notes where the frame of a record begins. -/
def note (index : List (String × Nat)) (t : Frame.Tile) : List (String × Nat) :=
  match record t.payload with
  | .ok r => Assoc.set r.key t.offset index
  | .error _ => index

/-- Where the latest frame of each key begins, by the intact frames of a file. -/
def indexOf (s : Frame.Scan) : List (String × Nat) := s.intact.foldl note []

/-- Opens the archive at a path; missing directories and a missing file are made. -/
def openAt (p : Path) (d : Disk) : Except Error Archive × Disk :=
  match d.makeDirectories p.parent with
  | (.error _, d) => (.error .disk, d)
  | (.ok (), d) =>
    match d.openOrCreate p with
    | (.error _, d) => (.error .disk, d)
    | (.ok file, d) =>
      let bs := d.content file
      let s := Frame.scan bs
      let a : Archive := ⟨p, file, s.validLength, indexOf s, true⟩
      if s.validLength < bs.length then
        match d.truncate file s.validLength with
        | (.error _, d) => (.error .disk, d)
        | (.ok (), d) => (.ok a, d)
      else (.ok a, d)

/-- The number of keys (`key_count`). -/
def size (a : Archive) : Nat := a.index.length

/-- Takes a record. -/
def write (a : Archive) (r : Record) (d : Disk) : Except Error Unit × Archive × Disk :=
  match frame r with
  | .error e => (.error e, a, d)
  | .ok bs =>
    if !a.appendable then (.error (.unavailable (.partialFrame a.path.toText)), a, d)
    else
      match d.append a.file bs with
      | (.ok (), d) =>
        (.ok (), { a with
          length := a.length + bs.length
          index := Assoc.set r.key a.length a.index }, d)
      | (.error _, d) =>
        let (appendable, d) := d.rollBack a.file a.length
        (.error .disk, { a with appendable }, d)

/-- The frame at a position of a file, as far as its own length says; `none` if the
file ends before. -/
def frameAt? (bs : Bytes) (offset : Nat) : Option Bytes :=
  let rest := bs.drop offset
  match Frame.header? rest with
  | none => none
  | some (length, _, body) =>
    if body.length < length then none else some (rest.take (Frame.headerSize + length))

/-- The latest record of a key. -/
def read (a : Archive) (key : String) (d : Disk) : Except Error (Option Record) :=
  match a.index.lookup key with
  | none => .ok none
  | some offset =>
    match frameAt? (d.content a.file) offset with
    | none => .error .disk
    | some bs =>
      match Frame.decode bs with
      | .error f => .error (.corrupt (.frame f))
      | .ok payload =>
        match record payload with
        | .error e => .error e
        | .ok r =>
          if r.key == key then .ok (some r) else .error (.corrupt (.otherKey key r.key))

/-- Forces the file to the disk. -/
def flush (_ : Archive) (d : Disk) : Except Error Unit × Disk :=
  match d.sync with
  | (.ok (), d) => (.ok (), d)
  | (.error _, d) => (.error .disk, d)

end Archive

end Chronicle.Medium
