import Chronicle.Disk.Basic
import Chronicle.Text.Lines

/-!
# Changes by hand

What somebody does to the files of a disk by path, past everything that has them
open: whoever has a file open sees its new content.
-/

namespace Chronicle.Disk

/-- Writes a file anew from the beginning. -/
def refill (d : Disk) (id : Nat) (bs : Bytes) : Result Unit :=
  match d.truncate id 0 with
  | (.error f, d) => (.error f, d)
  | (.ok (), d) => d.append id bs

/-- Gives the file at a path a content, and makes the file and the directories above
it if there is none. -/
def put (d : Disk) (p : Path) (bs : Bytes) : Result Unit :=
  match d.makeDirectories p.parent with
  | (.error f, d) => (.error f, d)
  | (.ok (), d) =>
    match d.openOrCreate p with
    | (.error f, d) => (.error f, d)
    | (.ok id, d) => d.refill id bs

/-- Does something to the file at a path. -/
def withFile (d : Disk) (p : Path) (act : Disk → Nat → Result Unit) : Result Unit :=
  match d.openFile p with
  | .ok id => act d id
  | .error f => (.error f, d)

/-- Writes bytes at the end of the file at a path. -/
def appendAt (d : Disk) (p : Path) (bs : Bytes) : Result Unit :=
  d.withFile p fun d id => d.append id bs

/-- Cuts the file at a path, or fills it up, to a size. -/
def truncateAt (d : Disk) (p : Path) (size : Nat) : Result Unit :=
  d.withFile p fun d id => d.truncate id size

/-- Takes bytes off the end of the file at a path, at most all. -/
def chop (d : Disk) (p : Path) (count : Nat) : Result Unit :=
  d.withFile p fun d id => d.truncate id (d.size id - count)

/-- The position that a signed number names in a list: a negative number counts from
the end. -/
def position? (length : Nat) (place : Int) : Option Nat :=
  let i := if place < 0 then place + length else place
  if 0 ≤ i ∧ i < length then some i.toNat else none

/-- Changes the bits of `mask` in one byte of a list; a position outside changes
nothing. -/
def flipBits (bs : Bytes) (place : Int) (mask : UInt8) : Bytes :=
  match position? bs.length place with
  | some i => bs.modify i (· ^^^ mask)
  | none => bs

/-- Changes the content of the file at a path. The file is written anew, whether its
content changes or not. -/
def edit (d : Disk) (p : Path) (f : Bytes → Bytes) : Result Unit :=
  d.withFile p fun d id => d.refill id (f (d.content id))

/-- Lets no file grow past the size of the one at a path by more than some bytes; a
file that is not there has the size zero. -/
def limitTo (d : Disk) (p : Path) (extra : Nat) : Disk :=
  let size := match d.read p with
    | .ok bs => bs.length
    | .error _ => 0
  { d with limit := some (size + extra) }

/-- Changes the bits of `mask` in one byte of the file at a path. -/
def flip (d : Disk) (p : Path) (place : Int) (mask : UInt8) : Result Unit :=
  d.edit p fun bs => flipBits bs place mask

/-- Replaces one line of the file at a path, or takes it out. -/
def replaceLine (d : Disk) (p : Path) (n : Nat) (line : Option Bytes) : Result Unit :=
  d.edit p fun bs => Text.Lines.replace bs n line

/-- A place as listings show it: directories end with a slash. -/
def shown (p : Path) : Entry → String
  | .directory => p.toText ++ "/"
  | .file _ => p.toText

/-- Everything below a directory as seen from there, in the order of the listing. -/
def below (d : Disk) (p : Path) : List (String × Entry) :=
  let within := d.entries.filterMap fun ((depth, q), e) =>
    if p.length < depth && p.isPrefixOf q then some (shown (q.drop p.length) e, e)
    else none
  within.mergeSort fun a b => decide (a.1 ≤ b.1)

end Chronicle.Disk
