import Chronicle.Assoc
import Chronicle.Bytes
import Chronicle.Disk.Path

/-!
# Disks

Directories and files by place. A file has a number, and whoever has opened it goes
on reading and writing under that number, also when the path leads there no more.
Files may be kept from growing past a limit: a write that would is cut there and
fails.

A disk has a plan of mishaps, one for each change that is made: a change can be
stopped after some bytes, or before it does anything. With an empty plan nothing goes
wrong but what the limit forbids.
-/

namespace Chronicle

namespace Disk

/-- Why a call failed. -/
inductive Fault where
  /-- There is nothing at the path. -/
  | notFound
  /-- The path leads through a file. -/
  | notDirectory
  /-- There is a directory where a file should be. -/
  | isDirectory
  /-- A name is too long, or the path cannot be asked for. -/
  | improper
  /-- The file would grow past the limit, or past every limit. -/
  | full
  /-- A mishap. -/
  | mishap
deriving DecidableEq, Repr

/-- What a path leads to. -/
inductive Entry where
  /-- A directory. -/
  | directory
  /-- The file with the number. -/
  | file (id : Nat)
deriving DecidableEq, Repr

end Disk

/-- A disk. -/
structure Disk where
  /-- What is where. A place is the path that leads there by names of their own
  alone; the empty path is the place of the root directory, which is always there. -/
  entries : List ((Nat × Path) × Disk.Entry) := []
  /-- The contents of the files, by number, each with its last byte first, so that
  writing at the end of a file costs no more than what is written. -/
  contents : List Bytes := []
  /-- The greatest size to which files may grow. -/
  limit : Option Nat := none
  /-- What happens to the next changes: nothing, or they stop after a number of
  bytes. -/
  plan : List (Option Nat) := []
deriving DecidableEq

namespace Disk

/-- What a call gives: an answer, and the disk after it. -/
abbrev Result (α : Type) := Except Fault α × Disk

/-- What is at a place. -/
def entry? (d : Disk) (p : Path) : Option Entry :=
  if p = [] then some .directory else d.entries.lookup p.key

/-- The place to which names lead from another one, and what is there. Every name is
met at a directory. -/
def walk (d : Disk) : Path → List String → Except Fault (Path × Entry)
  | here, [] =>
    match d.entry? here with
    | some e => .ok (here, e)
    | none => .error .notFound
  | here, name :: rest =>
    match d.entry? here with
    | some .directory =>
      if Path.nameLimit < name.utf8ByteSize then .error .improper
      else walk d (Path.step here name) rest
    | some (.file _) => .error .notDirectory
    | none => .error .notFound

/-- The place to which a path leads, and what is there. -/
def find (d : Disk) (p : Path) : Except Fault (Path × Entry) :=
  if p.isProper then d.walk [] p else .error .improper

/-- What a path leads to. -/
def stat (d : Disk) (p : Path) : Except Fault Entry :=
  match d.find p with
  | .ok (_, e) => .ok e
  | .error f => .error f

/-- The path leads to a directory. -/
def isDirectory (d : Disk) (p : Path) : Bool := d.stat p matches .ok .directory

/-- The content of a file. -/
def content (d : Disk) (id : Nat) : Bytes := (d.contents.getD id []).reverse

/-- The number of bytes in a file. -/
def size (d : Disk) (id : Nat) : Nat := (d.contents.getD id []).length

/-- The disk with the content of a file replaced. -/
def setContent (d : Disk) (id : Nat) (bs : Bytes) : Disk :=
  { d with contents := d.contents.set id bs.reverse }

/-- The disk with bytes added at the end of a file. -/
def extend (d : Disk) (id : Nat) (bs : Bytes) : Disk :=
  { d with contents := d.contents.set id (bs.reverseAux (d.contents.getD id [])) }

@[simp] theorem length_content (d : Disk) (id : Nat) :
    (d.content id).length = d.size id := by
  simp [content, size]

theorem extend_eq_setContent (d : Disk) (id : Nat) (bs : Bytes) :
    d.extend id bs = d.setContent id (d.content id ++ bs) := by
  simp [extend, setContent, content]

/-- The mishap for the next change, and the disk with the plan shortened. -/
def draw (d : Disk) : Option Nat × Disk :=
  match d.plan with
  | [] => (none, d)
  | m :: rest => (m, { d with plan := rest })

/-! ## Files -/

/-- The content of the file at a path. -/
def read (d : Disk) (p : Path) : Except Fault Bytes :=
  match d.stat p with
  | .ok (.file id) => .ok (d.content id)
  | .ok .directory => .error .isDirectory
  | .error f => .error f

/-- The number of the file at a path. -/
def openFile (d : Disk) (p : Path) : Except Fault Nat :=
  match d.stat p with
  | .ok (.file id) => .ok id
  | .ok .directory => .error .isDirectory
  | .error f => .error f

/-- The place for a new file: the directory before the last name must be there. A
path at which nothing was found and that has such a directory ends with a name of its
own. -/
def vacancy (d : Disk) (p : Path) : Except Fault Path :=
  match d.find p.dropLast with
  | .ok (dir, .directory) => .ok (Path.step dir (p.getLast?.getD ""))
  | .ok (_, .file _) => .error .notDirectory
  | .error f => .error f

/-- The number of the file at a path, a new empty one if there is nothing but a
directory to hold it. -/
def openOrCreate (d : Disk) (p : Path) : Result Nat :=
  match d.openFile p with
  | .ok id => (.ok id, d)
  | .error .notFound =>
    match d.vacancy p with
    | .error f => (.error f, d)
    | .ok place =>
      match d.draw with
      | (some _, d) => (.error .mishap, d)
      | (none, d) =>
        let id := d.contents.length
        (.ok id, { d with
          entries := d.entries ++ [(place.key, .file id)]
          contents := d.contents ++ [[]] })
  | .error f => (.error f, d)

/-- How many of `count` bytes a file takes before it would grow past the limit. -/
def room (d : Disk) (id count : Nat) : Nat :=
  match d.limit with
  | none => count
  | some limit => min count (limit - d.size id)

/-- Writes bytes at the end of a file. What is written before the limit or a mishap
stops it stays. -/
def append (d : Disk) (id : Nat) (bs : Bytes) : Result Unit :=
  let allowed := d.room id bs.length
  match d.draw with
  | (some stop, d) => (.error .mishap, d.extend id (bs.take (min stop allowed)))
  | (none, d) => (if allowed = bs.length then .ok () else .error .full,
    d.extend id (bs.take allowed))

/-- No file can have this size or a greater one: sizes have 63 bits. -/
def sizeLimit : Nat := 1 <<< 63

/-- Cuts a file, or fills it up with zeros, to a size. -/
def truncate (d : Disk) (id size : Nat) : Result Unit :=
  let old := d.size id
  match d.draw with
  | (some _, d) => (.error .mishap, d)
  | (none, d) =>
    if sizeLimit ≤ size ∨ old + d.room id (size - old) < size then (.error .full, d)
    else (.ok (), d.setContent id
      ((d.content id).take size ++ List.replicate (size - old) 0))

/-- Takes back what a failed append wrote by cutting the file to its old size, and
tells whether that succeeded. -/
def rollBack (d : Disk) (id size : Nat) : Bool × Disk :=
  match d.truncate id size with
  | (.ok (), d) => (true, d)
  | (.error _, d) => (false, d)

/-- Forces a file to the disk. -/
def sync (d : Disk) : Result Unit :=
  match d.draw with
  | (some _, d) => (.error .mishap, d)
  | (none, d) => (.ok (), d)

/-- Gives a file a new path; a file that was there is no longer reached by it. -/
def rename (d : Disk) (old new : Path) : Result Unit :=
  match d.find old, d.vacancy new with
  | .error f, _ => (.error f, d)
  | .ok (_, .directory), _ => (.error .isDirectory, d)
  | .ok (_, .file _), .error f => (.error f, d)
  | .ok (source, .file id), .ok target =>
    match d.stat new with
    | .ok .directory => (.error .isDirectory, d)
    | .error .improper => (.error .improper, d)
    | _ =>
      match d.draw with
      | (some _, d) => (.error .mishap, d)
      | (none, d) =>
        (.ok (), { d with
          entries := Assoc.set target.key (.file id) (Assoc.erase source.key d.entries) })

/-! ## Directories -/

/-- Makes the directories to which names lead from a place, as far as they are
missing. -/
def makeBelow (d : Disk) : Path → List String → Result Unit
  | here, [] =>
    match d.entry? here with
    | some .directory => (.ok (), d)
    | _ => (.error .notDirectory, d)
  | here, name :: rest =>
    match d.entry? here with
    | some .directory =>
      if Path.nameLimit < name.utf8ByteSize then (.error .improper, d)
      else
        let next := Path.step here name
        match d.entry? next with
        | none =>
          match d.draw with
          | (some _, d) => (.error .mishap, d)
          | (none, d) => makeBelow { d
            with entries := d.entries ++ [(next.key, .directory)] } next rest
        | some _ => makeBelow d next rest
    | _ => (.error .notDirectory, d)

/-- Makes a directory and those above it, as far as they are missing. A path that
ends with a single point is not made itself: of it only the directories above are
made. -/
def makeDirectories (d : Disk) (p : Path) : Result Unit :=
  if !p.isProper then (.error .improper, d)
  else if p.endsHere then
    match d.makeBelow [] p.parent with
    | (.error f, d) => (.error f, d)
    | (.ok (), d) => if d.isDirectory p then (.ok (), d) else (.error .notFound, d)
  else d.makeBelow [] p

/-- The names in a directory and what they stand for. -/
def list (d : Disk) (p : Path) : Except Fault (List (String × Entry)) :=
  match d.find p with
  | .ok (place, .directory) =>
    .ok (d.entries.filterMap fun ((depth, q), e) =>
      if depth == place.length + 1 && q.dropLast == place then
        some (q.getLast?.getD "", e)
      else none)
  | .ok (_, .file _) => .error .notDirectory
  | .error f => .error f

/-- Removes what is at a path, with everything below it. -/
def remove (d : Disk) (p : Path) : Result Unit :=
  match d.find p with
  | .ok (place, _) =>
    (.ok (), { d with entries := d.entries.filter fun e => !place.isPrefixOf e.1.2 })
  | .error f => (.error f, d)

end Disk

end Chronicle
