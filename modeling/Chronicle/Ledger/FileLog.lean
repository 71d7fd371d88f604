import Chronicle.Disk.Edit
import Chronicle.Json.Forms
import Chronicle.Ledger.Error
import Chronicle.Ledger.SyncMode
import Chronicle.Text.Lines
import Chronicle.Text.Quoted

/-!
# Block logs in files

One block a line. A block counts once its line and the newline are written. What
follows the last newline when the file is opened is left from a write that was cut
short, and is taken away. An append that fails takes back what it wrote.

Blocks are read by path, and written through the file that was opened.
-/

namespace Chronicle.Ledger

/-- An open log file (`FileBlockLog`). -/
structure FileLog where
  /-- Where the file was opened. -/
  path : Path
  /-- When appended blocks are forced to the disk. -/
  mode : SyncMode
  /-- The number of the open file. -/
  file : Nat
  /-- The number of complete lines. -/
  count : Nat
  /-- The size of the complete lines in bytes. -/
  size : Nat
deriving DecidableEq, Repr

namespace FileLog

/-- The line of a block. -/
def line (b : Block) : Bytes := b.toLine ++ [Text.Lines.newline]

/-- Takes away what follows the last newline of the file at a path
(`discard_torn_tail`). The answer is the number of lines that are left and their
size. -/
def discardTornTail (p : Path) (d : Disk) : Except Error (Nat × Nat) × Disk :=
  match d.read p with
  | .error .notFound => (.ok (0, 0), d)
  | .error _ => (.error .disk, d)
  | .ok bs =>
    let (lines, rest) := Text.Lines.split bs
    let size := bs.length - rest.length
    if rest.isEmpty then (.ok (lines.length, size), d)
    else
      match d.openFile p with
      | .error _ => (.error .disk, d)
      | .ok id =>
        match d.truncate id size with
        | (.error _, d) => (.error .disk, d)
        | (.ok (), d) =>
          match d.sync with
          | (.error _, d) => (.error .disk, d)
          | (.ok (), d) => (.ok (lines.length, size), d)

/-- Opens the log at a path; missing directories and a missing file are made. -/
def openAt (p : Path) (mode : SyncMode) (d : Disk) : Except Error FileLog × Disk :=
  match d.makeDirectories p.parent with
  | (.error _, d) => (.error .disk, d)
  | (.ok (), d) =>
    match discardTornTail p d with
    | (.error e, d) => (.error e, d)
    | (.ok (count, size), d) =>
      match d.openOrCreate p with
      | (.error _, d) => (.error .disk, d)
      | (.ok file, d) => (.ok ⟨p, mode, file, count, size⟩, d)

/-- Writes bytes at the end of the file, and forces them to the disk if the mode asks
for it. -/
def write (l : FileLog) (bs : Bytes) (d : Disk) : Disk.Result Unit :=
  match d.append l.file bs with
  | (.error f, d) => (.error f, d)
  | (.ok (), d) =>
    match l.mode with
    | .everyWrite => d.sync
    | .osDefault => (.ok (), d)

/-- Appends the next block. If that fails the file is cut back to its complete lines. -/
def append (l : FileLog) (b : Block) (d : Disk) : Except Error Unit × FileLog × Disk :=
  if b.index.toNat ≠ l.count then (.error (.outOfOrder l.count b.index.toNat), l, d)
  else
    match l.write (line b) d with
    | (.ok (), d) =>
      (.ok (), { l with count := l.count + 1, size := l.size + (line b).length }, d)
    | (.error _, d) => (.error .disk, l, (d.truncate l.file l.size).2)

/-- The block on a line. -/
def block? (line : Bytes) : Option Block :=
  match Bytes.toText? line with
  | some _ => Block.ofLine? line
  | none => none

/-- The blocks on lines of which the first has the number `index`. -/
def blocks (index : Nat) : List Bytes → Except Error (List Block)
  | [] => .ok []
  | l :: ls =>
    match block? l with
    | none => .error (.corruptEntry index .unreadable)
    | some b =>
      match blocks (index + 1) ls with
      | .error e => .error e
      | .ok bs => .ok (b :: bs)

/-- The blocks from `start` up to `stop`, as far as there are any (`read_range`). -/
def readRange (l : FileLog) (start stop : Nat) (d : Disk) : Except Error (List Block) :=
  if stop < start then .error (.invalidRange start stop)
  else
    let stop := min stop l.count
    if stop ≤ start then .ok []
    else
      match d.read l.path with
      | .error _ => .error .disk
      | .ok bs => blocks start (((Text.Lines.all bs).drop start).take (stop - start))

/-- Forces the file to the disk. -/
def flush (_ : FileLog) (d : Disk) : Except Error Unit × Disk :=
  match d.sync with
  | (.ok (), d) => (.ok (), d)
  | (.error _, d) => (.error .disk, d)

/-- Changes the block on one line of the file at a path by hand. -/
def editLine (p : Path) (n : Nat) (f : Block → Block) (d : Disk) : Disk.Result Unit :=
  match d.read p with
  | .error e => (.error e, d)
  | .ok bs =>
    match (Text.Lines.all bs)[n]?.bind block? with
    | none => (.error .notFound, d)
    | some b => d.replaceLine p n (some (f b).toLine)

/-- A log file as descriptions show it. -/
def describe (l : FileLog) : String :=
  "FileBlockLog \x7b path: " ++ Text.quotedPath l.path.toText ++ ", sync_mode: " ++
    l.mode.describe ++ " \x7d"

end FileLog

end Chronicle.Ledger
