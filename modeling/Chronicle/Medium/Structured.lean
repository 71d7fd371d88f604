import Chronicle.Medium.Adapter
import Chronicle.Table.Engine

/-!
# Records in a table

Every write adds a row, and the last row of a key is read. The table is in memory or
in a file, where an engine keeps it.
-/

namespace Chronicle.Medium

/-- An open table (`StructuredAdapter`). -/
inductive Structured where
  /-- A table in memory (`open_in_memory`). -/
  | memory (rows : Table)
  /-- A table in a file, by the number under which the engine has it open. -/
  | file (connection : Nat)
deriving DecidableEq

namespace Structured

variable [Table.Engine]

/-- Opens the table at a path; missing directories are made, and so is a missing
file. -/
def openAt (p : Path) (d : Disk) : Except Error Structured × Disk :=
  match d.makeDirectories p.parent with
  | (.error _, d) => (.error .disk, d)
  | (.ok (), d) =>
    match Table.Engine.connect p d with
    | (none, d) => (.error .table, d)
    | (some connection, d) => (.ok (file connection), d)

/-- The rows, oldest first. -/
def rows (s : Structured) (d : Disk) : Except Error Table :=
  match s with
  | memory rows => .ok rows
  | file connection =>
    match Table.Engine.rows connection d with
    | some t => .ok t
    | none => .error .table

/-- Adds a row. -/
def insert (s : Structured) (r : Table.Row) (d : Disk) :
    Except Error Unit × Structured × Disk :=
  match s with
  | memory rows =>
    if Table.Engine.takes rows r then (.ok (), memory (rows ++ [r]), d)
    else (.error .table, s, d)
  | file connection =>
    match Table.Engine.insert connection r d with
    | (true, d) => (.ok (), s, d)
    | (false, d) => (.error .table, s, d)

/-- Takes a record. -/
def write (s : Structured) (r : Record) (d : Disk) :
    Except Error Unit × Structured × Disk :=
  match Table.Row.ofRecord r with
  | .error e => (.error e, s, d)
  | .ok row => s.insert row d

/-- The latest record of a key. -/
def read (s : Structured) (key : String) (d : Disk) : Except Error (Option Record) :=
  match s.rows d with
  | .error e => .error e
  | .ok t => t.read key

end Structured

end Chronicle.Medium
