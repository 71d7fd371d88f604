import Chronicle.Disk.Basic
import Chronicle.Table.Basic

/-!
# Table engines

Who keeps a table in a file is left open. An engine opens the table at a path, adds
rows to it, and gives the rows in the order in which they were added. How it does
that on the disk, and which files it needs beside the one at the path, is its own
affair.
-/

namespace Chronicle.Table

/-- A database engine with one table of records, as an embedded SQL database is one. -/
class Engine where
  /-- There is room for one more row: neither the row nor the table would be too
  large. -/
  takes : Table → Row → Bool
  /-- Opens the table at a path; a missing file becomes an empty table. The answer is
  the number by which the engine knows the open table, `none` if it cannot be opened. -/
  connect : Path → Disk → Option Nat × Disk
  /-- The rows of an open table, oldest first, `none` if they cannot be read. -/
  rows : Nat → Disk → Option Table
  /-- Adds a row to an open table, and tells whether that succeeded. -/
  insert : Nat → Row → Disk → Bool × Disk

end Chronicle.Table
