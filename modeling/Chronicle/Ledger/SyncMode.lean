import Chronicle.Json.Shape

/-!
# When the ledger file is forced to the disk
-/

namespace Chronicle

/-- When appended blocks are forced to the disk. -/
inductive SyncMode where
  /-- After every block. -/
  | everyWrite
  /-- Whenever the system sees fit. -/
  | osDefault
deriving DecidableEq, Repr, Inhabited

namespace SyncMode

/-- The name of a mode in configurations. -/
def name : SyncMode → String
  | everyWrite => "every_write"
  | osDefault => "os_default"

/-- The mode with a name. -/
def ofName? (s : String) : Option SyncMode :=
  [everyWrite, osDefault].find? fun m => m.name == s

/-- A mode as descriptions show it. -/
def describe : SyncMode → String
  | everyWrite => "EveryWrite"
  | osDefault => "OsDefault"

/-- A mode is written as its name. -/
def toJson (m : SyncMode) : Json := .string m.name

/-- A mode is read as a choice without content. -/
def ofJson? (v : Json) : Option SyncMode := v.choice?.bind ofName?

theorem ofName?_name (m : SyncMode) : ofName? m.name = some m := by
  cases m <;> rfl

end SyncMode

end Chronicle
