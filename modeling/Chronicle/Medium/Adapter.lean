import Chronicle.Disk.Basic
import Chronicle.Medium.Error
import Chronicle.Record

/-!
# What a medium does

A medium has a name, takes records, and gives back the latest record of a key. A call
on it ends in one of four ways, and may change the medium and the disk.
-/

namespace Chronicle.Medium

/-- How a call on a medium ends (`Call`). -/
inductive Answer (α : Type) where
  /-- The call did its work. -/
  | done (a : α)
  /-- The call reports an error. -/
  | failed (cause : Error)
  /-- The call does not come back (`TimedOut`: the store abandons it). -/
  | unanswered
  /-- The call breaks down (`Panicked`). -/
  | brokeDown
deriving DecidableEq

namespace Answer

/-- The answer of a call that comes back. -/
def ofExcept {α : Type} : Except Error α → Answer α
  | .ok a => done a
  | .error e => failed e

end Answer

/-- The calls that a store makes on its media (`BackendAdapter`). -/
class Adapter (μ : Type) where
  /-- The name of the medium. -/
  name : μ → String
  /-- Takes a record. -/
  write : μ → Record → Disk → Answer Unit × μ × Disk
  /-- The latest record of a key. -/
  read : μ → String → Disk → Answer (Option Record) × μ × Disk
  /-- Forces what was taken to where it is kept. -/
  flush : μ → Disk → Answer Unit × μ × Disk

end Chronicle.Medium
