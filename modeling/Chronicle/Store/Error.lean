import Chronicle.Config
import Chronicle.Ledger.Error
import Chronicle.Medium.Error
import Chronicle.Record
import Chronicle.Store.Report

/-!
# What can go wrong with a store
-/

namespace Chronicle.Store

/-- An error of a store (`StoreError`). -/
inductive Error where
  /-- No medium took the record; the attempt is in the ledger. -/
  | noBackendAvailable (receipt : Receipt)
  /-- The ledger has a wrong block. -/
  | chainVerification (index : Nat)
  /-- The ledger reports an error. -/
  | ledger (cause : Ledger.Error)
  /-- A medium reports an error. -/
  | medium (name : String) (cause : Medium.Error)
  /-- The key or the type is refused. -/
  | invalid (cause : Record.Invalid)
  /-- The setup is wrong. -/
  | setup (cause : Config.Fault)
  /-- The data directory could not be made. -/
  | disk
  /-- The ledger broke down. -/
  | runtime
deriving DecidableEq

namespace Error

/-- The error in words. -/
def message : Error → String
  | noBackendAvailable r => s!"no backend acknowledged {r.key} (block {r.blockIndex})"
  | chainVerification index => s!"chain verification failed at block {index}"
  | ledger cause => s!"ledger error: {cause.message}"
  | medium name cause => s!"backend {name}: {cause.message}"
  | invalid cause => s!"invalid record: {cause.message}"
  | setup cause => cause.message
  | disk => "I/O error"
  | runtime => "runtime error"

end Error

end Chronicle.Store
