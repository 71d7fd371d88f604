/-!
# What can go wrong with a ledger

Every cause has a constructor of its own, and `message` is the one place where causes
become words.
-/

namespace Chronicle.Ledger

/-- What is wrong with an entry of a log. -/
inductive Damage where
  /-- The line is no block. -/
  | unreadable
  /-- The log reports more blocks than it holds. -/
  | missing (reported readable : Nat)
deriving DecidableEq, Repr

namespace Damage

/-- The damage in words. -/
def message : Damage → String
  | unreadable => "not a block"
  | missing reported readable =>
    s!"log reports {reported} blocks but {readable} are readable"

end Damage

/-- An error of a ledger or of the log below it (`LedgerError`). -/
inductive Error where
  /-- A file could not be read or written. -/
  | disk
  /-- An entry of the log cannot be read. -/
  | corruptEntry (index : Nat) (damage : Damage)
  /-- A block is not the next one. -/
  | outOfOrder (expected found : Nat)
  /-- A range ends before it begins. -/
  | invalidRange (start stop : Nat)
  /-- Somebody broke down while holding the ledger (`LockPoisoned`). -/
  | poisoned
  /-- The log cannot be used now. -/
  | unavailable (reason : String)
deriving DecidableEq, Repr

namespace Error

/-- The error in words. -/
def message : Error → String
  | disk => "io error"
  | corruptEntry index damage => s!"corrupt block at index {index}: {damage.message}"
  | outOfOrder expected found =>
    s!"append out of order: expected index {expected}, got {found}"
  | invalidRange start stop => s!"invalid block range: from={start}, to={stop}"
  | poisoned => "ledger lock poisoned"
  | unavailable reason => s!"ledger storage unavailable: {reason}"

end Error

end Chronicle.Ledger
