/-!
# Failures

A call that fails either says why, or breaks down in the middle and says nothing.
-/

namespace Chronicle

/-- How a call can fail. -/
inductive Failure (ε : Type) where
  /-- The call reports an error. -/
  | error (cause : ε)
  /-- The call breaks down and reports nothing (a panic). -/
  | breakdown
deriving DecidableEq

end Chronicle
