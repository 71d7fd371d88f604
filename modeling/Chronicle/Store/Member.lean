import Chronicle.Medium.Adapter
import Chronicle.Store.Report

/-!
# The media of a store

A store gives each of its media a number of slots, and a call takes one for as long
as it runs. A call that does not come back in time keeps its slot, so that a medium
that hangs runs out of slots and then times out at once, without holding up the
others.
-/

namespace Chronicle

/-- How the write behind an answer ended. -/
def Outcome.ofAnswer : Medium.Answer Unit → Outcome
  | .done () => acked
  | .failed cause => failed cause.message
  | .unanswered => timedOut
  | .brokeDown => panicked

namespace Store

open Medium

/-- A medium of a store (`Registered`). -/
structure Member (μ : Type) where
  /-- The medium. -/
  medium : μ
  /-- Slots held by calls that have not come back (abandoned calls). -/
  held : Nat := 0
  /-- Writes that the medium took. -/
  acks : Nat := 0
  /-- Writes that it did not take. -/
  failures : Nat := 0
deriving DecidableEq

namespace Member

variable {μ : Type} [Adapter μ]

/-- The name of the medium. -/
def name (m : Member μ) : String := Adapter.name m.medium

/-- Makes a call if there is a slot for it (`bounded_call`). -/
def call {α : Type} (slots : Nat) (m : Member μ) (run : μ → Disk → Answer α × μ × Disk)
    (d : Disk) : Answer α × Member μ × Disk :=
  if slots ≤ m.held then (.unanswered, m, d)
  else
    match run m.medium d with
    | (.unanswered, medium, d) =>
      (.unanswered, { m with medium, held := m.held + 1 }, d)
    | (a, medium, d) => (a, { m with medium }, d)

/-- Counts an outcome. -/
def count (m : Member μ) (o : Outcome) : Member μ :=
  if o.isAcked then { m with acks := m.acks + 1 }
  else { m with failures := m.failures + 1 }

/-- Hands the medium a record. -/
def write (slots : Nat) (m : Member μ) (r : Record) (d : Disk) :
    Outcome × Member μ × Disk :=
  let (a, m, d) := m.call slots (fun medium d => Adapter.write medium r d) d
  (.ofAnswer a, m.count (.ofAnswer a), d)

/-- Asks the medium for the latest record of a key. -/
def read (slots : Nat) (m : Member μ) (key : String) (d : Disk) :
    Answer (Option Record) × Member μ × Disk :=
  m.call slots (fun medium d => Adapter.read medium key d) d

/-- What went wrong when the medium was flushed. -/
def flushError? : Answer Unit → Option Medium.Error
  | .done () => none
  | .failed cause => some cause
  | .unanswered => some (.unavailable .flushTimedOut)
  | .brokeDown => some (.unavailable .flushBroke)

/-- Flushes the medium. -/
def flush (slots : Nat) (m : Member μ) (d : Disk) :
    Option Medium.Error × Member μ × Disk :=
  let (a, m, d) := m.call slots Adapter.flush d
  (flushError? a, m, d)

/-- The medium after every call on the way has come back. -/
def settled (m : Member μ) (medium : μ) : Member μ := { m with medium, held := 0 }

end Member

end Store

end Chronicle
