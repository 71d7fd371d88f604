import Chronicle.Medium.Adapter
import Chronicle.Medium.Memory

/-!
# A medium that fails on demand

Records in memory, behind switches that say how each kind of call ends. A record can
be planted under a key: reads of the key then give it, whatever is written. A call
that does not come back stays on the way until it is let through, and does its work
then.
-/

namespace Chronicle.Medium

/-- How calls end. -/
inductive Mode where
  /-- They do their work. -/
  | working
  /-- They report an error. -/
  | failing (cause : Error)
  /-- They break down. -/
  | breaking
  /-- They do not come back. -/
  | hanging
deriving DecidableEq

/-- Calls that hang work again. -/
def Mode.released : Mode → Mode
  | .hanging => .working
  | mode => mode

/-- A medium in memory that fails on demand (`Switchable`, `Panicking` and `Hung` in
one). -/
structure Rehearsal where
  /-- The records. -/
  inner : Memory
  /-- How writes end. -/
  writing : Mode := .working
  /-- How reads end. -/
  reading : Mode := .working
  /-- How flushes end. -/
  flushing : Mode := .working
  /-- What reads of some keys give. -/
  planted : List (String × Record) := []
  /-- The records of writes that have not come back, first one first. -/
  waiting : List Record := []
deriving DecidableEq

namespace Rehearsal

/-- How a call ends that has this to say if it does its work. -/
def answer {α : Type} (a : α) : Mode → Answer α
  | .working => .done a
  | .failing cause => .failed cause
  | .breaking => .brokeDown
  | .hanging => .unanswered

/-- Takes a record. -/
def write (m : Rehearsal) (r : Record) : Answer Unit × Rehearsal :=
  (answer () m.writing,
    match m.writing with
    | .working => { m with inner := m.inner.write r }
    | .hanging => { m with waiting := m.waiting ++ [r] }
    | _ => m)

/-- What a read of a key finds. -/
def find (m : Rehearsal) (key : String) : Option Record :=
  match m.planted.lookup key with
  | some r => some r
  | none => m.inner.read key

/-- The latest record of a key. -/
def read (m : Rehearsal) (key : String) : Answer (Option Record) :=
  answer (m.find key) m.reading

/-- Forces nothing. -/
def flush (m : Rehearsal) : Answer Unit := answer () m.flushing

/-- Plants a record under a key. -/
def plant (m : Rehearsal) (key : String) (r : Record) : Rehearsal :=
  { m with planted := Assoc.set key r m.planted }

/-- Lets the calls through that have not come back, and those that come after. -/
def release (m : Rehearsal) : Rehearsal :=
  { m with
    inner := m.waiting.foldl Memory.write m.inner
    waiting := []
    writing := m.writing.released
    reading := m.reading.released
    flushing := m.flushing.released }

end Rehearsal

end Chronicle.Medium
