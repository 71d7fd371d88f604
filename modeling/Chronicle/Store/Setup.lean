import Chronicle.Compressed
import Chronicle.Medium.Basic
import Chronicle.Store.Basic
import Chronicle.Table.File

/-!
# Setting up a store

A store is built from media, the order in which some of them are to be asked first,
and a ledger. What a configuration names is opened below its data directory.
-/

namespace Chronicle.Store

/-- What a store is built from (`MemoryStoreBuilder`). -/
structure Setup (μ : Type) where
  /-- The media. -/
  media : List μ
  /-- The names of those to be asked first. -/
  recallOrder : List String := []
  /-- How long a call may take, in milliseconds. -/
  timeoutMs : Nat := 2000
  /-- How many calls may run at once on one medium. -/
  maxParallel : Nat := 8
  /-- The ledger. -/
  ledger : Ledger := Ledger.inMemory

namespace Setup

open Medium

variable {μ : Type} [Adapter μ]

/-- The greatest number of slots that can be managed. -/
def slotLimit : Nat := (1 <<< 61) - 1

/-- The medium with a name, and the others. -/
def takeOut? (name : String) : List μ → Option (μ × List μ)
  | [] => none
  | m :: ms =>
    if Adapter.name m == name then some (m, ms)
    else (takeOut? name ms).map fun (found, rest) => (found, m :: rest)

/-- Media in the order of some names, followed by the others as they were. A name
that is not among those left is a repetition if some medium was registered under it. -/
def arrange (registered : List String) :
    List String → List μ → Except Config.Fault (List μ)
  | [], left => .ok left
  | name :: names, left =>
    match takeOut? name left with
    | none => .error (if registered.contains name then .duplicateBackend name
      else .unknownBackend name)
    | some (m, left) =>
      match arrange registered names left with
      | .error e => .error e
      | .ok ms => .ok (m :: ms)

/-- The media of a setup in the order in which they are asked, or the first thing
that is wrong with it. -/
def ordered (s : Setup μ) : Except Config.Fault (List μ) :=
  let registered := s.media.map Adapter.name
  if s.media.isEmpty then .error .noBackends
  else if s.maxParallel = 0 then .error .zeroParallel
  else if s.timeoutMs = 0 then .error .zeroTimeout
  else
    match Config.firstRepeated? [] registered with
    | some name => .error (.duplicateBackend name)
    | none => arrange registered s.recallOrder s.media

/-- Builds the store. More slots than can be managed make the builder break down. -/
def build (s : Setup μ) : Except (Failure Config.Fault) (Store μ) :=
  match s.ordered with
  | .error e => .error (.error e)
  | .ok ms =>
    if slotLimit < s.maxParallel then .error .breakdown
    else .ok ⟨ms.map fun m => { medium := m }, s.ledger, s.maxParallel, s.timeoutMs⟩

end Setup

variable [Compression] [Table.Engine]

/-- Opens media below a directory. -/
def openMedia (dir : Path) : List Medium.Kind → Disk → Except Error (List Medium) × Disk
  | [], d => (.ok [], d)
  | k :: ks, d =>
    match Medium.openIn k dir d with
    | (.error e, d) => (.error (.medium k.name e), d)
    | (.ok m, d) =>
      match openMedia dir ks d with
      | (.error e, d) => (.error e, d)
      | (.ok ms, d) => (.ok (m :: ms), d)

/-- Opens the ledger in a file. -/
def openLedger (p : Path) (mode : SyncMode) (d : Disk) : Except Error Ledger × Disk :=
  match Ledger.FileLog.openAt p mode d with
  | (.error e, d) => (.error (.ledger e), d)
  | (.ok log, d) =>
    match Ledger.openOver (.file log) {} d with
    | .error e => (.error (.ledger e), d)
    | .ok l => (.ok l, d)

/-- Opens the store of a configuration (`open` of the `MemoryStore`). Relative paths
begin at `base`. -/
def openWith (c : Config) (base : Path) (d : Disk) :
    Except (Failure Error) (Store Medium) × Disk :=
  match c.validate with
  | .error e => (.error (.error (.setup e)), d)
  | .ok () =>
    let dir := base.join c.dataDir
    match d.makeDirectories dir with
    | (.error _, d) => (.error (.error .disk), d)
    | (.ok (), d) =>
      match openMedia dir c.backends d with
      | (.error e, d) => (.error (.error e), d)
      | (.ok media, d) =>
        match openLedger (dir.join c.ledger.fileName) c.ledger.syncMode d with
        | (.error e, d) => (.error (.error e), d)
        | (.ok ledger, d) =>
          let setup : Setup Medium :=
            { media, ledger, timeoutMs := c.timeoutMs.toNat,
              maxParallel := c.maxParallel.toNat }
          match setup.build with
          | .ok s => (.ok s, d)
          | .error (.error e) => (.error (.error (.setup e)), d)
          | .error .breakdown => (.error .breakdown, d)

end Chronicle.Store
