import Chronicle.Disk.Path
import Chronicle.Failure
import Chronicle.Ledger.SyncMode
import Chronicle.Medium.Kind
import Chronicle.Text.Blank
import Chronicle.Toml.Printer
import Chronicle.Toml.Reader

/-!
# Configurations

What a store on disk is opened with: where its data lie, which media it writes to and
in which order it asks them, how long it waits for them, and where its ledger is. A
configuration is read from TOML or JSON, every field having a default, and written as
TOML.
-/

namespace Chronicle

/-- What is configured of the ledger. -/
structure LedgerConfig where
  /-- The ledger file, below the data directory unless absolute. -/
  fileName : String := "ledger.jsonl"
  /-- When blocks are forced to the disk. -/
  syncMode : SyncMode := .everyWrite
deriving DecidableEq

/-- What is configured of a store (`StoreConfig`). -/
structure Config where
  /-- Where the data lie. -/
  dataDir : String := "data"
  /-- How long a call on a medium may take, in milliseconds. -/
  timeoutMs : UInt64 := 2000
  /-- How many calls on one medium may run at once. -/
  maxParallel : UInt64 := 8
  /-- The media, in the order in which they are asked. -/
  backends : List Medium.Kind := Medium.Kind.all
  /-- The ledger. -/
  ledger : LedgerConfig := {}
deriving DecidableEq

namespace Config

/-- What can be wrong with the setup of a store (the configuration errors of
`StoreError`). -/
inductive Fault where
  /-- There is no medium. -/
  | noBackends
  /-- A medium is named twice. -/
  | duplicateBackend (name : String)
  /-- The recall order names a medium that there is not. -/
  | unknownBackend (name : String)
  /-- The configured time limit is zero. -/
  | zeroTimeoutMs
  /-- The time limit of a store is zero. -/
  | zeroTimeout
  /-- No call may run at all. -/
  | zeroParallel
  /-- The name of the ledger file is blank. -/
  | blankFileName
  /-- The text is no TOML, or not that of a configuration. -/
  | unreadable
  /-- A number is too large to be written. -/
  | unwritable
deriving DecidableEq, Repr

namespace Fault

/-- The fault in words. -/
def message : Fault → String
  | noBackends => "store needs at least one backend"
  | duplicateBackend name => s!"backend registered twice: {name}"
  | unknownBackend name => s!"recall order names unknown backend: {name}"
  | zeroTimeoutMs => "configuration error: backend_timeout_ms must be positive"
  | zeroTimeout => "configuration error: backend timeout must be positive"
  | zeroParallel => "configuration error: max_parallel_writes must be positive"
  | blankFileName => "configuration error: ledger.file_name is empty"
  | unreadable => "configuration error: not a configuration"
  | unwritable => "configuration error: number out of range"

end Fault

/-- The first item that equals one before it. -/
def firstRepeated? {α : Type} [BEq α] : List α → List α → Option α
  | _, [] => none
  | seen, a :: as => if seen.contains a then some a else firstRepeated? (a :: seen) as

/-- What is wrong with a configuration, the first of its faults. -/
def validate (c : Config) : Except Fault Unit :=
  if c.backends.isEmpty then .error .noBackends
  else match firstRepeated? [] c.backends with
    | some k => .error (.duplicateBackend k.name)
    | none =>
      if c.timeoutMs = 0 then .error .zeroTimeoutMs
      else if c.maxParallel = 0 then .error .zeroParallel
      else if Text.allBlank c.ledger.fileName then .error .blankFileName
      else .ok ()

/-- The path of the ledger file (`ledger_path`). -/
def ledgerPath (c : Config) : Path := (Path.ofText c.dataDir).join c.ledger.fileName

/-- A number of milliseconds as descriptions show it: in seconds from one second on,
without zeros at the end. -/
def describeMs (ms : Nat) : String :=
  if ms = 0 then "0ns"
  else if ms < 1000 then s!"{ms}ms"
  else
    let fraction := toString (1000 + ms % 1000) |>.toList.drop 1
    let shown := (fraction.reverse.dropWhile (· == '0')).reverse
    if shown.isEmpty then s!"{ms / 1000}s" else s!"{ms / 1000}.{String.ofList shown}s"

/-! ## JSON -/

/-- The fields of a configuration. -/
def toJson (c : Config) : Json :=
  .object [("data_dir", .string c.dataDir),
    ("backend_timeout_ms", .natural c.timeoutMs.toNat),
    ("max_parallel_writes", .natural c.maxParallel.toNat),
    ("backends", .array (c.backends.map Medium.Kind.toJson)),
    ("ledger", .object [("file_name", .string c.ledger.fileName),
      ("sync_mode", c.ledger.syncMode.toJson)])]

/-- A field that may be missing. -/
def orDefault {α β : Type} (read : α → Option β) (default : β) : Option α → Option β
  | none => some default
  | some v => read v

/-- The configuration of a ledger from its fields. -/
def ledgerOfJson? (v : Json) : Option LedgerConfig := do
  match ← v.fields? ["file_name", "sync_mode"] with
  | [fileName, syncMode] =>
    return ⟨← orDefault Json.string? "ledger.jsonl" fileName,
      ← orDefault SyncMode.ofJson? .everyWrite syncMode⟩
  | _ => none

/-- A configuration from its fields. -/
def ofJson? (v : Json) : Option Config := do
  match ← v.fields? ["data_dir", "backend_timeout_ms", "max_parallel_writes",
    "backends", "ledger"] with
  | [dataDir, timeoutMs, maxParallel, backends, ledger] =>
    return ⟨← orDefault Json.string? "data" dataDir,
      ← orDefault Json.uint64? 2000 timeoutMs, ← orDefault Json.uint64? 8 maxParallel,
      ← orDefault (Json.list? Medium.Kind.ofJson?) Medium.Kind.all backends,
      ← orDefault ledgerOfJson? {} ledger⟩
  | _ => none

/-! ## TOML -/

/-- The values of named fields, from a table or from a list in their order. A date is
a table in which no field is named. -/
def tomlFields? (names : List String) : Toml → Option (List (Option Toml))
  | .table entries => some (names.map fun n => entries.lookup n)
  | .array items => some (names.mapIdx fun i _ => items[i]?)
  | .moment => some (names.map fun _ => none)
  | _ => none

/-- A text. -/
def tomlText? : Toml → Option String
  | .string s => some s
  | _ => none

/-- A number that is not negative. -/
def tomlUInt64? : Toml → Option UInt64
  | .integer n => if 0 ≤ n then some (UInt64.ofNat n.toNat) else none
  | _ => none

/-- The name of a choice without content: the name alone, or the one key of a table
with nothing below. -/
def tomlChoice? : Toml → Option String
  | .string s => some s
  | .table [(name, .table [])] => some name
  | .table [(name, .array [])] => some name
  | _ => none

/-- The media of a list. -/
def tomlKinds? : Toml → Option (List Medium.Kind)
  | .array items => items.mapM fun v => (tomlChoice? v).bind Medium.Kind.ofName?
  | _ => none

/-- The configuration of a ledger from its fields. -/
def ledgerOfToml? (v : Toml) : Option LedgerConfig := do
  match ← tomlFields? ["file_name", "sync_mode"] v with
  | [fileName, syncMode] =>
    return ⟨← orDefault tomlText? "ledger.jsonl" fileName,
      ← orDefault (fun v => (tomlChoice? v).bind SyncMode.ofName?) .everyWrite syncMode⟩
  | _ => none

/-- A configuration from its fields. -/
def ofTable? (entries : List (String × Toml)) : Option Config := do
  return ⟨← orDefault tomlText? "data" (entries.lookup "data_dir"),
    ← orDefault tomlUInt64? 2000 (entries.lookup "backend_timeout_ms"),
    ← orDefault tomlUInt64? 8 (entries.lookup "max_parallel_writes"),
    ← orDefault tomlKinds? Medium.Kind.all (entries.lookup "backends"),
    ← orDefault ledgerOfToml? {} (entries.lookup "ledger")⟩

/-- The configuration that a text describes, if it is a good one (`from_toml_str`). -/
def ofToml (s : String) : Except Fault Config :=
  match (Toml.parse? s).bind ofTable? with
  | none => .error .unreadable
  | some c =>
    match c.validate with
    | .error f => .error f
    | .ok () => .ok c

/-- The text that describes a configuration; TOML has no numbers of more than 63
bits, and the writer breaks down on a text that it cannot measure (`to_toml_string`). -/
def toToml (c : Config) : Except (Failure Fault) String :=
  if Toml.integerLimit ≤ c.timeoutMs.toNat ||
      Toml.integerLimit ≤ c.maxParallel.toNat then
    .error (.error .unwritable)
  else if !(Toml.isWritable c.dataDir && Toml.isWritable c.ledger.fileName) then
    .error .breakdown
  else .ok (String.ofList
    (Toml.renderLine "data_dir" (Toml.renderText c.dataDir) ++
      Toml.renderLine "backend_timeout_ms" (Nat.toDigits 10 c.timeoutMs.toNat) ++
      Toml.renderLine "max_parallel_writes" (Nat.toDigits 10 c.maxParallel.toNat) ++
      Toml.renderLine "backends" (Toml.renderTexts (c.backends.map Medium.Kind.name)) ++
      ['\n'] ++ "[ledger]".toList ++ ['\n'] ++
      Toml.renderLine "file_name" (Toml.renderText c.ledger.fileName) ++
      Toml.renderLine "sync_mode" (Toml.renderText c.ledger.syncMode.name)))

end Config

end Chronicle
