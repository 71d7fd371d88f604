import Chronicle.Ledger.Basic
import Chronicle.Signature
import Chronicle.Store.Error
import Chronicle.Store.Member

/-!
# Stores

A store hands each record to all of its media and enters the attempt in a ledger,
whatever the media did. It asks the media one after the other for a record, and
serves the first one that has the right key and a signature that fits its value.

Storing a value goes in three steps: the record is made (`prepare`), the media get it
(`dispatch`), and the attempt is entered in the ledger (`settle`). Between the steps
of one attempt there may be steps of others.
-/

namespace Chronicle

/-- A store over media of one type (`MemoryStore`). -/
structure Store (μ : Type) where
  /-- The media, in the order in which they are asked. -/
  members : List (Store.Member μ)
  /-- The ledger. -/
  ledger : Ledger
  /-- How many calls may run at once on one medium. -/
  slots : Nat
  /-- How long a call may take, in milliseconds. -/
  timeoutMs : Nat
deriving DecidableEq

/-- A record and the medium that served it. -/
structure Recalled where
  /-- The record. -/
  record : Record
  /-- The name of the medium. -/
  backend : String
deriving DecidableEq

namespace Store

variable {μ : Type} [Medium.Adapter μ]

/-- The names of the media, in the order in which they are asked (`backend_names`). -/
def names (s : Store μ) : List String := s.members.map Member.name

/-- How many calls one attempt makes at once. -/
def workers (s : Store μ) : Nat := min s.members.length s.slots

/-- The store with the medium of a name changed by hand. -/
def adjust (s : Store μ) (name : String) (f : Member μ → Member μ) : Store μ :=
  { s with members := s.members.map fun m => if m.name == name then f m else m }

/-! ## Storing -/

/-- The record of a value; blank types are refused first, then keys that are empty or
too long. -/
def prepare (kind key : String) (value : Bytes) (now : Timestamp) :
    Except Record.Invalid Record :=
  match Record.checkKind kind with
  | .error e => .error e
  | .ok () =>
    match Record.checkKey key with
    | .error e => .error e
    | .ok () => .ok (Record.sign kind key value now)

/-- Hands a record to media, each in turn (the writes of `dispatch`). -/
def dispatch (slots : Nat) (r : Record) :
    List (Member μ) → Disk → List (String × Outcome) × List (Member μ) × Disk
  | [], d => ([], [], d)
  | m :: ms, d =>
    let (o, m, d) := m.write slots r d
    let (os, ms, d) := dispatch slots r ms d
    ((m.name, o) :: os, m :: ms, d)

/-- The media that took the record. -/
def ackedNames (outcomes : List (String × Outcome)) : List String :=
  (outcomes.filter fun o => o.2.isAcked).map (·.1)

/-- The receipt of an attempt that is in the ledger. -/
def receipt (r : Record) (outcomes : List (String × Outcome)) (b : Block) : Receipt :=
  { key := r.key, signature := r.signature, stamp := r.stamp
    acked := NameSet.ofNames (ackedNames outcomes), outcomes := NameMap.ofList outcomes
    ackCount := b.acks, success := b.succeeded, blockIndex :=
      b.index, chainHash := b.hash }

/-- Enters an attempt in the ledger (the end of `dispatch`). -/
def settle (s : Store μ) (r : Record) (outcomes : List (String × Outcome))
    (now : Timestamp) (d : Disk) :
    Except Error Receipt × Store μ × Disk :=
  let acks := UInt32.ofNat (NameSet.ofNames (ackedNames outcomes)).size
  match s.ledger.append now r.signature (decide (1 ≤ acks)) acks d with
  | (.error .breakdown, ledger, d) => (.error .runtime, { s with ledger }, d)
  | (.error (.error e), ledger, d) => (.error (.ledger e), { s with ledger }, d)
  | (.ok b, ledger, d) =>
    let result := receipt r outcomes b
    (if b.succeeded then .ok result else .error (.noBackendAvailable result),
      { s with ledger }, d)

/-- Stores a value. The clock is read when the record is made and again when the
block is made. -/
def persist (s : Store μ) (kind key : String) (value : Bytes)
    (taken entered : Timestamp) (d : Disk) :
    Except Error Receipt × Store μ × Disk :=
  match prepare kind key value taken with
  | .error e => (.error (.invalid e), s, d)
  | .ok r =>
    let (outcomes, members, d) := dispatch s.slots r s.members d
    settle { s with members } r outcomes entered d

/-- Stores values one after the other. -/
def persistAll (s : Store μ) (values : List (String × String × Bytes)) (now : Timestamp)
    (d : Disk) :
    List (Except Error Receipt) × Store μ × Disk :=
  match values with
  | [] => ([], s, d)
  | (kind, key, value) :: rest =>
    let (r, s, d) := s.persist kind key value now now d
    let (rs, s, d) := persistAll s rest now d
    (r :: rs, s, d)

/-! ## Recalling -/

/-- The record answers for the key. -/
def serves (key : String) (r : Record) : Bool := r.key == key && r.verify

/-- The record that an answer offers for a key. -/
def offered? (key : String) : Medium.Answer (Option Record) → Option Record
  | .done (some r) => if serves key r then some r else none
  | _ => none

/-- The first record that serves the key, and the media after they were asked
(`recall_record`). -/
def ask (slots : Nat) (key : String) :
    List (Member μ) → Disk → Option Recalled × List (Member μ) × Disk
  | [], d => (none, [], d)
  | m :: ms, d =>
    let (a, m, d) := m.read slots key d
    match offered? key a with
    | some r => (some ⟨r, m.name⟩, m :: ms, d)
    | none =>
      let (hit, ms, d) := ask slots key ms d
      (hit, m :: ms, d)

/-- The latest record of a key and the medium that serves it. -/
def recallRecord (s : Store μ) (key : String) (d : Disk) :
    Option Recalled × Store μ × Disk :=
  match Record.checkKey key with
  | .error _ => (none, s, d)
  | .ok () =>
    let (hit, members, d) := ask s.slots key s.members d
    (hit, { s with members }, d)

/-- The latest value of a key. -/
def recallValue (s : Store μ) (key : String) (d : Disk) :
    Option Bytes × Store μ × Disk :=
  let (hit, s, d) := s.recallRecord key d
  (hit.map (·.record.value), s, d)

/-! ## The ledger -/

/-- Verifies the ledger (`verify_integrity`). -/
def verify (s : Store μ) (d : Disk) : Except Error Ledger.Verdict :=
  match s.ledger.verify d with
  | .error e => .error (.ledger e)
  | .ok v => .ok v

/-- Verifies the ledger and takes a wrong block for an error (`ensure_integrity`).
The answer is the number of blocks. -/
def ensure (s : Store μ) (d : Disk) : Except Error Nat :=
  match s.verify d with
  | .error e => .error e
  | .ok v =>
    match v.first with
    | some index => .error (.chainVerification index)
    | none => .ok v.checked

/-- The counts of the ledger and of each medium. -/
def stats (s : Store μ) : Except Error Stats :=
  match s.ledger.tail? with
  | .error e => .error (.ledger e)
  | .ok t =>
    let counts (f : Member μ → Nat) : NameMap UInt64 :=
      NameMap.ofList (s.members.map fun m => (m.name, UInt64.ofNat (f m)))
    .ok ⟨UInt64.ofNat t.succeeded, UInt64.ofNat t.nextIndex,
      UInt64.ofNat (t.nextIndex - t.succeeded),
      counts Member.acks, counts Member.failures⟩

/-! ## Closing -/

/-- Flushes media, each in turn. The answer is the first error. -/
def flushAll (slots : Nat) :
    List (Member μ) → Disk → Option Error × List (Member μ) × Disk
  | [], d => (none, [], d)
  | m :: ms, d =>
    let (e, m, d) := m.flush slots d
    let (rest, ms, d) := flushAll slots ms d
    ((e.map fun cause => .medium m.name cause) <|> rest, m :: ms, d)

/-- Flushes every medium and the ledger. The answer is the first error. -/
def close (s : Store μ) (d : Disk) : Except Error Unit × Store μ × Disk :=
  let (e, members, d) := flushAll s.slots s.members d
  let (flushed, d) := s.ledger.flush d
  let s := { s with members }
  match e, flushed with
  | some e, _ => (.error e, s, d)
  | none, .error e => (.error (.ledger e), s, d)
  | none, .ok () => (.ok (), s, d)

/-- A store as descriptions show it. -/
def describe (s : Store μ) : String :=
  "MemoryStore \x7b backends: [" ++ ", ".intercalate (s.names.map Text.quoted) ++
    "], workers: " ++
    toString s.workers ++ ", backend_timeout: " ++ Config.describeMs s.timeoutMs ++
      ", ledger: " ++
    s.ledger.describe ++ " \x7d"

end Store

end Chronicle
