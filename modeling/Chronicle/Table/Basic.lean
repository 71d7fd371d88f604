import Chronicle.Medium.Error
import Chronicle.Record
import Chronicle.Table.Number

/-!
# Tables of records

A row for each write, oldest first. Anybody may put any cell into any column of a
row: a column only turns what it can into its own kind of cell, and a row is read as
a record only if every cell has the right kind.
-/

namespace Chronicle

namespace Table

/-- What stands in one column of a row. -/
inductive Cell where
  /-- A number. -/
  | integer (n : Int)
  /-- A text. -/
  | text (s : String)
  /-- A byte string. -/
  | blob (bs : Bytes)
deriving DecidableEq

/-- One record as it stands in a table. -/
structure Row where
  /-- The clock reading. -/
  unixMs : Cell
  /-- The count beside the clock reading. -/
  logical : Cell
  /-- The kind. -/
  kind : Cell
  /-- The key. -/
  key : Cell
  /-- The value. -/
  value : Cell
  /-- The signature. -/
  signature : Cell
deriving DecidableEq

/-- The columns. -/
inductive Column where
  /-- The clock reading. -/
  | unixMs
  /-- The count beside the clock reading. -/
  | logical
  /-- The kind. -/
  | kind
  /-- The key. -/
  | key
  /-- The value. -/
  | value
  /-- The signature. -/
  | signature
deriving DecidableEq, Repr

namespace Column

/-- The name of a column. -/
def name : Column → String
  | unixMs => "ts_ms"
  | logical => "ts_logical"
  | kind => "kind"
  | key => "key"
  | value => "value"
  | signature => "signature"

/-- The column with a name. -/
def ofName? (s : String) : Option Column :=
  [unixMs, logical, kind, key, value, signature].find? fun c => c.name == s

end Column

/-! ## Cells and columns -/

/-- What a column makes of a cell: number columns take texts that are numbers, text
columns take numbers, and the value column takes everything as it is. -/
def Column.convert : Column → Cell → Cell
  | .unixMs, .text s | .logical, .text s =>
    match wholeNumber? s with
    | some n => .integer n
    | none => .text s
  | .kind, .integer n | .key, .integer n | .signature, .integer n => .text (toString n)
  | _, c => c

/-- The row with another cell in a column. -/
def Row.set (r : Row) (column : Column) (c : Cell) : Row :=
  let c := column.convert c
  match column with
  | .unixMs => { r with unixMs := c }
  | .logical => { r with logical := c }
  | .kind => { r with kind := c }
  | .key => { r with key := c }
  | .value => { r with value := c }
  | .signature => { r with signature := c }

/-- The row of a record; there is none for clock readings that do not fit the column. -/
def Row.ofRecord (r : Record) : Except Medium.Error Row :=
  if integerLimit ≤ r.stamp.unixMs.toNat then
    .error (.unwritable (.lateTimestamp r.stamp))
  else .ok ⟨.integer r.stamp.unixMs.toNat, .integer r.stamp.logical.toNat,
    .text r.kind, .text r.key, .blob r.value, .text r.signature.toHex⟩

/-- The record in a row that was found by its key. -/
def Row.toRecord (key : String) (r : Row) : Except Medium.Error Record :=
  match r.unixMs, r.logical, r.kind, r.value, r.signature with
  | .integer unixMs, .integer logical, .text kind, .blob value, .text signature =>
    match Digest.ofHex signature with
    | .error e => .error (.corrupt (.signatureColumn key e))
    | .ok signature =>
      if 0 ≤ unixMs ∧ unixMs < UInt64.size ∧ 0 ≤ logical ∧ logical < UInt32.size then
        .ok ⟨kind, key, value, signature,
          ⟨UInt64.ofNat unixMs.toNat, UInt32.ofNat logical.toNat⟩⟩
      else .error (.corrupt (.timestampColumns key unixMs logical))
  | _, _, _, _, _ => .error .table

end Table

/-- The rows of a table, oldest first. -/
abbrev Table := List Table.Row

namespace Table

/-- The row was written for the key. -/
def Row.isFor (key : String) (r : Row) : Bool := r.key == .text key

/-- The latest row of a key. -/
def latest? (t : Table) (key : String) : Option Row := t.reverse.find? (Row.isFor key)

/-- The latest record of a key. -/
def read (t : Table) (key : String) : Except Medium.Error (Option Record) :=
  match latest? t key with
  | none => .ok none
  | some r => (r.toRecord key).map some

/-- The kind of a row. -/
def Row.kind? (r : Row) : Option String :=
  match r.kind with
  | .text s => some s
  | _ => none

/-- How many rows there are of each kind, in the order of the kinds (`kind_counts`). -/
def kindCounts (t : Table) : Except Medium.Error (List (String × Nat)) :=
  match t.mapM Row.kind? with
  | none => .error .table
  | some kinds =>
    let distinct := kinds.eraseDups.mergeSort fun a b => decide (a ≤ b)
    .ok (distinct.map fun k => (k, kinds.count k))

/-- Puts a cell into a column of every row of a key. The answer is how many rows that
are. No column may be left empty. -/
def setCells (t : Table) (key : String) (column : Column) (c : Option Cell) :
    Except Medium.Error (Nat × Table) :=
  let n := t.countP (Row.isFor key)
  match c with
  | none => if n = 0 then .ok (0, t) else .error .table
  | some c => .ok (n, t.map fun r => if r.isFor key then r.set column c else r)

/-- Takes out every row of a key. -/
def deleteAll (t : Table) (key : String) : Nat × Table :=
  (t.countP (Row.isFor key), t.filter fun r => !r.isFor key)

/-- Takes out the latest row of a key. -/
def deleteLatest (t : Table) (key : String) : Nat × Table :=
  (min 1 (t.countP (Row.isFor key)), (t.reverse.eraseP (Row.isFor key)).reverse)

end Table

end Chronicle
