/-!
# TOML values and documents

`Toml` is a value as it is read from. A document is a sequence of statements: headers
that open tables and assignments to keys. `Document.run` carries the statements out
and refuses those that define a table or a key twice, or that reach into a value.
-/

namespace Chronicle

/-- A TOML value. Of floating-point numbers and of dates and times only the kind is
kept. -/
inductive Toml where
  /-- A text. -/
  | string (s : String)
  /-- A whole number. -/
  | integer (n : Int)
  /-- A truth value. -/
  | boolean (b : Bool)
  /-- A floating-point number. -/
  | float
  /-- A date, a time, or both. -/
  | moment
  /-- A list. -/
  | array (items : List Toml)
  /-- Named values. -/
  | table (entries : List (String × Toml))
deriving Inhabited

namespace Toml

/-- Whole numbers lie below this limit, and not below its negative. -/
def integerLimit : Nat := 1 <<< 63

/-- How a table came about. -/
inductive Origin where
  /-- A longer header named it. -/
  | implied
  /-- A dotted key named it. -/
  | dotted
  /-- A header of its own opened it. -/
  | declared
deriving DecidableEq

/-- A part of a document that is being read. -/
inductive Item where
  /-- A value, which nothing can be added to. -/
  | value (v : Toml)
  /-- A table. -/
  | table (origin : Origin) (entries : List (String × Item))
  /-- The tables of a list, each opened by a header, the last one first. -/
  | tables (elements : List Item)
deriving Inhabited

/-- The entries of a table. -/
abbrev Entries := List (String × Item)

/-- The entries with one of them replaced. -/
def replace (name : String) (item : Item) (es : Entries) : Entries :=
  es.map fun (n, i) => if n == name then (n, item) else (n, i)

/-- Applies `f` to the table that a path leads to, making the tables on the way that
are missing. The last table of a list of tables stands for the list. A dotted path
may not enter a table with a header of its own. -/
def descend (dotted : Bool) (f : Origin → Entries → Option Entries) :
    List String → Origin → Entries → Option Entries
  | [], origin, es => f origin es
  | name :: path, _, es =>
    match es.lookup name with
    | none =>
      let origin := if dotted then Origin.dotted else .implied
      (descend dotted f path origin []).map fun inner =>
        es ++ [(name, .table origin inner)]
    | some (.value _) => none
    | some (.tables (.table origin inner :: before)) =>
      (descend dotted f path origin inner).map fun inner =>
        replace name (.tables (.table origin inner :: before)) es
    | some (.tables _) => none
    | some (.table origin inner) =>
      if dotted && origin == .declared then none
      else (descend dotted f path origin inner).map fun inner =>
        replace name (.table origin inner) es

/-- Assigns a value to a key below a dotted path. The path must lead to a table that
dotted keys made, and the key must be new. -/
def assign (path : List String) (key : String) (v : Toml) :
    Origin → Entries → Option Entries :=
  descend true (fun origin es =>
    if (origin == .dotted) == path.isEmpty then none
    else if (es.lookup key).isSome then none
    else some (es ++ [(key, .value v)])) path

/-- Opens a table: a new one, or one that longer headers named before. -/
def openTable (name : String) (_ : Origin) (es : Entries) : Option Entries :=
  match es.lookup name with
  | none => some (es ++ [(name, .table .declared [])])
  | some (.table .implied inner) => some (replace name (.table .declared inner) es)
  | _ => none

/-- Opens the next table of a list of tables. -/
def openNextTable (name : String) (_ : Origin) (es : Entries) : Option Entries :=
  match es.lookup name with
  | none => some (es ++ [(name, .tables [.table .declared []])])
  | some (.tables elements) =>
    some (replace name (.tables (.table .declared [] :: elements)) es)
  | _ => none

mutual

/-- The value of a part of a document. -/
def Item.toToml : Item → Toml
  | .value v => v
  | .table _ entries => .table (entriesToToml entries)
  | .tables elements => .array (elementsToToml elements).reverse

/-- The values of entries. -/
def entriesToToml : List (String × Item) → List (String × Toml)
  | [] => []
  | (name, item) :: rest => (name, item.toToml) :: entriesToToml rest

/-- The values of the tables of a list. -/
def elementsToToml : List Item → List Toml
  | [] => []
  | item :: rest => item.toToml :: elementsToToml rest

end

/-- A statement of a document. -/
inductive Statement where
  /-- A header that opens a table. -/
  | header (path : List String) (name : String)
  /-- A header that opens the next table of a list. -/
  | nextHeader (path : List String) (name : String)
  /-- An assignment in the open table. -/
  | assignment (path : List String) (key : String) (value : Toml)

/-- A document after some statements. -/
structure Document where
  /-- The path of the open table. -/
  current : List String := []
  /-- Everything that was defined. -/
  root : Entries := []

namespace Document

/-- The document after one more statement. -/
def step (d : Document) : Statement → Option Document
  | .header path name =>
    (descend false (openTable name) path .declared d.root).map fun root =>
      ⟨path ++ [name], root⟩
  | .nextHeader path name =>
    (descend false (openNextTable name) path .declared d.root).map fun root =>
      ⟨path ++ [name], root⟩
  | .assignment path key v =>
    (descend false (assign path key v) d.current .declared d.root).map fun root =>
      { d with root }

/-- The table that statements define. -/
def run (statements : List Statement) : Option (List (String × Toml)) :=
  (statements.foldlM step {}).map fun d => entriesToToml d.root

end Document

/-- The table of an inline table from its assignments. -/
def inlineTable? (pairs : List (List String × String × Toml)) : Option Toml :=
  (pairs.foldlM (fun es (path, key, v) => assign path key v .declared es) []).map
    fun es =>
    .table (entriesToToml es)

end Toml

end Chronicle
