import Chronicle.Json.Shape

/-!
# The kinds of media that a configuration can name
-/

namespace Chronicle.Medium

/-- The media that keep their records on disk (`BackendKind`). -/
inductive Kind where
  /-- A table of rows. -/
  | structured
  /-- A document for each write. -/
  | document
  /-- Nodes that lead from each record to the one before. -/
  | recursive
  /-- Compressed records in one file. -/
  | archive
  /-- A grey image for each write. -/
  | glyph
deriving DecidableEq, Repr, Inhabited

namespace Kind

/-- All kinds, in the order in which a store asks them by default (`DEFAULT_ORDER`). -/
def all : List Kind := [structured, document, recursive, archive, glyph]

/-- The name of a kind. -/
def name : Kind → String
  | structured => "structured"
  | document => "document"
  | recursive => "recursive"
  | archive => "archive"
  | glyph => "glyph"

/-- The kind with a name. -/
def ofName? (s : String) : Option Kind := all.find? fun k => k.name == s

/-- A kind is written as its name. -/
def toJson (k : Kind) : Json := .string k.name

/-- A kind is read as a choice without content. -/
def ofJson? (v : Json) : Option Kind := v.choice?.bind ofName?

theorem ofName?_name (k : Kind) : ofName? k.name = some k := by
  cases k <;> rfl

theorem name_inj {a b : Kind} (h : a.name = b.name) : a = b := by
  have := congrArg ofName? h
  simpa [ofName?_name] using this

end Kind

end Chronicle.Medium
