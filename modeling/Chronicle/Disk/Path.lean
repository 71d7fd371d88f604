/-!
# Paths

A path is the list of names between the slashes of a text. It keeps the names that
lead nowhere, so that it can be shown as it was given: `a//./b` has the names `a`,
the empty one, `.` and `b`. The empty name and the single point stand for the place
they are met at, two points for the directory above it.

* `toText_ofText`: a path is shown as the text it was read from.
-/

namespace Chronicle

/-- The names between the slashes. -/
abbrev Path := List String

namespace Path

/-- The names in a text, `current` being the characters of the name that is going on,
last one first. -/
def names (current : List Char) : List Char → List String
  | [] => [String.ofList current.reverse]
  | c :: cs =>
    if c == '/' then String.ofList current.reverse :: names [] cs
    else names (c :: current) cs

/-- The path that a text stands for. -/
def ofText (s : String) : Path := names [] s.toList

/-- A path as text. -/
def toText (p : Path) : String := "/".intercalate p

theorem names_ne_nil (current cs : List Char) : names current cs ≠ [] := by
  induction cs generalizing current with
  | nil => simp [names]
  | cons c cs ih =>
    rw [names]
    split
    · exact List.cons_ne_nil _ _
    · exact ih _

theorem toList_toText_names (current cs : List Char) :
    (toText (names current cs)).toList = current.reverse ++ cs := by
  induction cs generalizing current with
  | nil => simp [toText, names]
  | cons c cs ih =>
    rw [names]
    split
    · rename_i h
      have hc : c = '/' := by simpa using h
      have hcs := ih []
      rw [toText] at hcs ⊢
      rw [String.intercalate_cons_of_ne_nil (names_ne_nil _ _)]
      simp [hcs, hc]
    · rw [ih]
      simp

/-- Nothing of a text is lost in its path. -/
theorem toText_ofText (s : String) : toText (ofText s) = s := by
  apply String.toList_injective
  simp [ofText, toList_toText_names]

/-- The name stands for the place it is met at. -/
def isHere (name : String) : Bool := name == "" || name == "."

/-- The place one name further on from another one. -/
def step (p : Path) (name : String) : Path :=
  if isHere name then p else if name == ".." then p.dropLast else p ++ [name]

/-- The path that a text stands for below another one. A text that begins with a
slash stands for itself; no slash is put where there is one. -/
def join (p : Path) (s : String) : Path :=
  if s.toList.head? = some '/' then ofText s
  else if p.getLast? = some "" then p.dropLast ++ ofText s
  else p ++ ofText s

/-- The path without the names at its end that stand for the place they are met at. -/
def trim (p : Path) : Path := (p.reverse.dropWhile isHere).reverse

/-- The directory of a path: what is left without the last name that leads somewhere. -/
def parent (p : Path) : Path := trim (trim p).dropLast

/-- The last name that is not empty is the single point. -/
def endsHere (p : Path) : Bool := (p.reverse.dropWhile (· == "")).head? = some "."

/-- How many bytes a name may have. -/
def nameLimit : Nat := 255

/-- How many bytes the text of a path may have. -/
def textLimit : Nat := 4095

/-- The path is one that can be asked for: its text is not too long and has no zero
character. -/
def isProper (p : Path) : Bool :=
  p.toText.utf8ByteSize ≤ textLimit && p.all fun name => !name.toList.contains '\x00'

/-- A place as tables hold it: places at different depths are told apart without a
look at their names. -/
def key (p : Path) : Nat × Path := (p.length, p)

@[simp] theorem key_inj {p q : Path} : p.key = q.key ↔ p = q := by
  constructor
  · intro h
    exact congrArg Prod.snd h
  · intro h
    rw [h]

/-- The part of a file name after its last point, if there is a name before it. -/
def extension? (name : String) : Option String :=
  let after := name.toList.reverse.takeWhile (· != '.')
  if after.length + 1 < name.length then some (String.ofList after.reverse) else none

/-- The file name with what follows its last point replaced. -/
def withExtension (name ext : String) : String :=
  match extension? name with
  | some old => String.ofList (name.toList.take (name.length - old.length)) ++ ext
  | none => name ++ "." ++ ext

end Path

end Chronicle
