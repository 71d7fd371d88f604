import Chronicle.Text.Decimal

/-!
# JSON values and how they are written

`Json` holds what the library reads from JSON text and writes to it: natural numbers,
texts, lists and objects with their members in order. Whatever else is well-formed
JSON is `other`: it can be skipped, and nothing can be read from it.

`render` writes a value on one line, or over several lines with two blanks of
indentation a level.
-/

namespace Chronicle

/-- A JSON value. -/
inductive Json where
  /-- The value `null`. -/
  | null
  /-- A truth value. -/
  | bool (b : Bool)
  /-- A number of at most twenty digits, without sign, fraction and exponent. -/
  | natural (n : Nat)
  /-- A text. -/
  | string (s : String)
  /-- A list of values. -/
  | array (items : List Json)
  /-- Named values, in the order of the text. -/
  | object (members : List (String × Json))
  /-- A value to skip: a number with sign, fraction, exponent or more than twenty
  digits, a string that is not Unicode text, or an object with such a string as a
  name. -/
  | other
deriving Inhabited

namespace Json

/-- How much a value is spread out: on one line, or over lines that are indented by a
number of levels. -/
inductive Layout where
  /-- On one line, without blanks. -/
  | compact
  /-- Over several lines, at the given level. -/
  | indented (level : Nat)
deriving DecidableEq

namespace Layout

/-- The layout one level further in. -/
def inner : Layout → Layout
  | compact => compact
  | indented level => indented (level + 1)

/-- What separates items: nothing, or a new line and its indentation. -/
def lineBreak : Layout → Bytes
  | compact => []
  | indented level => 0x0A :: List.replicate (2 * level) 0x20

/-- What stands between a name and its value. -/
def colon : Layout → Bytes
  | compact => [0x3A]
  | indented _ => [0x3A, 0x20]

end Layout

/-- One byte of a text, escaped where it must be: quotes, backslashes and control
characters. -/
def escapeByte (b : UInt8) : Bytes :=
  if b == 0x22 then [0x5C, 0x22]
  else if b == 0x5C then [0x5C, 0x5C]
  else if b == 0x08 then [0x5C, 0x62]
  else if b == 0x0C then [0x5C, 0x66]
  else if b == 0x0A then [0x5C, 0x6E]
  else if b == 0x0D then [0x5C, 0x72]
  else if b == 0x09 then [0x5C, 0x74]
  else if b < 0x20 then
    let digit (n : Nat) : UInt8 := UInt8.ofNat (if n < 10 then 0x30 + n else 0x57 + n)
    [0x5C, 0x75, 0x30, 0x30, digit (b.toNat / 16), digit (b.toNat % 16)]
  else [b]

/-- A text between quotes. -/
def renderText (s : String) : Bytes :=
  0x22 :: (Bytes.ofText s).flatMap escapeByte ++ [0x22]

mutual

/-- The text of a value. A value to skip is written as one. -/
def render (layout : Layout) : Json → Bytes
  | null => [0x6E, 0x75, 0x6C, 0x6C]
  | bool true => [0x74, 0x72, 0x75, 0x65]
  | bool false => [0x66, 0x61, 0x6C, 0x73, 0x65]
  | natural n => Text.Decimal.render n
  | string s => renderText s
  | array items => 0x5B :: renderItems layout true items
  | object members => 0x7B :: renderMembers layout true members
  | other => [0x2D, 0x30]

/-- The items of a list, a comma before each but the first, and the closing bracket. -/
def renderItems (layout : Layout) (first : Bool) : List Json → Bytes
  | [] => if first then [0x5D] else layout.lineBreak ++ [0x5D]
  | v :: vs =>
    (if first then [] else [0x2C]) ++ layout.inner.lineBreak ++ render layout.inner v ++
      renderItems layout false vs

/-- The members of an object, a comma before each but the first, and the closing
brace. -/
def renderMembers (layout : Layout) (first : Bool) : List (String × Json) → Bytes
  | [] => if first then [0x7D] else layout.lineBreak ++ [0x7D]
  | (name, v) :: ms =>
    (if first then [] else [0x2C]) ++ layout.inner.lineBreak ++ renderText name ++
      layout.colon ++ render layout.inner v ++ renderMembers layout false ms

end

/-- The value on one line. -/
def compact (v : Json) : Bytes := v.render .compact

/-- The value over several lines. -/
def pretty (v : Json) : Bytes := v.render (.indented 0)

end Json

end Chronicle
