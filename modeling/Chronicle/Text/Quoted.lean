import Chronicle.Text.Hidden

/-!
# Quoted text

How names, paths and characters are shown in descriptions: between quotes, with
backslash escapes for quotes, backslashes, line ends, tabs and NUL, and the code
point in braces for whatever would not show.
-/

namespace Chronicle.Text

/-- One character between quotes, those of `quotes` being escaped. -/
def escaped (quotes : List Char) (c : Char) : String :=
  if c == '\x00' then "\\0"
  else if c == '\t' then "\\t"
  else if c == '\n' then "\\n"
  else if c == '\r' then "\\r"
  else if c == '\\' || quotes.contains c then "\\" ++ c.toString
  else if isHidden c then
    "\\u\x7b" ++ String.ofList (Nat.toDigits 16 c.toNat) ++ "\x7d"
  else c.toString

/-- A text between double quotes. -/
def quoted (s : String) : String :=
  "\"" ++ String.join (s.toList.map (escaped ['"'])) ++ "\""

/-- A path between double quotes; quotes of both kinds are escaped in it. -/
def quotedPath (s : String) : String :=
  "\"" ++ String.join (s.toList.map (escaped ['"', '\''])) ++ "\""

/-- A character between single quotes. -/
def quotedChar (c : Char) : String := "'" ++ escaped ['\''] c ++ "'"

end Chronicle.Text
