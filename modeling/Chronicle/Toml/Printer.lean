import Chronicle.Toml.Basic

/-!
# Writing TOML text

Texts are written in the first form that shows them without escapes: between double
quotes, between single quotes, over several lines between three double quotes or
three single quotes; and with escapes between double quotes if there is none. Lists
of two or more items take a line for each.
-/

namespace Chronicle.Toml

/-- What decides how a text is written. -/
structure Measure where
  /-- The longest run of single quotes. -/
  singles : Nat
  /-- The longest run of double quotes. -/
  doubles : Nat
  /-- There is a backslash. -/
  backslash : Bool
  /-- There is a control character other than tab and line feed. -/
  control : Bool
  /-- There is a line feed. -/
  newline : Bool
deriving DecidableEq

/-- The length of the longest run of a character, `run` being the length of the run
that is going on. -/
def longestRun (c : Char) (run : Nat) : List Char → Nat
  | [] => run
  | d :: ds => if d == c then longestRun c (run + 1) ds else max run (longestRun c 0 ds)

/-- A control character that every form but the escaped one refuses. -/
def isControl (c : Char) : Bool :=
  (c.toNat ≤ 0x1F && c != '\t' && c != '\n') || c.toNat == 0x7F

/-- The measure of a text. -/
def measure (cs : List Char) : Measure :=
  ⟨longestRun '\'' 0 cs, longestRun '"' 0 cs, cs.contains '\\', cs.any isControl,
    cs.contains '\n'⟩

/-- The greatest length of a run of quotes that can be measured. -/
def runLimit : Nat := 255

/-- The text can be written: no run of quotes in it is too long to be measured. -/
def isWritable (s : String) : Bool :=
  let m := measure s.toList
  m.singles ≤ runLimit && m.doubles ≤ runLimit

/-- The four forms of texts. -/
inductive Form where
  /-- Between double quotes. -/
  | basic
  /-- Between single quotes. -/
  | literal
  /-- Between three double quotes. -/
  | basicLines
  /-- Between three single quotes. -/
  | literalLines
deriving DecidableEq

/-- The form in which a text is written. -/
def formOf (m : Measure) : Form :=
  if !m.control && !m.backslash && m.doubles == 0 && !m.newline then .basic
  else if !m.control && m.singles == 0 && !m.newline then .literal
  else if !m.control && !m.backslash && m.doubles ≤ 2 then .basicLines
  else if !m.control && m.singles ≤ 2 then .literalLines
  else if m.newline then .basicLines
  else .basic

/-- A character by its number, in four digits. -/
def numberEscape (c : Char) : List Char :=
  let digits := (Nat.toDigits 16 c.toNat).map Char.toUpper
  ['\\', 'u'] ++ List.replicate (4 - digits.length) '0' ++ digits

/-- A character with the escape it needs, other than a double quote and a line feed. -/
def escaped (c : Char) : List Char :=
  if c == '\x08' then ['\\', 'b']
  else if c == '\t' then ['\\', 't']
  else if c == '\x0c' then ['\\', 'f']
  else if c == '\r' then ['\\', 'r']
  else if c == '\\' then ['\\', '\\']
  else if isControl c then numberEscape c
  else [c]

/-- A text on one line with escapes. -/
def escapedLine (cs : List Char) : List Char :=
  cs.flatMap fun c => if c == '"' then ['\\', '"'] else if c == '\n' then ['\\', 'n']
    else escaped c

/-- A text over several lines with escapes; of each run of double quotes, `run` of
which have gone by, every third one is escaped. -/
def escapedLines (run : Nat) : List Char → List Char
  | [] => []
  | c :: cs =>
    if c == '"' then
      if run == 2 then '\\' :: '"' :: escapedLines 0 cs
      else '"' :: escapedLines (run + 1) cs
    else (if c == '\n' then ['\n'] else escaped c) ++ escapedLines 0 cs

/-- A text in the form that suits it. -/
def renderText (s : String) : List Char :=
  let cs := s.toList
  let m := measure cs
  let opening := if m.newline then ['\n'] else []
  match formOf m with
  | .basic => '"' :: escapedLine cs ++ ['"']
  | .literal => '\'' :: cs ++ ['\'']
  | .basicLines => ['"', '"', '"'] ++ opening ++ escapedLines 0 cs ++ ['"', '"', '"']
  | .literalLines => ['\'', '\'', '\''] ++ opening ++ cs ++ ['\'', '\'', '\'']

/-- A list of texts, each on a line of its own if there are two or more. -/
def renderTexts (texts : List String) : List Char :=
  match texts with
  | [] => ['[', ']']
  | [t] => '[' :: renderText t ++ [']']
  | ts =>
    '[' :: (ts.flatMap fun t => ['\n', ' ', ' ', ' ', ' '] ++ renderText t ++ [',']) ++
      ['\n', ']']

/-- An assignment on a line. -/
def renderLine (key : String) (value : List Char) : List Char :=
  key.toList ++ [' ', '=', ' '] ++ value ++ ['\n']

end Chronicle.Toml
