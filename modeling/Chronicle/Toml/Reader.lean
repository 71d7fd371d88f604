import Chronicle.Toml.Basic

/-!
# Reading TOML text

`Toml.parse?` gives the table of a TOML 1.0 text. Each reader takes what it needs
from the front of the characters and gives the rest. Readers of texts, keys, values
and statements take fuel, which is never short when it is more than twice the number
of characters: a list within a list costs two steps and is two characters longer.
-/

namespace Chronicle.Toml

/-- A blank within a line. -/
def isBlank (c : Char) : Bool := c == ' ' || c == '\t'

/-- What follows the blanks. -/
def skipBlanks (s : List Char) : List Char := s.dropWhile isBlank

/-- A character that texts on one line and comments may hold. -/
def isPlain (c : Char) : Bool :=
  c == '\t' || (0x20 ≤ c.toNat && c.toNat ≤ 0x7E) || 0x80 ≤ c.toNat

/-- What follows a line end. -/
def newline? : List Char → Option (List Char)
  | '\n' :: rest => some rest
  | '\r' :: '\n' :: rest => some rest
  | _ => none

/-- What follows a comment, if there is one. -/
def skipComment (s : List Char) : List Char :=
  match s with
  | '#' :: rest => rest.dropWhile isPlain
  | s => s

/-- The next line, if nothing but blanks and a comment is left on this one. -/
def lineEnd? (s : List Char) : Option (List Char) :=
  match skipComment (skipBlanks s) with
  | [] => some []
  | s => newline? s

/-- What follows blanks, comments and line ends. Within a comment, `comment` is the
text from its mark on: a comment that no line end follows is not left out. -/
def skipLinesFrom : Option (List Char) → List Char → List Char
  | comment, [] => comment.getD []
  | _, '\n' :: rest => skipLinesFrom none rest
  | _, '\r' :: '\n' :: rest => skipLinesFrom none rest
  | none, c :: rest =>
    if isBlank c then skipLinesFrom none rest
    else if c == '#' then skipLinesFrom (some (c :: rest)) rest
    else c :: rest
  | some comment, c :: rest =>
    if isPlain c then skipLinesFrom (some comment) rest else comment

/-- What follows blanks, line ends, and comments that a line end follows. -/
def skipLines (s : List Char) : List Char := skipLinesFrom none s

/-! ## Texts -/

/-- The number that a hexadecimal digit stands for. -/
def hexValue? (c : Char) : Option Nat :=
  if '0' ≤ c && c ≤ '9' then some (c.toNat - 48)
  else if 'a' ≤ c && c ≤ 'f' then some (c.toNat - 87)
  else if 'A' ≤ c && c ≤ 'F' then some (c.toNat - 55)
  else none

/-- The number that hexadecimal digits stand for. -/
def hexNumber? (cs : List Char) : Option Nat :=
  cs.foldlM (fun n c => (hexValue? c).map (16 * n + ·)) 0

/-- The character with the number that the next `n` hexadecimal digits stand for. -/
def numbered (n : Nat) (s : List Char) : Option (Char × List Char) := do
  let digits := s.take n
  if digits.length < n then none
  let number ← hexNumber? digits
  if h : number.isValidChar then some (Char.ofNatAux number h, s.drop n) else none

/-- The character that an escape stands for, after the backslash. -/
def escape (s : List Char) : Option (Char × List Char) :=
  match s with
  | 'b' :: rest => some ('\x08', rest)
  | 't' :: rest => some ('\t', rest)
  | 'n' :: rest => some ('\n', rest)
  | 'f' :: rest => some ('\x0c', rest)
  | 'r' :: rest => some ('\r', rest)
  | '"' :: rest => some ('"', rest)
  | '\\' :: rest => some ('\\', rest)
  | 'u' :: rest => numbered 4 rest
  | 'U' :: rest => numbered 8 rest
  | _ => none

/-- The text up to the closing double quote. -/
def basic : Nat → List Char → Option (List Char × List Char)
  | 0, _ => none
  | fuel + 1, s =>
    match s with
    | '"' :: rest => some ([], rest)
    | '\\' :: rest => do
      let (c, rest) ← escape rest
      let (cs, rest) ← basic fuel rest
      return (c :: cs, rest)
    | c :: rest =>
      if isPlain c then (basic fuel rest).map fun (cs, rest) => (c :: cs, rest)
      else none
    | [] => none

/-- The text up to the closing single quote, in which nothing is escaped. -/
def literal (s : List Char) : Option (List Char × List Char) :=
  let inside := s.takeWhile fun c => isPlain c && c != '\''
  match s.drop inside.length with
  | '\'' :: rest => some (inside, rest)
  | _ => none

/-- At three or more quotes a text of several lines ends; up to two more quotes
before the last three belong to it. The quotes that belong to the text, and what
follows, or nothing if the text goes on. -/
def closing? (quote : Char) (s : List Char) : Option (List Char × List Char) :=
  let quotes := (s.takeWhile (· == quote)).length
  if quotes < 3 then none
  else
    let kept := min (quotes - 3) 2
    some (List.replicate kept quote, s.drop (kept + 3))

/-- What follows blanks and line ends. -/
def skipBlankLines : List Char → List Char
  | [] => []
  | '\n' :: rest => skipBlankLines rest
  | '\r' :: '\n' :: rest => skipBlankLines rest
  | c :: rest => if isBlank c then skipBlankLines rest else c :: rest

/-- What follows an escaped line end: blanks and further line ends do not count. -/
def escapedNewline? (s : List Char) : Option (List Char) :=
  (newline? (skipBlanks s)).map skipBlankLines

/-- The text up to three closing double quotes. -/
def basicLines : Nat → List Char → Option (List Char × List Char)
  | 0, _ => none
  | fuel + 1, s =>
    match closing? '"' s with
    | some (kept, rest) => some (kept, rest)
    | none =>
      match newline? s with
      | some rest => (basicLines fuel rest).map fun (cs, rest) => ('\n' :: cs, rest)
      | none =>
        match s with
        | '\\' :: rest =>
          match escapedNewline? rest with
          | some rest => basicLines fuel rest
          | none => do
            let (c, rest) ← escape rest
            let (cs, rest) ← basicLines fuel rest
            return (c :: cs, rest)
        | c :: rest =>
          if isPlain c then (basicLines fuel rest).map fun (cs, rest) => (c :: cs, rest)
          else none
        | [] => none

/-- The text up to three closing single quotes, in which nothing is escaped. -/
def literalLines : Nat → List Char → Option (List Char × List Char)
  | 0, _ => none
  | fuel + 1, s =>
    match closing? '\'' s with
    | some (kept, rest) => some (kept, rest)
    | none =>
      match newline? s with
      | some rest => (literalLines fuel rest).map fun (cs, rest) => ('\n' :: cs, rest)
      | none =>
        match s with
        | c :: rest =>
          if isPlain c then
            (literalLines fuel rest).map fun (cs, rest) => (c :: cs, rest)
          else none
        | [] => none

/-- A line end directly after the opening quotes does not count. -/
def trimNewline (s : List Char) : List Char := (newline? s).getD s

/-- A text in one of its four forms. -/
def text (fuel : Nat) (s : List Char) : Option (String × List Char) :=
  (match s with
  | '"' :: '"' :: '"' :: rest => basicLines fuel (trimNewline rest)
  | '"' :: rest => basic fuel rest
  | '\'' :: '\'' :: '\'' :: rest => literalLines fuel (trimNewline rest)
  | '\'' :: rest => literal rest
  | _ => none).map fun (cs, rest) => (String.ofList cs, rest)

/-! ## Keys -/

/-- A character of a bare key. -/
def isBare (c : Char) : Bool := c.isAlphanum || c == '_' || c == '-'

/-- One part of a key: bare, or a text on one line. -/
def keyPart (fuel : Nat) (s : List Char) : Option (String × List Char) :=
  match s with
  | '"' :: rest => (basic fuel rest).map fun (cs, rest) => (String.ofList cs, rest)
  | '\'' :: rest => (literal rest).map fun (cs, rest) => (String.ofList cs, rest)
  | s =>
    let part := s.takeWhile isBare
    if part.isEmpty then none else some (String.ofList part, s.drop part.length)

/-- The parts of a key, blanks around each and points between them. -/
def keyParts : Nat → List Char → Option (List String × List Char)
  | 0, _ => none
  | fuel + 1, s => do
    let (part, rest) ← keyPart fuel (skipBlanks s)
    match skipBlanks rest with
    | '.' :: rest => (keyParts fuel rest).map fun (parts, rest) => (part :: parts, rest)
    | rest => some ([part], rest)

/-- How deep keys and values may be nested. -/
def depthLimit : Nat := 80

/-- A key: the path before its last part, and that part. -/
def key (fuel : Nat) (s : List Char) : Option ((List String × String) × List Char) := do
  let (parts, rest) ← keyParts fuel s
  if depthLimit ≤ parts.length then none
  let last ← parts.getLast?
  return ((parts.dropLast, last), rest)

/-! ## Numbers, dates and times -/

/-- Digits, single underscores allowed between them, without the underscores. -/
def digits (isDigit : Char → Bool) : List Char → Option (List Char × List Char)
  | [] => none
  | [c] => if isDigit c then some ([c], []) else none
  | c :: '_' :: rest =>
    if isDigit c then (digits isDigit rest).map fun (cs, rest) => (c :: cs, rest)
    else none
  | c :: d :: rest =>
    if !isDigit c then none
    else if isDigit d then
      (digits isDigit (d :: rest)).map fun (cs, rest) => (c :: cs, rest)
    else some ([c], d :: rest)

/-- The number that digits of a base stand for. -/
def numberOf (base : Nat) (cs : List Char) : Nat :=
  cs.foldl (fun n c => base * n + (hexValue? c).getD 0) 0

/-- A sign, if there is one: whether the number is negative. -/
def sign (s : List Char) : Bool × List Char :=
  match s with
  | '-' :: rest => (true, rest)
  | '+' :: rest => (false, rest)
  | s => (false, s)

/-- The digits before a point: a zero alone, or digits that do not begin with zero. -/
def wholePart (s : List Char) : Option (List Char × List Char) :=
  match s with
  | '0' :: rest => some (['0'], rest)
  | s => digits Char.isDigit s

/-- From this number on, further digits of an exponent do not count. -/
def exponentLimit : Nat := 65536

/-- The number that the digits of an exponent stand for. -/
def exponentOf (ds : List Char) : Nat :=
  ds.foldl (fun n c => if n < exponentLimit then 10 * n + (hexValue? c).getD 0 else n) 0

/-- The exponent of a floating-point number. -/
def exponent (s : List Char) : Option (Int × List Char) :=
  match s with
  | c :: rest =>
    if c == 'e' || c == 'E' then
      let (negative, rest) := sign rest
      (digits Char.isDigit rest).map fun (ds, rest) =>
        (if negative then -(exponentOf ds : Int) else exponentOf ds, rest)
    else none
  | [] => none

/-- The decimal with the digits `ds`, as a whole number, times `10 ^ e` is too large
for a double. It is if its part before the point is, and that has `ds.length + e`
digits. -/
def isHuge (ds : List Char) (e : Int) : Bool :=
  let ds := ds.dropWhile (· == '0')
  let size : Int := ds.length + e
  let bound := (1 <<< 1024) - (1 <<< 970)
  if ds.isEmpty || size < 300 then false
  else if size > 320 then true
  else bound ≤ numberOf 10 (ds.take size.toNat) * Nat.pow 10 (size.toNat - ds.length)

/-- A floating-point number: digits with a fraction, an exponent, or both, or one of
the special values. -/
def floatNumber (s : List Char) : Option (Toml × List Char) :=
  let (negative, unsigned) := sign s
  match unsigned with
  | 'i' :: 'n' :: 'f' :: rest => some (.float, rest)
  | 'n' :: 'a' :: 'n' :: rest => some (.float, rest)
  | unsigned => do
    let (whole, rest) ← wholePart unsigned
    let (fraction, rest, hasFraction) ←
      match rest with
      | '.' :: rest => (digits Char.isDigit rest).map fun (ds, rest) => (ds, rest, true)
      | rest => some ([], rest, false)
    let (e, rest) ←
      match rest with
      | 'e' :: _ | 'E' :: _ => exponent rest
      | rest => if hasFraction then some (0, rest) else none
    if !negative && isHuge (whole ++ fraction) (e - fraction.length) then none
    return (.float, rest)

/-- The number that digits of a base stand for, if there are no more of them than a
number of 64 bits can have. -/
def shortNumber? (base : Nat) (ds : List Char) : Option Int :=
  let ds := ds.dropWhile (· == '0')
  if (ds.drop 64).isEmpty then some (numberOf base ds) else none

/-- A whole number of 64 bits with sign, in base ten, sixteen, eight or two. -/
def wholeNumber (s : List Char) : Option (Toml × List Char) := do
  let based (base : Nat) (isDigit : Char → Bool) (rest : List Char) : Option
      (Int × List Char) := do
    let (ds, rest) ← digits isDigit rest
    return (← shortNumber? base ds, rest)
  let (n, rest) ←
    match s with
    | '0' :: 'x' :: rest => based 16 (fun c => (hexValue? c).isSome) rest
    | '0' :: 'o' :: rest => based 8 (fun c => '0' ≤ c && c ≤ '7') rest
    | '0' :: 'b' :: rest => based 2 (fun c => c == '0' || c == '1') rest
    | s => do
      let (negative, unsigned) := sign s
      let (ds, rest) ← wholePart unsigned
      let n ← shortNumber? 10 ds
      pure (if negative then -n else n, rest)
  if n < -(integerLimit : Int) || (integerLimit : Int) ≤ n then none
  return (.integer n, rest)

/-- Exactly `n` digits, as a number. -/
def fixed (n : Nat) (s : List Char) : Option (Nat × List Char) :=
  let ds := s.take n
  if ds.length == n && ds.all Char.isDigit then some (numberOf 10 ds, s.drop n)
  else none

/-- The days of a month. -/
def daysIn (year month : Nat) : Nat :=
  if month == 2 then
    if year % 4 == 0 && (year % 100 != 0 || year % 400 == 0) then 29 else 28
  else if month == 4 || month == 6 || month == 9 || month == 11 then 30
  else 31

/-- What follows a date. -/
def date? (s : List Char) : Option (List Char) := do
  let (year, s) ← fixed 4 s
  let '-' :: s := s | none
  let (month, s) ← fixed 2 s
  let '-' :: s := s | none
  let (day, s) ← fixed 2 s
  if month < 1 || 12 < month || day < 1 || daysIn year month < day then none
  return s

/-- What follows an hour and a minute. -/
def hourMinute? (s : List Char) : Option (List Char) := do
  let (hour, s) ← fixed 2 s
  let ':' :: s := s | none
  let (minute, s) ← fixed 2 s
  if 23 < hour || 59 < minute then none
  return s

/-- What follows a time of day. -/
def time? (s : List Char) : Option (List Char) := do
  let s ← hourMinute? s
  let ':' :: s := s | none
  let (second, s) ← fixed 2 s
  if 60 < second then none
  match s with
  | '.' :: d :: rest =>
    if d.isDigit then some (rest.dropWhile Char.isDigit) else some s
  | s => some s

/-- What follows an offset from universal time. -/
def offset? (s : List Char) : Option (List Char) :=
  match s with
  | 'Z' :: rest | 'z' :: rest => some rest
  | '+' :: rest | '-' :: rest => hourMinute? rest
  | _ => none

/-- A date, a time, or both with or without an offset. -/
def dateTime (s : List Char) : Option (Toml × List Char) :=
  match date? s with
  | some rest =>
    let withTime : Option (List Char) :=
      match rest with
      | c :: after => if c == 'T' || c == 't' || c == ' ' then time? after else none
      | [] => none
    match withTime with
    | some after => some (.moment, (offset? after).getD after)
    | none => some (.moment, rest)
  | none => (time? s).map fun rest => (.moment, rest)

/-! ## Values -/

mutual

/-- A value; `depth` counts the lists and inline tables around it. -/
def value : Nat → Nat → List Char → Option (Toml × List Char)
  | 0, _, _ => none
  | fuel + 1, depth, s =>
    match s with
    | '"' :: _ | '\'' :: _ => (text fuel s).map fun (t, rest) => (.string t, rest)
    | '[' :: rest =>
      if depthLimit ≤ depth + 1 then none
      else (items fuel (depth + 1) rest).map fun (vs, rest) => (.array vs, rest)
    | '{' :: rest =>
      if depthLimit ≤ depth + 1 then none
      else
        match skipBlanks rest with
        | '}' :: rest => some (.table [], rest)
        | _ => do
          let (pairs, rest) ← pairs fuel (depth + 1) rest
          let t ← inlineTable? pairs
          return (t, rest)
    | 't' :: 'r' :: 'u' :: 'e' :: rest => some (.boolean true, rest)
    | 'f' :: 'a' :: 'l' :: 's' :: 'e' :: rest => some (.boolean false, rest)
    | s => (dateTime s).orElse fun _ => (floatNumber s).orElse fun _ => wholeNumber s

/-- The items of a list up to its closing bracket, each with blanks, comments and
line ends around it. -/
def items : Nat → Nat → List Char → Option (List Toml × List Char)
  | 0, _, _ => none
  | fuel + 1, depth, s =>
    match skipLines s with
    | ']' :: rest => some ([], rest)
    | s =>
      match value fuel depth s with
      | none => none
      | some (v, rest) =>
        match skipLines rest with
        | ',' :: rest => (items fuel depth rest).map fun (vs, rest) => (v :: vs, rest)
        | ']' :: rest => some ([v], rest)
        | _ => none

/-- The assignments of an inline table up to its closing brace. -/
def pairs :
    Nat → Nat → List Char → Option (List (List String × String × Toml) × List Char)
  | 0, _, _ => none
  | fuel + 1, depth, s =>
    match key fuel s with
    | some ((path, name), '=' :: rest) =>
      match value fuel depth (skipBlanks rest) with
      | none => none
      | some (v, rest) =>
        match skipBlanks rest with
        | ',' :: rest => (pairs fuel depth rest).map fun (ps, rest) =>
          ((path, name, v) :: ps, rest)
        | '}' :: rest => some ([(path, name, v)], rest)
        | _ => none
    | _ => none

end

/-! ## Documents -/

/-- A statement, and what follows it on its line. -/
def statement (fuel : Nat) (s : List Char) : Option (Statement × List Char) :=
  match s with
  | '[' :: '[' :: rest =>
    match key fuel rest with
    | some ((path, name), ']' :: ']' :: rest) => some (.nextHeader path name, rest)
    | _ => none
  | '[' :: rest =>
    match key fuel rest with
    | some ((path, name), ']' :: rest) => some (.header path name, rest)
    | _ => none
  | s =>
    match key fuel s with
    | some ((path, name), '=' :: rest) =>
      (value fuel 0 (skipBlanks rest)).map fun (v, rest) =>
        (.assignment path name v, rest)
    | _ => none

/-- The statements of a text, at most one a line. -/
def statements : Nat → List Char → Option (List Statement)
  | 0, _ => none
  | fuel + 1, s =>
    match skipLines s with
    | [] => some []
    | s =>
      match skipComment s with
      | [] => some []
      | _ =>
        match statement fuel s with
        | none => none
        | some (first, rest) =>
          match lineEnd? rest with
          | none => none
          | some rest => (statements fuel rest).map (first :: ·)

/-- The table of a text; a mark of the byte order before it does not count. -/
def parse? (s : String) : Option (List (String × Toml)) :=
  let cs := match s.toList with
    | '\ufeff' :: rest => rest
    | cs => cs
  (statements (2 * cs.length + 3) cs).bind Document.run

end Chronicle.Toml
