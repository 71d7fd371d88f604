import Chronicle.Json.Basic
import Chronicle.Text.Hex

/-!
# Reading JSON text

`Json.parse?` accepts exactly the JSON texts (blanks are space, tab, line feed and
carriage return) and gives the value, in which strings that are not Unicode text and
numbers that are not natural are values to skip. The grammar is read from the bytes,
since a string to skip may hold any of them.
-/

namespace Chronicle.Json

/-- The blanks between tokens. -/
def isSpace (b : UInt8) : Bool := b == 0x20 || b == 0x09 || b == 0x0A || b == 0x0D

/-- What follows the blanks. -/
def skipSpace (s : Bytes) : Bytes := s.dropWhile isSpace

/-! ## Strings -/

/-- A piece of a string as it is written. -/
inductive Piece where
  /-- A byte, or what a short escape stands for. -/
  | byte (b : UInt8)
  /-- A code unit given by its number. -/
  | unit (n : Nat)
deriving DecidableEq

/-- What a backslash and a letter stand for. -/
def shortEscape? (b : UInt8) : Option UInt8 :=
  if b == 0x22 || b == 0x5C || b == 0x2F then some b
  else if b == 0x62 then some 0x08
  else if b == 0x66 then some 0x0C
  else if b == 0x6E then some 0x0A
  else if b == 0x72 then some 0x0D
  else if b == 0x74 then some 0x09
  else none

/-- The number that four hexadecimal digits stand for. -/
def hexUnit? (a b c d : UInt8) : Option Nat := do
  let a ← Text.Hex.digitValue? a
  let b ← Text.Hex.digitValue? b
  let c ← Text.Hex.digitValue? c
  let d ← Text.Hex.digitValue? d
  return ((a * 16 + b) * 16 + c) * 16 + d

/-- The pieces up to the closing quote, and what follows it. -/
def pieces : Bytes → Option (List Piece × Bytes)
  | [] => none
  | 0x22 :: rest => some ([], rest)
  | 0x5C :: 0x75 :: a :: b :: c :: d :: rest =>
    match hexUnit? a b c d, pieces rest with
    | some n, some (ps, rest) => some (.unit n :: ps, rest)
    | _, _ => none
  | 0x5C :: e :: rest =>
    match shortEscape? e, pieces rest with
    | some b, some (ps, rest) => some (.byte b :: ps, rest)
    | _, _ => none
  | b :: rest =>
    if b == 0x5C || b < 0x20 then none
    else match pieces rest with
      | some (ps, rest) => some (.byte b :: ps, rest)
      | none => none

/-- The UTF-8 form of the character with number `n`. -/
def characterBytes (n : Nat) : Bytes := Bytes.ofText (String.ofList [Char.ofNat n])

/-- The bytes of a string; a code unit of a surrogate pair must stand directly before
its partner. -/
def assemble : List Piece → Option Bytes
  | [] => some []
  | .byte b :: ps => (assemble ps).map (b :: ·)
  | .unit n :: ps =>
    if 0xD800 ≤ n && n ≤ 0xDBFF then
      match ps with
      | .unit m :: ps =>
        if 0xDC00 ≤ m && m ≤ 0xDFFF then
          (assemble ps).map
            (characterBytes (0x10000 + (n - 0xD800) * 0x400 + (m - 0xDC00)) ++ ·)
        else none
      | _ => none
    else if 0xDC00 ≤ n && n ≤ 0xDFFF then none
    else (assemble ps).map (characterBytes n ++ ·)

/-- A string without its opening quote: its text, if it is Unicode text, and what
follows. -/
def text (s : Bytes) : Option (Option String × Bytes) :=
  match pieces s with
  | some (ps, rest) => some ((assemble ps).bind Bytes.toText?, rest)
  | none => none

/-! ## Numbers -/

/-- What follows a fraction, if the number has one. -/
def fraction (s : Bytes) : Option Bytes :=
  match s with
  | 0x2E :: rest =>
    match rest with
    | d :: _ =>
      if Text.Decimal.isDigit d then some (rest.dropWhile Text.Decimal.isDigit)
      else none
    | [] => none
  | s => some s

/-- What follows an exponent, if the number has one. -/
def exponent (s : Bytes) : Option Bytes :=
  match s with
  | e :: rest =>
    if e == 0x65 || e == 0x45 then
      let rest := match rest with
        | sign :: after => if sign == 0x2B || sign == 0x2D then after else rest
        | [] => []
      match rest with
      | d :: _ =>
        if Text.Decimal.isDigit d then some (rest.dropWhile Text.Decimal.isDigit)
        else none
      | [] => none
    else some s
  | [] => some []

/-- The digits before the fraction: a zero alone, or digits that do not begin with
zero. -/
def whole (s : Bytes) : Option (Bytes × Bytes) :=
  match s with
  | 0x30 :: rest =>
    match rest with
    | d :: _ => if Text.Decimal.isDigit d then none else some ([0x30], rest)
    | [] => some ([0x30], [])
  | d :: _ =>
    if Text.Decimal.isDigit d then
      some (s.takeWhile Text.Decimal.isDigit, s.dropWhile Text.Decimal.isDigit)
    else none
  | [] => none

/-- How many digits a number that is read may have: those of the greatest number of
64 bits. -/
def digitLimit : Nat := 20

/-- The number that digits stand for. -/
def ofDigits (ds : Bytes) : Json :=
  if (ds.drop digitLimit).isEmpty then natural (Text.Decimal.value ds) else other

/-- The number goes on with a fraction or an exponent. -/
def goesOn : Bytes → Bool
  | b :: _ => b == 0x2E || b == 0x65 || b == 0x45
  | [] => false

/-- A number without sign. -/
def unsigned (s : Bytes) : Option (Json × Bytes) :=
  match whole s with
  | some (digits, rest) =>
    if goesOn rest then ((fraction rest).bind exponent).map fun after => (other, after)
    else some (ofDigits digits, rest)
  | none => none

/-- A number. -/
def number (s : Bytes) : Option (Json × Bytes) :=
  match s with
  | 0x2D :: rest => (unsigned rest).map fun (_, after) => (other, after)
  | s => unsigned s

/-! ## Values -/

/-- An object from its members; a name that is not text makes it a value to skip. -/
def ofMembers (ms : List (Option String × Json)) : Json :=
  match ms.mapM fun (name, v) => name.map fun s => (s, v) with
  | some members => object members
  | none => other

mutual

/-- One value after blanks, and what follows it. -/
def value : Nat → Bytes → Option (Json × Bytes)
  | 0, _ => none
  | fuel + 1, s =>
    match skipSpace s with
    | 0x6E :: 0x75 :: 0x6C :: 0x6C :: rest => some (null, rest)
    | 0x74 :: 0x72 :: 0x75 :: 0x65 :: rest => some (bool true, rest)
    | 0x66 :: 0x61 :: 0x6C :: 0x73 :: 0x65 :: rest => some (bool false, rest)
    | 0x22 :: rest =>
      match text rest with
      | some (some s, rest) => some (string s, rest)
      | some (none, rest) => some (other, rest)
      | none => none
    | 0x5B :: rest =>
      match skipSpace rest with
      | 0x5D :: rest => some (array [], rest)
      | rest => (items fuel rest).map fun (vs, rest) => (array vs, rest)
    | 0x7B :: rest =>
      match skipSpace rest with
      | 0x7D :: rest => some (object [], rest)
      | rest => (members fuel rest).map fun (ms, rest) => (ofMembers ms, rest)
    | s => number s

/-- The items of a list up to its closing bracket. -/
def items : Nat → Bytes → Option (List Json × Bytes)
  | 0, _ => none
  | fuel + 1, s =>
    match value fuel s with
    | none => none
    | some (v, rest) =>
      match skipSpace rest with
      | 0x2C :: rest => (items fuel rest).map fun (vs, rest) => (v :: vs, rest)
      | 0x5D :: rest => some ([v], rest)
      | _ => none

/-- The members of an object up to its closing brace. -/
def members : Nat → Bytes → Option (List (Option String × Json) × Bytes)
  | 0, _ => none
  | fuel + 1, s =>
    match skipSpace s with
    | 0x22 :: rest =>
      match text rest with
      | none => none
      | some (name, rest) =>
        match skipSpace rest with
        | 0x3A :: rest =>
          match value fuel rest with
          | none => none
          | some (v, rest) =>
            match skipSpace rest with
            | 0x2C :: rest => (members fuel rest).map fun (ms, rest) =>
              ((name, v) :: ms, rest)
            | 0x7D :: rest => some ([(name, v)], rest)
            | _ => none
        | _ => none
    | _ => none

end

/-- The value of a JSON text. Every call below reads at least one byte before the
next, so the length of the text bounds their depth. -/
def parse? (s : Bytes) : Option Json :=
  match value (s.length + 1) s with
  | some (v, rest) => if (skipSpace rest).isEmpty then some v else none
  | none => none

end Chronicle.Json
