import Chronicle.Text.Decimal

/-!
# Numbers in tables

Number columns hold whole numbers of 64 bits with sign. A text of digits stands for
the number it spells. A text with a point or an exponent stands for a double, and for
a whole number only if that double is whole.

The double is not always the nearest one. Digits are taken as long as they fit into
64 bits, and the number that they make is multiplied by powers of ten one after the
other, each product being rounded to 64 binary digits; what comes out is rounded to
the 53 digits of a double.
-/

namespace Chronicle.Table

/-- Numbers in a table lie below this limit, and not below its negative. -/
def integerLimit : Nat := 1 <<< 63

/-! ## Rounding -/

/-- The whole number nearest to a quotient; of two that are equally near, the even
one. -/
def roundEven (num den : Nat) : Nat :=
  let q := num / den
  let r := num % den
  if 2 * r < den || (2 * r == den && q % 2 == 0) then q else q + 1

/-- The number of binary digits. -/
def bitLength (n : Nat) : Nat := if n = 0 then 0 else Nat.log2 n + 1

/-- How many binary digits a double keeps. -/
def precision : Nat := 53

/-- Numbers up to one half to this power are as good as zero for a double. -/
def underflow : Nat := 1075

/-- The double nearest to a quotient, if it is a whole number. -/
def nearestWhole? (num den : Nat) : Option Nat :=
  let bits := bitLength (num / den)
  if precision < bits then
    let k := bits - precision
    some (roundEven num (den <<< k) <<< k)
  else
    let k := precision - bits
    let m := roundEven (num <<< k) den
    if m % (1 <<< k) = 0 ∧ (m ≠ 0 ∨ num <<< underflow ≤ den) then some (m >>> k)
    else none

/-! ## Powers of ten -/

/-- A significand times a power of two. -/
structure Binary where
  /-- The significand. -/
  significand : Nat
  /-- The power of two. -/
  exponent : Int
deriving DecidableEq, Repr

namespace Binary

/-- How many binary digits products keep. -/
def precision : Nat := 64

/-- The number of as many binary digits as products keep that is nearest to a
quotient. -/
def nearest (num den : Nat) : Binary :=
  let up (e : Int) : Nat := num <<< (-e).toNat
  let down (e : Int) : Nat := den <<< e.toNat
  let e : Int := bitLength num - bitLength den - precision
  let e := if precision < bitLength (up e / down e) then e + 1 else e
  ⟨roundEven (up e) (down e), e⟩

/-- The rounded product. -/
def times (x y : Binary) : Binary :=
  let z := nearest (x.significand * y.significand) 1
  ⟨z.significand, z.exponent + x.exponent + y.exponent⟩

/-- The number multiplied `n` times. -/
def timesRepeated (c : Binary) : Nat → Binary → Binary
  | 0, x => x
  | n + 1, x => timesRepeated c n (x.times c)

/-- The number multiplied by ten to the power `e`: by hundredth powers as long as the
rest allows it, then by tenth powers, then by ten, or likewise by their inverses. -/
def scale (x : Binary) (e : Int) : Binary :=
  let power (k : Nat) : Binary :=
    if 0 ≤ e then nearest (Nat.pow 10 k) 1 else nearest 1 (Nat.pow 10 k)
  let n := e.natAbs
  let x := timesRepeated (power 100) (n / 100) x
  let x := timesRepeated (power 10) (n % 100 / 10) x
  timesRepeated (power 1) (n % 10) x

/-- The double nearest to a number, if it is whole and has at most 64 binary digits. -/
def toWhole? (x : Binary) : Option Nat :=
  if x.significand = 0 then some 0
  else if precision ≤ x.exponent then none
  else if x.exponent < -(underflow + 2 * precision : Int) then some 0
  else nearestWhole? (x.significand <<< x.exponent.toNat) (1 <<< (-x.exponent).toNat)

end Binary

/-! ## Texts -/

/-- The bytes that may stand around a number. -/
def isSpace (b : UInt8) : Bool := b == 0x20 || (0x09 ≤ b && b ≤ 0x0D)

/-- A sign and what follows it. -/
def signed (s : Bytes) : Bool × Bytes :=
  match s with
  | 0x2D :: rest => (true, rest)
  | 0x2B :: rest => (false, rest)
  | _ => (false, s)

/-- The greatest exponent that is told from others. -/
def exponentLimit : Nat := 10000

/-- The exponent that makes up all of a text: empty, or a letter and a signed number. -/
def exponent? : Bytes → Option Int
  | [] => some 0
  | e :: rest =>
    let (negative, ds) := signed rest
    if (e == 0x65 || e == 0x45) && !ds.isEmpty && ds.all Text.Decimal.isDigit then
      let n : Int := ds.foldl
        (fun n d => if n < exponentLimit then 10 * n + Text.Decimal.digitValue d
          else exponentLimit) (0 : Nat)
      some (if negative then -n else n)
    else none

/-- Digits that have been taken, as a number, and the power of ten by which it is to
be multiplied. -/
structure Taken where
  /-- The number. -/
  number : Nat := 0
  /-- The power of ten. -/
  power : Int := 0
deriving DecidableEq, Repr

namespace Taken

/-- A number with one more digit has 64 bits if it was below this limit before. -/
def limit : Nat := (UInt64.size - 10) / 10

/-- Takes a digit before the point, if there is room for it; otherwise the number
stands for more. -/
def whole (t : Taken) (d : UInt8) : Taken :=
  if t.number < limit then
    { t with number := 10 * t.number + Text.Decimal.digitValue d }
  else { t with power := t.power + 1 }

/-- Takes a digit after the point, if there is room for it. -/
def fraction (t : Taken) (d : UInt8) : Taken :=
  if t.number < limit then ⟨10 * t.number + Text.Decimal.digitValue d, t.power - 1⟩
  else t

/-- Brings the power of ten as near to zero as the number allows while it stays whole
and has 64 bits. It has at most twenty digits, so that there are no more than twenty
steps. -/
def settle : Nat → Taken → Taken
  | 0, t => t
  | fuel + 1, t =>
    if 0 < t.power ∧ t.number < (UInt64.size - 1) / 10 then
      settle fuel ⟨10 * t.number, t.power - 1⟩
    else if t.power < 0 ∧ t.number % 10 = 0 then
      settle fuel ⟨t.number / 10, t.power + 1⟩
    else t

/-- The double that the digits stand for, if it is a whole number. -/
def toWhole? (t : Taken) : Option Nat :=
  if t.number = 0 then some 0
  else
    let t := settle 20 t
    (Binary.scale ⟨t.number, 0⟩ t.power).toWhole?

end Taken

/-- The whole number of 64 bits that a text stands for: digits with a sign, a point
and an exponent if need be, and blanks around. -/
def wholeNumber? (s : String) : Option Int :=
  let trimmed :=
    ((Bytes.ofText s).dropWhile isSpace).reverse.dropWhile isSpace |>.reverse
  let (negative, s) := signed trimmed
  let whole := s.takeWhile Text.Decimal.isDigit
  let afterWhole := s.dropWhile Text.Decimal.isDigit
  let (fraction, rest) := match afterWhole with
    | 0x2E :: rest =>
      (rest.takeWhile Text.Decimal.isDigit, rest.dropWhile Text.Decimal.isDigit)
    | _ => ([], afterWhole)
  let number? : Option Nat :=
    if whole.isEmpty && fraction.isEmpty then none
    else if afterWhole.isEmpty then
      some (Text.Decimal.valueBelow (integerLimit + 1) whole)
    else (exponent? rest).bind fun e =>
      let t := fraction.foldl Taken.fraction (whole.foldl Taken.whole {})
      Taken.toWhole? { t with power := t.power + e }
  match number? with
  | none => none
  | some n =>
    let i : Int := if negative then -n else n
    let least : Int := if afterWhole.isEmpty then -integerLimit else -integerLimit + 1
    if least ≤ i ∧ i < integerLimit then some i else none

end Chronicle.Table
