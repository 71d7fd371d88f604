/-!
# Square roots in double precision

The side of a square with a given area is first taken from the square root in double
precision. Whole numbers below `2 ^ 53` are doubles; a greater one stands for the
nearest double, which is a whole number as well. A square root is rounded to the
nearest double and then up to a whole number. All of it is done on whole numbers: a
square root is found in units of the last bit that the double nearest to it has.
-/

namespace Chronicle.Raster

/-- The number of bits that a double keeps, from the first one that is set. -/
def precision : Nat := 53

/-- The whole number nearest to `n` in units of `2 ^ shift`, of two the even one. -/
def nearestUnit (n shift : Nat) : Nat :=
  let below := n >>> shift
  let twice := 2 * (n - below <<< shift)
  if twice < 1 <<< shift || (twice == 1 <<< shift && below % 2 == 0) then below
  else below + 1

/-- The double nearest to a whole number. -/
def double (n : Nat) : Nat :=
  let shift := Nat.log2 n + 1 - precision
  nearestUnit n shift <<< shift

/-- The least number between `lo` and `hi` whose square is at least `n`, by
bisection; the fuel bounds the number of steps. -/
def bisect (n : Nat) : Nat → Nat → Nat → Nat
  | 0, lo, _ => lo
  | fuel + 1, lo, hi =>
    if hi ≤ lo then lo
    else
      let mid := (lo + hi) / 2
      if n ≤ mid * mid then bisect n fuel lo mid else bisect n fuel (mid + 1) hi

/-- The square root of a positive number, rounded up. -/
def ceilRoot (n : Nat) : Nat := bisect n (Nat.log2 n + 2) 1 (1 <<< (Nat.log2 n / 2 + 1))

/-- The whole number nearest to the square root of a positive number. There are never
two: the square of a number half way between is not whole. -/
def nearestRoot (n : Nat) : Nat :=
  let above := ceilRoot n
  if n ≤ above * above - above then above - 1 else above

/-- The double nearest to the square root of a positive double, rounded up to a whole
number. The square root of a number with `2 * k + 1` or `2 * k + 2` bits has `k + 1`
bits before the point. -/
def ceilDoubleRoot (n : Nat) : Nat :=
  let shift := precision - 1 - Nat.log2 n / 2
  (nearestRoot (n <<< (2 * shift)) + (1 <<< shift) - 1) >>> shift

end Chronicle.Raster
