import Chronicle.Raster

/-!
# Least sides

The square root in double precision is never more than a whole number whose square
has room: such a number is a double itself, and rounding does not step over it. It
can be too small, by rounding down to a whole number, and then the width grows until
its square has room.

* `bisect_le`, `le_bisect_mul_bisect`: what bisection finds is the least number with
  a large enough square.
* `nearestRoot_near`: the rounding of a square root is the nearest one.
* `ceilDoubleRoot_le`: the square root in double precision does not step over a whole
  number.
* `le_widthFor_mul_widthFor`, `widthFor_le`: the width is the least one whose square
  has room.
* `le_mul_rows`, `rows_le`: the height is the least one with which a width has room.
-/

namespace Chronicle.Raster

variable {n m : Nat}

/-! ## Square roots of whole numbers -/

/-- Bisection ends at a number whose square is large enough. -/
theorem le_bisect_mul_bisect {fuel lo hi : Nat} (hhi : n ≤ hi * hi) (hle : lo ≤ hi)
    (hfuel : hi - lo < 1 <<< fuel) :
    n ≤ bisect n fuel lo hi * bisect n fuel lo hi := by
  induction fuel generalizing lo hi with
  | zero =>
    have heq : lo = hi := by
      rw [Nat.shiftLeft_zero] at hfuel
      omega
    rw [bisect, heq]
    exact hhi
  | succ fuel ih =>
    have hdouble : 1 <<< (fuel + 1) = 2 * 1 <<< fuel := Nat.shiftLeft_succ 1 fuel
    rw [bisect]
    split
    · have heq : lo = hi := by omega
      rw [heq]
      exact hhi
    · simp only
      split
      · next hmid => exact ih hmid (by omega) (by omega)
      · exact ih hhi (by omega) (by omega)

/-- Bisection does not step over a number whose square is large enough. -/
theorem bisect_le {fuel lo hi : Nat} (hlo : lo ≤ m) (hm : n ≤ m * m) :
    bisect n fuel lo hi ≤ m := by
  induction fuel generalizing lo hi with
  | zero => exact hlo
  | succ fuel ih =>
    rw [bisect]
    split
    · exact hlo
    · simp only
      split
      · exact ih hlo
      · next hmid =>
          exact ih (Nat.mul_self_lt_mul_self_iff.1
            (Nat.lt_of_lt_of_le (Nat.not_le.1 hmid) hm))

theorem le_ceilRoot_mul_ceilRoot (n : Nat) : n ≤ ceilRoot n * ceilRoot n := by
  have hpos : 1 ≤ 1 <<< (Nat.log2 n / 2 + 1) := by
    rw [Nat.shiftLeft_eq, Nat.one_mul]
    exact Nat.one_le_two_pow
  have hsquare : n ≤ 1 <<< (Nat.log2 n / 2 + 1) * 1 <<< (Nat.log2 n / 2 + 1) := by
    rw [Nat.shiftLeft_eq, Nat.one_mul, ← Nat.pow_add]
    exact Nat.le_of_lt (Nat.lt_of_lt_of_le Nat.lt_log2_self
      (Nat.pow_le_pow_right (by decide) (by omega)))
  refine le_bisect_mul_bisect hsquare hpos ?_
  have hmono : 1 <<< (Nat.log2 n / 2 + 1) ≤ 1 <<< (Nat.log2 n + 2) := by
    rw [Nat.shiftLeft_eq, Nat.shiftLeft_eq, Nat.one_mul, Nat.one_mul]
    exact Nat.pow_le_pow_right (by decide) (by omega)
  omega

theorem pos_of_le_mul_self (hn : 0 < n) (hm : n ≤ m * m) : 0 < m :=
  Nat.pos_of_mul_pos_left (Nat.lt_of_lt_of_le hn hm)

theorem ceilRoot_le (hn : 0 < n) (hm : n ≤ m * m) : ceilRoot n ≤ m :=
  bisect_le (pos_of_le_mul_self hn hm) hm

theorem nearestRoot_le (hn : 0 < n) (hm : n ≤ m * m) : nearestRoot n ≤ m := by
  have hle := ceilRoot_le hn hm
  rw [nearestRoot]
  split <;> omega

/-- No whole number is as near to the square root as the nearest one: the root lies
less than a half away, on either side. -/
theorem nearestRoot_near (hn : 0 < n) :
    4 * (nearestRoot n * nearestRoot n) + 1 < 4 * n + 4 * nearestRoot n ∧
      4 * n < (2 * nearestRoot n + 1) * (2 * nearestRoot n + 1) := by
  have habove := le_ceilRoot_mul_ceilRoot n
  obtain ⟨a, ha⟩ := Nat.exists_eq_add_of_lt (pos_of_le_mul_self hn habove)
  have hbelow : a * a < n := by
    rw [← Nat.not_le]
    intro hle
    have := ceilRoot_le hn hle
    omega
  rw [Nat.zero_add] at ha
  rw [ha] at habove
  have hsquare : (a + 1) * (a + 1) = a * a + 2 * a + 1 := by
    rw [Nat.add_mul, Nat.mul_add]
    omega
  have hodd : ∀ r, (2 * r + 1) * (2 * r + 1) = 4 * (r * r) + 4 * r + 1 := by
    intro r
    rw [Nat.add_mul, Nat.mul_add, Nat.mul_mul_mul_comm]
    omega
  rw [hodd, nearestRoot, ha]
  simp only [hsquare]
  split
  · rw [Nat.add_sub_cancel]
    omega
  · rw [hsquare]
    omega

/-! ## Square roots in double precision -/

/-- A whole number of no more than 53 bits is a double. -/
theorem double_eq_self (h : n < 1 <<< precision) : double n = n := by
  have hlog : Nat.log2 n + 1 - precision = 0 := by
    rcases Nat.eq_zero_or_pos n with rfl | hpos
    · rfl
    · rw [Nat.shiftLeft_eq, Nat.one_mul] at h
      have := (Nat.log2_lt (Nat.pos_iff_ne_zero.1 hpos)).2 h
      omega
  rw [double, hlog]
  simp [nearestUnit]

theorem ceilDoubleRoot_le (hn : 0 < n) (hm : n ≤ m * m) : ceilDoubleRoot n ≤ m := by
  rw [ceilDoubleRoot]
  generalize hshift : precision - 1 - Nat.log2 n / 2 = shift
  have hunit : 0 < 2 ^ shift := Nat.two_pow_pos shift
  -- In units of the last bit `m` is a whole number, so that rounding stays below it.
  have hroot : nearestRoot (n <<< (2 * shift)) ≤ m * 2 ^ shift := by
    apply nearestRoot_le
    · rw [Nat.shiftLeft_eq]
      exact Nat.mul_pos hn (Nat.two_pow_pos _)
    · rw [Nat.shiftLeft_eq, Nat.two_mul, Nat.pow_add, Nat.mul_mul_mul_comm]
      exact Nat.mul_le_mul_right _ hm
  rw [Nat.shiftRight_eq_div_pow, Nat.shiftLeft_eq 1, Nat.one_mul]
  apply Nat.le_of_lt_succ
  rw [Nat.div_lt_iff_lt_mul hunit, Nat.succ_mul m]
  omega

/-! ## Widths -/

theorem le_widen_mul_widen (n width : Nat) : n ≤ widen n width * widen n width := by
  fun_induction widen n width with
  | case1 width _ ih => exact ih
  | case2 width hroom => exact Nat.not_lt.1 hroom

/-- The width grows no further than to the least one with room. -/
theorem widen_le {width : Nat} (hwidth : width ≤ m) (hm : n ≤ m * m) :
    widen n width ≤ m := by
  fun_induction widen n width with
  | case1 width hsmall ih =>
    exact ih (Nat.mul_self_lt_mul_self_iff.1 (Nat.lt_of_lt_of_le hsmall hm))
  | case2 width _ => exact hwidth

theorem le_widthFor_mul_widthFor (n : Nat) : n ≤ widthFor n * widthFor n :=
  le_widen_mul_widen n _

theorem widthFor_le (hn : 0 < n) (hdouble : n < 1 <<< precision) (hm : n ≤ m * m) :
    widthFor n ≤ m := by
  rw [widthFor, double_eq_self hdouble]
  exact widen_le (ceilDoubleRoot_le hn hm) hm

/-! ## Heights -/

/-- Division that rounds up leaves room for all pixels. -/
theorem le_mul_rows {width : Nat} (hwidth : 0 < width) :
    n ≤ width * ((n + width - 1) / width) := by
  have hdiv := Nat.div_add_mod (n + width - 1) width
  have hmod := Nat.mod_lt (n + width - 1) hwidth
  omega

/-- Division that rounds up gives no more rows than are needed. -/
theorem rows_le {width : Nat} (hwidth : 0 < width) (hm : n ≤ width * m) :
    (n + width - 1) / width ≤ m := by
  apply Nat.le_of_lt_succ
  apply Nat.div_lt_of_lt_mul
  rw [Nat.succ_eq_add_one, Nat.mul_add, Nat.mul_one]
  omega

end Chronicle.Raster
