import Chronicle.Proofs.Raster.RoundTrip
import Mathlib.Order.Bounds.Basic

/-!
# The geometry of rasters

A raster is as wide as the least square with room for its bytes and as high as it
must be, so that less than one row is left over, and the height is the width or one
less.

* `isLeast_widthFor`, `isLeast_height`: both sides are the least that will do.
* `raster_sides_are_least`: the sides and the pixels of the raster of a byte string.
-/

namespace Chronicle.Raster

/-- The width is the least one whose square has room, as long as a double can count
the pixels. -/
theorem isLeast_widthFor {n : Nat} (hn : 0 < n) (hdouble : n < 1 <<< precision) :
    IsLeast {w | n ≤ w * w} (widthFor n) :=
  ⟨le_widthFor_mul_widthFor n, fun _ hm => widthFor_le hn hdouble hm⟩

theorem isLeast_height {n width : Nat} (hwidth : 0 < width) :
    IsLeast {h | n ≤ width * h} ((n + width - 1) / width) :=
  ⟨le_mul_rows hwidth, fun _ hm => rows_le hwidth hm⟩

/-- Less than one row is left over. -/
theorem leftover_lt {n width height : Nat} (hwidth : 0 < width)
    (hheight : IsLeast {h | n ≤ width * h} height) :
    width * height - n < width := by
  cases height with
  | zero =>
    rw [Nat.mul_zero, Nat.zero_sub]
    exact hwidth
  | succ k =>
    have hshort : width * k < n := by
      rw [← Nat.not_le]
      exact fun hroom => Nat.not_succ_le_self k (hheight.2 hroom)
    rw [Nat.mul_succ]
    omega

/-- The height is at most the width, and if it were less by two, a square of one less
would have room. -/
theorem height_eq_or {n width height : Nat} (hn : 0 < n)
    (hwidth : IsLeast {w | n ≤ w * w} width)
    (hheight : IsLeast {h | n ≤ width * h} height) :
    height = width ∨ height + 1 = width := by
  have hle : height ≤ width := hheight.2 hwidth.1
  obtain ⟨k, rfl⟩ := Nat.exists_eq_succ_of_ne_zero
    (Nat.pos_iff_ne_zero.1 (pos_of_le_mul_self hn hwidth.1))
  have hlow : ¬height + 1 ≤ k := by
    intro hlow
    have hsquare : n ≤ k * k := calc
      n ≤ (k + 1) * height := hheight.1
      _ = k * height + height := Nat.succ_mul k height
      _ ≤ k * height + k := Nat.add_le_add_left (Nat.le_of_succ_le hlow) _
      _ = k * (height + 1) := (Nat.mul_succ k height).symm
      _ ≤ k * k := Nat.mul_le_mul_left k hlow
    exact Nat.not_succ_le_self k (hwidth.2 hsquare)
  omega

/-- The raster of a byte string has the least width whose square has room for the
bytes, at least for one, and the least height with which that width has room. So the
height is the width or one less, and less than a row is left over. The pixels are the
bytes and zeros behind them, and both sides have numbers in the header. -/
theorem raster_sides_are_least (bs : Bytes) (h : bs.length < 1 <<< 52) :
    let g := ofBytes bs
    let n := max bs.length 1
    IsLeast {w | n ≤ w * w} g.width ∧ IsLeast {k | n ≤ g.width * k} g.height ∧
    (g.height = g.width ∨ g.height + 1 = g.width) ∧ g.width * g.height - n < g.width ∧
    g.pixels = bs ++ List.replicate (g.width * g.height - bs.length) 0 ∧
    g.pixels.length = g.width * g.height ∧ g.width < UInt32.size ∧
    g.height < UInt32.size := by
  intro g n
  have hn : 0 < n := by omega
  have hlimit : 1 <<< 52 < 1 <<< precision := by decide
  have hwidth : IsLeast {w | n ≤ w * w} g.width := isLeast_widthFor hn (by omega)
  have hpos : 0 < g.width := pos_of_le_mul_self hn hwidth.1
  have hheight : IsLeast {k | n ≤ g.width * k} g.height := isLeast_height hpos
  obtain ⟨hwide, hhigh⟩ := sides_ofBytes (Nat.lt_trans h hlimit)
  exact ⟨hwidth, hheight, height_eq_or hn hwidth hheight, leftover_lt hpos hheight, rfl,
    length_pixels_ofBytes bs, hwide, hhigh⟩

/-- Ten bytes are one too many for a width of three, and leave two pixels of three
rows of four. -/
theorem raster_sides_are_least_ten :
    (List.replicate 10 1 : Bytes).length < 1 <<< 52 ∧
      ofBytes (List.replicate 10 1) = ⟨4, 3, List.replicate 10 1 ++ [0, 0]⟩ ∧
      IsLeast {w | 10 ≤ w * w} 4 ∧ IsLeast {k | 10 ≤ 4 * k} 3 := by
  have hlength : (List.replicate 10 1 : Bytes).length < 1 <<< 52 := by decide
  have hshape : ofBytes (List.replicate 10 1) =
      ⟨4, 3, List.replicate 10 1 ++ [0, 0]⟩ := by decide +kernel
  obtain ⟨hwidth, hheight, _⟩ := raster_sides_are_least (List.replicate 10 1) hlength
  rw [hshape] at hwidth hheight
  exact ⟨hlength, hshape, hwidth, hheight⟩

end Chronicle.Raster
