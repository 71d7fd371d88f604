import Chronicle.Proofs.Binary.RoundTrip
import Chronicle.Proofs.Frame.Journal
import Chronicle.Proofs.Json.Token
import Chronicle.Proofs.Raster.Root
import Chronicle.Raster.Record

/-!
# Rasters are read back

The width is that of a square with room for all bytes, so nothing is cut off, and the
height is no greater. A grey map is four words, one blank, and the pixels. What
follows a word begins with a blank or is nothing at all, so the last word of the
header ends one byte before the pixels, whatever these are.

* `shapeFor_spec`: the width times the height has room.
* `Spells`: which bytes are a grey map of a raster, in any spelling.
* `ofGreyMap_toGreyMap`: a raster is read back from its grey map.
* `toRecord_ofRecord`: a record is read back from its raster.
-/

namespace Chronicle.Raster

variable {s w rest : Bytes} {n : Nat} {g : Raster}

/-! ## Shapes -/

theorem widthFor_pos (h : 0 < n) : 0 < widthFor n :=
  pos_of_le_mul_self h (le_widthFor_mul_widthFor n)

/-- Nothing is cut off, and the raster is no higher than wide. -/
theorem shapeFor_spec (length : Nat) :
    length ≤ (shapeFor length).1 * (shapeFor length).2 ∧
      (shapeFor length).2 ≤ (shapeFor length).1 := by
  have hpos := widthFor_pos (show 0 < max length 1 by omega)
  exact ⟨Nat.le_trans (Nat.le_max_left length 1) (le_mul_rows hpos),
    rows_le hpos (le_widthFor_mul_widthFor _)⟩

theorem length_pixels_ofBytes (bs : Bytes) :
    (ofBytes bs).pixels.length = (ofBytes bs).width * (ofBytes bs).height := by
  have hroom := (shapeFor_spec bs.length).1
  simp only [ofBytes, List.length_append, List.length_replicate]
  omega

/-- The sides of a raster of fewer bytes than a double counts have numbers in the
header. -/
theorem sides_ofBytes {bs : Bytes} (h : bs.length < 1 <<< precision) :
    (ofBytes bs).width < UInt32.size ∧ (ofBytes bs).height < UInt32.size := by
  have hheight : (ofBytes bs).height ≤ (ofBytes bs).width := (shapeFor_spec bs.length).2
  have hone : 1 < 1 <<< precision := by decide
  have hroom : 1 <<< precision ≤ 1 <<< 27 * 1 <<< 27 := by decide
  have hwidth : (ofBytes bs).width ≤ 1 <<< 27 :=
    widthFor_le (by omega) (by omega) (by omega)
  have hsize : 1 <<< 27 < UInt32.size := by decide
  exact ⟨Nat.lt_of_le_of_lt hwidth hsize,
    Nat.lt_of_le_of_lt (Nat.le_trans hheight hwidth) hsize⟩

/-! ## Grey maps -/

/-- Bytes that are blanks, a word, and the rest: the word has no blank in it, and the
rest begins with one unless there is none. -/
structure Splits (s w rest : Bytes) : Prop where
  behind : ∃ blanks, s = blanks ++ (w ++ rest) ∧ ∀ b ∈ blanks, isSpace b = true
  nonempty : w ≠ []
  solid : ∀ b ∈ w, isSpace b = false
  ends : ∀ b, rest.head? = some b → isSpace b = true

theorem Splits.word? (h : Splits s w rest) : word? s = some (w, rest) := by
  obtain ⟨blanks, rfl, hblanks⟩ := h.behind
  have hsolid : ∀ b ∈ w, (!isSpace b) = true := fun b hb => by rw [h.solid b hb]; rfl
  have hdrop : (blanks ++ (w ++ rest)).dropWhile isSpace = w ++ rest := by
    obtain ⟨b, bs, rfl⟩ := List.exists_cons_of_ne_nil h.nonempty
    rw [List.dropWhile_append_of_pos hblanks, List.cons_append,
      List.dropWhile_cons_of_neg (by simp [h.solid b List.mem_cons_self])]
  -- The rest begins with a blank, so the word ends there.
  have hends : rest.takeWhile (!isSpace ·) = [] ∧
      rest.dropWhile (!isSpace ·) = rest := by
    cases rest with
    | nil => exact ⟨rfl, rfl⟩
    | cons b bs =>
      have hb := h.ends b rfl
      exact ⟨List.takeWhile_cons_of_neg (by simp [hb]),
        List.dropWhile_cons_of_neg (by simp [hb])⟩
  rw [Raster.word?]
  simp only [hdrop]
  rw [if_neg (by simp [h.nonempty]), List.takeWhile_append_of_pos hsolid,
    List.dropWhile_append_of_pos hsolid, hends.1, hends.2, List.append_nil]

theorem Splits.number (h : Splits s w rest)
    (hread : Text.Decimal.read? UInt32.size w = some n) :
    number s = .ok (n, rest) := by
  rw [Raster.number, h.word?]
  simp only [hread]

/-- Bytes that begin with the grey map of a raster, in any spelling: the magic word,
the two sides and the greatest value, then one blank, and the pixels. -/
def Spells (s : Bytes) (g : Raster) : Prop :=
  ∃ (width height depth s₁ s₂ s₃ more : Bytes) (blank : UInt8),
    Splits s [0x50, 0x35] s₁ ∧ Splits s₁ width s₂ ∧ Splits s₂ height s₃ ∧
    Splits s₃ depth (blank :: (g.pixels ++ more)) ∧
    Text.Decimal.read? UInt32.size width = some g.width ∧
    Text.Decimal.read? UInt32.size height = some g.height ∧
    Text.Decimal.read? UInt32.size depth = some 255 ∧
    g.pixels.length = g.width * g.height

theorem Spells.sides (h : Spells s g) :
    g.width < UInt32.size ∧ g.height < UInt32.size := by
  obtain ⟨_, _, _, _, _, _, _, _, _, _, _, _, hwidth, hheight, _⟩ := h
  exact ⟨Text.Decimal.lt_of_read? hwidth, Text.Decimal.lt_of_read? hheight⟩

theorem Spells.length_pixels (h : Spells s g) :
    g.pixels.length = g.width * g.height := by
  obtain ⟨_, _, _, _, _, _, _, _, _, _, _, _, _, _, _, hpixels⟩ := h
  exact hpixels

theorem Spells.ofGreyMap (h : Spells s g) : ofGreyMap s = .ok g := by
  obtain ⟨width, height, depth, s₁, s₂, s₃, more, blank, hmagic, hfirst, hsecond,
    hthird, hwidth, hheight, hdepth, hpixels⟩ := h
  rw [Raster.ofGreyMap, hmagic.word?]
  simp only [ne_eq, not_true_eq_false, if_false, hfirst.number hwidth,
    hsecond.number hheight, hthird.number hdepth, bind, Except.bind, List.drop_one,
    List.tail_cons, List.isEmpty_cons, Bool.false_eq_true, false_or, ← hpixels,
    List.take_left, Nat.lt_irrefl]
  rfl

theorem isSpace_of_digit {d : UInt8} (h : Text.Decimal.isDigit d = true) :
    isSpace d = false := by
  simp only [Text.Decimal.isDigit, Bool.and_eq_true, decide_eq_true_eq,
    UInt8.le_iff_toNat_le] at h
  have h48 : (0x30 : UInt8).toNat = 48 := rfl
  have hne : ∀ b : UInt8, b.toNat < 48 → (d == b) = false := by
    intro b hb
    rw [beq_eq_false_iff_ne]
    rintro rfl
    omega
  simp [isSpace, hne]

theorem splits_word {blanks : Bytes} {b : UInt8}
    (hblanks : ∀ x ∈ blanks, isSpace x = true) (hne : w ≠ [])
    (hsolid : ∀ x ∈ w, isSpace x = false) (hb : isSpace b = true) (rest : Bytes) :
    Splits (blanks ++ (w ++ b :: rest)) w (b :: rest) := by
  refine ⟨⟨blanks, rfl, hblanks⟩, hne, hsolid, ?_⟩
  intro x hx
  cases hx
  exact hb

theorem splits_render {blank b : UInt8} (hblank : isSpace blank = true)
    (hb : isSpace b = true) (n : Nat) (rest : Bytes) :
    Splits (blank :: (Text.Decimal.render n ++ b :: rest)) (Text.Decimal.render n)
      (b :: rest) := by
  refine @splits_word _ [blank] b (by simpa using hblank)
    (Text.Decimal.render_ne_nil n) ?_ hb rest
  exact fun x hx => isSpace_of_digit (Text.Decimal.isDigit_of_mem_render hx)

/-- The grey map of a raster spells it, whatever follows. -/
theorem spells_toGreyMap (hwidth : g.width < UInt32.size)
    (hheight : g.height < UInt32.size) (hpixels : g.pixels.length = g.width * g.height)
    (more : Bytes) : Spells (g.toGreyMap ++ more) g := by
  have hmap : g.toGreyMap ++ more =
      [] ++ ([0x50, 0x35] ++ 0x0A :: (Text.Decimal.render g.width ++
      0x20 :: (Text.Decimal.render g.height ++
        0x0A :: ([0x32, 0x35, 0x35] ++ 0x0A :: (g.pixels ++ more))))) := by
    simp [toGreyMap]
  have hmagic :=
    @splits_word [0x50, 0x35] [] 0x0A (by simp) (by simp) (by simp [isSpace]) rfl
  have hdepth := @splits_word [0x32, 0x35, 0x35] [0x0A] 0x0A (by simp [isSpace])
    (by simp) (by simp [isSpace]) rfl
  rw [hmap]
  exact ⟨Text.Decimal.render g.width, Text.Decimal.render g.height, [0x32, 0x35, 0x35],
    _, _, _, more, 0x0A, hmagic _,
    splits_render rfl rfl _ _, splits_render rfl rfl _ _, hdepth _,
    Text.Decimal.read?_render hwidth,
    Text.Decimal.read?_render hheight, by decide, hpixels⟩

/-- A raster is read back from its grey map, whatever its pixels are. -/
theorem ofGreyMap_toGreyMap (hwidth : g.width < UInt32.size)
    (hheight : g.height < UInt32.size)
    (hpixels : g.pixels.length = g.width * g.height) :
    ofGreyMap g.toGreyMap = .ok g := by
  have hspells := spells_toGreyMap hwidth hheight hpixels []
  rw [List.append_nil] at hspells
  exact hspells.ofGreyMap

/-! ## Records -/

/-- A record has a raster if a frame has room for it: that of its frame. -/
theorem ofRecord_eq_ok_iff {r : Record} :
    ofRecord r = .ok g ↔ r.toBinary.length < Frame.payloadLimit ∧
      g = ofBytes (Frame.encode r.toBinary) := by
  rw [ofRecord, Frame.encode?]
  by_cases hlimit : r.toBinary.length < Frame.payloadLimit
  · simp only [hlimit, if_true, true_and, Except.ok.injEq]
    exact eq_comm
  · simp [hlimit]

/-- A record that has a raster is read back from its grey map. -/
theorem toRecord_ofRecord {r : Record} (h : ofRecord r = .ok g) :
    ofGreyMap g.toGreyMap = .ok g ∧ g.toRecord = .ok r := by
  obtain ⟨hlimit, rfl⟩ := ofRecord_eq_ok_iff.1 h
  have hlength : (Frame.encode r.toBinary).length < 1 <<< precision := by
    have hbound : Frame.payloadLimit + 8 < 1 <<< precision := by decide
    rw [Frame.length_encode, Frame.headerSize]
    omega
  obtain ⟨hwidth, hheight⟩ := sides_ofBytes hlength
  refine ⟨ofGreyMap_toGreyMap hwidth hheight (length_pixels_ofBytes _), ?_⟩
  have hdecode : Frame.decode (ofBytes (Frame.encode r.toBinary)).pixels =
      .ok r.toBinary :=
    Frame.decode_encode _ _ hlimit
  rw [toRecord, hdecode]
  simp only [Record.ofBinary_toBinary (Nat.lt_trans hlimit (by decide))]

end Chronicle.Raster
