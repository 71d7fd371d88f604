import Chronicle.Raster.Root
import Chronicle.Text.Decimal

/-!
# Rasters

A raster is a grey image that holds a byte string, one byte a pixel, in rows of the
least width whose square has room for it. It is written as a binary grey map with 255
as its greatest value.
-/

namespace Chronicle

/-- A grey image (`Glyph`). -/
structure Raster where
  /-- Pixels in a row. -/
  width : Nat
  /-- Rows. -/
  height : Nat
  /-- The pixels, row after row. -/
  pixels : Bytes
deriving DecidableEq, Repr

namespace Raster

/-- The least number from `width` on whose square has room for `n` pixels. -/
def widen (n width : Nat) : Nat :=
  if width * width < n then widen n (width + 1) else width
termination_by n - width
decreasing_by
  have hle : width ≤ width * width := Nat.le_mul_self width
  omega

/-- The width of the raster for `n` pixels: the square root in double precision, and
more if that is too small. -/
def widthFor (n : Nat) : Nat := widen n (ceilDoubleRoot (double n))

/-- The width and the height of the raster for a number of bytes; none has no pixel
at all. -/
def shapeFor (length : Nat) : Nat × Nat :=
  let n := max length 1
  let width := widthFor n
  (width, (n + width - 1) / width)

/-- The raster that holds a byte string, zeros filling the last row (`from_bytes`). -/
def ofBytes (bs : Bytes) : Raster :=
  let (width, height) := shapeFor bs.length
  ⟨width, height, bs ++ List.replicate (width * height - bs.length) 0⟩

/-! ## Grey maps -/

/-- Why bytes are no grey map. -/
inductive Fault where
  /-- There is no first word. -/
  | missingMagic
  /-- The first word is not the one of binary grey maps. -/
  | wrongMagic
  /-- The header ends before its last number. -/
  | shortHeader
  /-- A word of the header is no number. -/
  | badNumber
  /-- The greatest value is not 255. -/
  | wrongDepth
  /-- There are fewer pixels than the header declares. -/
  | shortRaster
deriving DecidableEq, Repr

namespace Fault

/-- The fault in words. -/
def message : Fault → String
  | missingMagic => "missing magic"
  | wrongMagic => "not a binary PGM"
  | shortHeader => "truncated header"
  | badNumber => "non-numeric header field"
  | wrongDepth => "unsupported maxval"
  | shortRaster => "raster shorter than header declares"

end Fault

/-- The grey map of a raster (`to_pgm`). -/
def toGreyMap (r : Raster) : Bytes :=
  [0x50, 0x35, 0x0A] ++ Text.Decimal.render r.width ++ [0x20] ++
    Text.Decimal.render r.height ++ [0x0A, 0x32, 0x35, 0x35, 0x0A] ++ r.pixels

/-- The blanks between words. -/
def isSpace (b : UInt8) : Bool :=
  b == 0x20 || b == 0x09 || b == 0x0A || b == 0x0C || b == 0x0D

/-- The next word after blanks, and what follows it (`next_token`). -/
def word? (s : Bytes) : Option (Bytes × Bytes) :=
  let s := s.dropWhile isSpace
  if s.isEmpty then none else some (s.takeWhile (!isSpace ·), s.dropWhile (!isSpace ·))

/-- The next word as a 32-bit number, and what follows it. -/
def number (s : Bytes) : Except Fault (Nat × Bytes) :=
  match word? s with
  | none => .error .shortHeader
  | some (w, rest) =>
    match Text.Decimal.read? UInt32.size w with
    | some n => .ok (n, rest)
    | none => .error .badNumber

/-- The raster of a grey map; one blank ends the header, and bytes after the last
pixel do not count (`from_pgm`). -/
def ofGreyMap (s : Bytes) : Except Fault Raster :=
  match word? s with
  | none => .error .missingMagic
  | some (m, s) =>
    if m ≠ [0x50, 0x35] then .error .wrongMagic
    else do
      let (width, s) ← number s
      let (height, s) ← number s
      let (depth, s) ← number s
      if depth ≠ 255 then throw .wrongDepth
      let pixels := (s.drop 1).take (width * height)
      if s.isEmpty ∨ pixels.length < width * height then throw .shortRaster
      return ⟨width, height, pixels⟩

end Raster

end Chronicle
