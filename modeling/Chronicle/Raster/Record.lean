import Chronicle.Medium.Error

/-!
# Records as rasters

A record is drawn as the raster of the frame of its binary form, and read back from
the pixels.
-/

namespace Chronicle.Raster

/-- The raster of a record (`encode` of the `GlyphAdapter`). -/
def ofRecord (r : Record) : Except Medium.Error Raster :=
  match Frame.encode? r.toBinary with
  | some frame => .ok (ofBytes frame)
  | none => .error (.unwritable (.longPayload r.toBinary.length))

/-- The record that the pixels hold (`decode` of the `GlyphAdapter`). -/
def toRecord (g : Raster) : Except Medium.Error Record :=
  match Frame.decode g.pixels with
  | .error fault => .error (.corrupt (.frame fault))
  | .ok payload =>
    match Record.ofBinary payload with
    | .error fault => .error (.corrupt (.rasterRecord fault))
    | .ok r => .ok r

end Chronicle.Raster
