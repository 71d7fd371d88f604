import Chronicle.Proofs.Frame.Damage
import Chronicle.Proofs.Raster.RoundTrip

/-!
# Damaged rasters

The pixels of a record's raster are its frame and zeros behind it. So pixels that are
changed in one place are bytes of the frame that are changed in one place, and these
are found out.

* `locally_damaged_frame_is_refused`: neither a frame nor a raster that was changed
  in one place is read.
-/

namespace Chronicle.Raster

theorem pixels_ofBytes (bs : Bytes) : ∃ padding, (ofBytes bs).pixels = bs ++ padding :=
  ⟨_, rfl⟩

theorem toRecord_of_changed {r : Record} {g : Raster} {pixels : Bytes}
    {start count : Nat} (hg : ofRecord r = .ok g)
    (hguarded : Frame.Guarded r.toBinary start count)
    (h : Bytes.ChangedWithin start count g.pixels pixels) :
    ∃ expected computed, expected ≠ computed ∧
      toRecord { g with pixels := pixels } =
        .error (.corrupt (.frame (.checksum expected computed))) := by
  obtain ⟨hlimit, rfl⟩ := ofRecord_eq_ok_iff.1 hg
  obtain ⟨padding, hpadding⟩ := pixels_ofBytes (Frame.encode r.toBinary)
  rw [hpadding] at h
  obtain ⟨f, rfl, hf⟩ := h.of_append hguarded.stop_le
  obtain ⟨expected, computed, hne, hdecode⟩ :=
    Frame.decode_of_changed hlimit hguarded hf padding
  refine ⟨expected, computed, hne, ?_⟩
  rw [toRecord, hdecode]

/-- A change within the checksum of a frame or within four bytes in a row of its
payload is found out: decoding what is then there, whatever follows it, fails with
two checksums that differ. So does reading a raster whose pixels were changed there,
which is no record, not even another one. -/
theorem locally_damaged_frame_is_refused {p : Bytes} {start count : Nat}
    (hlimit : p.length < Frame.payloadLimit) (hguarded : Frame.Guarded p start count) :
    (∀ f rest, Bytes.ChangedWithin start count (Frame.encode p) f →
        ∃ expected computed, expected ≠ computed ∧
          Frame.decode (f ++ rest) = .error (.checksum expected computed)) ∧
      ∀ (r : Record) (g : Raster) (pixels : Bytes), r.toBinary = p →
      ofRecord r = .ok g →
        Bytes.ChangedWithin start count g.pixels pixels →
        ∃ expected computed, expected ≠ computed ∧
          toRecord { g with pixels := pixels } =
            .error (.corrupt (.frame (.checksum expected computed))) := by
  constructor
  · intro f rest h
    exact Frame.decode_of_changed hlimit hguarded h rest
  · rintro r g pixels rfl hg h
    exact toRecord_of_changed hg hguarded h

/-- The first byte of the payload was changed, in the frame and in the raster. -/
theorem locally_damaged_frame_is_refused_firstPixel :
    let r : Record := ⟨"note", "k", [1], Digest.zero, ⟨5, 0⟩⟩
    let f := Frame.encode r.toBinary
    let g := ofBytes f
    r.toBinary.length < Frame.payloadLimit ∧ Frame.Guarded r.toBinary 8 1 ∧
      ofRecord r = .ok g ∧
      Bytes.ChangedWithin 8 1 f (f.set 8 9) ∧
      Bytes.ChangedWithin 8 1 g.pixels (g.pixels.set 8 9) ∧
      (∃ expected computed, expected ≠ computed ∧
        Frame.decode (f.set 8 9 ++ [7]) = .error (.checksum expected computed)) ∧
      ∃ expected computed, expected ≠ computed ∧
        toRecord { g with pixels := g.pixels.set 8 9 } =
          .error (.corrupt (.frame (.checksum expected computed))) := by
  intro r f g
  have hlimit : r.toBinary.length < Frame.payloadLimit := by decide +kernel
  have hguarded : Frame.Guarded r.toBinary 8 1 := .inr (by decide +kernel)
  have hg : ofRecord r = .ok g := ofRecord_eq_ok_iff.2 ⟨hlimit, rfl⟩
  have hf : Bytes.ChangedWithin 8 1 f (f.set 8 9) :=
    Bytes.changedWithin_set (b := 4) (by decide +kernel) (by decide)
  have hpixels : Bytes.ChangedWithin 8 1 g.pixels (g.pixels.set 8 9) :=
    Bytes.changedWithin_set (b := 4) (by decide +kernel) (by decide)
  obtain ⟨hframe, hraster⟩ := locally_damaged_frame_is_refused hlimit hguarded
  exact ⟨hlimit, hguarded, hg, hf, hpixels, hframe _ [7] hf,
    hraster r g _ rfl hg hpixels⟩

end Chronicle.Raster
