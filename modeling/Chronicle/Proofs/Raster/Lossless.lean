import Chronicle.Proofs.Raster.RoundTrip

/-!
# Grey maps lose nothing

What is taken for a word, for a number and for a grey map is exactly what spells one,
so a raster that is read has as many pixels as its sides say.

* `splits_of_word?`: what is taken for a word.
* `ofGreyMap_eq_ok_iff`: what is taken for a grey map, and for which raster.
* `images_lose_nothing`: rasters and records are read back, and every raster that is
  read has all its pixels.
-/

namespace Chronicle.Raster

variable {s w rest : Bytes} {n : Nat} {g : Raster}

/-! ## Words -/

theorem splits_of_word? (h : word? s = some (w, rest)) : Splits s w rest := by
  rw [word?] at h
  split at h
  · cases h
  · next hne =>
    obtain ⟨rfl, rfl⟩ := Prod.mk.inj (Option.some.inj h)
    refine ⟨⟨s.takeWhile isSpace, ?_, List.all_eq_true.1 List.all_takeWhile⟩, ?_,
      ?_, ?_⟩
    · rw [List.takeWhile_append_dropWhile, List.takeWhile_append_dropWhile]
    · -- What is left behind the blanks begins with the word.
      have hhead := List.head?_dropWhile_not isSpace s
      cases hleft : s.dropWhile isSpace with
      | nil => exact absurd (by rw [hleft]; rfl) hne
      | cons b bs =>
        rw [hleft] at hhead
        rw [List.takeWhile_cons_of_pos (by simpa using hhead)]
        exact List.cons_ne_nil _ _
    · intro b hb
      have hsolid := List.all_eq_true.1
        (List.all_takeWhile (p := (!isSpace ·)) (l := s.dropWhile isSpace)) b hb
      simpa using hsolid
    · intro b hb
      have hhead := List.head?_dropWhile_not (!isSpace ·) (s.dropWhile isSpace)
      rw [hb] at hhead
      simpa using hhead

/-- A number is a word that is a numeral of 32 bits. -/
theorem number_eq_ok_iff :
    number s = .ok (n, rest) ↔ ∃ w, Splits s w rest ∧
      Text.Decimal.read? UInt32.size w = some n := by
  constructor
  · intro h
    rw [number] at h
    split at h
    · cases h
    · next w rest' hword =>
      split at h
      · next hread =>
        cases h
        exact ⟨w, splits_of_word? hword, hread⟩
      · cases h
  · rintro ⟨w, hword, hread⟩
    exact hword.number hread

/-! ## Grey maps -/

theorem exists_of_bind_eq_ok {α β : Type} {x : Except Fault α} {f : α → Except Fault β}
    {b : β} (h : x >>= f = .ok b) : ∃ a, x = .ok a ∧ f a = .ok b := by
  cases x with
  | error e => cases h
  | ok a => exact ⟨a, rfl, h⟩

theorem spells_of_ofGreyMap (h : ofGreyMap s = .ok g) : Spells s g := by
  rw [Raster.ofGreyMap] at h
  split at h
  · cases h
  · next magic s₁ hmagic =>
    split at h
    · cases h
    · next hp5 =>
      obtain rfl : magic = [0x50, 0x35] := Decidable.of_not_not hp5
      obtain ⟨⟨width, s₂⟩, hwidth, h⟩ := exists_of_bind_eq_ok h
      obtain ⟨⟨height, s₃⟩, hheight, h⟩ := exists_of_bind_eq_ok h
      obtain ⟨⟨depth, s₄⟩, hdepth, h⟩ := exists_of_bind_eq_ok h
      obtain ⟨w₁, hfirst, hread₁⟩ := number_eq_ok_iff.1 hwidth
      obtain ⟨w₂, hsecond, hread₂⟩ := number_eq_ok_iff.1 hheight
      obtain ⟨w₃, hthird, hread₃⟩ := number_eq_ok_iff.1 hdepth
      dsimp only at h
      split at h
      · cases h
      · next hmost =>
        obtain rfl : depth = 255 := Decidable.of_not_not hmost
        split at h
        · cases h
        · next hall =>
          cases h
          obtain ⟨blank, s₅, rfl⟩ : ∃ blank s₅, s₄ = blank :: s₅ := by
            refine List.exists_cons_of_ne_nil fun hnil => hall (.inl ?_)
            rw [hnil]
            rfl
          have hpixels : (s₅.take (width * height)).length = width * height := by
            have hle := List.length_take_le (width * height) s₅
            have hge : ¬(s₅.take (width * height)).length < width * height :=
              fun hless => hall (.inr hless)
            omega
          refine ⟨w₁, w₂, w₃, s₁, s₂, s₃, s₅.drop (width * height), blank,
            splits_of_word? hmagic, hfirst, hsecond, ?_,
            hread₁, hread₂, hread₃, hpixels⟩
          show Splits s₃ w₃
            (blank :: (s₅.take (width * height) ++ s₅.drop (width * height)))
          rw [List.take_append_drop]
          exact hthird

theorem ofGreyMap_eq_ok_iff : ofGreyMap s = .ok g ↔ Spells s g :=
  ⟨spells_of_ofGreyMap, Spells.ofGreyMap⟩

/-! ## Images -/

/-- Every raster that has as many pixels as its sides say is read back from its grey
map, whatever the pixels are and whatever follows them. A raster is read from exactly
the bytes that spell it, and it has as many pixels as its sides say. Every record of
fewer bytes than 32 bits can count has a raster, and is read back from the grey map
of it. -/
theorem images_lose_nothing :
    (∀ g : Raster, g.width < UInt32.size → g.height < UInt32.size →
        g.pixels.length = g.width * g.height →
        ofGreyMap g.toGreyMap = .ok g ∧
        ∀ more, ofGreyMap (g.toGreyMap ++ more) = .ok g) ∧
      (∀ s g, (ofGreyMap s = .ok g ↔ Spells s g) ∧
        (ofGreyMap s = .ok g → g.pixels.length = g.width * g.height ∧
          g.width < UInt32.size ∧
          g.height < UInt32.size)) ∧
      ∀ r : Record, r.toBinary.length < UInt32.size →
        ∃ g, ofRecord r = .ok g ∧ ofGreyMap g.toGreyMap = .ok g ∧
        g.toRecord = .ok r := by
  refine ⟨?_, ?_, ?_⟩
  · intro g hwidth hheight hpixels
    exact ⟨ofGreyMap_toGreyMap hwidth hheight hpixels,
      fun more => (spells_toGreyMap hwidth hheight hpixels more).ofGreyMap⟩
  · intro s g
    refine ⟨ofGreyMap_eq_ok_iff, fun h => ?_⟩
    have hspells := spells_of_ofGreyMap h
    exact ⟨hspells.length_pixels, hspells.sides⟩
  · intro r hr
    have hraster := ofRecord_eq_ok_iff.2 ⟨hr, rfl⟩
    exact ⟨_, hraster, toRecord_ofRecord hraster⟩

/-- A raster that begins with a blank and digits, one without pixels, and the raster
of a record. -/
theorem images_lose_nothing_blankFirst :
    let g : Raster := ⟨3, 2, [0x20, 0x31, 0x37, 0x0A, 0x00, 0x50]⟩
    let bare : Raster := ⟨0, 7, []⟩
    let r : Record := ⟨"note", "k", [1], Digest.zero, ⟨1, 0⟩⟩
    ofGreyMap g.toGreyMap = .ok g ∧ ofGreyMap bare.toGreyMap = .ok bare ∧
      r.toBinary.length < UInt32.size ∧
      ∃ image, ofRecord r = .ok image ∧ ofGreyMap image.toGreyMap = .ok image ∧
      image.pixels.length =
        image.width * image.height ∧ image.toRecord = .ok r := by
  intro g bare r
  have hshort : r.toBinary.length < UInt32.size := by
    rw [Record.length_toBinary]
    decide
  obtain ⟨hrasters, haccepted, hrecords⟩ := images_lose_nothing
  obtain ⟨image, himage, hread, hrecord⟩ := hrecords r hshort
  exact ⟨(hrasters g (by decide) (by decide) rfl).1,
    (hrasters bare (by decide) (by decide) rfl).1, hshort, image, himage,
    hread, ((haccepted _ _).2 hread).1, hrecord⟩

end Chronicle.Raster
