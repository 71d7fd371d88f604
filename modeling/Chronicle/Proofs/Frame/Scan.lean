import Chronicle.Proofs.Frame.Journal

/-!
# What a scan finds in any bytes

Whatever a file holds, a scan takes it apart in one way only: complete frames, each
behind the other and intact or not, and after the last one a place where no complete
frame begins. So the frames that are found are at the places where they are looked
for later, and what is kept of a file when the rest is cut off is taken apart in the
same way again.

* `tiles_eq_iff`: the one way in which bytes are taken apart.
* `Scan.Recovers`, `scan_recovers`: what a scan finds, and that a second one finds
  the same.
-/

namespace Chronicle

theorem Bytes.littleEndian_ofLittleEndian (bs : Bytes) :
    littleEndian bs.length (ofLittleEndian bs) = bs := by
  induction bs with
  | nil => rfl
  | cons b bs ih =>
    have hb := b.toNat_lt
    have hfirst : UInt8.ofNat (b.toNat + 256 * ofLittleEndian bs) = b := by
      apply UInt8.toNat_inj.1
      rw [UInt8.toNat_ofNat']
      omega
    have hrest : (b.toNat + 256 * ofLittleEndian bs) / 256 = ofLittleEndian bs := by
      omega
    rw [List.length_cons, ofLittleEndian, littleEndian, hfirst, hrest, ih]

namespace Frame

/-! ## Frames in bytes -/

namespace Tile

/-- The positions of its bytes. -/
def positions (t : Tile) : List Nat :=
  List.range' t.offset (headerSize + t.payload.length)

@[simp] theorem length_bytes (t : Tile) :
    t.bytes.length = headerSize + t.payload.length := by
  simp only [bytes, headerSize, List.length_append, Bytes.length_littleEndian,
    Bytes.length_ofUInt32]

/-- An intact frame is the frame of its payload. -/
theorem bytes_of_isIntact {t : Tile} (h : t.isIntact = true) :
    t.bytes = encode t.payload := by
  rw [bytes, encode, eq_of_beq h]

/-- Decoding a frame tells whether it is intact. -/
theorem decode_bytes {t : Tile} (h : t.payload.length < payloadLimit) (rest : Bytes) :
    decode (t.bytes ++ rest) = if t.isIntact then .ok t.payload
      else .error (.checksum t.crc (Hash.Crc32.checksum t.payload)) := by
  rw [decode, header?_bytes h]
  simp only [List.take_left, Nat.lt_irrefl, if_false, isIntact, beq_iff_eq]

end Tile

/-- A header is the bytes of a length and a checksum. -/
theorem eq_of_header? {s rest : Bytes} {length : Nat} {crc : UInt32}
    (h : header? s = some (length, crc, rest)) :
    s = Bytes.littleEndian 4 length ++ Bytes.ofUInt32 crc ++ rest ∧
      length < payloadLimit := by
  unfold header? at h
  split at h
  · next a b c d e f g i rest' =>
    simp only [Option.some.injEq, Prod.mk.injEq] at h
    obtain ⟨rfl, rfl, rfl⟩ := h
    have hcrc : (UInt32.ofNat (Bytes.ofLittleEndian [e, f, g, i])).toNat =
        Bytes.ofLittleEndian [e, f, g, i] :=
      UInt32.toNat_ofNat_of_lt' (Bytes.ofLittleEndian_lt [e, f, g, i])
    have hdeclared := Bytes.littleEndian_ofLittleEndian [a, b, c, d]
    have hstored := Bytes.littleEndian_ofLittleEndian [e, f, g, i]
    rw [List.length_cons, List.length_cons, List.length_cons, List.length_cons,
      List.length_nil] at hdeclared hstored
    refine ⟨?_, Bytes.ofLittleEndian_lt [a, b, c, d]⟩
    rw [Bytes.ofUInt32, hcrc, hdeclared, hstored]
    rfl
  · cases h

/-! ## Taking bytes apart -/

/-- No complete frame begins here: the header is cut off, declares nothing, or
declares more than there is. -/
def Unframed (s : Bytes) : Prop :=
  ∀ length crc rest, header? s = some (length, crc, rest) → length = 0 ∨
    rest.length < length

/-- Complete frames from a position on, each beginning where the one before ends. -/
def Consecutive (offset : Nat) : List Tile → Prop
  | [] => True
  | t :: ts =>
    t.offset = offset ∧ t.payload ≠ [] ∧ t.payload.length < payloadLimit ∧
      Consecutive t.stop ts

/-- Frames as bytes. -/
def laid (ts : List Tile) : Bytes := ts.flatMap Tile.bytes

theorem laid_cons (t : Tile) (ts : List Tile) : laid (t :: ts) = t.bytes ++ laid ts :=
  List.flatMap_cons

theorem laid_append (ts us : List Tile) : laid (ts ++ us) = laid ts ++ laid us :=
  List.flatMap_append

theorem length_laid (ts : List Tile) : (laid ts).length = coveredLength ts := by
  induction ts with
  | nil => rfl
  | cons t ts ih =>
    rw [laid_cons, List.length_append, Tile.length_bytes, ih, coveredLength]

theorem unframed_nil : Unframed [] := by
  intro length crc rest h
  cases h

/-- Bytes begin with a complete frame, or none begins there. -/
theorem frame_or_unframed (offset : Nat) (bs : Bytes) :
    (∃ (t : Tile) (rest : Bytes), bs = t.bytes ++ rest ∧ t.offset = offset ∧
        t.payload ≠ [] ∧
      t.payload.length < payloadLimit) ∨ Unframed bs := by
  cases hheader : header? bs with
  | none =>
    right
    intro length crc rest h
    rw [hheader] at h
    cases h
  | some x =>
    obtain ⟨length, crc, rest⟩ := x
    obtain ⟨hbs, hlimit⟩ := eq_of_header? hheader
    by_cases hstop : length = 0 ∨ rest.length < length
    · right
      intro length' crc' rest' h
      rw [hheader] at h
      cases h
      exact hstop
    · left
      have hpayload : (rest.take length).length = length :=
        List.length_take_of_le (by omega)
      refine ⟨⟨offset, crc, rest.take length⟩, rest.drop length, ?_, rfl, ?_, ?_⟩
      · rw [Tile.bytes, hpayload, List.append_assoc, List.take_append_drop, hbs]
      · show rest.take length ≠ []
        exact List.ne_nil_of_length_pos (by omega)
      · show (rest.take length).length < payloadLimit
        omega

theorem tiles_of_unframed {s : Bytes} (h : Unframed s) (offset : Nat) :
    tiles offset s = [] := by
  rw [tiles]
  split
  · rfl
  · next length crc rest hheader =>
    rw [if_pos]
    rcases h length crc rest hheader with hzero | hshort
    · exact .inl hzero
    · right
      rw [List.length_take]
      omega

theorem tiles_laid {ts : List Tile} {offset : Nat} (h : Consecutive offset ts)
    (s : Bytes) :
    tiles offset (laid ts ++ s) = ts ++ tiles (offset + coveredLength ts) s := by
  induction ts generalizing offset with
  | nil => rfl
  | cons t ts ih =>
    obtain ⟨rfl, hne, hlimit, hrest⟩ := h
    rw [laid_cons, List.append_assoc, tiles_bytes hlimit hne, ih hrest,
      List.cons_append, coveredLength, Tile.stop, Nat.add_assoc, Nat.add_assoc,
      Nat.add_assoc]

theorem Torn.unframed {t : Bytes} (h : Torn t) : Unframed t := by
  rcases frame_or_unframed 0 t with ⟨u, rest, rfl, hoffset, hne, hlimit⟩ | hend
  · have hnone := tiles_of_torn h u.offset
    rw [tiles_bytes hlimit hne] at hnone
    cases hnone
  · exact hend

/-- Frames are found, and behind them there is a place where no frame begins. -/
theorem exists_laid (offset : Nat) (bs : Bytes) :
    Consecutive offset (tiles offset bs) ∧ ∃ s, bs = laid (tiles offset bs) ++ s ∧
      Unframed s := by
  induction hn : bs.length using Nat.strongRecOn generalizing offset bs with
  | ind n ih =>
    rcases frame_or_unframed offset bs with ⟨t, rest, rfl, rfl, hne, hlimit⟩ | hend
    · have hless : rest.length < n := by
        rw [← hn, List.length_append, Tile.length_bytes, headerSize]
        omega
      obtain ⟨hconsecutive, s, hs, hend⟩ := ih _ hless t.stop rest rfl
      rw [tiles_bytes hlimit hne]
      refine ⟨⟨rfl, hne, hlimit, hconsecutive⟩, s, ?_, hend⟩
      rw [laid_cons, List.append_assoc, ← hs]
    · rw [tiles_of_unframed hend]
      exact ⟨trivial, bs, rfl, hend⟩

/-- Bytes are taken apart in one way: as frames that are one behind the other, and a
place where no frame begins. -/
theorem tiles_eq_iff {offset : Nat} {bs : Bytes} {ts : List Tile} :
    tiles offset bs = ts ↔ Consecutive offset ts ∧ ∃ s, bs = laid ts ++ s ∧
      Unframed s := by
  constructor
  · rintro rfl
    exact exists_laid offset bs
  · rintro ⟨hconsecutive, s, rfl, hend⟩
    rw [tiles_laid hconsecutive, tiles_of_unframed hend, List.append_nil]

/-! ## What a scan recovers -/

section

variable {ts : List Tile} {offset : Nat}

theorem Consecutive.offset_eq {before after : List Tile} {t : Tile}
    (h : Consecutive offset (before ++ t :: after)) :
    t.offset = offset + (laid before).length ∧ t.payload ≠ [] ∧
      t.payload.length < payloadLimit := by
  induction before generalizing offset with
  | nil => exact ⟨h.1, h.2.1, h.2.2.1⟩
  | cons u before ih =>
    obtain ⟨hoffset, hne, hlimit⟩ := ih h.2.2.2
    refine ⟨?_, hne, hlimit⟩
    rw [hoffset, laid_cons, List.length_append, Tile.length_bytes, Tile.stop, h.1]
    omega

/-- Where a frame begins stand its bytes. -/
theorem Consecutive.drop_laid {t : Tile} (h : Consecutive 0 ts) (ht : t ∈ ts)
    (s : Bytes) :
    t.payload.length < payloadLimit ∧
      ∃ rest, (laid ts ++ s).drop t.offset = t.bytes ++ rest := by
  obtain ⟨before, after, rfl⟩ := List.append_of_mem ht
  obtain ⟨hoffset, _, hlimit⟩ := h.offset_eq
  refine ⟨hlimit, laid after ++ s, ?_⟩
  rw [hoffset, Nat.zero_add, laid_append, laid_cons, List.append_assoc,
    List.append_assoc, List.drop_left]

theorem Consecutive.positions (h : Consecutive offset ts) :
    ts.flatMap Tile.positions = List.range' offset (coveredLength ts) := by
  induction ts generalizing offset with
  | nil => rfl
  | cons t ts ih =>
    obtain ⟨rfl, _, _, hrest⟩ := h
    rw [List.flatMap_cons, ih hrest, Tile.positions, coveredLength, Tile.stop,
      Nat.add_assoc, List.range'_append_1]

theorem Consecutive.bounded (h : Consecutive offset ts) :
    (headerSize + 1) * ts.length ≤ coveredLength ts := by
  induction ts generalizing offset with
  | nil => exact Nat.le_refl _
  | cons t ts ih =>
    have hpos := List.length_pos_iff.2 h.2.1
    have hrest := ih h.2.2.2
    rw [List.length_cons, coveredLength, Nat.mul_succ]
    omega

end

/-- Where an intact frame begins stands the frame of its payload. -/
theorem drop_of_mem_intact {bs : Bytes} {t : Tile} (h : t ∈ (scan bs).intact) :
    t.payload.length < payloadLimit ∧
      ∃ rest, bs.drop t.offset = encode t.payload ++ rest := by
  obtain ⟨hmem, hintact⟩ := List.mem_filter.1 h
  obtain ⟨hconsecutive, s, hbs, _⟩ := exists_laid 0 bs
  obtain ⟨hlimit, rest, hdrop⟩ := hconsecutive.drop_laid hmem s
  refine ⟨hlimit, rest, ?_⟩
  rw [← Tile.bytes_of_isIntact hintact, ← hdrop, ← hbs]

/-- What a scan finds in bytes. -/
structure Scan.Recovers (s : Scan) (bs : Bytes) : Prop where
  /-- What is served is the payload of the frame at its offset. -/
  decoded : ∀ t ∈ s.intact, decode (bs.drop t.offset) = .ok t.payload
  /-- What is skipped is a frame with a wrong checksum. -/
  damaged : ∀ t ∈ s.tiles, t ∉ s.intact →
    ∃ computed, computed ≠ t.crc ∧
    decode (bs.drop t.offset) = .error (.checksum t.crc computed)
  /-- Nothing else is found. -/
  counted : s.intact.length + s.skipped = s.tiles.length
  /-- The frames have all positions up to the valid length, in order and each once. -/
  tiled : s.tiles.flatMap Tile.positions = List.range s.validLength
  /-- There are no more frames than there is room for. -/
  bounded : (headerSize + 1) * s.tiles.length ≤ bs.length ∧ s.validLength ≤ bs.length
  /-- Behind the last one no frame begins. -/
  ended : Unframed (bs.drop s.validLength)
  /-- A second scan of what is kept finds the same. -/
  stable : scan (bs.take s.validLength) = s

theorem scan_recovers (bs : Bytes) : (scan bs).Recovers bs := by
  obtain ⟨hconsecutive, s, hbs, hend⟩ := exists_laid 0 bs
  have hscan : scan bs = ⟨tiles 0 bs⟩ := rfl
  generalize tiles 0 bs = ts at hconsecutive hbs hscan
  subst hbs
  rw [hscan]
  have hvalid : Scan.validLength ⟨ts⟩ = (laid ts).length := (length_laid ts).symm
  have hdecode : ∀ t ∈ ts, decode ((laid ts ++ s).drop t.offset) =
      if t.isIntact then .ok t.payload
      else .error (.checksum t.crc (Hash.Crc32.checksum t.payload)) := by
    intro t ht
    obtain ⟨hlimit, rest, hdrop⟩ := hconsecutive.drop_laid ht s
    rw [hdrop, Tile.decode_bytes hlimit]
  constructor
  case decoded =>
    intro t ht
    obtain ⟨hmem, hintact⟩ := List.mem_filter.1 ht
    rw [hdecode t hmem, if_pos hintact]
  case damaged =>
    intro t ht hnot
    have hdamaged : ¬t.isIntact = true :=
      fun hintact => hnot (List.mem_filter.2 ⟨ht, hintact⟩)
    refine ⟨Hash.Crc32.checksum t.payload, ?_, ?_⟩
    · simpa [Tile.isIntact] using hdamaged
    · rw [hdecode t ht, if_neg hdamaged]
  case counted =>
    rw [Scan.intact, Scan.skipped, ← List.countP_eq_length_filter,
      List.length_eq_countP_add_countP Tile.isIntact]
    simp
  case tiled =>
    rw [List.range_eq_range']
    exact hconsecutive.positions
  case bounded =>
    have hroom := hconsecutive.bounded
    rw [hvalid, List.length_append]
    rw [← length_laid] at hroom
    exact ⟨Nat.le_trans hroom (Nat.le_add_right _ _), Nat.le_add_right _ _⟩
  case ended =>
    rw [hvalid, List.drop_left]
    exact hend
  case stable =>
    rw [hvalid, List.take_left, scan,
      tiles_eq_iff.2 ⟨hconsecutive, [], (List.append_nil _).symm, unframed_nil⟩]

end Frame

end Chronicle
