import Chronicle.Frame

/-!
# Journals of frames

A journal is written frame by frame, and at its end there may be part of a frame that
a write left behind. A scan finds the frames that were written, all of them intact,
and passes over the rest.

* `scan_journal`: what a scan finds.
* `drop_journal`: where a frame is.
-/

namespace Chronicle.Frame

/-- Frames one after the other. -/
def journal (ps : List Bytes) : Bytes := ps.flatMap encode

/-- Every payload is one that a frame can have and a scan can find. -/
def Framed (ps : List Bytes) : Prop := ∀ p ∈ ps, p ≠ [] ∧ p.length < payloadLimit

/-- Less than all of a frame. -/
def Torn (t : Bytes) : Prop :=
  ∃ p, p.length < payloadLimit ∧ t <+: encode p ∧ t.length < (encode p).length

@[simp] theorem length_encode (p : Bytes) :
    (encode p).length = headerSize + p.length := by
  simp only [encode, headerSize, List.length_append, Bytes.length_littleEndian,
    Bytes.length_ofUInt32]

theorem torn_nil : Torn [] := ⟨[], by decide, List.nil_prefix, by simp [headerSize]⟩

theorem journal_cons (p : Bytes) (ps : List Bytes) :
    journal (p :: ps) = encode p ++ journal ps :=
  List.flatMap_cons

@[simp] theorem journal_concat (ps : List Bytes) (p : Bytes) :
    journal (ps ++ [p]) = journal ps ++ encode p := by
  simp [journal]

theorem flatten_map_encode (ps : List Bytes) : (ps.map encode).flatten = journal ps :=
  List.flatMap_def.symm

theorem framed_nil : Framed [] := by
  intro p hp
  cases hp

theorem Framed.concat {ps : List Bytes} {p : Bytes} (h : Framed ps) (hne : p ≠ [])
    (hlt : p.length < payloadLimit) : Framed (ps ++ [p]) := by
  intro q hq
  rcases List.mem_append.1 hq with hq | hq
  · exact h q hq
  · rw [List.mem_singleton.1 hq]
    exact ⟨hne, hlt⟩

/-! ## What a scan finds -/

theorem header?_append {s u rest : Bytes} {length : Nat} {crc : UInt32}
    (h : header? s = some (length, crc, rest)) :
    header? (s ++ u) = some (length, crc, rest ++ u) := by
  unfold header? at h
  split at h
  · cases h
    rfl
  · cases h

/-- There is no frame where less than all of one stands. -/
theorem tiles_of_torn {t : Bytes} (h : Torn t) (offset : Nat) :
    tiles offset t = [] := by
  obtain ⟨p, hlimit, ⟨u, hu⟩, hlt⟩ := h
  rw [tiles]
  split
  · rfl
  · next length crc rest hheader =>
    -- The header is that of the frame, so it declares more than there is.
    have hwhole := header?_append (u := u) hheader
    have hframe := header?_encode p [] hlimit
    rw [hu] at hwhole
    rw [List.append_nil, List.append_nil, hwhole] at hframe
    simp only [Option.some.injEq, Prod.mk.injEq] at hframe
    obtain ⟨rfl, _, hrest⟩ := hframe
    have hlength := length_of_header? hheader
    rw [length_encode, hlength] at hlt
    rw [if_pos]
    right
    rw [List.length_take]
    omega

/-- The frames of a journal. -/
def tilesOf (offset : Nat) : List Bytes → List Tile
  | [] => []
  | p :: ps =>
    ⟨offset, Hash.Crc32.checksum p, p⟩ :: tilesOf (offset + headerSize + p.length) ps

theorem tilesOf_append (offset : Nat) (ps qs : List Bytes) :
    tilesOf offset (ps ++ qs) =
      tilesOf offset ps ++ tilesOf (offset + (journal ps).length) qs := by
  induction ps generalizing offset with
  | nil => rfl
  | cons p ps ih =>
    rw [List.cons_append, tilesOf, ih, tilesOf, List.cons_append, journal_cons,
      List.length_append, length_encode]
    simp only [Nat.add_assoc]

theorem tiles_journal {ps : List Bytes} (h : Framed ps) (offset : Nat) (rest : Bytes) :
    tiles offset (journal ps ++ rest) =
      tilesOf offset ps ++ tiles (offset + (journal ps).length) rest := by
  induction ps generalizing offset with
  | nil => rfl
  | cons p ps ih =>
    obtain ⟨hne, hlt⟩ := h p List.mem_cons_self
    have hps : Framed ps := fun q hq => h q (List.mem_cons_of_mem _ hq)
    rw [journal_cons, List.append_assoc, tiles_encode _ _ _ hlt hne, ih hps, tilesOf,
      List.cons_append, List.length_append, length_encode]
    simp only [Nat.add_assoc]

theorem filter_tilesOf (offset : Nat) (ps : List Bytes) :
    (tilesOf offset ps).filter Tile.isIntact = tilesOf offset ps := by
  induction ps generalizing offset with
  | nil => rfl
  | cons p ps ih =>
    rw [tilesOf, List.filter_cons_of_pos (by simp [Tile.isIntact]), ih]

theorem map_payload_tilesOf (offset : Nat) (ps : List Bytes) :
    (tilesOf offset ps).map (·.payload) = ps := by
  induction ps generalizing offset with
  | nil => rfl
  | cons p ps ih => rw [tilesOf, List.map_cons, ih]

theorem coveredLength_tilesOf (offset : Nat) (ps : List Bytes) :
    coveredLength (tilesOf offset ps) = (journal ps).length := by
  induction ps generalizing offset with
  | nil => rfl
  | cons p ps ih =>
    rw [tilesOf, coveredLength, ih, journal_cons, List.length_append, length_encode]

section

variable (ps : List Bytes)

/-- What a scan of a journal finds. -/
def scanOf : Scan := ⟨tilesOf 0 ps⟩

@[simp] theorem scanOf_intact : (scanOf ps).intact = tilesOf 0 ps := filter_tilesOf 0 ps

@[simp] theorem scanOf_validLength : (scanOf ps).validLength = (journal ps).length :=
  coveredLength_tilesOf 0 ps

@[simp] theorem scanOf_skipped : (scanOf ps).skipped = 0 := by
  rw [Scan.skipped, List.countP_eq_zero]
  intro t ht
  have hin : t ∈ (tilesOf 0 ps).filter Tile.isIntact := by
    rw [filter_tilesOf]
    exact ht
  simp [(List.mem_filter.1 hin).2]

end

/-- A scan finds the frames of a journal, and no other one in what a write left
behind. -/
theorem scan_journal {ps : List Bytes} {t : Bytes} (h : Framed ps) (ht : Torn t) :
    scan (journal ps ++ t) = scanOf ps := by
  rw [scan, tiles_journal h, tiles_of_torn ht, List.append_nil, scanOf]

/-! ## Where a frame is -/

theorem drop_journal (before after : List Bytes) (p t : Bytes) :
    (journal (before ++ p :: after) ++ t).drop (journal before).length =
      encode p ++ (journal after ++ t) := by
  simp only [journal, List.flatMap_append, List.flatMap_cons, List.append_assoc,
    List.drop_left]

end Chronicle.Frame
