import Mathlib.Data.List.Forall2
import Chronicle.Proofs.Frame.Scan
import Chronicle.Proofs.Hash.Crc32

/-!
# Damaged frames

As long as the frames of a journal declare the lengths that they were written with,
each is found at its place, whatever became of the checksums and the payloads, and it
is served if the two still go together. They do not after a change that is confined
to the checksum, or to four bytes in a row of the payload.

* `tilesIn`: what bytes hold that stand in the places of frames.
* `scan_skips_exactly_damaged_frames`: what a scan finds there.
* `isIntact_of_changed`, `decode_of_changed`: a change in one place is found out.
* `intact_changed`: it leaves all other frames where they are.
-/

namespace Chronicle

/-! ## Changes in one place -/

/-- As many bytes, and not the same, but the same everywhere outside `count`
positions in a row. -/
structure Bytes.ChangedWithin (start count : Nat) (s s' : Bytes) : Prop where
  length : s'.length = s.length
  ne : s' ≠ s
  same : ∀ i, i < start ∨ start + count ≤ i → s'[i]? = s[i]?

namespace Bytes.ChangedWithin

variable {start count : Nat} {s s' : Bytes}

theorem take_eq (h : ChangedWithin start count s s') {n : Nat} (hn : n ≤ start) :
    s'.take n = s.take n := by
  apply List.ext_getElem?
  intro i
  rw [List.getElem?_take, List.getElem?_take]
  split
  · exact h.same i (.inl (by omega))
  · rfl

theorem drop_eq (h : ChangedWithin start count s s') {n : Nat}
    (hn : start + count ≤ n) : s'.drop n = s.drop n := by
  apply List.ext_getElem?
  intro i
  rw [List.getElem?_drop, List.getElem?_drop]
  exact h.same (n + i) (.inr (by omega))

theorem mono (h : ChangedWithin start count s s') {start' count' : Nat}
    (hstart : start' ≤ start) (hstop : start + count ≤ start' + count') :
    ChangedWithin start' count' s s' :=
  ⟨h.length, h.ne, fun i hi => h.same i (by omega)⟩

/-- What comes before the positions may be left out. -/
theorem drop (h : ChangedWithin start count s s') {n : Nat} (hn : n ≤ start) :
    ChangedWithin (start - n) count (s.drop n) (s'.drop n) := by
  refine ⟨by rw [List.length_drop, List.length_drop, h.length], ?_, ?_⟩
  · intro heq
    apply h.ne
    rw [← List.take_append_drop n s', heq, h.take_eq hn, List.take_append_drop]
  · intro i hi
    rw [List.getElem?_drop, List.getElem?_drop]
    exact h.same (n + i) (by omega)

/-- What comes behind the positions may be left out. -/
theorem of_append {t : Bytes} (h : ChangedWithin start count (s ++ t) s')
    (hstop : start + count ≤ s.length) :
    ∃ f, s' = f ++ t ∧ ChangedWithin start count s f := by
  have hrest : s'.drop s.length = t := (h.drop_eq hstop).trans List.drop_left
  have hs' : s' = s'.take s.length ++ t := by rw [← hrest, List.take_append_drop]
  have hlength := h.length
  rw [List.length_append] at hlength
  refine ⟨s'.take s.length, hs', ?_, ?_, ?_⟩
  · rw [List.length_take]
    omega
  · intro heq
    apply h.ne
    rw [hs', heq]
  · intro i hi
    by_cases hlt : i < s.length
    · rw [List.getElem?_take_of_lt hlt, h.same i hi, List.getElem?_append_left hlt]
    · rw [List.getElem?_take_eq_none (by omega), List.getElem?_eq_none (by omega)]

/-- The bytes at the positions were exchanged for others. -/
theorem exists_exchange (h : ChangedWithin start count s s') :
    ∃ before as bs after, s = before ++ as ++ after ∧ s' = before ++ bs ++ after ∧
      as.length = bs.length ∧
      bs.length ≤ count ∧ as ≠ bs := by
  have hsplit : ∀ u : Bytes, u =
      u.take start ++ (u.drop start).take count ++ u.drop (start + count) := by
    intro u
    rw [← List.drop_drop, List.append_assoc, List.take_append_drop,
      List.take_append_drop]
  have hs' := hsplit s'
  rw [h.take_eq (Nat.le_refl _), h.drop_eq (Nat.le_refl _)] at hs'
  refine ⟨_, _, _, _, hsplit s, hs', ?_, List.length_take_le _ _, ?_⟩
  · rw [List.length_take, List.length_take, List.length_drop,
      List.length_drop, h.length]
  · intro heq
    apply h.ne
    rw [hs', ← heq, ← hsplit s]

end Bytes.ChangedWithin

theorem Bytes.changedWithin_set {s : Bytes} {i : Nat} {b c : UInt8}
    (hi : s[i]? = some b) (hne : c ≠ b) :
    ChangedWithin i 1 s (s.set i c) := by
  obtain ⟨hlt, hb⟩ := List.getElem?_eq_some_iff.1 hi
  refine ⟨List.length_set, ?_, ?_⟩
  · intro heq
    apply hne
    have hset := List.getElem?_set_self (a := c) hlt
    rw [heq, hi] at hset
    exact (Option.some.inj hset).symm
  · intro j hj
    exact List.getElem?_set_ne (by omega)

namespace Frame

/-! ## Bytes in the places of frames -/

/-- The bytes stand in the place of the frame of a payload and declare its length. -/
structure Replaces (f p : Bytes) : Prop where
  length : f.length = (encode p).length
  declared : f.take 4 = (encode p).take 4

/-- What the bytes in the place of a frame hold. -/
def tileIn (offset : Nat) (f : Bytes) : Tile :=
  ⟨offset, UInt32.ofNat (Bytes.ofLittleEndian ((f.drop 4).take 4)), f.drop headerSize⟩

/-- What bytes hold that stand in the places of frames. -/
def tilesIn (offset : Nat) : List Bytes → List Tile
  | [] => []
  | f :: fs => tileIn offset f :: tilesIn (offset + f.length) fs

theorem replaces_encode (p : Bytes) : Replaces (encode p) p := ⟨rfl, rfl⟩

variable {p f : Bytes}

theorem replaces_bytes {t : Tile} (h : t.payload.length = p.length) :
    Replaces t.bytes p := by
  refine ⟨by rw [Tile.length_bytes, length_encode, h], ?_⟩
  rw [Tile.bytes, encode, h, List.append_assoc, List.append_assoc,
    List.take_left' (Bytes.length_littleEndian 4 _),
    List.take_left' (Bytes.length_littleEndian 4 _)]

theorem Replaces.length_payload (h : Replaces f p) (offset : Nat) :
    (tileIn offset f).payload.length = p.length := by
  show (f.drop headerSize).length = p.length
  rw [List.length_drop, h.length, length_encode]
  omega

theorem Replaces.bytes_tileIn (h : Replaces f p) (offset : Nat) :
    (tileIn offset f).bytes = f := by
  have hlong : 8 ≤ f.length := by
    rw [h.length, length_encode, headerSize]
    omega
  have hfour : ((f.drop 4).take 4).length = 4 := by
    rw [List.length_take, List.length_drop]
    omega
  have hcrc : Bytes.ofUInt32 (UInt32.ofNat (Bytes.ofLittleEndian ((f.drop 4).take 4))) =
      (f.drop 4).take 4 := by
    have hlt := Bytes.ofLittleEndian_lt ((f.drop 4).take 4)
    have hback := Bytes.littleEndian_ofLittleEndian ((f.drop 4).take 4)
    rw [hfour] at hlt hback
    rw [Bytes.ofUInt32, UInt32.toNat_ofNat_of_lt' hlt, hback]
  have hdeclared : Bytes.littleEndian 4 p.length = f.take 4 := by
    rw [h.declared, encode, List.append_assoc,
      List.take_left' (Bytes.length_littleEndian 4 _)]
  rw [Tile.bytes, h.length_payload, hdeclared, tileIn, hcrc, ← List.take_add]
  exact List.take_append_drop headerSize f

theorem Replaces.stop_tileIn (h : Replaces f p) (offset : Nat) :
    (tileIn offset f).stop = offset + f.length := by
  rw [Tile.stop, h.length_payload, h.length, length_encode, Nat.add_assoc]
  rfl

/-- The frame of a payload holds the payload and its checksum. -/
theorem tileIn_encode (offset : Nat) (p : Bytes) :
    tileIn offset (encode p) = ⟨offset, Hash.Crc32.checksum p, p⟩ := by
  have hcrc : ((encode p).drop 4).take 4 = Bytes.ofUInt32 (Hash.Crc32.checksum p) := by
    rw [encode, List.append_assoc, List.drop_left' (Bytes.length_littleEndian 4 _),
      List.take_left' (by simp)]
  have hword : Bytes.ofLittleEndian (Bytes.ofUInt32 (Hash.Crc32.checksum p)) =
      (Hash.Crc32.checksum p).toNat :=
    Bytes.ofLittleEndian_littleEndian 4 _ (Hash.Crc32.checksum p).toNat_lt
  have hpayload : (encode p).drop headerSize = p :=
    List.drop_left' (by simp [headerSize])
  rw [tileIn, hcrc, hword, UInt32.ofNat_toNat, hpayload]

section

variable {ps fs : List Bytes}

theorem consecutive_tilesIn (h : Framed ps) (hfs : List.Forall₂ Replaces fs ps)
    (offset : Nat) :
    Consecutive offset (tilesIn offset fs) := by
  induction hfs generalizing offset with
  | nil => trivial
  | cons hf hfs ih =>
    obtain ⟨hne, hlimit⟩ := h _ List.mem_cons_self
    have hlength := hf.length_payload offset
    refine ⟨rfl, ?_, by rwa [hlength], ?_⟩
    · apply List.ne_nil_of_length_pos
      rw [hlength]
      exact List.length_pos_iff.2 hne
    · rw [hf.stop_tileIn]
      exact ih (fun q hq => h q (List.mem_cons_of_mem _ hq)) _

theorem laid_tilesIn (hfs : List.Forall₂ Replaces fs ps) (offset : Nat) :
    laid (tilesIn offset fs) = fs.flatten := by
  induction hfs generalizing offset with
  | nil => rfl
  | cons hf _ ih => rw [tilesIn, laid_cons, hf.bytes_tileIn, ih, List.flatten_cons]

/-- Each of them begins where the frame began. -/
theorem offsets_tilesIn (hfs : List.Forall₂ Replaces fs ps) (offset : Nat) :
    (tilesIn offset fs).map (·.offset) = (tilesOf offset ps).map (·.offset) := by
  induction hfs generalizing offset with
  | nil => rfl
  | cons hf _ ih =>
    rw [tilesIn, tilesOf, List.map_cons, List.map_cons, ih, hf.length, length_encode,
      Nat.add_assoc]
    rfl

theorem tilesIn_encode (offset : Nat) (ps : List Bytes) :
    tilesIn offset (ps.map encode) = tilesOf offset ps := by
  induction ps generalizing offset with
  | nil => rfl
  | cons p ps ih => rw [List.map_cons, tilesIn, tileIn_encode, ih, length_encode,
    tilesOf, Nat.add_assoc]

theorem length_flatten (hfs : List.Forall₂ Replaces fs ps) :
    fs.flatten.length = (journal ps).length := by
  induction hfs with
  | nil => rfl
  | cons hf _ ih => rw [List.flatten_cons, journal_cons, List.length_append,
    List.length_append, ih, hf.length]

theorem scan_replaced {t : Bytes} (h : Framed ps) (hfs : List.Forall₂ Replaces fs ps)
    (ht : Torn t) :
    scan (fs.flatten ++ t) = ⟨tilesIn 0 fs⟩ := by
  rw [scan, tiles_eq_iff.2 ⟨consecutive_tilesIn h hfs 0, t, ?_, ht.unframed⟩]
  rw [laid_tilesIn hfs]

theorem validLength_replaced {t : Bytes} (h : Framed ps)
    (hfs : List.Forall₂ Replaces fs ps) (ht : Torn t) :
    (scan (fs.flatten ++ t)).validLength = fs.flatten.length := by
  rw [scan_replaced h hfs ht, Scan.validLength, ← length_laid, laid_tilesIn hfs]

/-- In the places of the frames of some payloads stand any bytes that declare the
same lengths, and behind them less than a frame. A scan serves, in order and each at
the place of its frame, exactly those whose checksum is that of their payload. It
counts the others, and its valid length is the length of all frames. If nothing was
changed, the payloads are served. -/
theorem scan_skips_exactly_damaged_frames {t : Bytes} (h : Framed ps)
    (hfs : List.Forall₂ Replaces fs ps) (ht : Torn t) :
    (scan (fs.flatten ++ t)).progress.map (·.1) =
        (tilesIn 0 fs).filter (fun u => Hash.Crc32.checksum u.payload = u.crc) ∧
      (tilesIn 0 fs).map (·.offset) = (tilesOf 0 ps).map (·.offset) ∧
      (scan (fs.flatten ++ t)).skipped =
        (tilesIn 0 fs).countP (fun u => Hash.Crc32.checksum u.payload ≠ u.crc) ∧
      (scan (fs.flatten ++ t)).validLength = (journal ps).length ∧
      (fs = ps.map encode → (scan (fs.flatten ++ t)).progress.map (·.1.payload) = ps ∧
        (scan (fs.flatten ++ t)).skipped = 0) := by
  have hscan := scan_replaced h hfs ht
  refine ⟨?_, offsets_tilesIn hfs 0, ?_, ?_, ?_⟩
  · rw [Scan.map_fst_progress, hscan]
    rfl
  · rw [hscan, Scan.skipped]
    apply List.countP_congr
    intro u _
    simp [Tile.isIntact]
  · rw [validLength_replaced h hfs ht, length_flatten hfs]
  · rintro rfl
    rw [tilesIn_encode] at hscan
    rw [hscan]
    refine ⟨?_, scanOf_skipped ps⟩
    have hserved : (scanOf ps).progress.map (·.1) = tilesOf 0 ps := by
      rw [Scan.map_fst_progress, scanOf_intact]
    calc (scanOf ps).progress.map (·.1.payload)
        = ((scanOf ps).progress.map (·.1)).map (·.payload) := by rw [List.map_map]; rfl
      _ = ps := by rw [hserved, map_payload_tilesOf]

end

/-- The payload of the first of two frames was changed, and a third frame is not
complete: the second is served. -/
theorem scan_skips_exactly_damaged_frames_first :
    let fs := [Tile.bytes ⟨0, Hash.Crc32.checksum [1, 2], [1, 9]⟩, encode [3]]
    Framed [[1, 2], [3]] ∧ List.Forall₂ Replaces fs [[1, 2], [3]] ∧
      Torn ((encode [4]).take 5) ∧
      (scan (fs.flatten ++ (encode [4]).take 5)).progress.map (·.1) =
        [⟨10, Hash.Crc32.checksum [3], [3]⟩] ∧
      (scan (fs.flatten ++ (encode [4]).take 5)).skipped = 1 ∧
      (scan (fs.flatten ++ (encode [4]).take 5)).validLength = 19 := by
  intro fs
  have hframed : Framed [[1, 2], [3]] := by
    unfold Framed
    decide
  have hfs : List.Forall₂ Replaces fs [[1, 2], [3]] :=
    .cons (replaces_bytes rfl) (.cons (replaces_encode [3]) .nil)
  have htorn : Torn ((encode [4]).take 5) :=
    ⟨[4], by decide, List.take_prefix _ _, by simp [headerSize]⟩
  obtain ⟨hserved, _, hskipped, hvalid, _⟩ :=
    scan_skips_exactly_damaged_frames hframed hfs htorn
  refine ⟨hframed, hfs, htorn, hserved.trans ?_, hskipped.trans ?_, hvalid.trans ?_⟩
  · decide +kernel
  · decide +kernel
  · decide +kernel

/-! ## Changes that are found out -/

/-- The positions are those of the checksum, or at most four of the payload. -/
def Guarded (p : Bytes) (start count : Nat) : Prop :=
  (start = 4 ∧ count = 4) ∨
    (headerSize ≤ start ∧ start + count ≤ headerSize + p.length ∧ count ≤ 4)

section

variable {start count : Nat}

theorem Guarded.stop_le (h : Guarded p start count) :
    start + count ≤ (encode p).length := by
  rw [length_encode]
  rcases h with ⟨rfl, rfl⟩ | ⟨_, hstop, _⟩
  · exact Nat.le_add_right _ _
  · exact hstop

theorem Guarded.replaces (hguarded : Guarded p start count)
    (h : Bytes.ChangedWithin start count (encode p) f) : Replaces f p := by
  refine ⟨h.length, h.take_eq ?_⟩
  rcases hguarded with ⟨rfl, _⟩ | ⟨hstart, _⟩
  · exact Nat.le_refl _
  · exact Nat.le_trans (by decide) hstart

/-- The checksum and the payload no longer go together. -/
theorem isIntact_of_changed (hguarded : Guarded p start count)
    (h : Bytes.ChangedWithin start count (encode p) f) (offset : Nat) :
    (tileIn offset f).isIntact = false := by
  have hwritten := tileIn_encode offset p
  apply Bool.eq_false_iff.2
  intro hintact
  rcases hguarded with ⟨rfl, rfl⟩ | ⟨hstart, _, hcount⟩
  · -- The payload is the one that was written, and an intact frame of it is the one
    -- that was written.
    have hpayload : (tileIn offset f).payload = p :=
      (h.drop_eq (Nat.le_refl headerSize)).trans (congrArg Tile.payload hwritten)
    apply h.ne
    rw [← (Guarded.replaces (.inl ⟨rfl, rfl⟩) h).bytes_tileIn offset,
      Tile.bytes_of_isIntact hintact, hpayload]
  · -- The checksum is the one that was written, and it tells the two payloads apart.
    have hcrc : (tileIn offset f).crc = Hash.Crc32.checksum p := by
      have hword : (f.drop 4).take 4 = ((encode p).drop 4).take 4 := by
        rw [List.take_drop, List.take_drop, h.take_eq (n := 4 + 4) hstart]
      rw [tileIn, hword]
      exact congrArg Tile.crc hwritten
    have hpayload := h.drop hstart
    rw [show (encode p).drop headerSize = p from congrArg Tile.payload hwritten]
      at hpayload
    obtain ⟨before, as, bs, after, hp, hf, hlength, hshort, hne⟩ :=
      hpayload.exists_exchange
    have hsame : Hash.Crc32.checksum (f.drop headerSize) = Hash.Crc32.checksum p :=
      (eq_of_beq hintact).trans hcrc
    rw [hf, hp] at hsame
    exact Hash.Crc32.checksum_ne hlength (Nat.le_trans hshort hcount) hne before
      after hsame.symm

/-- Decoding does not take a changed frame for another one. -/
theorem decode_of_changed (hlimit : p.length < payloadLimit)
    (hguarded : Guarded p start count)
    (h : Bytes.ChangedWithin start count (encode p) f) (rest : Bytes) :
    ∃ expected computed, expected ≠ computed ∧
      decode (f ++ rest) = .error (.checksum expected computed) := by
  have hdamaged := isIntact_of_changed hguarded h 0
  have hreplaces := hguarded.replaces h
  refine ⟨(tileIn 0 f).crc, Hash.Crc32.checksum (tileIn 0 f).payload, ?_, ?_⟩
  · intro hsame
    rw [Tile.isIntact, hsame, beq_self_eq_true] at hdamaged
    cases hdamaged
  · have hdecode :=
      Tile.decode_bytes (t := tileIn 0 f) (by rwa [hreplaces.length_payload]) rest
    rw [hreplaces.bytes_tileIn, hdamaged] at hdecode
    exact hdecode

/-- A byte that is not one of the length is in a place where changes are found out. -/
theorem exists_guarded {j : Nat} (h : Bytes.ChangedWithin j 1 (encode p) f)
    (hstart : 4 ≤ j) (hstop : j < (encode p).length) :
    ∃ start count, Guarded p start count ∧
      Bytes.ChangedWithin start count (encode p) f := by
  rw [length_encode] at hstop
  by_cases hheader : j < headerSize
  · rw [headerSize] at hheader
    exact ⟨4, 4, .inl ⟨rfl, rfl⟩, h.mono hstart (by omega)⟩
  · exact ⟨j, 1, .inr ⟨by omega, by omega, by decide⟩, h⟩

/-! ## One frame among others -/

theorem forall₂_replaces_encode (ps : List Bytes) :
    List.Forall₂ Replaces (ps.map encode) ps := by
  induction ps with
  | nil => exact .nil
  | cons p ps ih => exact .cons (replaces_encode p) ih

theorem tilesIn_append (offset : Nat) (fs gs : List Bytes) :
    tilesIn offset (fs ++ gs) =
      tilesIn offset fs ++ tilesIn (offset + fs.flatten.length) gs := by
  induction fs generalizing offset with
  | nil => rfl
  | cons f fs ih =>
    rw [List.cons_append, tilesIn, ih, tilesIn, List.cons_append, List.flatten_cons,
      List.length_append, Nat.add_assoc]

section

variable {before after : List Bytes} (h : Framed (before ++ p :: after))
    (hguarded : Guarded p start count)
    (hf : Bytes.ChangedWithin start count (encode p) f)

include hguarded hf in
theorem forall₂_replaces_changed :
    List.Forall₂ Replaces (before.map encode ++ f :: after.map encode)
      (before ++ p :: after) :=
  List.rel_append (forall₂_replaces_encode before)
    (.cons (hguarded.replaces hf) (forall₂_replaces_encode after))

theorem flatten_changed (before after : List Bytes) (f : Bytes) :
    (before.map encode ++ f :: after.map encode).flatten =
      journal before ++ (f ++ journal after) := by
  rw [List.flatten_append, List.flatten_cons, flatten_map_encode, flatten_map_encode]

include h hguarded hf

/-- A scan passes over a frame that was changed, and finds all others. -/
theorem intact_changed :
    (scan (journal before ++ (f ++ journal after))).intact =
      tilesOf 0 before ++ tilesOf (journal (before ++ [p])).length after := by
  have hscan := scan_replaced h (forall₂_replaces_changed hguarded hf) torn_nil
  rw [List.append_nil, flatten_changed, tilesIn_append, tilesIn, tilesIn_encode,
    tilesIn_encode, flatten_map_encode, hf.length] at hscan
  have hdamaged := isIntact_of_changed hguarded hf (0 + (journal before).length)
  rw [hscan, Scan.intact, List.filter_append, filter_tilesOf,
    List.filter_cons_of_neg (Bool.eq_false_iff.1 hdamaged), filter_tilesOf,
    journal_concat, List.length_append, Nat.zero_add]

theorem validLength_changed :
    (scan (journal before ++ (f ++ journal after))).validLength =
      (journal before ++ (f ++ journal after)).length := by
  have hvalid := validLength_replaced h (forall₂_replaces_changed hguarded hf) torn_nil
  rwa [List.append_nil, flatten_changed] at hvalid

end

end

end Frame

end Chronicle
