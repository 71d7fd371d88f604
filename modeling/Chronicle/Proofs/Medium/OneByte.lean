import Chronicle.Proofs.Frame.Damage
import Chronicle.Proofs.Medium.Crash
import Chronicle.Proofs.Medium.Recovery

/-!
# One changed byte of an archive

A byte of the file of an archive is in the frame of one record. If it is in the
checksum or in the payload, the frame is passed over and nothing else happens. The
length of a frame is not covered by its checksum: if the byte is in the length, what
comes before the frame is found as ever, and where the frame behind it begins is no
longer known. A length that leads nowhere is taken for the beginning of a write that
was not finished, and the file is cut there.

* `Frame.exists_frame_at`: the frame that a byte is in.
* `recovered_of_changed`: all records but one are found.
* `scan_of_changed_length`: the records before are found.
* `one_damaged_byte_costs_at_most_one_record`: what is read and kept.
* `changed_length_costs_records_behind`: a changed length can cost more.
-/

namespace Chronicle

namespace Frame

/-! ## The frame that a byte is in -/

theorem exists_frame_at {α : Type} {payload : α → Bytes} {xs : List α} {i : Nat}
    (h : i < (journal (xs.map payload)).length) :
    ∃ before x after, xs = before ++ x :: after ∧
      (journal (before.map payload)).length ≤ i ∧
      i < (journal ((before ++ [x]).map payload)).length := by
  induction xs generalizing i with
  | nil => cases h
  | cons x xs ih =>
    rw [List.map_cons, journal_cons, List.length_append] at h
    by_cases hfirst : i < (encode (payload x)).length
    · refine ⟨[], x, xs, rfl, Nat.zero_le _, ?_⟩
      rw [List.nil_append, List.map_singleton, journal_cons, List.length_append]
      omega
    · obtain ⟨before, y, after, rfl, hstart, hstop⟩ :=
        @ih (i - (encode (payload x)).length) (by omega)
      refine ⟨x :: before, y, after, rfl, ?_, ?_⟩
      · rw [List.map_cons, journal_cons, List.length_append]
        omega
      · rw [List.cons_append, List.map_cons, journal_cons, List.length_append]
        omega

section

variable {before after : List Bytes} {p : Bytes} {i : Nat}

theorem journal_split (before after : List Bytes) (p : Bytes) :
    journal (before ++ p :: after) = journal before ++ (encode p ++ journal after) := by
  simp only [journal, List.flatMap_append, List.flatMap_cons]

theorem getElem?_journal (hstart : (journal before).length ≤ i)
    (hstop : i < (journal (before ++ [p])).length) :
    (journal (before ++ p :: after))[i]? =
      (encode p)[i - (journal before).length]? := by
  rw [journal_concat, List.length_append] at hstop
  rw [journal_split, List.getElem?_append_right hstart,
    List.getElem?_append_left (by omega)]

theorem set_journal (hstart : (journal before).length ≤ i)
    (hstop : i < (journal (before ++ [p])).length) (b : UInt8) :
    (journal (before ++ p :: after)).set i b =
      journal before ++
        ((encode p).set (i - (journal before).length) b ++ journal after) := by
  rw [journal_concat, List.length_append] at hstop
  rw [journal_split, List.set_append_right _ _ hstart,
    List.set_append_left _ _ (by omega)]

end

/-! ## Lengths that lead nowhere -/

/-- The length that stands at the beginning of bytes. -/
def declared (s : Bytes) : Nat := Bytes.ofLittleEndian (s.take 4)

theorem unframed_of_declared {s : Bytes}
    (h : declared s = 0 ∨ s.length < headerSize + declared s) : Unframed s := by
  intro length crc rest hheader
  obtain ⟨rfl, hlimit⟩ := eq_of_header? hheader
  have hdeclared : declared
      (Bytes.littleEndian 4 length ++ Bytes.ofUInt32 crc ++ rest) = length := by
    rw [declared, List.append_assoc, List.take_left' (Bytes.length_littleEndian 4 _),
      Bytes.ofLittleEndian_littleEndian 4 _ hlimit]
  rw [hdeclared, length_of_header? hheader] at h
  omega

/-- What comes before is found, and stays in the file. -/
theorem scan_behind {ps : List Bytes} (h : Framed ps) (s : Bytes) :
    (∃ ts, (scan (journal ps ++ s)).intact = tilesOf 0 ps ++ ts) ∧
      ∃ rest, (journal ps ++ s).take (scan (journal ps ++ s)).validLength =
        journal ps ++ rest := by
  have hscan : scan (journal ps ++ s) =
      ⟨tilesOf 0 ps ++ tiles (0 + (journal ps).length) s⟩ :=
    congrArg Scan.mk (tiles_journal h 0 s)
  constructor
  · rw [hscan, Scan.intact, List.filter_append, filter_tilesOf]
    exact ⟨_, rfl⟩
  · rw [hscan, Scan.validLength, ← length_laid, laid_append, List.length_append,
      length_laid, coveredLength_tilesOf, List.take_length_add_append]
    exact ⟨_, rfl⟩

/-- Nothing more is found where no frame begins. -/
theorem scan_unframed {ps : List Bytes} {s : Bytes} (h : Framed ps) (hs : Unframed s) :
    scan (journal ps ++ s) = scanOf ps := by
  rw [scan, tiles_journal h, tiles_of_unframed hs, List.append_nil, scanOf]

end Frame

namespace Medium

open Frame (journal Framed scan tilesOf)

/-! ## The records that are left -/

namespace Archive

variable [Compression]

/-- The number of bytes that the frames of records take. -/
def extent (rs : List Record) : Nat := (journal (rs.map payload)).length

theorem filterMap_recordIn? {rs : List Record} (h : ∀ r ∈ rs, r.Sized) (offset : Nat) :
    (tilesOf offset (rs.map payload)).filterMap recordIn? = rs := by
  induction rs generalizing offset with
  | nil => rfl
  | cons r rs ih =>
    have hrecord : recordIn? ⟨offset, Hash.Crc32.checksum (payload r), payload r⟩ =
        some r := by
      rw [recordIn?, record_payload (h r List.mem_cons_self)]
      rfl
    rw [List.map_cons, Frame.tilesOf, List.filterMap_cons_some hrecord,
      ih fun q hq => h q (List.mem_cons_of_mem _ hq)]

end Archive

/-- A record that is not the latest of a key is not missed. -/
theorem Memory.read_without {before after : List Record} {r : Record} {key : String}
    (h : r.key = key → ∃ r' ∈ after, r'.key = key) :
    (ofRecords (before ++ after)).read key =
      (ofRecords (before ++ r :: after)).read key := by
  rw [read_ofRecords, read_ofRecords, List.filter_append, List.filter_append,
    List.filter_cons]
  split
  · next hkey =>
    obtain ⟨r', hr', hkey'⟩ := h (eq_of_beq hkey)
    have hlater : after.filter (fun r => r.key == key) ≠ [] :=
      List.ne_nil_of_mem (List.mem_filter.2 ⟨hr', beq_iff_eq.2 hkey'⟩)
    rw [List.getLast?_append_of_ne_nil _ hlater,
      List.getLast?_append_of_ne_nil _ (by simp), List.getLast?_cons_of_ne_nil hlater]
  · rfl

namespace InFrames

section

variable [Compression]
variable {x : InFrames} {p : Path} {m m' : Medium} {d e e' : Disk} {rs : List Record}
    {bs : Bytes} {i : Nat}
  {b old : UInt8}

section

variable {before after : List Record} {r : Record}
    (hframed : Framed ((before ++ r :: after).map Archive.payload))
    (hbs : bs = journal ((before ++ r :: after).map Archive.payload))
      (hstop : i < Archive.extent (before ++ [r]))

include hframed in
theorem framed_before : Framed (before.map Archive.payload) := by
  intro q hq
  apply hframed q
  rw [List.map_append]
  exact List.mem_append_left _ hq

include hbs hstop

/-- The file, taken apart where the frame begins. -/
theorem set_eq (hstart : Archive.extent before ≤ i) (b : UInt8) :
    bs.set i b = journal (before.map Archive.payload) ++
      ((Frame.encode (Archive.payload r)).set (i - Archive.extent before) b ++
        journal (after.map Archive.payload)) := by
  rw [Archive.extent, List.map_append, List.map_singleton] at hstop
  rw [hbs, List.map_append, List.map_cons, Frame.set_journal hstart hstop]
  rfl

include hframed

/-- A change in the checksum or the payload of a frame costs the record of the frame. -/
theorem recovered_of_changed (hsized : ∀ x ∈ before ++ r :: after, x.Sized)
    (hold : bs[i]? = some old) (hne : b ≠ old)
    (hstart : Archive.extent before + 4 ≤ i) :
    (scan (bs.set i b)).intact = tilesOf 0 (before.map Archive.payload) ++
        tilesOf (Archive.extent (before ++ [r])) (after.map Archive.payload) ∧
      (scan (bs.set i b)).validLength = (bs.set i b).length ∧
      archive.recovered (scan (bs.set i b)) = before ++ after := by
  have hle : Archive.extent before ≤ i := Nat.le_trans (Nat.le_add_right _ _) hstart
  have hset := set_eq hbs hstop hle b
  have hstop' := hstop
  rw [Archive.extent, List.map_append, List.map_singleton] at hstop'
  rw [List.map_append, List.map_cons] at hframed hbs
  have hbyte : (Frame.encode (Archive.payload r))[i - Archive.extent before]? =
      some old := by
    rw [← hold, hbs, Frame.getElem?_journal hle hstop']
    rfl
  obtain ⟨start, count, hguarded, hf⟩ :=
    Frame.exists_guarded (Bytes.changedWithin_set hbyte hne) (by omega)
    (List.getElem?_eq_some_iff.1 hbyte).1
  have hintact := Frame.intact_changed hframed hguarded hf
  have hsized₁ : ∀ x ∈ before, x.Sized :=
    fun x hx => hsized x (List.mem_append_left _ hx)
  have hsized₂ : ∀ x ∈ after, x.Sized :=
    fun x hx => hsized x (List.mem_append_right _ (List.mem_cons_of_mem _ hx))
  rw [hset]
  refine ⟨?_, Frame.validLength_changed hframed hguarded hf, ?_⟩
  · rw [hintact, Archive.extent, List.map_append, List.map_singleton]
  · rw [recovered, hintact, List.filterMap_append, Archive.filterMap_recordIn? hsized₁,
      Archive.filterMap_recordIn? hsized₂]

/-- A length that leads nowhere costs the record of the frame and all records behind. -/
theorem scan_of_changed_length (hstart : Archive.extent before ≤ i)
    (hdeclared : Frame.declared ((bs.set i b).drop (Archive.extent before)) = 0 ∨
      bs.length < Archive.extent before + Frame.headerSize +
        Frame.declared ((bs.set i b).drop (Archive.extent before))) :
    scan (bs.set i b) = Frame.scanOf (before.map Archive.payload) := by
  have hset := set_eq hbs hstop hstart b
  have hlength : bs.length = (bs.set i b).length := List.length_set.symm
  have hdrop : (bs.set i b).drop (Archive.extent before) =
      (Frame.encode (Archive.payload r)).set (i - Archive.extent before) b ++
        journal (after.map Archive.payload) := by
    rw [hset]
    exact List.drop_left
  rw [hdrop, hlength, hset, List.length_append, ← Archive.extent] at hdeclared
  rw [hset]
  exact Frame.scan_unframed (framed_before hframed)
    (Frame.unframed_of_declared (by omega))

end

variable [Table.Engine]

theorem Run.file_of_ready (h : x.Run p m d rs) (hready : m.Ready) :
    Framed (x.payloads rs) ∧ x.Legible rs ∧
      d.read p = .ok (journal (x.payloads rs)) := by
  obtain ⟨file, ready, hstands, hlegible⟩ := h.stands
  obtain rfl := hstands.ready_iff.1 hready
  refine ⟨hstands.kept.framed, hlegible, ?_⟩
  rw [Disk.read_of_stat hstands.kept.stat, hstands.kept.content_eq]

/-! ## One byte -/

/-- One byte of the file of an archive that takes records is changed. It is in the
frame of one of the records. The file can be opened if nothing is in the way. If the
byte is not in the length of the frame, the scan finds every other frame at its
place, nothing is taken from the file, and all other records are served, so that a
key whose latest record is another one reads it. If it is in the length, every frame
before is found, and stays in the file. If the length is then zero or more than there
is, the file is cut where the frame begins, and the records before are served. -/
theorem one_damaged_byte_costs_at_most_one_record (h : archive.Run p m d rs)
    (hready : m.Ready) (hread : d.read p = .ok bs) (hold : bs[i]? = some old)
    (hne : b ≠ old) (he : e.WellFormed) (hdamaged : e.read p = .ok (bs.set i b)) :
    ∃ before r after, rs = before ++ r :: after ∧ Archive.extent before ≤ i ∧
      i < Archive.extent (before ++ [r]) ∧
      (e.Calm → bs.length < Disk.sizeLimit →
        ∃ m' e', (archive.appendOnly p).openOn e = (.ok m', e')) ∧
      ∀ m' e', (archive.appendOnly p).openOn e = (.ok m', e') →
        (Archive.extent before + 4 ≤ i →
          (scan (bs.set i b)).intact = tilesOf 0 (before.map Archive.payload) ++
              tilesOf (Archive.extent (before ++ [r])) (after.map Archive.payload) ∧
            e'.read p = .ok (bs.set i b) ∧
            (∀ key, m'.read key e' =
              .done ((Memory.ofRecords (before ++ after)).read key)) ∧
            ∀ key, (r.key = key → ∃ r' ∈ after, r'.key = key) →
              m'.read key e' = .done ((Memory.ofRecords rs).read key)) ∧
        (i < Archive.extent before + 4 →
          (∃ ts, (scan (bs.set i b)).intact =
            tilesOf 0 (before.map Archive.payload) ++ ts) ∧
            (∃ rest, e'.read p = .ok (journal (before.map Archive.payload) ++ rest)) ∧
            (Frame.declared ((bs.set i b).drop (Archive.extent before)) = 0 ∨
                bs.length < Archive.extent before + Frame.headerSize +
                  Frame.declared ((bs.set i b).drop (Archive.extent before)) →
              e'.read p = .ok (journal (before.map Archive.payload)) ∧
              ∀ key, m'.read key e' = .done ((Memory.ofRecords before).read key))) := by
  obtain ⟨hframed, hsized, hfile⟩ := h.file_of_ready hready
  have hbs : bs = journal (rs.map Archive.payload) :=
    Except.ok.inj (hread.symm.trans hfile)
  have hlt := (List.getElem?_eq_some_iff.1 hold).1
  rw [hbs] at hlt
  obtain ⟨before, r, after, rfl, hstart, hstop⟩ := Frame.exists_frame_at hlt
  refine ⟨before, r, after, rfl, hstart, hstop, ?_, ?_⟩
  · intro hcalm hsize
    exact openOn_calm archive hdamaged hcalm (by rwa [List.length_set])
  · intro m' e' hopen
    have hkept := file_of_openOn he hdamaged hopen
    have hserves := read_of_openOn he hdamaged hopen trivial
    constructor
    · intro hbody
      obtain ⟨hintact, hvalid, hrecovered⟩ :=
        recovered_of_changed hframed hbs hstop hsized hold hne hbody
      rw [hvalid, List.take_length] at hkept
      rw [hrecovered] at hserves
      refine ⟨hintact, hkept, hserves, ?_⟩
      intro key hlatest
      rw [hserves, Memory.read_without hlatest]
    · intro hlength
      have hset := set_eq hbs hstop hstart b
      have hbefore := framed_before hframed
      obtain ⟨hfound, rest, hrest⟩ := Frame.scan_behind hbefore
        ((Frame.encode (Archive.payload r)).set (i - Archive.extent before) b ++
          journal (after.map Archive.payload))
      rw [← hset] at hfound hrest
      refine ⟨hfound, ⟨rest, by rw [hkept, hrest]⟩, ?_⟩
      intro hdeclared
      have hscan := scan_of_changed_length hframed hbs hstop hstart hdeclared
      constructor
      · rw [hkept, hscan, Frame.scanOf_validLength, hset, List.take_left]
      · have hsized' : ∀ x ∈ before, x.Sized :=
          fun x hx => hsized x (List.mem_append_left _ hx)
        rwa [hscan, recovered, Frame.scanOf_intact, Archive.filterMap_recordIn? hsized']
          at hserves

end

/-! ## Two records -/

/-- An archive takes any records that have room in frames. -/
theorem exists_run {rs : List Record} (h : Framed (rs.map Archive.payload))
    (hsized : ∀ r ∈ rs, r.Sized) :
    ∃ m d, archive.Run ["a"] m d rs ∧ m.Ready := by
  have hmore : ∀ qs m d, archive.Run ["a"] m d qs → m.Ready → d.Calm →
      ∃ m' d', archive.Run ["a"] m' d' (qs ++ rs) ∧ m'.Ready := by
    induction rs with
    | nil =>
      intro qs m d hrun hready _
      exact ⟨m, d, by rwa [List.append_nil], hready⟩
    | cons r rs ih =>
      intro qs m d hrun hready hcalm
      obtain ⟨file, ready, hstands, _⟩ := hrun.stands
      obtain rfl := hstands.ready_iff.1 hready
      obtain ⟨a, rfl, _⟩ := hstands.archive
      obtain ⟨d', happend, hcalm'⟩ :=
        hcalm.append file (Frame.encode (Archive.payload r))
      have hwrite := hstands.write_appended (r := r) (h _ List.mem_cons_self).2 happend
      have hnext := hrun.write ⟨hsized r List.mem_cons_self, hcalm.tears _ _⟩ hwrite
      rw [if_pos rfl] at hnext
      have hready' := (hstands.write_ok hwrite).2.2.ready_iff.2 rfl
      have hrest := ih (fun q hq => h q (List.mem_cons_of_mem _ hq))
        (fun x hx => hsized x (List.mem_cons_of_mem _ hx)) (qs ++ [r]) _ d' hnext
          hready' hcalm'
      rwa [List.append_assoc, List.singleton_append] at hrest
  have hvacant : Frame.Vacant {} ["a"] := by
    intro bs hread
    cases hread
  have hopen : (archive.appendOnly ["a"]).openOn {} =
      (.ok (.archive ⟨["a"], 0, 0, [], true⟩), Disk.holding []) := by
    with_unfolding_all rfl
  exact hmore [] _ _ (.start Disk.wellFormed_empty hvacant hopen)
    rfl (Disk.calm_holding [])

/-- Two records of different keys. -/
def twoKeys : Record × Record :=
  (⟨"note", "k", [1], Digest.zero, ⟨1, 0⟩⟩, ⟨"note", "l", [2], Digest.zero, ⟨2, 0⟩⟩)

theorem framed_twoKeys : Framed ([twoKeys.1, twoKeys.2].map Archive.payload) := by
  intro q hq
  obtain ⟨r, hr, rfl⟩ := List.mem_map.1 hq
  refine ⟨Archive.payload_ne_nil r, ?_⟩
  rcases List.mem_cons.1 hr with rfl | hr
  · decide +kernel
  · rw [List.mem_singleton.1 hr]
    decide +kernel

theorem sized_twoKeys : ∀ r ∈ [twoKeys.1, twoKeys.2], r.Sized := by
  intro r hr
  rcases List.mem_cons.1 hr with rfl | hr
  · exact ⟨by decide +kernel, by decide +kernel, by decide +kernel⟩
  · rw [List.mem_singleton.1 hr]
    exact ⟨by decide +kernel, by decide +kernel, by decide +kernel⟩

/-- The first byte of the payload of the first of two frames was changed: the second
record is read, and the first one is not. -/
theorem one_damaged_byte_costs_at_most_one_record_firstPayload :
    ∃ m d bs m' e', archive.Run ["a"] m d [twoKeys.1, twoKeys.2] ∧ m.Ready ∧
      d.read ["a"] = .ok bs ∧
      bs[8]? = some 0x28 ∧ (Disk.holding (bs.set 8 0)).WellFormed ∧
      (Disk.holding (bs.set 8 0)).read ["a"] = .ok (bs.set 8 0) ∧
      (archive.appendOnly ["a"]).openOn (Disk.holding (bs.set 8 0)) = (.ok m', e') ∧
      e'.read ["a"] = .ok (bs.set 8 0) ∧ m'.read "k" e' = .done none ∧
      m'.read "l" e' = .done (some twoKeys.2) := by
  obtain ⟨m, d, hrun, hready⟩ := exists_run framed_twoKeys sized_twoKeys
  obtain ⟨_, _, hread⟩ := hrun.file_of_ready hready
  let bs := journal ([twoKeys.1, twoKeys.2].map Archive.payload)
  have hold : bs[8]? = some 0x28 := by decide +kernel
  have hd := Disk.wellFormed_holding (bs.set 8 0)
  have hdamaged := Disk.read_holding (bs.set 8 0)
  obtain ⟨before, r, after, hrs, hstart, _, hopens, hafter⟩ :=
    one_damaged_byte_costs_at_most_one_record hrun hready hread hold
      (by decide) hd hdamaged
  obtain ⟨m', e', hopen⟩ := hopens (Disk.calm_holding _) (by decide +kernel)
  -- The first frame is long enough for the byte.
  have hlong : 8 < (Frame.encode (Archive.payload twoKeys.1)).length := by
    decide +kernel
  cases before with
  | nil =>
    cases hrs
    obtain ⟨_, hkept, hserves, _⟩ := (hafter m' e' hopen).1 (by decide)
    exact ⟨m, d, bs, m', e', hrun, hready, hread, hold, hd, hdamaged, hopen, hkept,
      hserves "k", hserves "l"⟩
  | cons first before =>
    obtain ⟨rfl, _⟩ := List.cons.inj hrs
    rw [Archive.extent, List.map_cons, Frame.journal_cons, List.length_append] at hstart
    omega

/-- The highest byte of the length of the first frame was changed. The file is cut at
its beginning, although the second frame was not changed, and the second record is
lost. -/
theorem changed_length_costs_records_behind :
    ∃ m d bs m' e', archive.Run ["a"] m d [twoKeys.1, twoKeys.2] ∧ m.Ready ∧
      d.read ["a"] = .ok bs ∧
      bs[3]? = some 0 ∧ 3 < Archive.extent [twoKeys.1] ∧
      (archive.appendOnly ["a"]).openOn (Disk.holding (bs.set 3 255)) = (.ok m', e') ∧
      m.read "l" d = .done (some twoKeys.2) ∧ m'.read "l" e' = .done none ∧
      e'.read ["a"] = .ok [] := by
  obtain ⟨m, d, hrun, hready⟩ := exists_run framed_twoKeys sized_twoKeys
  obtain ⟨_, _, hread⟩ := hrun.file_of_ready hready
  obtain ⟨_, _, hstands, hlegible⟩ := hrun.stands
  let bs := journal (([] ++ twoKeys.1 :: [twoKeys.2]).map Archive.payload)
  have hdamaged : (Disk.holding (bs.set 3 255)).read ["a"] = .ok (bs.set 3 255) :=
    Disk.read_holding _
  have hscan : scan (bs.set 3 255) = Frame.scanOf [] :=
    scan_of_changed_length framed_twoKeys rfl (by decide +kernel) (Nat.zero_le 3)
      (.inr (by decide +kernel))
  obtain ⟨m', e', hopen⟩ :=
    openOn_calm archive hdamaged (Disk.calm_holding _) (by decide +kernel)
  have hkept := file_of_openOn (Disk.wellFormed_holding _) hdamaged hopen
  have hserves := read_of_openOn (Disk.wellFormed_holding _) hdamaged hopen trivial "l"
  rw [hscan] at hkept hserves
  exact ⟨m, d, bs, m', e', hrun, hready, hread, by decide +kernel,
    by decide +kernel, hopen, hstands.read hlegible "l", hserves, hkept⟩

end InFrames

end Medium

end Chronicle
