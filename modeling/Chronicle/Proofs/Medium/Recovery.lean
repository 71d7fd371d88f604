import Chronicle.Proofs.Medium.InFrames

/-!
# Recovery of media in frames

An archive or a journal may be opened on any bytes. Both notice the intact frames
only, in their order, and of those the ones that hold a record, so that the last one
of a key is what the key reads. The file is cut at the first place where no frame
begins, so there is nothing to cut off when it is opened again.

* `InFrames.recovered`: the records in the intact frames of a file.
* `InFrames.read_found`: what is found in a file reads those records as a medium in
  memory does.
* `InFrames.openOn_again`: a file that was opened is opened again as it is.
* `framed_media_recover_from_any_bytes`: opening a file, opening it again, and
  reading.
-/

namespace Chronicle

namespace Medium

theorem Memory.read_ofRecords (rs : List Record) (key : String) :
    (ofRecords rs).read key = (rs.filter fun r => r.key == key).getLast? := by
  have hfrom : ∀ m : Memory, (rs.foldl write m).read key =
      ((rs.filter fun r => r.key == key).getLast?).or (m.read key) := by
    induction rs with
    | nil => exact fun m => rfl
    | cons r rs ih =>
      intro m
      rw [List.foldl_cons, ih, read_write, List.filter_cons, BEq.comm (a := key)]
      split
      · rw [List.getLast?_cons]
        cases (rs.filter fun r => r.key == key).getLast? <;> rfl
      · rfl
  rw [ofRecords, hfrom]
  cases (rs.filter fun r => r.key == key).getLast? <;> rfl

/-! ## What an archive finds -/

namespace Archive

variable [Compression]

/-- The record in a frame, if there is one. -/
def recordIn? (t : Frame.Tile) : Option Record := (record t.payload).toOption

theorem record_of_recordIn? {t : Frame.Tile} {r : Record} (h : recordIn? t = some r) :
    record t.payload = .ok r := by
  rw [recordIn?] at h
  cases hrecord : record t.payload with
  | error e =>
    rw [hrecord] at h
    cases h
  | ok r' =>
    rw [hrecord] at h
    rw [Option.some.inj h]

/-- The index leads from every key to the last of the frames that has a record of the
key. -/
def Leads (index : List (String × Nat)) (ts : List Frame.Tile) : Prop :=
  ∀ key, match (Memory.ofRecords (ts.filterMap recordIn?)).read key with
    | none => index.lookup key = none
    | some r =>
      r.key = key ∧ ∃ t ∈ ts, recordIn? t = some r ∧ index.lookup key = some t.offset

theorem leads_nil : Leads [] [] := fun _ => rfl

theorem Leads.note {index : List (String × Nat)} {ts : List Frame.Tile}
    (h : Leads index ts) (t : Frame.Tile) :
    Leads (note index t) (ts ++ [t]) := by
  intro key
  have hold := h key
  cases hrecord : record t.payload with
  | error e =>
    have hnone : recordIn? t = none := by rw [recordIn?, hrecord]; rfl
    rw [List.filterMap_append, List.filterMap_cons_none hnone, List.filterMap_nil,
      List.append_nil, Archive.note, hrecord]
    split at hold
    · exact hold
    · obtain ⟨hkey, u, hu, hlookup⟩ := hold
      exact ⟨hkey, u, List.mem_append_left _ hu, hlookup⟩
  | ok r =>
    have hsome : recordIn? t = some r := by rw [recordIn?, hrecord]; rfl
    rw [List.filterMap_append, List.filterMap_cons_some hsome, List.filterMap_nil,
      Memory.read_ofRecords_concat, Archive.note, hrecord]
    simp only [Assoc.lookup_set]
    by_cases hkey : key == r.key
    · rw [if_pos hkey, if_pos hkey]
      exact ⟨(eq_of_beq hkey).symm, t,
        List.mem_append_right _ List.mem_cons_self, hsome, rfl⟩
    · rw [if_neg hkey, if_neg hkey]
      split at hold
      · exact hold
      · obtain ⟨hsame, u, hu, hlookup⟩ := hold
        exact ⟨hsame, u, List.mem_append_left _ hu, hlookup⟩

theorem Leads.foldl_note {index : List (String × Nat)} {ts : List Frame.Tile}
    (h : Leads index ts) (us : List Frame.Tile) :
    Leads (us.foldl Archive.note index) (ts ++ us) := by
  induction us generalizing index ts with
  | nil => rwa [List.append_nil]
  | cons u us ih =>
    have hrest := ih (h.note u)
    rwa [List.append_assoc, List.singleton_append] at hrest

/-- What an archive reads that has noted the intact frames of its file. -/
theorem read_of_scan {a : Archive} {d : Disk} {s : Frame.Scan}
    (hscan : Frame.scan (d.content a.file) = s) (hindex : a.index = indexOf s)
    (key : String) :
    a.read key d =
      .ok ((Memory.ofRecords (s.intact.filterMap recordIn?)).read key) := by
  have hleads := leads_nil.foldl_note s.intact key
  rw [List.nil_append, show s.intact.foldl Archive.note [] = a.index from hindex.symm]
    at hleads
  rw [Archive.read]
  cases hlatest : (Memory.ofRecords (s.intact.filterMap recordIn?)).read key with
  | none =>
    rw [hlatest] at hleads
    rw [show a.index.lookup key = none from hleads]
  | some r =>
    rw [hlatest] at hleads
    obtain ⟨hkey, t, ht, hrecord, hlookup⟩ := hleads
    rw [← hscan] at ht
    obtain ⟨hlimit, rest, hdrop⟩ := Frame.drop_of_mem_intact ht
    have hdecode := Frame.decode_encode t.payload [] hlimit
    rw [List.append_nil] at hdecode
    rw [hlookup]
    simp only [frameAt?_of_drop hlimit hdrop, hdecode, record_of_recordIn? hrecord,
      hkey, beq_self_eq_true, if_true]

end Archive

/-! ## What a journal finds -/

namespace Graph

/-- No two different nodes have one hash. -/
def Unambiguous (ns : List Node) : Prop :=
  ∀ n ∈ ns, ∀ n' ∈ ns, n.hash = n'.hash → n = n'

theorem Serves.foldl_link {g : Graph} {rs : List Record} {ns : List Node}
    (h : g.Serves rs) (hverify : ∀ n ∈ ns, n.verify = true)
    (hapart : ∀ n ∈ ns, g.Apart n) (hns : Unambiguous ns) :
    (ns.foldl Graph.link g).Serves (rs ++ ns.map (·.record)) := by
  induction ns generalizing g rs with
  | nil => rwa [List.map_nil, List.append_nil]
  | cons n ns ih =>
    have hlinked := h.link (hapart n List.mem_cons_self) (hverify n List.mem_cons_self)
    have hrest := ih hlinked (fun m hm => hverify m (List.mem_cons_of_mem _ hm)) ?_ ?_
    · rwa [List.append_assoc, List.singleton_append] at hrest
    · -- A node that has the hash of the first one is the first one.
      intro m hm k hk
      rw [Graph.link, Assoc.lookup_set] at hk
      split at hk
      · next hhash =>
        cases hk
        exact hns _ List.mem_cons_self _ (List.mem_cons_of_mem _ hm)
          (eq_of_beq hhash).symm
      · exact hapart m (List.mem_cons_of_mem _ hm) k hk
    · intro m hm m' hm'
      exact hns m (List.mem_cons_of_mem _ hm) m' (List.mem_cons_of_mem _ hm')

end Graph

namespace Lineage

/-- The node in a frame, if there is one that has the hash it claims. -/
def nodeIn? (t : Frame.Tile) : Option Node :=
  (Node.ofBinary t.payload).toOption.filter Node.verify

theorem replay_eq (g : Graph) (t : Frame.Tile) :
    replay g t.payload = match nodeIn? t with
      | some n => g.link n
      | none => g := by
  rw [replay, nodeIn?]
  cases Node.ofBinary t.payload with
  | error e => rfl
  | ok n => cases hverify : n.verify <;> simp [Except.toOption, Option.filter, hverify]

theorem graphOf_eq (s : Frame.Scan) :
    graphOf s = (s.intact.filterMap nodeIn?).foldl Graph.link {} := by
  have hreplay : ∀ (ts : List Frame.Tile) (g : Graph),
      (ts.map (·.payload)).foldl replay g =
        (ts.filterMap nodeIn?).foldl Graph.link g := by
    intro ts
    induction ts with
    | nil => exact fun g => rfl
    | cons t ts ih =>
      intro g
      rw [List.map_cons, List.foldl_cons, replay_eq, List.filterMap_cons]
      cases nodeIn? t with
      | none => exact ih g
      | some n => exact ih (g.link n)
  exact hreplay s.intact {}

theorem verify_of_nodeIn? {t : Frame.Tile} {n : Node} (h : nodeIn? t = some n) :
    n.verify = true :=
  (Option.filter_eq_some_iff.1 h).2

/-- What the graph of a journal reads in whose intact frames no two different nodes
have one hash. -/
theorem read_graphOf {s : Frame.Scan}
    (h : Graph.Unambiguous (s.intact.filterMap nodeIn?)) (key : String) :
    (graphOf s).read key =
      .ok ((Memory.ofRecords ((s.intact.filterMap nodeIn?).map (·.record))).read
        key) := by
  have hverify : ∀ n ∈ s.intact.filterMap nodeIn?, n.verify = true := by
    intro n hn
    obtain ⟨t, _, ht⟩ := List.mem_filterMap.1 hn
    exact verify_of_nodeIn? ht
  have hapart : ∀ n ∈ s.intact.filterMap nodeIn?, ({} : Graph).Apart n := by
    intro n _ m hm
    cases hm
  have hserves := Graph.serves_nil.foldl_link hverify hapart h
  rw [List.nil_append, ← graphOf_eq] at hserves
  exact hserves.read key

end Lineage

/-! ## What is found -/

namespace InFrames

open Frame (scan Scan)

section

variable [Compression]

/-- The records in the intact frames of a file. -/
def recovered (x : InFrames) (s : Scan) : List Record :=
  match x with
  | archive => s.intact.filterMap Archive.recordIn?
  | lineage => (s.intact.filterMap Lineage.nodeIn?).map (·.record)

/-- No two different nodes in the intact frames of a journal have one hash. -/
def Unambiguous (x : InFrames) (s : Scan) : Prop :=
  match x with
  | archive => True
  | lineage => Graph.Unambiguous (s.intact.filterMap Lineage.nodeIn?)

variable [Table.Engine]
variable {x : InFrames} {p : Path} {file : Nat} {m : Medium} {d d' : Disk} {bs : Bytes}

/-- What is found in a file reads the records in its frames as a medium in memory
does. -/
theorem read_found {s : Scan} (hscan : scan (d.content file) = s) (h : x.Unambiguous s)
    (key : String) :
    (x.found p file s).read key d =
      .done ((Memory.ofRecords (x.recovered s)).read key) := by
  cases x with
  | archive =>
    show Answer.ofExcept (Archive.read _ key d) = _
    rw [Archive.read_of_scan hscan rfl]
    rfl
  | lineage =>
    show Answer.ofExcept ((Lineage.graphOf s).read key) = _
    rw [Lineage.read_graphOf h]
    rfl

/-- A file that is there can be opened if nothing is in the way. -/
theorem openOn_calm (x : InFrames) (hread : d.read p = .ok bs) (hcalm : d.Calm)
    (hsize : bs.length < Disk.sizeLimit) :
    ∃ m d', (x.appendOnly p).openOn d = (.ok m, d') := by
  obtain ⟨file, hstat, rfl⟩ := Disk.stat_of_read hread
  rw [Disk.length_content] at hsize
  obtain ⟨d', hopened, _⟩ := Frame.opened_calm hstat hcalm hsize
  exact ⟨_, d', openOn_eq_ok_iff.2 ⟨file, _, hopened, rfl⟩⟩

section

variable (hd : d.WellFormed) (hread : d.read p = .ok bs)
    (hopen : (x.appendOnly p).openOn d = (.ok m, d'))

include hd hread hopen

/-- Opening a file gives what is found in it, and leaves its frames there. -/
theorem found_of_openOn :
    ∃ file, m = x.found p file (scan bs) ∧ d'.stat p = .ok (.file file) ∧
      d'.content file = bs.take (scan bs).validLength := by
  obtain ⟨file, hstat, rfl⟩ := Disk.stat_of_read hread
  obtain ⟨id, s, hopened, rfl⟩ := openOn_eq_ok_iff.1 hopen
  obtain ⟨rfl, rfl, _, hstat', hcontent⟩ := Frame.opened_ok hd hstat hopened
  exact ⟨id, rfl, hstat', hcontent⟩

theorem file_of_openOn : d'.read p = .ok (bs.take (scan bs).validLength) := by
  obtain ⟨file, _, hstat, hcontent⟩ := found_of_openOn hd hread hopen
  rw [Disk.read_of_stat hstat, hcontent]

/-- There is nothing to do when the file is opened again. -/
theorem openOn_again : (x.appendOnly p).openOn d' = (.ok m, d') := by
  obtain ⟨file, rfl, hstat, hcontent⟩ := found_of_openOn hd hread hopen
  have hrecovers := Frame.scan_recovers bs
  have hscan : scan (d'.content file) = scan bs := by rw [hcontent, hrecovers.stable]
  have hsize : d'.size file = (scan bs).validLength := by
    rw [Disk.size_eq, hcontent, List.length_take_of_le hrecovers.bounded.2]
  exact openOn_eq_ok_iff.2 ⟨file, _, Frame.opened_settled hstat hscan hsize, rfl⟩

theorem read_of_openOn (h : x.Unambiguous (scan bs)) (key : String) :
    m.read key d' = .done ((Memory.ofRecords (x.recovered (scan bs))).read key) := by
  obtain ⟨file, rfl, _, hcontent⟩ := found_of_openOn hd hread hopen
  exact read_found (by rw [hcontent, (Frame.scan_recovers bs).stable]) h key

end

/-- Whatever bytes are in its file, an archive or a journal can be opened if nothing
is in the way. What a scan serves decodes to what it serves, the frames that it
serves and those that it skips are all of the file up to the place where it is cut,
and a scan of what is left finds the same. So a file that was opened is opened again
as it is. Every key reads the record of the last intact frame that has a record of
the key, or for a journal a node with the hash it claims, as long as no two different
nodes have one hash. -/
theorem framed_media_recover_from_any_bytes (hd : d.WellFormed)
    (hread : d.read p = .ok bs) :
    (scan bs).Recovers bs ∧
      (d.Calm → bs.length < Disk.sizeLimit →
        ∃ m d', (x.appendOnly p).openOn d = (.ok m, d')) ∧
      ∀ m d', (x.appendOnly p).openOn d = (.ok m, d') →
        d'.read p = .ok (bs.take (scan bs).validLength) ∧
        (x.appendOnly p).openOn d' = (.ok m, d') ∧
        (x.Unambiguous (scan bs) → ∀ key,
          m.read key d' = .done
            (((x.recovered (scan bs)).filter fun r => r.key == key).getLast?)) := by
  refine ⟨Frame.scan_recovers bs, openOn_calm x hread, ?_⟩
  intro m d' hopen
  refine ⟨file_of_openOn hd hread hopen, openOn_again hd hread hopen, ?_⟩
  intro hunambiguous key
  rw [read_of_openOn hd hread hopen hunambiguous, Memory.read_ofRecords]

end

/-- An archive on a damaged frame, the frame of a record, and one byte more. -/
theorem framed_media_recover_from_any_bytes_threePieces :
    let r := AppendOnly.pairOfOneKey.1
    let damaged : Frame.Tile := ⟨0, 7, [1, 9]⟩
    let frames := damaged.bytes ++ Frame.encode (Archive.payload r)
    let d := Disk.holding (frames ++ [5])
    d.WellFormed ∧ d.read ["a"] = .ok (frames ++ [5]) ∧
      ∃ m d', (archive.appendOnly ["a"]).openOn d = (.ok m, d') ∧
      d'.read ["a"] = .ok frames ∧
        (archive.appendOnly ["a"]).openOn d' = (.ok m, d') ∧
        m.read "k" d' = .done (some r) := by
  intro r damaged frames d
  have hd : d.WellFormed := Disk.wellFormed_holding _
  have hread : d.read ["a"] = .ok (frames ++ [5]) := Disk.read_holding _
  have hlimit : (Archive.payload r).length < Frame.payloadLimit := by decide +kernel
  let intact : Frame.Tile :=
    ⟨10, Hash.Crc32.checksum (Archive.payload r), Archive.payload r⟩
  have hwhole : intact.isIntact = true := beq_self_eq_true _
  have hlaid : Frame.laid [damaged, intact] = frames := by
    rw [Frame.laid_cons, Frame.laid_cons, Frame.Tile.bytes_of_isIntact hwhole]
    exact congrArg (damaged.bytes ++ ·) (List.append_nil _)
  have hscan : scan (frames ++ [5]) = ⟨[damaged, intact]⟩ := by
    have hconsecutive : Frame.Consecutive 0 [damaged, intact] :=
      ⟨rfl, by simp [damaged], by decide, rfl, Archive.payload_ne_nil r,
        hlimit, trivial⟩
    have hend : Frame.Unframed [5] := by
      intro length crc rest h
      cases h
    rw [scan, Frame.tiles_eq_iff.2 ⟨hconsecutive, [5], by rw [hlaid], hend⟩]
  have hintact : (scan (frames ++ [5])).intact = [intact] := by
    have hdamaged : ¬damaged.isIntact = true := by decide +kernel
    rw [hscan, Frame.Scan.intact, List.filter_cons_of_neg hdamaged,
      List.filter_cons_of_pos hwhole]
    rfl
  have hrecord : Archive.recordIn? intact = some r := by
    rw [Archive.recordIn?, Archive.record_payload AppendOnly.sized_pairOfOneKey.1]
    rfl
  obtain ⟨_, hopens, hafter⟩ :=
    framed_media_recover_from_any_bytes (x := archive) hd hread
  obtain ⟨m, d', hopen⟩ := hopens (Disk.calm_holding _) (by decide +kernel)
  obtain ⟨hkept, hagain, hreads⟩ := hafter m d' hopen
  refine ⟨hd, hread, m, d', hopen, ?_, hagain, ?_⟩
  · have hvalid : (scan (frames ++ [5])).validLength = frames.length := by
      rw [hscan, Frame.Scan.validLength, ← Frame.length_laid, hlaid]
    rw [hkept, hvalid, List.take_left]
  · rw [hreads trivial, recovered, hintact, List.filterMap_cons_some hrecord]
    rfl

end InFrames

end Medium

end Chronicle
