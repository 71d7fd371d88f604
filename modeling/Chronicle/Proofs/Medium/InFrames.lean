import Chronicle.Proofs.Medium.AppendOnly

/-!
# Media in the frames of one file

An archive and a lineage with a journal have everything that they know in the frames
of one file. What they are after some records were taken is a matter of those records
alone, and the file leads to the same medium again.

* `taken`, `InFrames.after`: what a medium becomes by taking records.
* `InFrames.Stands`: the medium is what it became by taking records, and so is its
  file.
* `Stands.write_ok`, `Stands.write_failed`: what a write does to such a medium.
* `openOn_kept`: opening the file gives the medium back.
-/

namespace Chronicle.Medium

open Frame (journal Framed Kept)

/-! ## Graphs -/

namespace Graph

/-- The graph with the node of a record. -/
def add (g : Graph) (r : Record) : Graph := g.link (g.next r)

/-- The nodes that records get, one after the other. -/
def nodesFor (g : Graph) : List Record → List Node
  | [] => []
  | r :: rs => g.next r :: (g.add r).nodesFor rs

/-- No record gets a node with the hash of another one that is there. -/
def Fresh (g : Graph) : List Record → Prop
  | [] => True
  | r :: rs => g.Apart (g.next r) ∧ (g.add r).Fresh rs

theorem foldl_add (g : Graph) (rs : List Record) :
    rs.foldl add g = (g.nodesFor rs).foldl link g := by
  induction rs generalizing g with
  | nil => rfl
  | cons r rs ih => exact ih (g.add r)

theorem nodesFor_concat (g : Graph) (rs : List Record) (r : Record) :
    g.nodesFor (rs ++ [r]) = g.nodesFor rs ++ [(rs.foldl add g).next r] := by
  induction rs generalizing g with
  | nil => rfl
  | cons s rs ih =>
    rw [List.cons_append, nodesFor, ih]
    rfl

theorem nodesFor_take (g : Graph) (rs : List Record) (k : Nat) :
    g.nodesFor (rs.take k) = (g.nodesFor rs).take k := by
  induction rs generalizing g k with
  | nil => simp [nodesFor]
  | cons r rs ih =>
    cases k with
    | zero => rfl
    | succ k => rw [List.take_succ_cons, nodesFor, nodesFor, List.take_succ_cons, ih]

theorem length_nodesFor (g : Graph) (rs : List Record) :
    (g.nodesFor rs).length = rs.length := by
  induction rs generalizing g with
  | nil => rfl
  | cons r rs ih => rw [nodesFor, List.length_cons, ih, List.length_cons]

theorem verify_of_mem_nodesFor {g : Graph} {rs : List Record} {n : Node}
    (h : n ∈ g.nodesFor rs) : n.verify = true := by
  induction rs generalizing g with
  | nil => cases h
  | cons r rs ih =>
    rcases List.mem_cons.1 h with rfl | h
    · exact Node.verify_link _ _
    · exact ih h

theorem Fresh.concat {g : Graph} {rs : List Record} {r : Record} (h : g.Fresh rs)
    (hapart : (rs.foldl add g).Apart ((rs.foldl add g).next r)) :
    g.Fresh (rs ++ [r]) := by
  induction rs generalizing g with
  | nil => exact ⟨hapart, trivial⟩
  | cons s rs ih => exact ⟨h.1, ih h.2 hapart⟩

theorem Fresh.take {g : Graph} {rs : List Record} (h : g.Fresh rs) (k : Nat) :
    g.Fresh (rs.take k) := by
  induction rs generalizing g k with
  | nil =>
    rw [List.take_nil]
    trivial
  | cons r rs ih =>
    cases k with
    | zero => trivial
    | succ k => exact ⟨h.1, ih h.2 k⟩

theorem Serves.foldl_add {g : Graph} {qs rs : List Record} (h : g.Serves qs)
    (hfresh : g.Fresh rs) :
    (rs.foldl add g).Serves (qs ++ rs) := by
  induction rs generalizing g qs with
  | nil => rwa [List.append_nil]
  | cons r rs ih =>
    have hnext := ih (h.link hfresh.1 (Node.verify_link _ _)) hfresh.2
    rwa [List.append_assoc, List.singleton_append] at hnext

end Graph

/-! ## What a medium becomes -/

/-- The medium, taking records or not. -/
def withReady (ready : Bool) (m : Medium) : Medium :=
  match m with
  | .archive a => .archive { a with appendable := ready }
  | .lineage l =>
    .lineage { l with journal := l.journal.map fun j => { j with appendable := ready } }
  | m => m

theorem withReady_withReady (ready ready' : Bool) (m : Medium) :
    (m.withReady ready).withReady ready' = m.withReady ready' := by
  cases m with
  | lineage l =>
    obtain ⟨graph, journal⟩ := l
    cases journal <;> rfl
  | _ => rfl

/-- The media that have all that they know in the frames of one file. -/
inductive InFrames where
  | archive
  | lineage

namespace InFrames

/-- The medium at a path. -/
def appendOnly : InFrames → Path → AppendOnly
  | archive, p => .archive p
  | lineage, p => .lineage (some p)

/-- The medium with nothing in it. -/
def empty (x : InFrames) (p : Path) (file : Nat) : Medium :=
  match x with
  | archive => .archive ⟨p, file, 0, [], true⟩
  | lineage => .lineage ⟨{}, some ⟨p, file, true⟩⟩

/-- The lengths in the records of an archive have room in their bytes. -/
def Sized : InFrames → List Record → Prop
  | archive, rs => ∀ r ∈ rs, r.Sized
  | lineage, _ => True

theorem sized_of_forall (x : InFrames) {rs : List Record}
    (h : ∀ r ∈ rs, r.Sized) : x.Sized rs := by
  cases x with
  | archive => exact h
  | lineage => trivial

/-- The frames tell the records: lengths have room in their bytes, and no node has
got the hash of another one. -/
def Legible : InFrames → List Record → Prop
  | archive, rs => ∀ r ∈ rs, r.Sized
  | lineage, rs => ({} : Graph).Fresh rs

theorem Legible.sized {x : InFrames} {rs : List Record}
    (h : x.Legible rs) : x.Sized rs := by
  cases x with
  | archive => exact h
  | lineage => trivial

theorem legible_nil (x : InFrames) : x.Legible [] := by
  cases x with
  | archive => exact fun r hr => (List.not_mem_nil hr).elim
  | lineage => trivial

theorem Legible.take {x : InFrames} {rs : List Record} (h : x.Legible rs) (k : Nat) :
    x.Legible (rs.take k) := by
  cases x with
  | archive => exact fun r hr => h r (List.mem_of_mem_take hr)
  | lineage => exact Graph.Fresh.take h k

end InFrames

variable [Compression]

/-- The archive with one record more. -/
def Archive.taken (a : Archive) (r : Record) : Archive :=
  { a with length := a.length + (Frame.encode (Archive.payload r)).length
           index := Assoc.set r.key a.length a.index }

/-- The medium after it took a record. -/
def taken (m : Medium) (r : Record) : Medium :=
  match m with
  | .archive a => .archive (a.taken r)
  | .lineage l => .lineage { l with graph := l.graph.add r }
  | m => m

/-- The payload of the frame of the next record. -/
def payloadFor (m : Medium) (r : Record) : Bytes :=
  match m with
  | .archive _ => Archive.payload r
  | .lineage l => (l.graph.next r).toBinary
  | _ => []

theorem withReady_foldl_taken (ready : Bool) (m : Medium) (rs : List Record) :
    (rs.foldl taken m).withReady ready = rs.foldl taken (m.withReady ready) := by
  induction rs generalizing m with
  | nil => rfl
  | cons r rs ih =>
    rw [List.foldl_cons, List.foldl_cons, ih]
    cases m <;> rfl

namespace InFrames

/-- The medium after it took records. -/
def after (x : InFrames) (p : Path) (file : Nat) (rs : List Record) : Medium :=
  rs.foldl taken (x.empty p file)

/-- The payloads of the frames of records. -/
def payloads : InFrames → List Record → List Bytes
  | archive, rs => rs.map Archive.payload
  | lineage, rs => (({} : Graph).nodesFor rs).map Node.toBinary

theorem payloads_take (x : InFrames) (rs : List Record) (k : Nat) :
    x.payloads (rs.take k) = (x.payloads rs).take k := by
  cases x with
  | archive => exact List.map_take
  | lineage =>
    show (Graph.nodesFor _ _).map _ = _
    rw [Graph.nodesFor_take, List.map_take]
    rfl

theorem length_payloads (x : InFrames) (rs : List Record) :
    (x.payloads rs).length = rs.length := by
  cases x with
  | archive => exact List.length_map _
  | lineage => rw [payloads, List.length_map, Graph.length_nodesFor]

theorem after_lineage (p : Path) (file : Nat) (rs : List Record) :
    lineage.after p file rs =
      .lineage ⟨rs.foldl Graph.add {}, some ⟨p, file, true⟩⟩ := by
  have hgraph : ∀ g, rs.foldl taken (.lineage ⟨g, some ⟨p, file, true⟩⟩) =
      .lineage ⟨rs.foldl Graph.add g, some ⟨p, file, true⟩⟩ := by
    induction rs with
    | nil => exact fun g => rfl
    | cons r rs ih => exact fun g => ih (g.add r)
  exact hgraph {}

/-- An archive knows the length of its frames, and where a scan finds the latest of
each key. -/
theorem after_archive (p : Path) (file : Nat) (rs : List Record) :
    ∃ index, archive.after p file rs =
        .archive ⟨p, file, (journal (rs.map Archive.payload)).length, index, true⟩ ∧
      (archive.Sized rs → index =
        Archive.indexOf (Frame.scanOf (rs.map Archive.payload))) := by
  have hindex : ∀ offset index, ∃ index',
      rs.foldl taken (.archive ⟨p, file, offset, index, true⟩) =
        .archive ⟨p, file, offset + (journal (rs.map Archive.payload)).length,
          index', true⟩ ∧
      (archive.Sized rs →
        index' = (Frame.tilesOf offset (rs.map Archive.payload)).foldl
          Archive.note index) := by
    induction rs with
    | nil => exact fun offset index => ⟨index, rfl, fun _ => rfl⟩
    | cons r rs ih =>
      intro offset index
      obtain ⟨index', hrest, hnoted⟩ :=
        ih (offset + (Frame.encode (Archive.payload r)).length)
        (Assoc.set r.key offset index)
      refine ⟨index', ?_, fun hsized => ?_⟩
      · rw [List.foldl_cons, show taken _ r = .archive ⟨p, file,
          offset + (Frame.encode (Archive.payload r)).length,
          Assoc.set r.key offset index, true⟩ from rfl,
          hrest, List.map_cons, Frame.journal_cons, List.length_append]
        simp only [Nat.add_assoc]
      · have hnote : Archive.note index
            ⟨offset, Hash.Crc32.checksum (Archive.payload r), Archive.payload r⟩ =
            Assoc.set r.key offset index := by
          rw [Archive.note, Archive.record_payload (hsized r List.mem_cons_self)]
        rw [hnoted fun x hx => hsized x (List.mem_cons_of_mem _ hx), List.map_cons,
          Frame.tilesOf, List.foldl_cons, hnote, Frame.length_encode, Nat.add_assoc]
  obtain ⟨index, hstate, hnoted⟩ := hindex 0 []
  rw [Nat.zero_add] at hstate
  refine ⟨index, hstate, fun hsized => ?_⟩
  rw [Archive.indexOf, Frame.scanOf_intact]
  exact hnoted hsized

/-- The medium that is found in a file. -/
def found (x : InFrames) (p : Path) (file : Nat) (s : Frame.Scan) : Medium :=
  match x with
  | archive => .archive ⟨p, file, s.validLength, Archive.indexOf s, true⟩
  | lineage => .lineage ⟨Lineage.graphOf s, some ⟨p, file, true⟩⟩

/-- What is found in the frames of records is what taking the records leads to. -/
theorem found_scanOf {x : InFrames} {rs : List Record}
    (hframed : Framed (x.payloads rs)) (hsized : x.Sized rs) (p : Path) (file : Nat) :
    x.found p file (Frame.scanOf (x.payloads rs)) = x.after p file rs := by
  cases x with
  | archive =>
    obtain ⟨index, hstate, hnoted⟩ := after_archive p file rs
    rw [hstate, hnoted hsized, found, Frame.scanOf_validLength]
    rfl
  | lineage =>
    rw [after_lineage, found, Graph.foldl_add]
    show Medium.lineage
      ⟨Lineage.graphOf (Frame.scanOf ((Graph.nodesFor {} rs).map Node.toBinary)), _⟩ = _
    rw [Lineage.graphOf_scanOf hframed fun n hn => Graph.verify_of_mem_nodesFor hn]

/-! ## The medium and its file -/

/-- The medium is what it became by taking the records, and its file has a frame for
each. What follows the last frame is less than a frame, and nothing if the medium
takes records. -/
structure Stands (x : InFrames) (p : Path) (file : Nat) (ready : Bool) (m : Medium)
    (d : Disk) (rs : List Record) : Prop where
  state : m = (x.after p file rs).withReady ready
  kept : Kept d p file (x.payloads rs) ready

variable {x : InFrames} {p : Path} {file : Nat} {ready : Bool} {m m' : Medium}
    {d d' : Disk} {rs : List Record}

theorem withReady_after (x : InFrames) (p : Path) (file : Nat) (rs : List Record) :
    (x.after p file rs).withReady true = x.after p file rs := by
  rw [after, withReady_foldl_taken]
  cases x <;> rfl

theorem withReady_concat (x : InFrames) (p : Path) (file : Nat) (ready : Bool)
    (rs : List Record) (r : Record) :
    (x.after p file (rs ++ [r])).withReady ready =
      ((x.after p file rs).withReady ready).taken r := by
  rw [after, after, withReady_foldl_taken, withReady_foldl_taken, List.foldl_append]
  rfl

/-- Each key reads the latest of its records. -/
theorem Stands.read [Table.Engine] (h : x.Stands p file ready m d rs)
    (hlegible : x.Legible rs) (key : String) :
    m.read key d = .done ((Memory.ofRecords rs).read key) := by
  obtain ⟨rfl, hkept⟩ := h
  cases x with
  | archive =>
    obtain ⟨index, hstate, hnoted⟩ := after_archive p file rs
    have hkeeps : Archive.Keeps ⟨p, file, (journal (rs.map Archive.payload)).length,
        Archive.indexOf (Frame.scanOf (rs.map Archive.payload)), ready⟩ d rs :=
      ⟨hkept, rfl, Archive.indexes_indexOf hlegible, hlegible⟩
    rw [hstate, hnoted hlegible]
    show Answer.ofExcept (Archive.read _ key d) = _
    rw [hkeeps.read]
    rfl
  | lineage =>
    have hserves := Graph.serves_nil.foldl_add hlegible
    rw [List.nil_append] at hserves
    rw [after_lineage]
    show Answer.ofExcept (Graph.read _ key) = _
    rw [hserves.read]
    rfl

/-! ## Writing -/

/-- Of an archive: where it is, and that it knows the length of its frames. -/
theorem Stands.archive (h : archive.Stands p file ready m d rs) :
    ∃ a : Archive, m = .archive a ∧ a.file = file ∧ a.appendable = ready ∧
      a.length = (journal (rs.map Archive.payload)).length := by
  obtain ⟨index, hstate, _⟩ := after_archive p file rs
  rw [h.state, hstate]
  exact ⟨_, rfl, rfl, rfl, rfl⟩

/-- Of a lineage: its graph, and where its journal is. -/
theorem Stands.lineage (h : lineage.Stands p file ready m d rs) :
    ∃ l : Lineage, m = .lineage l ∧ l.journal = some ⟨p, file, ready⟩ ∧
      l.graph = rs.foldl Graph.add {} := by
  rw [h.state, after_lineage]
  exact ⟨_, rfl, rfl, rfl⟩

theorem Stands.payloads_concat (h : x.Stands p file ready m d rs) (r : Record) :
    x.payloads (rs ++ [r]) = x.payloads rs ++ [m.payloadFor r] := by
  cases x with
  | archive =>
    obtain ⟨a, rfl, _⟩ := h.archive
    exact List.map_append
  | lineage =>
    obtain ⟨l, rfl, _, hgraph⟩ := h.lineage
    rw [payloads, Graph.nodesFor_concat, List.map_append, ← hgraph]
    rfl

theorem Stands.payloadFor_ne_nil (h : x.Stands p file ready m d rs) (r : Record) :
    m.payloadFor r ≠ [] := by
  cases x with
  | archive =>
    obtain ⟨a, rfl, _⟩ := h.archive
    exact Archive.payload_ne_nil r
  | lineage =>
    obtain ⟨l, rfl, _⟩ := h.lineage
    exact Lineage.toBinary_ne_nil _

variable [Table.Engine]

/-- All that a write can do. The record has no room in a frame, or the medium takes
nothing more, and nothing happens; or the frame is appended; or it could not be, and
what was written of it was taken back or not. The disk matters only while the medium
takes records. -/
theorem Stands.write_cases {e e' : Disk} {r : Record} {a : Answer Unit}
    (h : x.Stands p file ready m d rs)
    (hsame : ready = true → e.size file = d.size file)
    (hwrite : m.write r e = (a, m', e')) :
    (¬(m.payloadFor r).length < Frame.payloadLimit ∧
        (∃ why, a = .failed (.unwritable why)) ∧ m' = m ∧ e' = e) ∨
      (m.payloadFor r).length < Frame.payloadLimit ∧
        ((ready = false ∧ (∃ why, a = .failed (.unavailable why)) ∧ m' = m ∧ e' = e) ∨
          (ready = true ∧ e.append file (Frame.encode (m.payloadFor r)) = (.ok (), e') ∧
            a = .done () ∧
            m' = m.taken r) ∨
          (ready = true ∧ ∃ f e₁ back, e.append file (Frame.encode (m.payloadFor r)) =
            (.error f, e₁) ∧
            e₁.rollBack file (e.size file) = (back, e') ∧ a = .failed .disk ∧
            m' = m.withReady back)) := by
  cases x with
  | archive =>
    obtain ⟨b, rfl, rfl, rfl, hlength⟩ := h.archive
    cases hw : b.write r e with
    | mk y rest =>
      obtain ⟨b', d₁⟩ := rest
      simp only [Medium.write, hw] at hwrite
      cases hwrite
      rcases Archive.write_cases hw with ⟨_, hframe, rfl, rfl, rfl⟩ |
        ⟨bs, hframe, hcases⟩
      · rw [Archive.frame_eq] at hframe
        split at hframe
        · cases hframe
        · next hlong =>
          cases hframe
          exact .inl ⟨hlong, ⟨_, rfl⟩, rfl, rfl⟩
      · obtain ⟨hfits, rfl⟩ := Archive.frame_eq_ok hframe
        refine .inr ⟨hfits, ?_⟩
        rcases hcases with ⟨hclosed, rfl, rfl, rfl⟩ | ⟨hready, happend, rfl, rfl⟩ |
          ⟨hready, f, d₂, back, happend, hback, rfl, rfl⟩
        · exact .inl ⟨hclosed, ⟨_, rfl⟩, rfl, rfl⟩
        · exact .inr (.inl ⟨hready, happend, rfl, rfl⟩)
        · -- The archive knows the size of its file while it takes records.
          have hsize : b.length = e.size b.file := by
            have hkept := h.kept
            rw [hready] at hkept
            rw [hlength, hsame hready, ← Disk.length_content, hkept.content_eq]
            rfl
          exact .inr (.inr ⟨hready, f, d₂, back, happend, hsize ▸ hback, rfl, rfl⟩)
  | lineage =>
    obtain ⟨l, rfl, hj, _⟩ := h.lineage
    cases hw : l.write r e with
    | mk y rest =>
      obtain ⟨l', d₁⟩ := rest
      simp only [Medium.write, hw] at hwrite
      cases hwrite
      rw [Lineage.write_eq hj] at hw
      cases hrecord : Lineage.record ⟨p, file, ready⟩ (l.graph.next r) e with
      | mk z rest =>
        obtain ⟨j, d₂⟩ := rest
        rw [hrecord] at hw
        obtain ⟨graph, journal⟩ := l
        cases hj
        rcases Lineage.record_cases hrecord with ⟨hlong, rfl, rfl, rfl⟩ |
          ⟨hfits, hcases⟩
        · cases hw
          exact .inl ⟨hlong, ⟨_, rfl⟩, rfl, rfl⟩
        · refine .inr ⟨hfits, ?_⟩
          rcases hcases with ⟨hclosed, rfl, rfl, rfl⟩ | ⟨hready, happend, rfl, rfl⟩ |
            ⟨hready, f, d₃, back, happend, hback, rfl, rfl⟩
          · cases hw
            exact .inl ⟨hclosed, ⟨_, rfl⟩, rfl, rfl⟩
          · cases hw
            exact .inr (.inl ⟨hready, happend, rfl, rfl⟩)
          · cases hw
            exact .inr (.inr ⟨hready, f, d₃, back, happend, hback, rfl, rfl⟩)

/-- A record that is taken is in one more frame. -/
theorem Stands.write_ok {r : Record} (h : x.Stands p file ready m d rs)
    (hwrite : m.write r d = (.done (), m', d')) :
    ready = true ∧ m' = m.taken r ∧ x.Stands p file true m' d' (rs ++ [r]) := by
  rcases h.write_cases (fun _ => rfl) hwrite with ⟨_, ⟨_, ha⟩, _⟩ | ⟨hfits, hcases⟩
  · cases ha
  · rcases hcases with ⟨_, ⟨_, ha⟩, _⟩ | ⟨rfl, happend, _, rfl⟩ |
      ⟨_, _, _, _, _, _, ha, _⟩
    · cases ha
    · refine ⟨rfl, rfl, ?_, ?_⟩
      · rw [h.state, withReady_concat]
      · rw [h.payloads_concat]
        exact h.kept.append_ok (h.payloadFor_ne_nil r) hfits happend
    · cases ha

/-- A record that is not taken leaves nothing to be found. -/
theorem Stands.write_failed {r : Record} {a : Answer Unit}
    (h : x.Stands p file ready m d rs)
    (htears : d.Tears file (Frame.encode (m.payloadFor r)))
    (hwrite : m.write r d = (a, m', d')) (ha : a ≠ .done ()) :
    ∃ ready', x.Stands p file ready' m' d' rs := by
  rcases h.write_cases (fun _ => rfl) hwrite with ⟨_, _, rfl, rfl⟩ | ⟨hfits, hcases⟩
  · exact ⟨ready, h⟩
  · rcases hcases with ⟨_, _, rfl, rfl⟩ | ⟨_, _, hdone, _⟩ |
      ⟨rfl, f, d₁, back, happend, hback, _, rfl⟩
    · exact ⟨ready, h⟩
    · exact absurd hdone ha
    · refine ⟨back, ?_, h.kept.append_error hfits htears happend hback⟩
      rw [h.state, withReady_withReady]

/-! ## Opening -/

theorem openOn_eq_ok_iff :
    (x.appendOnly p).openOn d = (.ok m, d') ↔
      ∃ file s, Frame.opened p d = (.ok (file, s), d') ∧ m = x.found p file s := by
  constructor
  · intro hopen
    cases x with
    | archive =>
      obtain ⟨a, ho, rfl⟩ := AppendOnly.map_eq_ok hopen
      rw [Archive.openAt_eq] at ho
      split at ho
      · cases ho
      · next file s d₁ hs =>
        cases ho
        exact ⟨file, s, hs, rfl⟩
    | lineage =>
      obtain ⟨l, ho, rfl⟩ := AppendOnly.map_eq_ok hopen
      rw [Lineage.openAt_eq] at ho
      split at ho
      · cases ho
      · next file s d₁ hs =>
        cases ho
        exact ⟨file, s, hs, rfl⟩
  · rintro ⟨file, s, hopened, rfl⟩
    cases x with
    | archive =>
      show ((Archive.openAt p d).1.map _, (Archive.openAt p d).2) = _
      rw [Archive.openAt_eq, hopened]
      rfl
    | lineage =>
      show ((Lineage.openAt p d).1.map _, (Lineage.openAt p d).2) = _
      rw [Lineage.openAt_eq, hopened]
      rfl

/-- A file with the frames of records is opened as what taking the records leads to. -/
theorem openOn_kept {whole : Bool} (h : Kept d p file (x.payloads rs) whole)
    (hsized : x.Sized rs) (hopen : (x.appendOnly p).openOn d = (.ok m, d')) :
    m = x.after p file rs ∧ x.Stands p file true m d' rs := by
  obtain ⟨id, s, hopened, rfl⟩ := openOn_eq_ok_iff.1 hopen
  obtain ⟨rfl, rfl, hkept⟩ := h.opened hopened
  rw [found_scanOf h.framed hsized]
  exact ⟨rfl, (withReady_after x p id rs).symm, hkept⟩

/-- It can be opened if nothing is in the way. -/
theorem openOn_kept_calm {whole : Bool} (h : Kept d p file (x.payloads rs) whole)
    (hcalm : d.Calm) (hsize : d.size file < Disk.sizeLimit) :
    ∃ m d', (x.appendOnly p).openOn d = (.ok m, d') ∧ d'.Calm := by
  obtain ⟨d', hopened, hcalm'⟩ := h.opened_calm hcalm hsize
  exact ⟨_, d', openOn_eq_ok_iff.2 ⟨_, _, hopened, rfl⟩, hcalm'⟩

/-- Where nothing was, the medium has nothing in it. -/
theorem openOn_vacant (hd : d.WellFormed) (hvacant : Frame.Vacant d p)
    (hopen : (x.appendOnly p).openOn d = (.ok m, d')) :
    ∃ file, x.Stands p file true m d' [] := by
  obtain ⟨file, s, hopened, rfl⟩ := openOn_eq_ok_iff.1 hopen
  obtain ⟨rfl, hkept⟩ := Frame.opened_vacant hd hvacant hopened
  have hnone : x.payloads [] = [] := by cases x <;> rfl
  have hframed : Framed (x.payloads []) := hnone ▸ Frame.framed_nil
  refine ⟨file, ?_, hnone ▸ hkept⟩
  rw [withReady_after, ← found_scanOf hframed x.legible_nil.sized, hnone]

end InFrames

end Chronicle.Medium
