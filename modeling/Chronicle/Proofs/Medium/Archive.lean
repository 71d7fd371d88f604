import Chronicle.Medium.Archive
import Chronicle.Medium.Memory
import Chronicle.Proofs.Binary.RoundTrip
import Chronicle.Proofs.Frame.OnDisk

/-!
# What an archive keeps

An archive keeps the records that were written to it, oldest first, each in a frame.
What a scan finds is what was noted in memory, so opening the archive again changes
nothing.

* `Keeps.read`: an archive reads what a medium in memory would.
* `Keeps.write_ok`, `Keeps.write_error`: a record is taken or leaves nothing to be
  found.
* `Keeps.openAt`, `openAt_vacant`: what is found when an archive is opened.
-/

namespace Chronicle.Medium.Archive

open Frame (journal Framed Kept)

theorem frameAt?_of_drop {bs p rest : Bytes} {offset : Nat}
    (hp : p.length < Frame.payloadLimit) (h : bs.drop offset = Frame.encode p ++ rest) :
    frameAt? bs offset = some (Frame.encode p) := by
  rw [frameAt?, h, Frame.header?_encode p rest hp]
  have hle : ¬(p ++ rest).length < p.length := by simp
  simp only [if_neg hle]
  rw [← Frame.length_encode, List.take_left]

variable [Compression]

/-- The payload of the frame of a record. -/
def payload (r : Record) : Bytes := Compression.encode r.toBinary

theorem payload_ne_nil (r : Record) : payload r ≠ [] := Compression.encode_ne_nil _

theorem record_payload {r : Record} (h : r.Sized) : record (payload r) = .ok r := by
  rw [record, payload, Compression.decode?_encode]
  simp only [Record.ofBinary, (Record.reads_of_sized h).run]

/-! ## The index -/

/-- The index leads from every key to the frame of its latest record. -/
def Indexes (index : List (String × Nat)) (rs : List Record) : Prop :=
  ∀ key, match (Memory.ofRecords rs).read key with
    | none => index.lookup key = none
    | some r => r.key = key ∧ ∃ before after, rs = before ++ r :: after ∧
        index.lookup key = some (journal (before.map payload)).length

theorem indexes_nil : Indexes [] [] := fun _ => rfl

theorem Indexes.concat {index : List (String × Nat)} {rs : List Record}
    (h : Indexes index rs) (r : Record) :
    Indexes (Assoc.set r.key (journal (rs.map payload)).length index) (rs ++ [r]) := by
  intro key
  rw [Memory.read_ofRecords_concat, Assoc.lookup_set]
  by_cases hkey : key == r.key
  · rw [if_pos hkey, if_pos hkey]
    exact ⟨(eq_of_beq hkey).symm, rs, [], rfl, rfl⟩
  · rw [if_neg hkey, if_neg hkey]
    have hbefore := h key
    split at hbefore
    · exact hbefore
    · obtain ⟨hsame, before, after, rfl, hlookup⟩ := hbefore
      exact ⟨hsame, before, after ++ [r], by simp, hlookup⟩

/-- A scan finds an index again. -/
theorem indexes_indexOf {rs : List Record} (h : ∀ r ∈ rs, r.Sized) :
    Indexes (indexOf (Frame.scanOf (rs.map payload))) rs := by
  induction hn : rs.length generalizing rs with
  | zero =>
    rw [List.length_eq_zero_iff.1 hn]
    exact indexes_nil
  | succ n ih =>
    obtain ⟨init, r, rfl⟩ : ∃ init r, rs = init ++ [r] :=
      ⟨_, _, (List.dropLast_concat_getLast (List.ne_nil_of_length_eq_add_one hn)).symm⟩
    have hinit : ∀ r ∈ init, r.Sized := fun x hx => h x (List.mem_append_left _ hx)
    have hlast : r.Sized := h r (List.mem_append_right _ List.mem_cons_self)
    have hrest := (ih hinit (by simpa using hn)).concat r
    rw [indexOf, Frame.scanOf_intact] at hrest ⊢
    -- The last frame is noted last, at the place where the others end.
    rw [List.map_append, List.map_singleton, Frame.tilesOf_append, List.foldl_append]
    simp only [Frame.tilesOf, List.foldl_cons, List.foldl_nil, note,
      record_payload hlast, Nat.zero_add]
    exact hrest

/-! ## The file -/

/-- The archive keeps the records: they are in the frames of its file, which is whole
if the archive takes records, and the index leads to the latest of them. -/
structure Keeps (a : Archive) (d : Disk) (rs : List Record) : Prop where
  kept : Kept d a.path a.file (rs.map payload) a.appendable
  length : a.length = (journal (rs.map payload)).length
  index : Indexes a.index rs
  sized : ∀ r ∈ rs, r.Sized

variable {a a' : Archive} {d d' : Disk} {rs : List Record}

theorem Keeps.read (h : a.Keeps d rs) (key : String) :
    a.read key d = .ok ((Memory.ofRecords rs).read key) := by
  have hindex := h.index key
  rw [Archive.read]
  cases hlatest : (Memory.ofRecords rs).read key with
  | none =>
    rw [hlatest] at hindex
    rw [show a.index.lookup key = none from hindex]
  | some r =>
    rw [hlatest] at hindex
    obtain ⟨hkey, before, after, hrs, hlookup⟩ := hindex
    obtain ⟨torn, hcontent, _, _⟩ := h.kept.content
    have hmem : r ∈ rs := hrs ▸ List.mem_append_right _ List.mem_cons_self
    have hlimit : (payload r).length < Frame.payloadLimit :=
      (h.kept.framed (payload r) (List.mem_map_of_mem hmem)).2
    have hdrop : (d.content a.file).drop (journal (before.map payload)).length =
        Frame.encode (payload r) ++ (journal (after.map payload) ++ torn) := by
      rw [hcontent, hrs, List.map_append, List.map_cons, Frame.drop_journal]
    have hdecode := Frame.decode_encode (payload r) [] hlimit
    rw [List.append_nil] at hdecode
    rw [hlookup]
    simp only [frameAt?_of_drop hlimit hdrop, hdecode, record_payload (h.sized r hmem),
      hkey, beq_self_eq_true, if_true]

/-- Nothing that leaves the file of the archive alone changes what it keeps. -/
theorem Keeps.of_same (h : a.Keeps d rs) (hd : d'.WellFormed)
    (hstat : d'.stat a.path = d.stat a.path)
    (hread : d'.read a.path = d.read a.path) : a.Keeps d' rs :=
  ⟨h.kept.of_same hd hstat hread, h.length, h.index, h.sized⟩

/-! ## Writing -/

theorem frame_eq (r : Record) :
    frame r =
      if (payload r).length < Frame.payloadLimit then .ok (Frame.encode (payload r))
      else .error (.unwritable (.longPayload (payload r).length)) := by
  by_cases h : (payload r).length < Frame.payloadLimit
  · rw [if_pos h, frame,
      show Frame.encode? (Compression.encode r.toBinary) = some _ from if_pos h]
    rfl
  · rw [if_neg h, frame,
      show Frame.encode? (Compression.encode r.toBinary) = none from if_neg h]
    rfl

theorem frame_eq_ok {r : Record} {bs : Bytes} (h : frame r = .ok bs) :
    (payload r).length < Frame.payloadLimit ∧ bs = Frame.encode (payload r) := by
  rw [frame_eq] at h
  split at h
  · next hlimit => exact ⟨hlimit, (Except.ok.inj h).symm⟩
  · cases h

/-- All that a write can do: the record is no record for a frame, the archive takes
nothing, the record is appended, or its frame could not be written and was taken back
or not. -/
theorem write_cases {r : Record} {x : Except Error Unit}
    (h : a.write r d = (x, a', d')) :
    (∃ e, frame r = .error e ∧ x = .error e ∧ a' = a ∧ d' = d) ∨
      ∃ bs, frame r = .ok bs ∧
        ((a.appendable = false ∧ x =
          .error (.unavailable (.partialFrame a.path.toText)) ∧ a' = a ∧ d' = d) ∨
          (a.appendable = true ∧ d.append a.file bs = (.ok (), d') ∧ x = .ok () ∧
            a' = { a with
              length := a.length + bs.length
              index := Assoc.set r.key a.length a.index }) ∨
          (a.appendable = true ∧ ∃ f d₁ back, d.append a.file bs = (.error f, d₁) ∧
            d₁.rollBack a.file a.length = (back, d') ∧ x = .error .disk ∧
            a' = { a with appendable := back })) := by
  rw [write] at h
  cases hframe : frame r with
  | error e =>
    rw [hframe] at h
    cases h
    exact .inl ⟨e, rfl, rfl, rfl, rfl⟩
  | ok bs =>
    rw [hframe] at h
    refine .inr ⟨bs, rfl, ?_⟩
    by_cases happendable : a.appendable = true
    · simp only at h
      rw [if_neg (by rw [happendable]; exact Bool.false_ne_true)] at h
      cases happend : d.append a.file bs with
      | mk y d₁ =>
        rw [happend] at h
        cases y with
        | ok u =>
          cases h
          exact .inr (.inl ⟨happendable, rfl, rfl, rfl⟩)
        | error f =>
          cases hback : d₁.rollBack a.file a.length with
          | mk back d₂ =>
            simp only [hback] at h
            cases h
            exact .inr (.inr ⟨happendable, f, d₁, back, rfl, hback, rfl, rfl⟩)
    · have hclosed : a.appendable = false := Bool.not_eq_true _ ▸ happendable
      simp only [hclosed, Bool.not_false, if_true] at h
      cases h
      exact .inl ⟨hclosed, rfl, rfl, rfl⟩

theorem Keeps.write_ok {r : Record} (h : a.Keeps d rs) (hsized : r.Sized)
    (hwrite : a.write r d = (.ok (), a', d')) : a'.Keeps d' (rs ++ [r]) := by
  rcases write_cases hwrite with ⟨e, _, hx, _⟩ | ⟨bs, hframe, hcases⟩
  · cases hx
  · rcases hcases with ⟨_, hx, _⟩ | ⟨happendable, happend, _, rfl⟩ |
      ⟨_, f, d₁, back, _, _, hx, _⟩
    · cases hx
    · obtain ⟨hlimit, rfl⟩ := frame_eq_ok hframe
      have hkept := happendable ▸ h.kept
      have hmap : (rs ++ [r]).map payload = rs.map payload ++ [payload r] := by
        rw [List.map_append, List.map_singleton]
      refine ⟨?_, ?_, ?_, ?_⟩
      · show Kept d' a.path a.file _ a.appendable
        rw [happendable, hmap]
        exact hkept.append_ok (payload_ne_nil r) hlimit happend
      · rw [hmap, Frame.journal_concat, List.length_append, ← h.length]
      · show Indexes (Assoc.set r.key a.length a.index) _
        rw [h.length]
        exact h.index.concat r
      · intro x hx
        rcases List.mem_append.1 hx with hx | hx
        · exact h.sized x hx
        · rw [List.mem_singleton.1 hx]
          exact hsized
    · cases hx

theorem Keeps.write_error {r : Record} {e : Error} (h : a.Keeps d rs)
    (htears : d.Tears a.file (Frame.encode (payload r)))
    (hwrite : a.write r d = (.error e, a', d')) : a'.Keeps d' rs := by
  rcases write_cases hwrite with ⟨_, _, _, rfl, rfl⟩ | ⟨bs, hframe, hcases⟩
  · exact h
  · rcases hcases with ⟨_, _, rfl, rfl⟩ | ⟨_, _, hx, _⟩ |
      ⟨happendable, f, d₁, back, happend, hback, _, rfl⟩
    · exact h
    · cases hx
    · obtain ⟨hlimit, rfl⟩ := frame_eq_ok hframe
      have hkept := happendable ▸ h.kept
      rw [h.length, ← hkept.content_eq, Disk.length_content] at hback
      exact ⟨hkept.append_error hlimit htears happend hback, h.length, h.index, h.sized⟩

/-- A record that is too long for a frame is refused, and nothing happens. -/
theorem write_of_long {r : Record} (h : ¬(payload r).length < Frame.payloadLimit)
    (a : Archive) (d : Disk) :
    a.write r d = (.error (.unwritable (.longPayload (payload r).length)), a, d) := by
  rw [write, frame_eq, if_neg h]

/-- A record that has room in a frame is taken if nothing is in the way, and nothing
is then. -/
theorem write_calm {r : Record} (h : (payload r).length < Frame.payloadLimit)
    (happendable : a.appendable = true) (hcalm : d.Calm) :
    ∃ a' d', a.write r d = (.ok (), a', d') ∧ a'.appendable = true ∧ d'.Calm := by
  obtain ⟨d', happend, hcalm'⟩ := hcalm.append a.file (Frame.encode (payload r))
  rw [write, frame_eq, if_pos h]
  simp only
  rw [if_neg (by rw [happendable]; exact Bool.false_ne_true), happend]
  exact ⟨_, d', rfl, happendable, hcalm'⟩

/-! ## Opening -/

theorem openAt_eq (p : Path) (d : Disk) :
    openAt p d = match Frame.opened p d with
      | (.error _, d) => (.error .disk, d)
      | (.ok (file, s), d) => (.ok ⟨p, file, s.validLength, indexOf s, true⟩, d) := by
  rw [openAt, Frame.opened]
  cases d.makeDirectories p.parent with
  | mk r d =>
    cases r with
    | error f => rfl
    | ok u =>
      simp only
      cases d.openOrCreate p with
      | mk r d =>
        cases r with
        | error f => rfl
        | ok file =>
          simp only
          split
          · cases d.truncate file (Frame.scan (d.content file)).validLength with
            | mk r d => cases r <;> rfl
          · rfl

/-- An archive takes records when it was just opened. -/
theorem appendable_of_openAt {p : Path} {x : Archive}
    (hopen : Archive.openAt p d = (.ok x, d')) : x.appendable = true := by
  rw [openAt_eq] at hopen
  split at hopen
  · cases hopen
  · cases hopen
    rfl

/-- An archive that is opened again keeps what it kept. -/
theorem Keeps.openAt {x : Archive} (h : a.Keeps d rs)
    (hopen : Archive.openAt a.path d = (.ok x, d')) :
    x.path = a.path ∧ x.Keeps d' rs := by
  rw [openAt_eq] at hopen
  split at hopen
  · cases hopen
  · next file s d₁ ho =>
    obtain ⟨rfl, rfl, hkept⟩ := h.kept.opened ho
    cases hopen
    exact ⟨rfl, hkept, Frame.scanOf_validLength _, indexes_indexOf h.sized, h.sized⟩

theorem Keeps.openAt_calm (h : a.Keeps d rs) (hcalm : d.Calm)
    (hsize : d.size a.file < Disk.sizeLimit) :
    ∃ x d', Archive.openAt a.path d = (.ok x, d') ∧ d'.Calm := by
  obtain ⟨d', hopen, hcalm'⟩ := h.kept.opened_calm hcalm hsize
  rw [openAt_eq, hopen]
  exact ⟨_, d', rfl, hcalm'⟩

/-- Where there is nothing yet, or an empty file, an archive is opened that keeps
nothing. -/
theorem openAt_vacant {p : Path} {x : Archive} (hd : d.WellFormed)
    (hvacant : Frame.Vacant d p) (hopen : Archive.openAt p d = (.ok x, d')) :
    x.path = p ∧ x.Keeps d' [] := by
  rw [openAt_eq] at hopen
  split at hopen
  · cases hopen
  · next file s d₁ ho =>
    obtain ⟨rfl, hkept⟩ := Frame.opened_vacant hd hvacant ho
    cases hopen
    exact ⟨rfl, hkept, Frame.scanOf_validLength _, indexes_nil,
      fun r hr => (List.not_mem_nil hr).elim⟩

end Chronicle.Medium.Archive
