import Chronicle.Proofs.Disk.Reopen
import Chronicle.Proofs.Frame.Scan

/-!
# Journals on disk

A file holds the frames that were appended to it. After the last one there may be
part of a frame that a write left behind and nobody could take back, as long as
nobody opens the file again: then it is cut off.

* `Kept`: the payloads that a file keeps.
* `Kept.append_ok`, `Kept.append_error`: what an append does to them.
* `opened_ok`: what opening a file does to it, whatever it holds.
* `Kept.opened`, `opened_vacant`: what is found when a file is opened.
-/

namespace Chronicle

/-- What a write that fails may leave in a file: it can be taken back, or it is less
than all that was to be written. -/
def Disk.Tears (d : Disk) (id : Nat) (bs : Bytes) : Prop :=
  ∀ f d', d.append id bs = (.error f, d') →
    (d'.rollBack id (d.size id)).1 = true ∨ d'.size id < d.size id + bs.length

theorem Disk.Calm.tears {d : Disk} (h : d.Calm) (id : Nat) (bs : Bytes) :
    d.Tears id bs := by
  intro f d' happend
  obtain ⟨_, hok, _⟩ := h.append id bs
  rw [happend] at hok
  cases hok

namespace Frame

/-- The file at the path has a frame for each payload. What follows the last frame is
less than a frame, and nothing if the file is whole. -/
structure Kept (d : Disk) (p : Path) (id : Nat) (ps : List Bytes)
    (whole : Bool) : Prop where
  wellFormed : d.WellFormed
  stat : d.stat p = .ok (.file id)
  framed : Framed ps
  content : ∃ torn, d.content id = journal ps ++ torn ∧ Torn torn ∧
    (whole = true → torn = [])

variable {d d' : Disk} {p : Path} {id : Nat} {ps : List Bytes} {whole : Bool}

theorem Kept.content_eq (h : Kept d p id ps true) : d.content id = journal ps := by
  obtain ⟨torn, hcontent, _, hnone⟩ := h.content
  rw [hcontent, hnone rfl, List.append_nil]

theorem Kept.present (h : Kept d p id ps whole) : id < d.contents.length :=
  h.wellFormed.lt_of_stat h.stat

theorem Kept.scan (h : Kept d p id ps whole) :
    Frame.scan (d.content id) = scanOf ps := by
  obtain ⟨torn, hcontent, htorn, _⟩ := h.content
  rw [hcontent, scan_journal h.framed htorn]

/-- Nothing that leaves the file alone changes what it keeps. -/
theorem Kept.of_same (h : Kept d p id ps whole) (hd : d'.WellFormed)
    (hstat : d'.stat p = d.stat p) (hread : d'.read p = d.read p) :
    Kept d' p id ps whole := by
  have hstat' := hstat.trans h.stat
  rw [Disk.read_of_stat hstat', Disk.read_of_stat h.stat] at hread
  obtain ⟨torn, hcontent⟩ := h.content
  exact ⟨hd, hstat', h.framed, torn, Except.ok.inj hread ▸ hcontent⟩

/-! ## Appending -/

theorem Kept.append_ok {q : Bytes} (h : Kept d p id ps true) (hne : q ≠ [])
    (hlimit : q.length < payloadLimit)
    (happend : d.append id (encode q) = (.ok (), d')) :
    Kept d' p id (ps ++ [q]) true := by
  obtain ⟨htree, written, hcontent, _, hall⟩ := Disk.append_spec h.present happend
  refine ⟨h.wellFormed.of_sameTree htree, (htree.stat p).trans h.stat,
    h.framed.concat hne hlimit, [], ?_, torn_nil, fun _ => rfl⟩
  rw [hcontent, h.content_eq, hall rfl, journal_concat, List.append_nil]

theorem Kept.append_error {q : Bytes} {f : Disk.Fault} {d₁ : Disk} {back : Bool}
    (h : Kept d p id ps true) (hlimit : q.length < payloadLimit)
    (htears : d.Tears id (encode q)) (happend : d.append id (encode q) = (.error f, d₁))
    (hback : d₁.rollBack id (d.size id) = (back, d')) : Kept d' p id ps back := by
  obtain ⟨htree, written, hcontent, hprefix, hnone, hleft⟩ :=
    Disk.takeBack_spec h.present happend hback
  refine ⟨h.wellFormed.of_sameTree htree, (htree.stat p).trans h.stat, h.framed,
    written, ?_, ?_, hnone⟩
  · rw [hcontent, h.content_eq]
  · cases back with
    | true =>
      rw [hnone rfl]
      exact torn_nil
    | false =>
      -- What could not be taken back is less than the frame.
      refine ⟨q, hlimit, hprefix, ?_⟩
      rcases htears f d₁ happend with htaken | hless
      · rw [hback] at htaken
        cases htaken
      · rw [hleft rfl] at hless
        omega

/-! ## Opening -/

/-- Opens the file at a path, finds its frames, and cuts off what follows them. -/
def opened (p : Path) (d : Disk) : Except Disk.Fault (Nat × Scan) × Disk :=
  match d.makeDirectories p.parent with
  | (.error f, d) => (.error f, d)
  | (.ok (), d) =>
    match d.openOrCreate p with
    | (.error f, d) => (.error f, d)
    | (.ok id, d) =>
      let s := Frame.scan (d.content id)
      if s.validLength < (d.content id).length then
        match d.truncate id s.validLength with
        | (.error f, d) => (.error f, d)
        | (.ok (), d) => (.ok (id, s), d)
      else (.ok (id, s), d)

/-- What opening a file that is there does. -/
theorem opened_of_stat {s : Scan} (hstat : d.stat p = .ok (.file id))
    (hscan : Frame.scan (d.content id) = s) :
    opened p d =
      if s.validLength < d.size id then
        match d.truncate id s.validLength with
        | (.error f, d) => (.error f, d)
        | (.ok (), d) => (.ok (id, s), d)
      else (.ok (id, s), d) := by
  obtain ⟨hmake, hfile⟩ := Disk.reopen_of_stat hstat
  rw [opened, hmake]
  simp only [hfile, hscan, Disk.length_content]

/-- The file keeps its frames, and loses what follows them. -/
theorem opened_ok {id' : Nat} {s : Scan} (hd : d.WellFormed)
    (hstat : d.stat p = .ok (.file id)) (hopen : opened p d = (.ok (id', s), d')) :
    id' = id ∧ s = Frame.scan (d.content id) ∧ d'.WellFormed ∧
      d'.stat p = .ok (.file id) ∧
      d'.content id = (d.content id).take s.validLength := by
  have hbound := (scan_recovers (d.content id)).bounded.2
  rw [Disk.length_content] at hbound
  rw [opened_of_stat hstat rfl] at hopen
  split at hopen
  · cases ht : d.truncate id (Frame.scan (d.content id)).validLength with
    | mk r d₁ =>
      rw [ht] at hopen
      cases r with
      | error f => cases hopen
      | ok u =>
        cases hopen
        obtain ⟨htree, hcut⟩ := Disk.truncate_ok (hd.lt_of_stat hstat) hbound ht
        exact ⟨rfl, rfl, hd.of_sameTree htree, (htree.stat p).trans hstat, hcut⟩
  · next hall =>
    cases hopen
    refine ⟨rfl, rfl, hd, hstat, ?_⟩
    rw [List.take_of_length_le (by rw [Disk.length_content]; omega)]

/-- Nothing happens to a file that ends with its last frame. -/
theorem opened_settled {s : Scan} (hstat : d.stat p = .ok (.file id))
    (hscan : Frame.scan (d.content id) = s) (hall : d.size id = s.validLength) :
    opened p d = (.ok (id, s), d) := by
  rw [opened_of_stat hstat hscan, hall, if_neg (Nat.lt_irrefl _)]

/-- A file can be opened if nothing is in the way. -/
theorem opened_calm (hstat : d.stat p = .ok (.file id)) (hcalm : d.Calm)
    (hsize : d.size id < Disk.sizeLimit) :
    ∃ d', opened p d = (.ok (id, Frame.scan (d.content id)), d') ∧ d'.Calm := by
  rw [opened_of_stat hstat rfl]
  split
  · next hless =>
    obtain ⟨d', hcut, hcalm'⟩ := hcalm.truncate id (Nat.lt_trans hless hsize)
    rw [hcut]
    exact ⟨d', rfl, hcalm'⟩
  · exact ⟨d, rfl, hcalm⟩

/-- A file that is opened again keeps what it kept, and is whole. -/
theorem Kept.opened {id' : Nat} {s : Scan} (h : Kept d p id ps whole)
    (hopen : Frame.opened p d = (.ok (id', s), d')) :
    id' = id ∧ s = scanOf ps ∧ Kept d' p id ps true := by
  obtain ⟨rfl, rfl, hd', hstat, hcut⟩ := opened_ok h.wellFormed h.stat hopen
  obtain ⟨torn, hcontent, _⟩ := h.content
  refine ⟨rfl, h.scan, hd', hstat, h.framed, [], ?_, torn_nil, fun _ => rfl⟩
  rw [hcut, h.scan, scanOf_validLength, hcontent, List.take_left, List.append_nil]

/-- A file that is whole is opened again as it is. -/
theorem Kept.opened_whole (h : Kept d p id ps true) :
    Frame.opened p d = (.ok (id, scanOf ps), d) := by
  apply opened_settled h.stat h.scan
  rw [Disk.size_eq, h.content_eq, scanOf_validLength]

/-- A file can be opened again if nothing is in the way. -/
theorem Kept.opened_calm (h : Kept d p id ps whole) (hcalm : d.Calm)
    (hsize : d.size id < Disk.sizeLimit) :
    ∃ d', Frame.opened p d = (.ok (id, scanOf ps), d') ∧ d'.Calm := by
  rw [← h.scan]
  exact Frame.opened_calm h.stat hcalm hsize

/-- Once the directories above it are there, there is nothing at the path, or an
empty file. -/
def Vacant (d : Disk) (p : Path) : Prop :=
  ∀ bs, (d.makeDirectories p.parent).2.read p = .ok bs → bs = []

/-- A file that is opened where nothing was is empty. -/
theorem Vacant.opened {d₁ : Disk} (hd : d.WellFormed) (hvacant : Vacant d p)
    (hmake : d.makeDirectories p.parent = (.ok (), d₁))
    (hfile : d₁.openOrCreate p = (.ok id, d')) :
    d'.WellFormed ∧ d'.stat p = .ok (.file id) ∧ d'.content id = [] := by
  rw [Vacant, hmake] at hvacant
  obtain ⟨hd', hstat, hcontent⟩ := Disk.openOrCreate_ok (hd.makeDirectories hmake) hfile
  refine ⟨hd', hstat, ?_⟩
  rcases hcontent with ⟨hthere, rfl⟩ | ⟨_, hnew⟩
  · exact hvacant _ (Disk.read_of_stat hthere)
  · exact hnew

/-- Where nothing was, a file is opened that keeps nothing. -/
theorem opened_vacant {s : Scan} (hd : d.WellFormed) (hvacant : Vacant d p)
    (hopen : opened p d = (.ok (id, s), d')) :
    s = scanOf [] ∧ Kept d' p id [] true := by
  rw [opened] at hopen
  cases hmake : d.makeDirectories p.parent with
  | mk r d₁ =>
    rw [hmake] at hopen
    cases r with
    | error f => cases hopen
    | ok u =>
      cases hfile : d₁.openOrCreate p with
      | mk r d₂ =>
        simp only [hfile] at hopen
        cases r with
        | error f => cases hopen
        | ok id' =>
          obtain ⟨hd₂, hstat, hnone⟩ := hvacant.opened hd hmake hfile
          have hscan : Frame.scan [] = scanOf [] := scan_journal framed_nil torn_nil
          simp only [hnone, hscan] at hopen
          cases hopen
          exact ⟨rfl, hd₂, hstat, framed_nil, [], hnone, torn_nil, fun _ => rfl⟩

end Frame

end Chronicle
