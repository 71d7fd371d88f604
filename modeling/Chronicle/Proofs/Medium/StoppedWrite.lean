import Chronicle.Proofs.Medium.FileCourse

/-!
# A write that stops

A write to a directory of records can stop at each of its changes: before the
directory of the key is made or after it, with any part of the bytes in the file
beside, or just before that file gets its name. What it leaves is opened again, and
every key reads what it read before. Only with the name in place the key of the
record reads what it reads after the completed write.

* `Wrote.same_files`: acknowledged writes of one record leave the same files,
  whatever the plans of the disks were.
* `stopped_write_is_read_in_full_or_not_at_all`: what is read and which names are
  used after a write that stops.
-/

namespace Chronicle.Medium.Files

variable {format : Format} {root place : Path} {f f' f₀ f₁ g : Files}
    {d d' d₀ d₁ e : Disk} {rs rs₀ : List Record}
  {past : List Disk} {r : Record}

theorem Wrote.same_files (h : Wrote f place r d (.done ()) f' d')
    (h₁ : Wrote f place r e (.done ()) f₁ d₁) (hsame : ∀ q, e.item? q = d.item? q)
    (dir name : String) (hext : Path.extension? name = some f.format.extension) :
    d'.item? (place ++ [dir] ++ [name]) = d₁.item? (place ++ [dir] ++ [name]) := by
  by_cases hnew : dir = keyName r.key ∧
    name = fileName r.stamp (f.sequence + 1) f.format.extension
  · obtain ⟨rfl, rfl⟩ := hnew
    obtain ⟨_, _, _, bs, hencode, hitem⟩ := h.done rfl
    obtain ⟨_, _, _, bs₁, hencode₁, hitem₁⟩ := h₁.done rfl
    rw [hencode] at hencode₁
    cases hencode₁
    rw [hitem, hitem₁]
  · rw [h.same dir name hext fun hall => hnew hall.2,
      h₁.same dir name hext fun hall => hnew hall.2, hsame]

/-- After a write every key reads what it read before, unless the write is
acknowledged and the key has the directory of its record. -/
theorem Tidy.read_of_wrote {rs' : List Record} {a : Answer Unit}
    (h : Tidy f.format f.root place d rs) (hw : Wrote f place r e a f' d')
    (hsame : ∀ q, e.item? q = d.item? q) (h' : Tidy g.format g.root place d' rs')
    (hformat : g.format = f.format) {key : String}
    (hkey : ¬(a = .done () ∧ keyName key = keyName r.key)) :
    g.read key d' = f.read key d := by
  refine h.read_congr h' hformat fun name hext => ?_
  rw [hw.same _ name hext fun hall => hkey ⟨hall.1, hall.2.1⟩, hsame]

/-- After a write that is acknowledged every key reads what it reads after the same
write with nothing in the way. -/
theorem Tidy.read_of_done {rs' : List Record} (h : Tidy f.format f.root place d rs)
    (hw : Wrote f place r e (.done ()) f' d') (hsame : ∀ q, e.item? q = d.item? q)
    (h' : Tidy g.format g.root place d' rs') (hformat : g.format = f.format) :
    ∃ f₁ d₁, f.write r { d with plan := [], limit := none } = (.done (), f₁, d₁) ∧
      ∀ key, g.read key d' = f₁.read key d₁ := by
  obtain ⟨hnumber, _, _, bs, hencode, _⟩ := hw.done rfl
  have hcalm := h.ground.planned [] none
  obtain ⟨f₁, d₁, hwrite, _⟩ := hcalm.write_calm hencode hnumber ⟨rfl, rfl⟩
  have hw₁ := hcalm.write hwrite
  have htidy₁ := (h.planned [] none).write hw₁
  rw [← hw₁.root, ← hw₁.format] at htidy₁
  refine ⟨f₁, d₁, hwrite, fun key =>
    htidy₁.read_congr h' (hformat.trans hw₁.format.symm) fun name hext => ?_⟩
  rw [hw₁.format] at hext
  exact hw.same_files hw₁ (fun q => (hsame q).symm) _ name hext

/-- What is read after a write of a record, when the directory with these records is
opened again. -/
structure ReadsWhole (f : Files) (d : Disk) (rs : List Record) (r : Record)
    (a : Answer Unit) (g : Files) (d' : Disk) : Prop where
  /-- Reading never fails and gives only whole records that were written. -/
  whole : ∀ key, ∃ o, g.read key d' = .ok o ∧ ∀ x, o = some x → x ∈ rs ∨
    (a = .done () ∧ x = r)
  /-- Every key reads what it read before the write, unless the write was
  acknowledged and the key is that of its record, or one with the hash of it. -/
  others : ∀ key, ¬(a = .done () ∧ keyName key = keyName r.key) →
    g.read key d' = f.read key d
  /-- After an acknowledged write all keys read what they read after the write with
  nothing in the way. -/
  completed : a = .done () →
    ∃ f₁ d₁, f.write r { d with plan := [], limit := none } = (.done (), f₁, d₁) ∧
    ∀ key, g.read key d' = f₁.read key d₁

/-- While there are running numbers, later writes use names that no file has had on
any disk before or since. -/
def NamesStayNew (format : Format) (root : Path) (past : List Disk) (g : Files)
    (d : Disk) : Prop :=
  ∀ g' e qs since, Course true g d g' e qs since → g'.sequence.toNat + 1 < UInt64.size →
    ∀ x ∈ past ++ since, ∀ dir t,
      x.item? (root.place ++ [dir] ++ [fileName t (g'.sequence + 1) format.extension]) =
        none

/-- What a write leaves that stops anywhere, over whatever earlier writes have left,
is opened again. Then its record is read in full or not at all, and all names are
new. The write can stop with any part of its bytes in the file beside. -/
theorem stopped_write_is_read_in_full_or_not_at_all (h : Run format root f₀ d₀ rs₀)
    (hcourse : Course false f₀ d₀ f d rs past) (r : Record) :
    (∀ plan limit a f' d', f.write r { d with plan := plan, limit := limit } =
        (a, f', d') →
      ∃ g, openAt format root d' = (.ok g, d') ∧ ReadsWhole f d (rs₀ ++ rs) r a g d' ∧
        NamesStayNew format root past g d') ∧
      ∀ bs k, format.encode r = .ok bs → f.sequence.toNat + 1 < UInt64.size →
        ∃ plan f' d', f.write r { d with plan := plan, limit := none } =
          (.failed .disk, f', d') ∧
          d'.item? (root.place ++ [keyName r.key] ++
            [fileName r.stamp (f.sequence + 1) "tmp"]) = some (.file (bs.take k)) := by
  obtain ⟨place, log, hkeeps, rfl, rfl, rfl⟩ := h.keeps
  have hplace := (Disk.find_place hkeeps.root).1
  obtain ⟨hroot, hformat, htidy⟩ := hcourse.tidy hkeeps.tidy
  rw [← hroot, ← hformat] at htidy
  refine ⟨?_, ?_⟩
  · intro plan limit a f' d' hwrite
    have hplanned := htidy.ground.planned plan limit
    have hw := hplanned.write hwrite
    -- The disk with the mishaps and the disk that the write leaves are part of the
    -- course.
    have hturn := hcourse.turn hplanned.sound
      (hplanned.root.trans htidy.ground.root.symm) fun _ _ _ _ => rfl
    have hstop := hturn.write hwrite (by simp)
    obtain ⟨_, _, htidy'⟩ := hstop.tidy hkeeps.tidy
    obtain ⟨g, hopen, hroot', hformat', hcounts⟩ := htidy'.openAt
    rw [← hroot', ← hformat'] at htidy'
    have hsame : g.format = f.format := hformat'.trans hformat.symm
    refine ⟨g, hopen, ⟨fun key => ?_,
      fun key => htidy.read_of_wrote hw (fun _ => rfl) htidy' hsame, ?_⟩, ?_⟩
    · obtain ⟨o, hread, _, hwritten⟩ := htidy'.read key
      refine ⟨o, hread, fun x hx => ?_⟩
      have hmem := hwritten x hx
      split at hmem
      · next hdone =>
        rw [← List.append_assoc] at hmem
        exact (List.mem_append.1 hmem).imp_right fun hr =>
          ⟨hdone, List.mem_singleton.1 hr⟩
      · exact .inl hmem
    · rintro rfl
      exact htidy.read_of_done hw (fun _ => rfl) htidy' hsame
    · intro g' e qs since hlater hnumber x hx
      rw [← hformat', ← hplace]
      refine hlater.fresh htidy' hcounts hnumber ?_
      rcases List.mem_append.1 hx with hx | hx
      · right
        rw [hformat']
        exact hstop.names_stay hkeeps.tidy x
          (List.mem_append_left _ (List.mem_append_left _ hx))
      · exact .inl hx
  · intro bs k hencode hnumber
    rw [← hformat] at hencode
    rw [← hplace]
    exact htidy.ground.write_stopped hencode hnumber k

/-- A second record of a key: stopped after five bytes it is not read, and completed
it is. -/
theorem stopped_write_is_read_in_full_or_not_at_all_fiveBytes :
    ∃ f d, Run .document ["r"] f d [note 1 1] ∧
      (∃ plan f' d' g, f.write (note 2 2) { d with plan := plan, limit := none } =
        (.failed .disk, f', d') ∧
        d'.item? (["r"] ++ [keyName "k"] ++ [fileName ⟨2, 0⟩ (f.sequence + 1) "tmp"]) =
          some (.file ((note 2 2).toDocument.take 5)) ∧
        openAt .document ["r"] d' = (.ok g, d') ∧
        g.read "k" d' = .ok (some (note 1 1))) ∧
      ∃ f' d' g, f.write (note 2 2) { d with plan := [], limit := none } =
        (.done (), f', d') ∧
        openAt .document ["r"] d' = (.ok g, d') ∧
        g.read "k" d' = .ok (some (note 2 2)) := by
  obtain ⟨f, d, hrun, _, hsequence⟩ :=
    @exists_run .document [note 1 1] (by simp [exists_encode_note]) (by decide)
  have hnumber : f.sequence.toNat + 1 < UInt64.size := by
    rw [hsequence]
    decide
  obtain ⟨place, log, hkeeps, _, hroot, hformat⟩ := hrun.keeps
  have hencode : Format.document.encode (note 2 2) = .ok (note 2 2).toDocument := rfl
  have hbefore : f.read "k" d = .ok (some (note 1 1)) :=
    (hrun.read "k" (by simp [note])).trans (congrArg Except.ok (by decide))
  obtain ⟨hstopped, hreached⟩ :=
    stopped_write_is_read_in_full_or_not_at_all hrun .here (note 2 2)
  refine ⟨f, d, hrun, ?_, ?_⟩
  · obtain ⟨plan, f', d', hwrite, hitem⟩ := hreached _ 5 hencode hnumber
    obtain ⟨g, hopen, hwhole, _⟩ := hstopped _ _ _ _ _ hwrite
    exact ⟨plan, f', d', g, hwrite, hitem, hopen,
      (hwhole.others "k" (by simp)).trans hbefore⟩
  · have hplanned := hkeeps.ground.planned [] none
    obtain ⟨f', d', hwrite, _⟩ :=
      hplanned.write_calm (by rw [hformat]; exact hencode) hnumber ⟨rfl, rfl⟩
    obtain ⟨g, hopen, hwhole, _⟩ := hstopped _ _ _ _ _ hwrite
    obtain ⟨f₁, d₁, hwrite₁, hread⟩ := hwhole.completed rfl
    rw [hwrite] at hwrite₁
    cases hwrite₁
    rw [hroot] at hplanned
    have hturn := hrun.turn hplanned.sound
      (hplanned.root.trans (hroot ▸ hkeeps.root.symm)) fun _ _ _ _ => rfl
    have hafter := (hturn.write hwrite (by simp)).read "k" (by simp [note])
    exact ⟨f', d', g, hwrite, hopen,
      (hread "k").trans (hafter.trans (congrArg Except.ok (by decide)))⟩

end Chronicle.Medium.Files
