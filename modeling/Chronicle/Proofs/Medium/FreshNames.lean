import Chronicle.Proofs.Medium.FileCourse

/-!
# No name is used twice

Over a directory with records, whoever left them, further records are written and the
directory is opened again. Every write gives its file a name that no file has had on
any disk on the way, so no record is overwritten, and a key reads the greatest of its
records by timestamp and then by the order of the writes.

* `Greatest`: the greatest record of a key among those written, in the order in which
  they were written.
* `greatest_newest?`: the newest record of a key is the greatest one.
* `names_are_new_and_greatest_record_is_read`: both, for every course.
-/

namespace Chronicle.Medium.Files

/-- Of all records, in the order of the writes, this one is the greatest of its key:
no record of the key before it has a later timestamp, and those after it have earlier
ones. There is none if the key has no records. -/
def Greatest (key : String) (rs : List Record) : Option Record → Prop
  | none => ∀ x ∈ rs, x.key ≠ key
  | some r => r.key = key ∧ ∃ before after, rs = before ++ r :: after ∧
    (∀ x ∈ before, x.key = key → ¬r.stamp < x.stamp) ∧ ∀ x ∈ after, x.key = key →
    x.stamp < r.stamp

theorem greatest_newest? (key : String) (rs : List Record) :
    Greatest key rs (newest? (rs.filter (·.key == key))) := by
  cases hnewest : newest? (rs.filter (·.key == key)) with
  | none =>
    intro x hx hkey
    exact List.filter_eq_nil_iff.1 (newest?_eq_none hnewest) x hx (beq_iff_eq.2 hkey)
  | some r =>
    obtain ⟨before, after, hsplit, hbefore, hafter⟩ := newest?_eq_some hnewest
    -- The records of other keys stand anywhere between those of this one.
    obtain ⟨first, rest, rfl, rfl, hrest⟩ := List.filter_eq_append_iff.1 hsplit
    obtain ⟨others, last, rfl, hothers, hkey, rfl⟩ := List.filter_eq_cons_iff.1 hrest
    refine ⟨eq_of_beq hkey, first ++ others, last, by simp, fun x hx hxkey => ?_,
      fun x hx hxkey => ?_⟩
    · rcases List.mem_append.1 hx with hx | hx
      · exact hbefore x (List.mem_filter.2 ⟨hx, beq_iff_eq.2 hxkey⟩)
      · exact absurd (beq_iff_eq.2 hxkey) (hothers x hx)
    · exact hafter x (List.mem_filter.2 ⟨hx, beq_iff_eq.2 hxkey⟩)

variable {format : Format} {root : Path} {f f₀ : Files} {d d₀ : Disk}
    {rs rs₀ : List Record} {past : List Disk}

/-- A write gives its file a name that no file has had on any of the disks. If it is
acknowledged its record is there in full, and no other file changes. -/
structure WritesAnew (format : Format) (place : List String) (past : List Disk)
    (d : Disk) (r : Record) (number : UInt64) (a : Answer Unit) (d' : Disk) : Prop where
  fresh : ∀ x ∈ past, ∀ dir t,
    x.item? (place ++ [dir] ++ [fileName t number format.extension]) = none
  taken : a = .done () → ∃ bs, format.encode r = .ok bs ∧
    d'.item? (place ++ [keyName r.key] ++ [fileName r.stamp number format.extension]) =
      some (.file bs)
  others : ∀ dir name, Path.extension? name = some format.extension →
    ¬(a = .done () ∧ dir = keyName r.key ∧
      name = fileName r.stamp number format.extension) →
    d'.item? (place ++ [dir] ++ [name]) = d.item? (place ++ [dir] ++ [name])

/-- What becomes of a directory with these records, after the disks that it has been
on. -/
structure KeepsAll (format : Format) (root : Path) (past : List Disk) (f : Files)
    (d : Disk) (rs : List Record) : Prop where
  /-- No file of a record ever changes. -/
  stay : ∀ x ∈ past, FilesStay format root.place x d
  write : ∀ r a f' d', f.write r d = (a, f', d') → f.sequence.toNat + 1 < UInt64.size →
    WritesAnew format root.place past d r (f.sequence + 1) a d'
  /-- A key whose hash no other key has reads its greatest record, also after the
  directory is opened again. -/
  read : ∀ key, (∀ r ∈ rs,
      Hash.Domain.key.hash (Bytes.ofText r.key) =
        Hash.Domain.key.hash (Bytes.ofText key) → r.key = key) →
    ∃ o, Greatest key rs o ∧ f.read key d = .ok o ∧
      ∃ f', openAt format root d = (.ok f', d) ∧ f'.read key d = .ok o
  /-- With nothing in the way every record that has a file is taken. -/
  calm : ∀ r bs, format.encode r = .ok bs →
    f.sequence.toNat + 1 < UInt64.size → d.Calm →
    ∃ f' d', f.write r d = (.done (), f', d') ∧ d'.Calm

/-- Over a directory with the records of earlier writes more are written, and it is
opened again, while there are running numbers. Then every name is new, no file of a
record changes, and the greatest record of a key is read. -/
theorem names_are_new_and_greatest_record_is_read (h : Run format root f₀ d₀ rs₀)
    (hcourse : Course true f₀ d₀ f d rs past) :
    KeepsAll format root past f d (rs₀ ++ rs) := by
  have hrun := hcourse.run h
  obtain ⟨place, log, hkeeps, _, rfl, rfl⟩ := h.keeps
  have hplace := (Disk.find_place hkeeps.root).1
  obtain ⟨hroot, hformat, htidy⟩ := hcourse.tidy hkeeps.tidy
  rw [← hroot, ← hformat] at htidy
  refine ⟨?_, ?_, ?_, ?_⟩
  · rw [← hplace]
    exact hcourse.files_stay hkeeps.tidy hkeeps.counts
  · intro r a f' d' hwrite hnumber
    have hw := htidy.ground.write hwrite
    rw [← hplace]
    refine ⟨fun x hx => hcourse.fresh hkeeps.tidy hkeeps.counts hnumber (.inl hx),
      fun ha => ?_, ?_⟩
    · obtain ⟨_, _, _, hfile⟩ := hw.done ha
      rw [← hformat]
      exact hfile
    · rw [← hformat]
      exact hw.same
  · intro key hdistinct
    have hread := hrun.read key hdistinct
    obtain ⟨_, hopen, _⟩ := htidy.openAt
    rw [hroot, hformat] at hopen
    exact ⟨_, greatest_newest? key _, hread, _, hopen,
      (hrun.reopen hopen).read key hdistinct⟩
  · intro r bs hencode hnumber hcalm
    rw [← hformat] at hencode
    obtain ⟨f', d', hwrite, hcalm', _⟩ := htidy.ground.write_calm hencode hnumber hcalm
    exact ⟨f', d', hwrite, hcalm'⟩

/-- Two records with one timestamp, and over them an earlier one: the second is read,
and a fourth gets a new name. -/
theorem names_are_new_and_greatest_record_is_read_sameStamp :
    ∃ f₀ d₀ f d past, Run .glyph ["r"] f₀ d₀ [note 1 5, note 2 5] ∧
      Course true f₀ d₀ f d [note 3 4] past ∧
      Greatest "k" [note 1 5, note 2 5, note 3 4] (some (note 2 5)) ∧
      f.read "k" d = .ok (some (note 2 5)) ∧
      (∃ f' d', f.write (note 4 5) d = (.done (), f', d')) ∧
      ∀ x ∈ past, ∀ dir, x.item?
        (["r"] ++ [dir] ++ [fileName ⟨5, 0⟩ (f.sequence + 1) "pgm"]) = none := by
  obtain ⟨f₀, d₀, hrun, hcalm, hsequence⟩ :=
    @exists_run .glyph [note 1 5, note 2 5] (by simp [exists_encode_note])
    (by decide)
  obtain ⟨place, log, hkeeps, _, _, hformat⟩ := hrun.keeps
  obtain ⟨bs, hbs⟩ := exists_encode_note .glyph 3 4
  obtain ⟨bs', hbs'⟩ := exists_encode_note .glyph 4 5
  have hsize : UInt64.size = 18446744073709551616 := rfl
  simp only [List.length_cons, List.length_nil] at hsequence
  obtain ⟨f, d, hwrite, hcalm', hnext⟩ :=
    hkeeps.ground.write_calm (by rw [hformat]; exact hbs) (by omega) hcalm
  have hcourse := (@Course.here true f₀ d₀).write hwrite (by simp)
  rw [if_pos rfl] at hcourse
  have hkept := names_are_new_and_greatest_record_is_read hrun hcourse
  obtain ⟨o, hgreatest, hserved, _⟩ := hkept.read "k" (by simp [note])
  have hnewest : newest? ([note 1 5, note 2 5, note 3 4].filter (·.key == "k")) =
      some (note 2 5) := by decide
  have hserved' : f.read "k" d = .ok (some (note 2 5)) :=
    ((hcourse.run hrun).read "k" (by simp [note])).trans (congrArg _ hnewest)
  rw [hserved] at hserved'
  cases hserved'
  obtain ⟨f', d', hwrite', _⟩ := hkept.calm (note 4 5) bs' hbs' (by omega) hcalm'
  exact ⟨f₀, d₀, f, d, _, hrun, hcourse, hgreatest, hserved, ⟨f', d', hwrite'⟩,
    fun x hx dir => (hkept.write _ _ _ _ hwrite' (by omega)).fresh x hx dir ⟨5, 0⟩⟩

end Chronicle.Medium.Files
