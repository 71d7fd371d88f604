import Chronicle.Proofs.Disk.Atomic

/-!
# Changes in one part of the tree

Whoever works on a disk with others has to know what they leave alone. A path leads
to one place only, whatever is on the disk, so it is known beforehand where a call
can change anything.

* `Path.place`: the place that a path leads to.
* `Within`: two disks differ in one part of the tree at most.
* `Within.find`, `Within.stat`: what is outside of that part is found as before.
* `SameOn`: nothing in a part of the tree tells two disks apart.
* `openOrCreate_within`, `makeDirectories_within`, `writeAtomic_within`: where calls
  change something.
-/

namespace Chronicle

/-- The place that a path leads to, if it leads anywhere. -/
def Path.place (p : Path) : Path := p.foldl Path.step []

theorem Path.place_concat (p : Path) (name : String) :
    (p ++ [name]).place = Path.step p.place name := by
  rw [place, List.foldl_append]
  rfl

theorem Path.Own.place_concat {name : String} (h : Path.Own name) (p : Path) :
    Path.place (p ++ [name]) = p.place ++ [name] := by
  rw [Path.place_concat, h.step]

namespace Disk

variable {d d' d'' : Disk} {T U : Path → Prop} {p q : Path} {id : Nat} {e : Entry}

theorem place_of_walk {here : Path} {names : List String}
    (h : d.walk here names = .ok (q, e)) :
    q = names.foldl Path.step here := by
  induction names generalizing here with
  | nil =>
    rw [walk] at h
    split at h
    · cases h
      rfl
    · cases h
  | cons name names ih =>
    rw [walk] at h
    split at h
    · split at h
      · cases h
      · exact ih h
    · cases h
    · cases h

theorem find_eq_ok_iff :
    d.find p = .ok (q, e) ↔ p.isProper = true ∧ d.walk [] p = .ok (q, e) := by
  rw [find]
  split <;> simp_all

theorem find_place (h : d.find p = .ok (q, e)) :
    q = p.place ∧ d.entry? p.place = some e := by
  have hwalk := (find_eq_ok_iff.1 h).2
  obtain rfl := place_of_walk hwalk
  exact ⟨rfl, entry_of_walk hwalk⟩

theorem entry_of_stat (h : d.stat p = .ok e) : d.entry? p.place = some e := by
  obtain ⟨_, q, hwalk⟩ := stat_eq_ok_iff.1 h
  obtain rfl := place_of_walk hwalk
  exact entry_of_walk hwalk

/-- A file is in a directory. -/
theorem entry_above {name : String} (h : d.stat (p ++ [name]) = .ok (.file id)) :
    d.entry? p.place = some .directory := by
  obtain ⟨_, q, hwalk⟩ := stat_eq_ok_iff.1 h
  obtain ⟨dir, hdir, _⟩ := walk_concat hwalk
  obtain rfl := place_of_walk hdir
  exact entry_of_walk hdir

/-- On the way to a directory there are directories. -/
theorem find_part {names : List String} (h : d.find p = .ok (q, .directory))
    (hpart : names <+: p) :
    d.find names = .ok (Path.place names, .directory) := by
  obtain ⟨hproper, hwalk⟩ := find_eq_ok_iff.1 h
  obtain ⟨rest, rfl⟩ := hpart
  suffices hwalks : ∀ here, d.walk here (names ++ rest) = .ok (q, .directory) →
      d.walk here names = .ok (names.foldl Path.step here, .directory) from
    find_eq_ok_iff.2 ⟨isProper_of_append hproper, hwalks [] hwalk⟩
  clear h hproper hwalk
  induction names with
  | nil =>
    intro here hwalk
    have hdir : d.entry? here = some .directory := by
      cases rest with
      | nil =>
        obtain rfl := place_of_walk hwalk
        exact entry_of_walk hwalk
      | cons name rest =>
        rw [List.nil_append, walk] at hwalk
        split at hwalk
        · assumption
        · cases hwalk
        · cases hwalk
    rw [walk, hdir]
    rfl
  | cons name names ih =>
    intro here hwalk
    rw [List.cons_append, walk] at hwalk
    rw [walk]
    split at hwalk
    · next hdir =>
      split at hwalk
      · cases hwalk
      · next hname =>
        simp only [if_neg hname]
        exact ih _ hwalk
    · cases hwalk
    · cases hwalk

/-! ## Disks that differ in one part -/

/-- Outside of a part of the tree the disks have the same entries and the same
contents. No directory is gone, and nothing has come in the way of a change. -/
structure Within (T : Path → Prop) (d d' : Disk) : Prop where
  sound : d'.Sound
  entry : ∀ q, ¬T q → d'.entry? q = d.entry? q
  content : ∀ q id, ¬T q → d.entry? q = some (.file id) → d'.content id = d.content id
  directory : ∀ q, d.entry? q = some .directory → d'.entry? q = some .directory
  calm : d.Calm → d'.Calm

namespace Within

theorem refl (hd : d.Sound) (T : Path → Prop) : Within T d d :=
  ⟨hd, fun _ _ => rfl, fun _ _ _ _ => rfl, fun _ h => h, fun h => h⟩

theorem trans (h : Within T d d') (h' : Within T d' d'') : Within T d d'' := by
  refine ⟨h'.sound, ?_, ?_, fun q hq => h'.directory q (h.directory q hq),
    fun hcalm => h'.calm (h.calm hcalm)⟩
  · exact fun q hq => (h'.entry q hq).trans (h.entry q hq)
  · intro q id hq hfile
    rw [h'.content q id hq (by rw [h.entry q hq, hfile]), h.content q id hq hfile]

theorem mono (h : Within T d d') (hsub : ∀ q, T q → U q) : Within U d d' :=
  ⟨h.sound, fun q hq => h.entry q fun hT => hq (hsub q hT),
    fun q id hq => h.content q id fun hT => hq (hsub q hT), h.directory, h.calm⟩

/-- Directories are found where they were. -/
theorem find (h : Within T d d') (hfind : d.find p = .ok (q, .directory)) :
    d'.find p = .ok (q, .directory) := by
  obtain ⟨hproper, hwalk⟩ := find_eq_ok_iff.1 hfind
  exact find_eq_ok_iff.2 ⟨hproper,
    walk_mono h.directory hwalk (h.directory q (entry_of_walk hwalk))⟩

/-- Files outside of the part are found as they were. -/
theorem stat (h : Within T d d') (hout : ¬T p.place)
    (hstat : d.stat p = .ok (.file id)) :
    d'.stat p = .ok (.file id) ∧ d'.content id = d.content id := by
  have hentry := entry_of_stat hstat
  obtain ⟨hproper, q, hwalk⟩ := stat_eq_ok_iff.1 hstat
  obtain rfl := place_of_walk hwalk
  have hthere : d'.entry? p.place = some (.file id) := (h.entry _ hout).trans hentry
  exact ⟨stat_eq_ok_iff.2 ⟨hproper, p.place, walk_mono h.directory hwalk hthere⟩,
    h.content _ id hout hentry⟩

end Within

theorem ChangesOnly.within {qs : List Path} (h : ChangesOnly qs d d')
    (hT : ∀ q ∈ qs, T q) (hentry : ∀ q, q ∉ qs → d'.entry? q = d.entry? q)
    (hcalm : d.Calm → d'.Calm) : Within T d d' := by
  refine ⟨h.sound, fun q hq => hentry q fun hin => hq (hT q hin), ?_,
    fun _ => h.entry_directory, hcalm⟩
  intro q id hq hfile
  have hnot : q ∉ qs := fun hin => hq (hT q hin)
  have hsame := h.same q hnot
  simpa only [item?, hentry q hnot, hfile, Option.some.injEq, Item.file.injEq]
    using hsame

theorem within_of_eq (hd : d.Sound) (hentries : d'.entries = d.entries)
    (hcontents : d'.contents = d.contents) (hcalm : d.Calm → d'.Calm) : Within T d d' :=
  (changesOnly_of_eq hd hentries hcontents []).within
    (fun _ hq => (List.not_mem_nil hq).elim)
    (fun q _ => entry_of_entries hentries q) hcalm

/-- A directory or a new file comes to an empty place. -/
theorem within_concat (hd : d.Sound) (hne : q ≠ []) (hnone : d.entry? q = none)
    (hentries : d'.entries = d.entries ++ [(q.key, e)])
    (hcontents : ∀ id < d.contents.length, d'.content id = d.content id)
    (hle : d.contents.length ≤ d'.contents.length)
    (hnew : ∀ id, e = .file id → d.contents.length ≤ id ∧ id < d'.contents.length)
    (hT : T q) (hcalm : d.Calm → d'.Calm) : Within T d d' := by
  refine (changesOnly_concat hd hne hnone hentries hcontents hle hnew).within ?_ ?_
    hcalm
  · intro p hp
    rwa [List.mem_singleton.1 hp]
  · intro p hp
    rw [entry_concat hne hnone hentries,
      if_neg fun heq => hp (List.mem_singleton.2 heq)]

theorem Calm.tail (h : d.Calm) : ({ d with plan := d.plan.tail } : Disk).Calm :=
  ⟨by simp [h.plan], h.limit⟩

/-! ## Disks that look alike in one part -/

/-- Nothing in a part of the tree tells the disks apart. -/
def SameOn (T : Path → Prop) (d e : Disk) : Prop := ∀ q, T q → d.item? q = e.item? q

theorem equivalence_sameOn (T : Path → Prop) : Equivalence (SameOn T) where
  refl _ _ _ := rfl
  symm h q hq := (h q hq).symm
  trans h h' q hq := (h q hq).trans (h' q hq)

theorem Within.item_eq (h : Within T d d') (hq : ¬T q) : d'.item? q = d.item? q := by
  rw [item?, item?, h.entry q hq]
  cases hentry : d.entry? q with
  | none => rfl
  | some e =>
    cases e with
    | directory => rfl
    | file id => simp only [h.content q id hq hentry]

/-- The same file has the same content, whatever its number is. -/
theorem SameOn.content_eq {e : Disk} {id' : Nat} (h : SameOn T d e) (hq : T q)
    (hd : d.entry? q = some (.file id)) (he : e.entry? q = some (.file id')) :
    d.content id = e.content id' := by
  have hitem := h q hq
  rw [item?_eq_file_iff.2 ⟨id, hd, rfl⟩, eq_comm, item?_eq_file_iff] at hitem
  obtain ⟨i, hi, hcontent⟩ := hitem
  rw [he] at hi
  cases hi
  exact hcontent.symm

/-- In a directory of both disks a name leads to the same, if what is there is the
same. -/
theorem find_concat_same {e : Disk} {dir place : Path} {name : String}
    (hd : d.find dir = .ok (place, .directory))
    (he : e.find dir = .ok (place, .directory))
    (hitem : d.item? (Path.step place name) = e.item? (Path.step place name)) :
    (∃ f, d.find (dir ++ [name]) = .error f ∧ e.find (dir ++ [name]) = .error f) ∨
      (∃ q, d.find (dir ++ [name]) = .ok (q, .directory) ∧
        e.find (dir ++ [name]) = .ok (q, .directory)) ∨
      ∃ q id id', d.find (dir ++ [name]) = .ok (q, .file id) ∧
      e.find (dir ++ [name]) = .ok (q, .file id') ∧
        d.content id = e.content id' := by
  have hfind : ∀ {x : Disk}, x.find dir = .ok (place, .directory) →
      x.find (dir ++ [name]) = if (dir ++ [name]).isProper then
        if Path.nameLimit < name.utf8ByteSize then .error .improper
        else x.walk (Path.step place name) []
      else .error .improper := by
    intro x hx
    have hwalk := (find_eq_ok_iff.1 hx).2
    have hstep (rest : List String) : x.walk place (name :: rest) =
        if Path.nameLimit < name.utf8ByteSize then .error .improper
        else x.walk (Path.step place name) rest := by
      rw [walk, entry_of_walk hwalk]
    rw [find, walk_append hwalk, hstep]
  rw [hfind hd, hfind he]
  split
  · split
    · exact .inl ⟨_, rfl, rfl⟩
    · -- What is at the place decides.
      rw [walk, walk]
      cases hthere : d.item? (Path.step place name) with
      | none =>
        rw [hthere, eq_comm] at hitem
        rw [item?_eq_none_iff.1 hthere, item?_eq_none_iff.1 hitem]
        exact .inl ⟨_, rfl, rfl⟩
      | some item =>
        rw [hthere, eq_comm] at hitem
        cases item with
        | directory =>
          rw [item?_eq_directory_iff.1 hthere, item?_eq_directory_iff.1 hitem]
          exact .inr (.inl ⟨_, rfl, rfl⟩)
        | file bs =>
          obtain ⟨id, hentry, hcontent⟩ := item?_eq_file_iff.1 hthere
          obtain ⟨id', hentry', hcontent'⟩ := item?_eq_file_iff.1 hitem
          rw [hentry, hentry']
          exact .inr (.inr ⟨_, id, id', rfl, rfl, hcontent.trans hcontent'.symm⟩)
  · exact .inl ⟨_, rfl, rfl⟩

theorem read_concat_same {e : Disk} {dir place : Path} {name : String}
    (hd : d.find dir = .ok (place, .directory))
    (he : e.find dir = .ok (place, .directory))
    (hitem : d.item? (Path.step place name) = e.item? (Path.step place name)) :
    d.read (dir ++ [name]) = e.read (dir ++ [name]) := by
  rw [read, read, stat, stat]
  rcases find_concat_same hd he hitem with ⟨f, hf, hf'⟩ | ⟨q, hq, hq'⟩ |
    ⟨q, id, id', hq, hq', hcontent⟩
  · rw [hf, hf']
  · rw [hq, hq']
  · rw [hq, hq']
    exact congrArg Except.ok hcontent

/-! ## Files -/

theorem append_within {bs : Bytes} {r : Except Fault Unit} (hd : d.Sound)
    (hq : d.entry? q = some (.file id)) (hT : T q) (h : d.append id bs = (r, d')) :
    Within T d d' := by
  obtain ⟨hentries, c, hcontents⟩ := append_contents h
  refine (changesOnly_of_content hd hq hentries hcontents).within ?_
    (fun p _ => entry_of_entries hentries p) ?_
  · intro p hp
    rwa [List.mem_singleton.1 hp]
  · intro hcalm
    obtain ⟨_, happend, hcalm'⟩ := hcalm.append id bs
    rw [h] at happend
    cases happend
    exact hcalm'

theorem limit_truncate {size : Nat} {r : Except Fault Unit}
    (h : d.truncate id size = (r, d')) : d'.limit = d.limit := by
  rw [truncate, draw_eq] at h
  cases hm : d.plan.head?.join with
  | some _ =>
    rw [hm] at h
    cases h
    rfl
  | none =>
    rw [hm] at h
    simp only at h
    split at h <;> cases h <;> rfl

theorem truncate_within {size : Nat} {r : Except Fault Unit} (hd : d.Sound)
    (hq : d.entry? q = some (.file id)) (hT : T q) (h : d.truncate id size = (r, d')) :
    Within T d d' := by
  have hcalm : d.Calm → d'.Calm :=
    fun hcalm => ⟨plan_truncate hcalm.plan h, (limit_truncate h).trans hcalm.limit⟩
  cases r with
  | error f =>
    obtain ⟨htree, hcontents⟩ := truncate_error h
    exact within_of_eq hd htree.entries hcontents hcalm
  | ok u =>
    obtain ⟨hentries, c, hcontents⟩ := truncate_contents h
    refine (changesOnly_of_content hd hq hentries hcontents).within ?_
      (fun p _ => entry_of_entries hentries p) hcalm
    intro p hp
    rwa [List.mem_singleton.1 hp]

theorem sync_within {r : Except Fault Unit} (hd : d.Sound) (h : d.sync = (r, d')) :
    Within T d d' := by
  obtain ⟨htree, hcontents⟩ := sync_spec h
  refine within_of_eq hd htree.entries hcontents fun hcalm => ?_
  rw [sync, draw, hcalm.plan] at h
  cases h
  exact hcalm

/-- Where a file could be made but nothing was found there is nothing. -/
theorem entry_of_vacancy (hstat : d.stat p = .error .notFound)
    (hv : d.vacancy p = .ok q) :
    q = p.place ∧ q ≠ [] ∧ d.entry? q = none := by
  obtain ⟨_, hwalk⟩ := walk_of_stat_notFound hstat
  have hne : p ≠ [] := by
    rintro rfl
    cases hwalk
  obtain ⟨names, name, rfl⟩ : ∃ names name, p = names ++ [name] :=
    ⟨_, _, (List.dropLast_concat_getLast hne).symm⟩
  rw [vacancy, List.dropLast_concat, List.getLast?_concat, Option.getD_some] at hv
  split at hv
  · next dir hdir =>
    cases hv
    obtain ⟨rfl, _⟩ := find_place hdir
    have hnone : d.entry? (Path.step (Path.place names) name) = none := by
      rw [walk_append (find_eq_ok_iff.1 hdir).2, walk,
        entry_of_walk (find_eq_ok_iff.1 hdir).2] at hwalk
      simp only at hwalk
      split at hwalk
      · cases hwalk
      · rw [walk] at hwalk
        split at hwalk
        · cases hwalk
        · assumption
    refine ⟨(Path.place_concat names name).symm, ?_, hnone⟩
    intro hroot
    rw [hroot] at hnone
    cases hnone
  · cases hv
  · cases hv

/-- Opening a file changes nothing but the place that the path leads to, and there
the file is then. -/
theorem openOrCreate_within {r : Except Fault Nat} (hd : d.Sound) (hT : T p.place)
    (h : d.openOrCreate p = (r, d')) :
    Within T d d' ∧ ∀ id, r = .ok id → d'.entry? p.place = some (.file id) := by
  rw [openOrCreate] at h
  split at h
  · next id hopen =>
    cases h
    refine ⟨.refl hd T, fun id' hid => ?_⟩
    cases hid
    exact entry_of_stat (openFile_eq_ok_iff.1 hopen)
  · next hopen =>
    have hstat := stat_of_openFile_notFound hopen
    split at h
    · cases h
      exact ⟨.refl hd T, fun id hid => by cases hid⟩
    · next place hv =>
      obtain ⟨rfl, hne, hnone⟩ := entry_of_vacancy hstat hv
      rw [draw_eq] at h
      cases hm : d.plan.head?.join with
      | some _ =>
        rw [hm] at h
        cases h
        exact ⟨within_of_eq hd rfl rfl Calm.tail, fun id hid => by cases hid⟩
      | none =>
        rw [hm] at h
        obtain ⟨rfl, rfl⟩ := Prod.mk.inj h
        refine ⟨within_concat (e := .file d.contents.length) hd hne hnone rfl ?_
          (by simp) ?_ hT ?_, ?_⟩
        · intro id hid
          simp [Disk.content, List.getD_eq_getElem?_getD, List.getElem?_append_left hid]
        · intro id hid
          cases hid
          simp
        · exact fun hcalm => ⟨hcalm.tail.plan, hcalm.limit⟩
        · intro id hid
          cases hid
          rw [entry_concat hne hnone rfl, if_pos rfl]
  · cases h
    exact ⟨.refl hd T, fun id hid => by cases hid⟩

/-- A file can be moved to a place where no directory is. -/
theorem target_of_vacancy (hdir : d.stat p ≠ .ok .directory)
    (himproper : d.stat p ≠ .error .improper) (hv : d.vacancy p = .ok q) :
    q = p.place ∧ q ≠ [] ∧ d.entry? q ≠ some .directory := by
  have hne : p ≠ [] := by
    rintro rfl
    exact hdir rfl
  obtain ⟨names, name, rfl⟩ : ∃ names name, p = names ++ [name] :=
    ⟨_, _, (List.dropLast_concat_getLast hne).symm⟩
  rw [vacancy, List.dropLast_concat, List.getLast?_concat, Option.getD_some] at hv
  split at hv
  · next dir hfind =>
    cases hv
    obtain ⟨rfl, _⟩ := find_place hfind
    have hwalk := (find_eq_ok_iff.1 hfind).2
    -- The name is short enough, so it leads to what is at the place.
    have hnot : d.entry? (Path.step (Path.place names) name) ≠ some .directory := by
      intro hentry
      have hfound : d.stat (names ++ [name]) = .ok .directory ∨
          d.stat (names ++ [name]) = .error .improper := by
        by_cases hproper : Path.isProper (names ++ [name]) = true
        · rw [stat, find, if_pos hproper, walk_append hwalk, walk, entry_of_walk hwalk]
          by_cases hlong : Path.nameLimit < name.utf8ByteSize
          · simp [hlong]
          · simp [hlong, walk, hentry]
        · rw [stat, find, if_neg hproper]
          exact .inr rfl
      rcases hfound with hfound | hfound
      · exact hdir hfound
      · exact himproper hfound
    refine ⟨(Path.place_concat names name).symm, ?_, hnot⟩
    intro hroot
    rw [hroot] at hnot
    exact hnot rfl
  · cases hv
  · cases hv

/-- Moving a file changes nothing but what is at the two places. -/
theorem rename_within {old new : Path} {r : Except Fault Unit} (hd : d.Sound)
    (hold : T old.place) (hnew : T new.place) (h : d.rename old new = (r, d')) :
    Within T d d' := by
  rw [rename] at h
  split at h
  · cases h
    exact .refl hd T
  · cases h
    exact .refl hd T
  · cases h
    exact .refl hd T
  · next source id target hfind hv =>
    obtain ⟨rfl, hfile⟩ := find_place hfind
    split at h
    · cases h
      exact .refl hd T
    · cases h
      exact .refl hd T
    · next hnotdir hproper =>
      obtain ⟨rfl, hne, hfree⟩ := target_of_vacancy hnotdir hproper hv
      rw [draw_eq] at h
      cases hm : d.plan.head?.join with
      | some _ =>
        rw [hm] at h
        cases h
        exact within_of_eq hd rfl rfl Calm.tail
      | none =>
        rw [hm] at h
        obtain ⟨rfl, rfl⟩ := Prod.mk.inj h
        have hsource : old.place ≠ [] := by
          intro hroot
          rw [hroot] at hfile
          cases hfile
        have hmoved := @changesOnly_rename d { d with
          entries :=
        Assoc.set new.place.key (.file id) (Assoc.erase old.place.key d.entries)
          plan := d.plan.tail } _ _ id hd hne hsource hfile hfree rfl rfl
        refine hmoved.within ?_ ?_ ?_
        · intro q hq
          rcases List.mem_cons.1 hq with rfl | hq
          · exact hnew
          · rwa [List.mem_singleton.1 hq]
        · intro q hq
          simp only [List.mem_cons, List.not_mem_nil, or_false, not_or] at hq
          rw [entry_rename hne hsource rfl, if_neg hq.1, if_neg hq.2]
        · exact fun hcalm => ⟨hcalm.tail.plan, hcalm.limit⟩

theorem writeAtomic_within {bs : Bytes} {r : Except Fault Unit} (hd : d.Sound)
    (hp : T p.place) (hbeside : T (besidePath p).place)
    (h : d.writeAtomic p bs = (r, d')) : Within T d d' := by
  rw [writeAtomic] at h
  cases ho : d.openOrCreate (besidePath p) with
  | mk r₁ d₁ =>
    obtain ⟨h₁, hfile⟩ := openOrCreate_within hd hbeside ho
    simp only [ho] at h
    cases r₁ with
    | error f =>
      cases h
      exact h₁
    | ok id =>
      have hentry := hfile id rfl
      simp only at h
      cases ht : d₁.truncate id 0 with
      | mk r₂ d₂ =>
        have h₂ := truncate_within h₁.sound hentry hbeside ht
        have htree₂ : d₂.entry? (besidePath p).place =
            d₁.entry? (besidePath p).place := by
          cases r₂ with
          | error f => exact (truncate_error ht).1.entry_eq _
          | ok u => exact entry_of_entries (truncate_contents ht).1 _
        rw [ht] at h
        cases r₂ with
        | error f =>
          cases h
          exact h₁.trans h₂
        | ok u =>
          simp only at h
          cases ha : d₂.append id bs with
          | mk r₃ d₃ =>
            have h₃ := append_within h₂.sound (htree₂.trans hentry) hbeside ha
            rw [ha] at h
            cases r₃ with
            | error f =>
              cases h
              exact (h₁.trans h₂).trans h₃
            | ok u =>
              simp only at h
              cases hs : d₃.sync with
              | mk r₄ d₄ =>
                have h₄ : Within T d₃ d₄ := sync_within h₃.sound hs
                rw [hs] at h
                cases r₄ with
                | error f =>
                  cases h
                  exact ((h₁.trans h₂).trans h₃).trans h₄
                | ok u =>
                  exact (((h₁.trans h₂).trans h₃).trans h₄).trans
                    (rename_within h₄.sound hbeside hp h)

/-! ## Directories -/

theorem makeBelow_within {here : Path} {names : List String} {r : Except Fault Unit}
    (hd : d.Sound)
    (hT : ∀ part, part <+: names → d.entry? (part.foldl Path.step here) = none →
      T (part.foldl Path.step here))
    (h : d.makeBelow here names = (r, d')) :
    Within T d d' ∧ (r = .ok () →
        d'.walk here names = .ok (names.foldl Path.step here, .directory)) := by
  induction names generalizing d here with
  | nil =>
    rw [makeBelow] at h
    split at h
    · next hdir =>
      cases h
      refine ⟨.refl hd T, fun _ => ?_⟩
      rw [walk, hdir]
      rfl
    · cases h
      exact ⟨.refl hd T, fun hr => by cases hr⟩
  | cons name names ih =>
    rw [makeBelow] at h
    split at h
    · next hdir =>
      split at h
      · cases h
        exact ⟨.refl hd T, fun hr => by cases hr⟩
      · next hname =>
        have hwalk : ∀ e : Disk, e.entry? here = some .directory →
            e.walk here (name :: names) = e.walk (Path.step here name) names := by
          intro e he
          rw [walk, he]
          simp only [if_neg hname]
        simp only at h
        split at h
        · next hnone =>
          have hnext : T (Path.step here name) := hT [name] ⟨names, rfl⟩ hnone
          have hne : Path.step here name ≠ [] := by
            intro hroot
            rw [hroot] at hnone
            cases hnone
          rw [draw_eq] at h
          cases hm : d.plan.head?.join with
          | some _ =>
            rw [hm] at h
            cases h
            exact ⟨within_of_eq hd rfl rfl Calm.tail, fun hr => by cases hr⟩
          | none =>
            rw [hm] at h
            have hadd : Within T d { d with
                entries := d.entries ++ [((Path.step here name).key, .directory)],
                plan := d.plan.tail } :=
              within_concat hd hne hnone rfl (fun _ _ => rfl) (Nat.le_refl _)
                (fun _ hid => by cases hid) hnext
                fun hcalm => ⟨hcalm.tail.plan, hcalm.limit⟩
            obtain ⟨hwithin, hfound⟩ := ih hadd.sound (fun part hpart hgone => by
              rw [entry_concat hne hnone rfl] at hgone
              split at hgone
              · cases hgone
              · exact hT (name :: part) (List.cons_prefix_cons.2 ⟨rfl, hpart⟩) hgone) h
            have hboth := hadd.trans hwithin
            refine ⟨hboth, fun hr => ?_⟩
            rw [hwalk d' (hboth.directory _ hdir)]
            exact hfound hr
        · obtain ⟨hwithin, hfound⟩ := ih hd (fun part hpart =>
            hT (name :: part) (List.cons_prefix_cons.2 ⟨rfl, hpart⟩)) h
          refine ⟨hwithin, fun hr => ?_⟩
          rw [hwalk d' (hwithin.directory _ hdir)]
          exact hfound hr
    · cases h
      exact ⟨.refl hd T, fun hr => by cases hr⟩

/-- Directories are made where there is nothing on the way, and then the path leads
to a directory. -/
theorem makeDirectories_within {r : Except Fault Unit} (hd : d.Sound)
    (hT : ∀ part : Path, part <+: p → d.entry? part.place = none → T part.place)
    (h : d.makeDirectories p = (r, d')) :
    Within T d d' ∧ (r = .ok () → d'.find p = .ok (p.place, .directory)) := by
  rw [makeDirectories] at h
  split at h
  · cases h
    exact ⟨.refl hd T, fun hr => by cases hr⟩
  · next hproper =>
    have hproper : p.isProper = true := by simpa using hproper
    split at h
    · cases hm : d.makeBelow [] p.parent with
      | mk a d₁ =>
        obtain ⟨hwithin, _⟩ := makeBelow_within hd
          (fun part hpart => hT part (hpart.trans (parent_part p))) hm
        rw [hm] at h
        cases a with
        | error f =>
          cases h
          exact ⟨hwithin, fun hr => by cases hr⟩
        | ok u =>
          simp only at h
          split at h
          · next hdir =>
            cases h
            refine ⟨hwithin, fun _ => ?_⟩
            have hstat : d'.stat p = .ok .directory := by
              rw [isDirectory] at hdir
              split at hdir
              · assumption
              · cases hdir
            obtain ⟨_, q, hwalk⟩ := stat_eq_ok_iff.1 hstat
            obtain rfl := place_of_walk hwalk
            exact find_eq_ok_iff.2 ⟨hproper, hwalk⟩
          · cases h
            exact ⟨hwithin, fun hr => by cases hr⟩
    · obtain ⟨hwithin, hfound⟩ := makeBelow_within hd hT h
      exact ⟨hwithin, fun hr => find_eq_ok_iff.2 ⟨hproper, hfound hr⟩⟩

/-- Where directories were made there are no more files than before. -/
theorem file_of_makeDirectories {r : Except Fault Unit}
    (h : d.makeDirectories p = (r, d')) (hfile : d'.entry? q = some (.file id)) :
    d.entry? q = some (.file id) := by
  suffices hfiles : ∀ q id, d'.entry? q = some (.file id) →
      d.entry? q = some (.file id) from hfiles q id hfile
  refine makeDirectories_induction
    (P := fun e => ∀ q id, e.entry? q = some (.file id) → d.entry? q = some (.file id))
    (fun _ _ he => he) (fun e place he hne hnone q id hq => ?_) (fun _ _ hq => hq) h
  rw [entry_concat hne hnone rfl] at hq
  split at hq
  · cases hq
  · exact he q id hq

end Disk

end Chronicle
