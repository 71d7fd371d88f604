import Chronicle.Proofs.Disk.Reopen

/-!
# What is where

A disk seen as a table from places to directories and contents. Each call changes
what is at one or two places and leaves everything else alone, which is so because no
file is at two places.

* `Sound`: what the calls rely on and keep.
* `ChangesOnly`: the places at which two disks may differ.
* `Child.openOrCreate_spec`, `Child.makeDirectories_spec`: what is there after a file
  or a directory was made.
* `mem_list`: a directory lists what is in it.
-/

namespace Chronicle

/-- A name that leads from a directory to a place of its own. -/
structure Path.Own (name : String) : Prop where
  here : Path.isHere name = false
  up : name ≠ ".."
  short : name.utf8ByteSize ≤ Path.nameLimit

theorem Path.Own.step {name : String} (h : Path.Own name) (p : Path) :
    Path.step p name = p ++ [name] := by
  have hup : (name == "..") = false := beq_eq_false_iff_ne.2 h.up
  rw [Path.step, h.here, hup]
  simp

namespace Disk

/-- What can be at a place. -/
inductive Item where
  | directory
  | file (content : Bytes)

/-- What is at a place. -/
def item? (d : Disk) (q : Path) : Option Item :=
  match d.entry? q with
  | some .directory => some .directory
  | some (.file id) => some (.file (d.content id))
  | none => none

theorem item?_eq_none_iff {d : Disk} {q : Path} :
    d.item? q = none ↔ d.entry? q = none := by
  rw [item?]
  split <;> simp_all

theorem item?_eq_directory_iff {d : Disk} {q : Path} :
    d.item? q = some .directory ↔ d.entry? q = some .directory := by
  rw [item?]
  split <;> simp_all

theorem item?_eq_file_iff {d : Disk} {q : Path} {bs : Bytes} :
    d.item? q = some (.file bs) ↔ ∃ id, d.entry? q = some (.file id) ∧
      d.content id = bs := by
  rw [item?]
  split <;> simp_all

/-- Entries stand for files that are there, are filed under their places, and no file
is at two places. -/
structure Sound (d : Disk) : Prop where
  wellFormed : d.WellFormed
  keyed : ∀ x ∈ d.entries, x.1 = x.1.2.key
  single : ∀ {p q : Path} {id : Nat}, d.entry? p = some (.file id) →
    d.entry? q = some (.file id) → p = q

theorem sound_empty : Sound {} := by
  refine ⟨wellFormed_empty, fun x hx => (List.not_mem_nil hx).elim, ?_⟩
  intro p q id hp hq
  unfold entry? at hp
  split at hp <;> cases hp

theorem mem_of_entry {d : Disk} {q : Path} {e : Entry} (hne : q ≠ [])
    (h : d.entry? q = some e) : (q.key, e) ∈ d.entries := by
  unfold entry? at h
  rw [if_neg hne] at h
  obtain ⟨l₁, l₂, hl, _⟩ := List.lookup_eq_some_iff.1 h
  rw [hl]
  exact List.mem_append_right _ List.mem_cons_self

theorem Sound.lt_of_entry {d : Disk} (hd : d.Sound) {q : Path} {id : Nat}
    (h : d.entry? q = some (.file id)) : id < d.contents.length := by
  have hne : q ≠ [] := by
    rintro rfl
    cases h
  exact hd.wellFormed _ (mem_of_entry hne h) id rfl

/-! ## Changes at some places -/

/-- The disks differ at these places at most, and no directory is gone. -/
structure ChangesOnly (qs : List Path) (d d' : Disk) : Prop where
  sound : d'.Sound
  same : ∀ q, q ∉ qs → d'.item? q = d.item? q
  directory : ∀ q, d.item? q = some .directory → d'.item? q = some .directory

namespace ChangesOnly

variable {d d' d'' : Disk} {ps qs : List Path}

theorem mono (h : ChangesOnly ps d d') (hsub : ∀ q ∈ ps, q ∈ qs) :
    ChangesOnly qs d d' :=
  ⟨h.sound, fun q hq => h.same q fun hp => hq (hsub q hp), h.directory⟩

theorem trans (h : ChangesOnly qs d d') (h' : ChangesOnly qs d' d'') :
    ChangesOnly qs d d'' :=
  ⟨h'.sound, fun q hq => (h'.same q hq).trans (h.same q hq),
    fun q hq => h'.directory q (h.directory q hq)⟩

theorem entry_directory (h : ChangesOnly qs d d') {q : Path}
    (hq : d.entry? q = some .directory) :
    d'.entry? q = some .directory :=
  item?_eq_directory_iff.1 (h.directory q (item?_eq_directory_iff.2 hq))

/-- Directories are found where they were. -/
theorem find (h : ChangesOnly qs d d') {p place : Path}
    (hf : d.find p = .ok (place, .directory)) :
    d'.find p = .ok (place, .directory) := by
  rw [Disk.find] at hf ⊢
  split at hf
  · next hproper =>
    rw [if_pos hproper]
    exact walk_mono (fun _ => h.entry_directory) hf
      (h.entry_directory (entry_of_walk hf))
  · cases hf

end ChangesOnly

theorem entry_of_entries {d d' : Disk} (h : d'.entries = d.entries) (q : Path) :
    d'.entry? q = d.entry? q := by
  unfold entry?
  rw [h]

theorem Sound.of_entries {d d' : Disk} (hd : d.Sound)
    (hentries : d'.entries = d.entries)
    (hlength : d'.contents.length = d.contents.length) : d'.Sound := by
  refine ⟨hd.wellFormed.of_sameTree ⟨hentries, hlength⟩, hentries ▸ hd.keyed, ?_⟩
  intro p q id hp hq
  rw [entry_of_entries hentries] at hp hq
  exact hd.single hp hq

theorem changesOnly_of_eq {d d' : Disk} (hd : d.Sound)
    (hentries : d'.entries = d.entries) (hcontents : d'.contents = d.contents)
    (qs : List Path) : ChangesOnly qs d d' := by
  have hsame : ∀ q, d'.item? q = d.item? q := by
    intro q
    simp only [item?, entry_of_entries hentries, content, hcontents]
  exact ⟨hd.of_entries hentries (by rw [hcontents]), fun q _ => hsame q,
    fun q hq => (hsame q).trans hq⟩

theorem changesOnly_refl {d : Disk} (hd : d.Sound) (qs : List Path) :
    ChangesOnly qs d d :=
  changesOnly_of_eq hd rfl rfl qs

/-- The plan is nowhere. -/
theorem changesOnly_plan {d : Disk} (hd : d.Sound) (plan : List (Option Nat))
    (qs : List Path) :
    ChangesOnly qs d { d with plan := plan } :=
  @changesOnly_of_eq d { d with plan := plan } hd rfl rfl qs

/-- The content of one file changes, and so what is at one place. -/
theorem changesOnly_of_content {d d' : Disk} {q : Path} {id : Nat} {bs : Bytes}
    (hd : d.Sound) (hq : d.entry? q = some (.file id))
    (hentries : d'.entries = d.entries)
    (hcontents : d'.contents = d.contents.set id bs) : ChangesOnly [q] d d' := by
  refine ⟨hd.of_entries hentries (by rw [hcontents, List.length_set]), ?_, ?_⟩
  · intro p hp
    rw [List.mem_singleton] at hp
    simp only [item?, entry_of_entries hentries]
    split
    · rfl
    · next id' hid =>
      -- No other place has the file.
      have hne : id ≠ id' := by
        rintro rfl
        exact hp (hd.single hid hq)
      rw [content, content, hcontents, List.getD_eq_getElem?_getD,
        List.getD_eq_getElem?_getD, List.getElem?_set_ne hne]
    · rfl
  · intro p hp
    rw [item?_eq_directory_iff] at hp ⊢
    rw [entry_of_entries hentries, hp]

/-- A place is added to the entries. -/
theorem entry_concat {d d' : Disk} {place : Path} {e : Entry} (hne : place ≠ [])
    (hnone : d.entry? place = none)
    (hentries : d'.entries = d.entries ++ [(place.key, e)]) (q : Path) :
    d'.entry? q = if q = place then some e else d.entry? q := by
  by_cases hq : q = place
  · subst hq
    rw [if_pos rfl]
    unfold entry? at hnone ⊢
    rw [if_neg hne] at hnone ⊢
    rw [hentries, List.lookup_append, hnone, Option.none_or, List.lookup_cons_self]
  · rw [if_neg hq]
    unfold entry?
    split
    · rfl
    · have hkey : (q.key == place.key) = false := by
        rw [beq_eq_false_iff_ne]
        exact fun h => hq (Path.key_inj.1 h)
      rw [hentries, List.lookup_append, List.lookup_cons, hkey]
      simp

/-- A directory or a new file comes to an empty place. -/
theorem changesOnly_concat {d d' : Disk} {place : Path} {e : Entry} (hd : d.Sound)
    (hne : place ≠ []) (hnone : d.entry? place = none)
    (hentries : d'.entries = d.entries ++ [(place.key, e)])
    (hcontents : ∀ id < d.contents.length, d'.content id = d.content id)
    (hle : d.contents.length ≤ d'.contents.length)
    (hnew : ∀ id, e = .file id → d.contents.length ≤ id ∧ id < d'.contents.length) :
    ChangesOnly [place] d d' := by
  have hentry := entry_concat hne hnone hentries
  have hold : ∀ q, q ≠ place → d'.entry? q = d.entry? q :=
    fun q hq => by rw [hentry, if_neg hq]
  refine ⟨⟨hd.wellFormed.concat hentries hle fun id hid => (hnew id hid).2, ?_, ?_⟩,
    ?_, ?_⟩
  · intro x hx
    rw [hentries] at hx
    rcases List.mem_append.1 hx with hx | hx
    · exact hd.keyed x hx
    · rw [List.mem_singleton.1 hx]
      rfl
  · intro p q id hp hq
    -- A new file has a number that no other one has.
    rw [hentry] at hp hq
    split at hp
    · next hpp =>
      split at hq
      · next hqq => rw [hpp, hqq]
      · cases hp
        exact absurd (hd.lt_of_entry hq) (Nat.not_lt.2 (hnew id rfl).1)
    · split at hq
      · cases hq
        exact absurd (hd.lt_of_entry hp) (Nat.not_lt.2 (hnew id rfl).1)
      · exact hd.single hp hq
  · intro q hq
    rw [List.mem_singleton] at hq
    simp only [item?, hold q hq]
    split
    · rfl
    · next id hid => rw [hcontents id (hd.lt_of_entry hid)]
    · rfl
  · intro q hq
    rw [item?_eq_directory_iff] at hq ⊢
    rw [hold q, hq]
    rintro rfl
    rw [hnone] at hq
    cases hq

/-! ## Names in a directory -/

theorem utf8ByteSize_toText_concat (p : Path) (name : String) :
    (p ++ [name]).toText.utf8ByteSize ≤
      p.toText.utf8ByteSize + 1 + name.utf8ByteSize := by
  induction p with
  | nil =>
    rw [List.nil_append, Path.toText, String.intercalate_singleton]
    omega
  | cons first p ih =>
    rw [Path.toText, Path.toText] at ih ⊢
    rw [List.cons_append, String.intercalate_cons_of_ne_nil (by simp)]
    by_cases hp : p = []
    · subst hp
      rw [List.nil_append, String.intercalate_singleton, String.intercalate_singleton]
      simp only [String.utf8ByteSize_append]
      have hslash : "/".utf8ByteSize = 1 := rfl
      omega
    · rw [String.intercalate_cons_of_ne_nil hp]
      simp only [String.utf8ByteSize_append]
      omega

theorem isProper_concat {p : Path} {name : String} (hp : p.isProper = true)
    (hsize : p.toText.utf8ByteSize + 1 + name.utf8ByteSize ≤ Path.textLimit)
    (hzero : '\x00' ∉ name.toList) :
    (p ++ [name]).isProper = true := by
  rw [Path.isProper, Bool.and_eq_true, decide_eq_true_eq] at hp ⊢
  refine ⟨Nat.le_trans (utf8ByteSize_toText_concat p name) hsize, ?_⟩
  rw [List.all_append, hp.2, List.all_cons, List.all_nil]
  simpa using hzero

/-- A path to a directory and a name that can be asked for in it. -/
structure Child (d : Disk) (dir place : Path) (name : String) : Prop where
  directory : d.find dir = .ok (place, .directory)
  own : Path.Own name
  proper : (dir ++ [name]).isProper = true

namespace Child

variable {d d' : Disk} {dir place : Path} {name : String}

theorem of_changes {qs : List Path} (h : Child d dir place name)
    (hc : ChangesOnly qs d d') : Child d' dir place name :=
  ⟨hc.find h.directory, h.own, h.proper⟩

theorem walk_dir (h : Child d dir place name) :
    d.walk [] dir = .ok (place, .directory) := by
  have hfind := h.directory
  rw [Disk.find] at hfind
  split at hfind
  · exact hfind
  · cases hfind

/-- The name leads to what is at the place. -/
theorem find (h : Child d dir place name) :
    d.find (dir ++ [name]) =
      match d.entry? (place ++ [name]) with
      | some e => .ok (place ++ [name], e)
      | none => .error .notFound := by
  rw [Disk.find, if_pos h.proper, walk_append h.walk_dir, Disk.walk,
    entry_of_walk h.walk_dir]
  simp only [if_neg (Nat.not_lt.2 h.own.short), h.own.step]
  cases he : d.entry? (place ++ [name]) <;> simp only [Disk.walk, he]

theorem stat (h : Child d dir place name) :
    d.stat (dir ++ [name]) =
      match d.entry? (place ++ [name]) with
      | some e => .ok e
      | none => .error .notFound := by
  rw [Disk.stat, h.find]
  cases d.entry? (place ++ [name]) <;> rfl

theorem vacancy (h : Child d dir place name) :
    d.vacancy (dir ++ [name]) = .ok (place ++ [name]) := by
  rw [Disk.vacancy, List.dropLast_concat, h.directory, List.getLast?_concat]
  simp only [Option.getD_some, h.own.step]

theorem read_of_item {bs : Bytes} (h : Child d dir place name)
    (hitem : d.item? (place ++ [name]) = some (.file bs)) :
    d.read (dir ++ [name]) = .ok bs := by
  obtain ⟨id, hentry, rfl⟩ := item?_eq_file_iff.1 hitem
  exact read_of_stat (by rw [h.stat, hentry])

/-- Opening a file makes it at most. -/
theorem openOrCreate_spec {r : Except Fault Nat} (h : Child d dir place name)
    (hd : d.Sound) (ho : d.openOrCreate (dir ++ [name]) = (r, d')) :
    ChangesOnly [place ++ [name]] d d' ∧
      ((∃ id, r = .ok id ∧ d'.entry? (place ++ [name]) = some (.file id)) ∨
        ((∃ f, r = .error f) ∧ ∀ q, d'.item? q = d.item? q)) := by
  have hne : place ++ [name] ≠ [] := by simp
  rw [openOrCreate, openFile, h.stat] at ho
  cases he : d.entry? (place ++ [name]) with
  | some e =>
    rw [he] at ho
    cases e with
    | directory =>
      cases ho
      exact ⟨changesOnly_refl hd _, .inr ⟨⟨_, rfl⟩, fun _ => rfl⟩⟩
    | file id =>
      cases ho
      exact ⟨changesOnly_refl hd _, .inl ⟨id, rfl, he⟩⟩
  | none =>
    rw [he] at ho
    simp only [h.vacancy, draw_eq] at ho
    cases hm : d.plan.head?.join with
    | some _ =>
      rw [hm] at ho
      cases ho
      exact ⟨changesOnly_plan hd _ _, .inr ⟨⟨_, rfl⟩, fun _ => rfl⟩⟩
    | none =>
      rw [hm] at ho
      obtain ⟨rfl, rfl⟩ := Prod.mk.inj ho
      refine ⟨changesOnly_concat hd hne he rfl ?_ (by simp) ?_, .inl ⟨_, rfl, ?_⟩⟩
      · intro id hid
        simp [content, List.getD_eq_getElem?_getD, List.getElem?_append_left hid]
      · intro id hid
        cases hid
        simp
      · rw [entry_concat hne he rfl, if_pos rfl]

/-- Nothing but a directory in its place keeps a file from being opened. -/
theorem openOrCreate_calm (h : Child d dir place name) (hcalm : d.Calm)
    (hfree : d.item? (place ++ [name]) ≠ some .directory) :
    ∃ id d', d.openOrCreate (dir ++ [name]) = (.ok id, d') ∧ d'.Calm := by
  rw [openOrCreate, openFile, h.stat]
  cases he : d.entry? (place ++ [name]) with
  | some e =>
    cases e with
    | directory => exact absurd (item?_eq_directory_iff.2 he) hfree
    | file id => exact ⟨id, d, rfl, hcalm⟩
  | none =>
    simp only [h.vacancy, draw_eq, hcalm.plan, List.head?_nil, Option.join_none]
    exact ⟨_, _, rfl, rfl, hcalm.limit⟩

end Child

/-! ## Making and listing directories -/

/-- Of the directories on a path to a name only the last one can be missing. -/
theorem Child.makeDirectories_eq {d : Disk} {dir place : Path} {name : String}
    (h : Child d dir place name) :
    d.makeDirectories (dir ++ [name]) =
      match d.entry? (place ++ [name]) with
      | some .directory => (.ok (), d)
      | some (.file _) => (.error .notDirectory, d)
      | none =>
        match d.draw with
        | (some _, d) => (.error .mishap, d)
        | (none, d) =>
          (.ok (), { d with entries := d.entries ++
            [((place ++ [name]).key, .directory)] }) := by
  have hne : place ++ [name] ≠ [] := by simp
  have hends : (dir ++ [name]).endsHere = false := by
    have htrim := endsHere_trim (dir ++ [name])
    rwa [trim_concat_of_own h.own.here] at htrim
  rw [makeDirectories, h.proper, hends]
  simp only [Bool.not_true, Bool.false_eq_true, if_false]
  rw [makeBelow_append h.walk_dir, makeBelow, entry_of_walk h.walk_dir]
  simp only [if_neg (Nat.not_lt.2 h.own.short), h.own.step]
  cases he : d.entry? (place ++ [name]) with
  | some e => cases e <;> simp only [makeBelow, he]
  | none =>
    simp only [draw_eq]
    cases d.plan.head?.join with
    | some _ => rfl
    | none =>
      have hentry := @entry_concat d { d with
        entries := d.entries ++ [((place ++ [name]).key, .directory)], plan :=
      d.plan.tail } _ .directory hne he rfl
      simp only [makeBelow, hentry, if_pos]

/-- A directory is made in another one, or was there before. -/
theorem Child.makeDirectories_spec {d d' : Disk} {dir place : Path} {name : String}
    {r : Except Fault Unit} (h : Child d dir place name) (hd : d.Sound)
    (hm : d.makeDirectories (dir ++ [name]) = (r, d')) :
    ChangesOnly [place ++ [name]] d d' ∧
      (r = .ok () → d'.item? (place ++ [name]) = some .directory) ∧
      (d'.item? (place ++ [name]) = d.item? (place ++ [name]) ∨
        d'.item? (place ++ [name]) = some .directory) := by
  have hne : place ++ [name] ≠ [] := by simp
  rw [h.makeDirectories_eq] at hm
  cases he : d.entry? (place ++ [name]) with
  | some e =>
    rw [he] at hm
    cases e with
    | directory =>
      cases hm
      exact ⟨changesOnly_refl hd _, fun _ => item?_eq_directory_iff.2 he, .inl rfl⟩
    | file id =>
      cases hm
      exact ⟨changesOnly_refl hd _, nofun, .inl rfl⟩
  | none =>
    rw [he] at hm
    simp only [draw_eq] at hm
    cases hplan : d.plan.head?.join with
    | some _ =>
      rw [hplan] at hm
      cases hm
      exact ⟨changesOnly_plan hd _ _, nofun, .inl rfl⟩
    | none =>
      rw [hplan] at hm
      obtain ⟨rfl, rfl⟩ := Prod.mk.inj hm
      have hmade := item?_eq_directory_iff.2 ((@entry_concat d { d with
        entries := d.entries ++ [((place ++ [name]).key, .directory)], plan :=
      d.plan.tail } _ .directory hne he rfl
        (place ++ [name])).trans (if_pos rfl))
      exact ⟨changesOnly_concat hd hne he rfl (fun _ _ => rfl) (Nat.le_refl _) nofun,
        fun _ => hmade, .inr hmade⟩

/-- Nothing but a file in its place keeps a directory from being made. -/
theorem Child.makeDirectories_calm {d : Disk} {dir place : Path} {name : String}
    (h : Child d dir place name) (hcalm : d.Calm)
    (hfree : ∀ bs, d.item? (place ++ [name]) ≠ some (.file bs)) :
    ∃ d', d.makeDirectories (dir ++ [name]) = (.ok (), d') ∧ d'.Calm := by
  rw [h.makeDirectories_eq]
  cases he : d.entry? (place ++ [name]) with
  | some e =>
    cases e with
    | directory => exact ⟨d, rfl, hcalm⟩
    | file id => exact absurd (item?_eq_file_iff.2 ⟨id, he, rfl⟩) (hfree _)
  | none =>
    simp only [draw_eq, hcalm.plan, List.head?_nil, Option.join_none]
    exact ⟨_, rfl, rfl, hcalm.limit⟩

theorem Sound.makeDirectories {d d' : Disk} {p : Path} {r : Except Fault Unit}
    (hd : d.Sound) (h : d.makeDirectories p = (r, d')) : d'.Sound := by
  refine makeDirectories_induction (fun d plan hd => ?_)
    (fun d place hd hne hnone => ?_) hd h
  · exact (changesOnly_plan hd plan []).sound
  · have hmade := @changesOnly_concat d
      { d with entries := d.entries ++ [(place.key, .directory)] } place .directory
      hd hne hnone rfl (fun _ _ => rfl) (Nat.le_refl _) nofun
    exact hmade.sound

/-- Nothing is made where a directory is. -/
theorem makeDirectories_of_find {d : Disk} {p place : Path}
    (h : d.find p = .ok (place, .directory)) :
    d.makeDirectories p = (.ok (), d) := by
  rw [find] at h
  split at h
  · next hproper =>
    rw [makeDirectories, hproper]
    simp only [Bool.not_true, Bool.false_eq_true, if_false]
    split
    · -- The directory above is there too, and so is the path itself.
      have hparent : ∃ dir, d.walk [] p.parent = .ok (dir, .directory) := by
        have htrim := walk_trim h
        by_cases hnil : Path.trim p = []
        · rw [Path.parent, hnil]
          exact ⟨[], rfl⟩
        · rw [← List.dropLast_concat_getLast hnil] at htrim
          obtain ⟨dir, hdir, _⟩ := walk_concat htrim
          exact ⟨dir, walk_trim hdir⟩
      obtain ⟨dir, hdir⟩ := hparent
      have hisDirectory : d.isDirectory p = true := by
        rw [isDirectory, stat_eq_ok_iff.2 ⟨hproper, place, h⟩]
      rw [makeBelow_of_walk hdir]
      simp only [hisDirectory, if_true]
    · exact makeBelow_of_walk h
  · cases h

/-- A directory lists the names of what is in it. -/
theorem mem_list {d : Disk} (hd : d.Sound) {dir place : Path}
    (h : d.find dir = .ok (place, .directory)) :
    ∃ es, d.list dir = .ok es ∧
      (∀ name, (∃ e, (name, e) ∈ es) ↔ d.item? (place ++ [name]) ≠ none) ∧
      (∀ name e, d.entry? (place ++ [name]) = some e → (name, e) ∈ es) := by
  obtain ⟨es, hlist⟩ : ∃ es, d.list dir = .ok es := ⟨_, by rw [list, h]⟩
  have hes := hlist
  rw [list, h] at hes
  have hlisted : ∀ name e, d.entry? (place ++ [name]) = some e → (name, e) ∈ es := by
    intro name e he
    rw [← Except.ok.inj hes]
    refine List.mem_filterMap.2 ⟨_, mem_of_entry (by simp) he, ?_⟩
    simp [Path.key]
  refine ⟨es, hlist, ?_, hlisted⟩
  intro name
  rw [ne_eq, item?_eq_none_iff]
  constructor
  · rintro ⟨e, hmem⟩
    rw [← Except.ok.inj hes] at hmem
    obtain ⟨⟨⟨depth, q⟩, e'⟩, hx, hsome⟩ := List.mem_filterMap.1 hmem
    simp only at hsome
    split at hsome
    · next hcond =>
      rw [Bool.and_eq_true, beq_iff_eq, beq_iff_eq] at hcond
      have hkey := hd.keyed _ hx
      have hlength : depth = q.length := congrArg Prod.fst hkey
      have hne : q ≠ [] := by
        rintro rfl
        simp only [List.length_nil] at hlength
        omega
      -- The entry is filed under the directory and the name.
      have hq : q = place ++ [name] := by
        rw [← List.dropLast_concat_getLast hne, hcond.2]
        simp only [List.getLast?_eq_some_getLast hne, Option.getD_some,
          Option.some.injEq, Prod.mk.injEq] at hsome
        rw [hsome.1]
      intro hnone
      unfold entry? at hnone
      rw [if_neg (by simp), List.lookup_eq_none_iff] at hnone
      have hthis := hnone _ hx
      rw [hlength, hq] at hthis
      simp [Path.key] at hthis
    · cases hsome
  · intro hsome
    obtain ⟨e, he⟩ := Option.ne_none_iff_exists'.1 hsome
    exact ⟨e, hlisted name e he⟩

end Disk

end Chronicle
