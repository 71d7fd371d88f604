import Chronicle.Proofs.Disk.Within
import Chronicle.Proofs.Medium.Files
import Chronicle.Proofs.Medium.InFrames

/-!
# Media side by side

Below one directory each medium has a directory of its own and changes nothing
outside of it. On a disk with nothing in the way it stays in a state in which it can
be opened again as it is, whatever its neighbours do.

* `Kind.territory`: the part of the tree that belongs to a medium.
* `Files.read_same`: what a key reads in a directory of records depends on that
  directory alone.
* `Standing`: the medium can be opened again as it is.
* `Standing.turn`, `Standing.write`: neither neighbours nor writes change that.
* `Standing.reopen`, `standing_of_openIn`: what opening gives.
-/

namespace Chronicle

/-! ## Paths below a directory -/

/-- The path without an empty name at its end, where other names can follow. -/
def Path.base (p : Path) : Path := if p.getLast? = some "" then p.dropLast else p

namespace Path

theorem base_part (p : Path) : p.base <+: p := by
  rw [Path.base]
  split
  · exact List.dropLast_prefix p
  · exact List.prefix_refl p

theorem place_base (p : Path) : p.base.place = p.place := by
  rw [Path.base]
  split
  · next hlast =>
    obtain ⟨names, rfl⟩ := List.getLast?_eq_some_iff.1 hlast
    rw [List.dropLast_concat, place_concat]
    rfl
  · rfl

theorem join_eq (p : Path) {s : String} (hs : s.toList.head? ≠ some '/') :
    p.join s = p.base ++ ofText s := by
  rw [join, if_neg hs, Path.base]
  split <;> rfl

end Path

/-- Where a directory is found it is found without the empty name, too. -/
theorem Disk.find_base {d : Disk} {p q : Path} (h : d.find p = .ok (q, .directory)) :
    d.find p.base = .ok (p.place, .directory) := by
  rw [← p.place_base]
  exact find_part h p.base_part

/-- Only the last of the names can be missing. -/
theorem Disk.part_missing {d : Disk} {p q part : Path} {name : String}
    (h : d.find p = .ok (q, .directory)) (hpart : part <+: p ++ [name])
    (hnone : d.entry? part.place = none) : part = p ++ [name] := by
  rcases List.prefix_concat_iff.1 hpart with heq | hpart
  · exact heq
  · have hfound := (find_place (find_part h hpart)).2
    rw [hnone] at hfound
    cases hfound

namespace Medium

namespace Kind

/-- The name of the directory of a medium. -/
def folder : Kind → String
  | structured => "structured"
  | document => "documents"
  | recursive => "recursive"
  | archive => "archive"
  | glyph => "glyphs"

theorem own_folder (k : Kind) : Path.Own k.folder := by
  cases k <;> exact ⟨rfl, by decide, by decide⟩

theorem folder_inj {k l : Kind} (h : k.folder = l.folder) : k = l := by
  cases k <;> cases l <;> first | rfl | exact absurd h (by decide)

/-- The directory of a medium. -/
def home (k : Kind) (dir : Path) : Path := dir.base ++ [k.folder]

theorem place_home (k : Kind) (dir : Path) :
    (k.home dir).place = dir.place ++ [k.folder] := by
  rw [home, k.own_folder.place_concat, dir.place_base]

/-- What belongs to a medium: its directory, and everything in it. -/
def territory (k : Kind) (dir : Path) (q : Path) : Prop := (k.home dir).place <+: q

theorem territory_home (k : Kind) (dir : Path) : k.territory dir (k.home dir).place :=
  List.prefix_refl _

theorem territory_append {k : Kind} {dir q : Path} (h : k.territory dir q)
    (names : List String) :
    k.territory dir (q ++ names) := h.trans (List.prefix_append q names)

/-- No place belongs to two media. -/
theorem eq_of_territory {k l : Kind} {dir q : Path} (hk : k.territory dir q)
    (hl : l.territory dir q) : k = l := by
  rw [territory, place_home] at hk hl
  have hlength : (dir.place ++ [k.folder]).length =
      (dir.place ++ [l.folder]).length := by simp
  have hsame := List.prefix_of_prefix_length_le hk hl (Nat.le_of_eq hlength)
  have heq := hsame.eq_of_length hlength
  exact folder_inj (List.singleton_inj.1 (List.append_cancel_left heq))

/-- Nothing but the directory of the medium can be missing on the way to it. -/
theorem territory_of_missing {k : Kind} {dir q part : Path} {d : Disk}
    (hdir : d.find dir = .ok (q, .directory)) (hpart : part <+: k.home dir)
    (hnone : d.entry? part.place = none) : k.territory dir part.place := by
  rw [Disk.part_missing (Disk.find_base hdir) hpart hnone]
  exact territory_home k dir

end Kind

/-! ## Directories of records -/

namespace Files

/-- The root is a directory, and all that is in it are directories that can be
listed. -/
structure Rooted (root : Path) (d : Disk) : Prop where
  find : d.find root = .ok (root.place, .directory)
  below : ∀ name, d.entry? (root.place ++ [name]) ≠ none →
    ∃ q, d.find (root ++ [name]) = .ok (q, .directory)

variable {root : Path} {d d' : Disk} {T : Path → Prop}

theorem Rooted.turn (h : Rooted root d) (hw : Disk.Within T d d')
    (hout : ∀ name, ¬T (root.place ++ [name])) : Rooted root d' := by
  refine ⟨hw.find h.find, fun name hname => ?_⟩
  rw [hw.entry _ (hout name)] at hname
  obtain ⟨q, hfind⟩ := h.below name hname
  exact ⟨q, hw.find hfind⟩

/-- The directory of a key is made in the root, or nothing happens. -/
theorem Rooted.makeDirectories {key : String} {r : Except Disk.Fault Unit}
    (h : Rooted root d) (hd : d.Sound)
    (hmake : d.makeDirectories (root ++ [keyName key]) = (r, d')) :
    Rooted root d' ∧ Disk.Within (· = root.place ++ [keyName key]) d d' := by
  have hplace := (own_keyName key).place_concat root
  obtain ⟨hwithin, _⟩ :=
    Disk.makeDirectories_within (T := (· = root.place ++ [keyName key])) hd
    (fun part hpart hnone => by rw [Disk.part_missing h.find hpart hnone, hplace]) hmake
  refine ⟨⟨hwithin.find h.find, fun name hname => ?_⟩, hwithin⟩
  by_cases hkey : name = keyName key
  · subst hkey
    by_cases hproper : Path.isProper (root ++ [keyName key]) = true
    · have hchild : Disk.Child d root root.place (keyName key) :=
        ⟨h.find, own_keyName key, hproper⟩
      obtain ⟨hc, _, hsame | hdir⟩ := hchild.makeDirectories_spec hd hmake
      · have hold : d.entry? (root.place ++ [keyName key]) ≠ none := by
          rw [ne_eq, ← Disk.item?_eq_none_iff, ← hsame, Disk.item?_eq_none_iff]
          exact hname
        obtain ⟨q, hfind⟩ := h.below _ hold
        exact ⟨q, hwithin.find hfind⟩
      · have hfind := (hchild.of_changes hc).find
        rw [Disk.item?_eq_directory_iff.1 hdir] at hfind
        exact ⟨_, hfind⟩
    · rw [Disk.makeDirectories] at hmake
      simp only [hproper, Bool.not_false, if_true] at hmake
      cases hmake
      exact h.below _ hname
  · rw [hwithin.entry _ fun heq =>
      hkey (List.singleton_inj.1 (List.append_cancel_left heq))] at hname
    obtain ⟨q, hfind⟩ := h.below name hname
    exact ⟨q, hwithin.find hfind⟩

/-- A file two names below the root is written, or is not. -/
theorem Rooted.writeAtomic {f : Files} {r : Record} {bs : Bytes}
    {w : Except Disk.Fault Unit} (h : Rooted f.root d) (hd : d.Sound)
    (hwrite : d.writeAtomic (f.root ++ [keyName r.key] ++
      [fileName r.stamp (f.sequence + 1) f.format.extension]) bs = (w, d')) :
    Rooted f.root d' ∧ Disk.Within (f.root.place <+: ·) d d' := by
  have hplace {ext : String} (hext : Ending ext) :
      Path.place (f.root ++ [keyName r.key] ++
        [fileName r.stamp (f.sequence + 1) ext]) =
        f.root.place ++ [keyName r.key, fileName r.stamp (f.sequence + 1) ext] := by
    rw [(own_fileName _ _ hext).place_concat, (own_keyName _).place_concat,
      List.append_assoc]
    rfl
  have hw := Disk.writeAtomic_within
    (T := fun q => ∃ names, q = f.root.place ++ names ∧ names.length = 2) hd
    ⟨_, hplace (ending_extension f.format), rfl⟩
      ⟨_, by rw [besidePath_file, hplace ending_tmp], rfl⟩ hwrite
  refine ⟨h.turn hw ?_, hw.mono ?_⟩
  · rintro name ⟨names, heq, hlength⟩
    rw [← List.append_cancel_left heq] at hlength
    cases hlength
  · rintro q ⟨names, hq, _⟩
    exact ⟨names, hq.symm⟩

/-- A write changes only what is in the root, and all that is in it can still be
listed. -/
theorem Rooted.write {f f' : Files} {r : Record} {a : Answer Unit} (h : Rooted f.root d)
    (hd : d.Sound) (hwrite : f.write r d = (a, f', d')) :
    Rooted f.root d' ∧ Disk.Within (f.root.place <+: ·) d d' ∧ f'.root = f.root ∧
      f'.format = f.format ∧
      a ≠ .unanswered := by
  have hmade {e : Except Disk.Fault Unit} {d₁ : Disk}
      (hmake : d.makeDirectories (f.root ++ [keyName r.key]) = (e, d₁)) :
      Rooted f.root d₁ ∧ Disk.Within (f.root.place <+: ·) d d₁ := by
    obtain ⟨h₁, hw₁⟩ := h.makeDirectories hd hmake
    exact ⟨h₁, hw₁.mono fun q hq => ⟨[keyName r.key], hq.symm⟩⟩
  have hfiled {bs : Bytes} {w : Except Disk.Fault Unit} {d₁ d₂ : Disk}
      (hmake : d.makeDirectories (f.root ++ [keyName r.key]) = (.ok (), d₁))
      (hfile : d₁.writeAtomic (f.root ++ [keyName r.key] ++
        [fileName r.stamp (f.sequence + 1) f.format.extension]) bs =
        (w, d₂)) : Rooted f.root d₂ ∧ Disk.Within (f.root.place <+: ·) d d₂ := by
    obtain ⟨h₁, hw₁⟩ := hmade hmake
    obtain ⟨h₂, hw₂⟩ := h₁.writeAtomic hw₁.sound hfile
    exact ⟨h₂, hw₁.trans hw₂⟩
  cases write_eq_iff.1 hwrite with
  | unfit _ => exact ⟨h, .refl hd _, rfl, rfl, by simp⟩
  | noDirectory _ hmake => exact ⟨(hmade hmake).1, (hmade hmake).2, rfl, rfl, by simp⟩
  | noNumber _ hmake _ => exact ⟨(hmade hmake).1, (hmade hmake).2, rfl, rfl, by simp⟩
  | noFile _ hmake _ hfile =>
    exact ⟨(hfiled hmake hfile).1, (hfiled hmake hfile).2, rfl, rfl, by simp⟩
  | whole _ hmake _ hfile =>
    exact ⟨(hfiled hmake hfile).1, (hfiled hmake hfile).2, rfl, rfl, by simp⟩

/-- What a key reads depends on what is in the root alone. -/
theorem read_same {f : Files} {e : Disk}
    (hfind : d.find f.root = .ok (f.root.place, .directory))
    (hfind' : e.find f.root = .ok (f.root.place, .directory)) (hd : d.Sound)
    (he : e.Sound) (hsame : Disk.SameOn (f.root.place <+: ·) d e) (key : String) :
    f.read key d = f.read key e := by
  have hown := own_keyName key
  have hdir := hsame (Path.step f.root.place (keyName key))
    (by rw [hown.step]; exact List.prefix_append _ _)
  rw [Files.read, Files.read, latestPath?, latestPath?]
  simp only [keyDirectory_eq]
  rcases Disk.find_concat_same hfind hfind' hdir with ⟨g, hg, hg'⟩ | ⟨q, hq, hq'⟩ |
    ⟨q, id, id', hq, hq', _⟩
  · rw [latestName?, latestName?, Disk.list, Disk.list, hg, hg']
    cases g <;> rfl
  · obtain rfl : q = f.root.place ++ [keyName key] := by
      rw [(Disk.find_place hq).1, hown.place_concat]
    obtain ⟨es, hlist, hnames, _⟩ := Disk.mem_list hd hq
    obtain ⟨es', hlist', hnames', _⟩ := Disk.mem_list he hq'
    have hgreatest : latestName? d (f.root ++ [keyName key]) f.format.extension =
        latestName? e (f.root ++ [keyName key]) f.format.extension := by
      rw [latestName?, latestName?, hlist, hlist']
      refine congrArg Except.ok (greatest?_congr fun name => ?_)
      have hlisted (es : List (String × Disk.Entry)) : name ∈ es.map (·.1) ↔
          ∃ x, (name, x) ∈ es := by simp
      rw [List.mem_filter, List.mem_filter, hlisted, hlisted, hnames, hnames',
        hsame _ (by rw [List.append_assoc]; exact List.prefix_append _ _)]
    rw [← hgreatest]
    cases hlatest : latestName? d (f.root ++ [keyName key]) f.format.extension with
    | error g => rfl
    | ok best =>
      cases best with
      | none => rfl
      | some name =>
        have hread : d.read (f.root ++ [keyName key] ++ [name]) =
            e.read (f.root ++ [keyName key] ++ [name]) := by
          refine Disk.read_concat_same hq hq' (hsame _ ?_)
          rw [Path.step]
          split
          · exact List.prefix_append _ _
          · split
            · exact List.dropLast_concat.symm ▸ List.prefix_refl _
            · rw [List.append_assoc]
              exact List.prefix_append _ _
        simp only [Option.map_some, hread]
  · rw [latestName?, latestName?, Disk.list, Disk.list, hq, hq']

/-- The directory can be opened again, and nothing changes. -/
theorem Rooted.openAt (h : Rooted root d) (hd : d.Sound) (format : Format) :
    ∃ n, Files.openAt format root d = (.ok ⟨format, root, n⟩, d) := by
  obtain ⟨es, hlist, hnames, _⟩ := Disk.mem_list hd h.find
  obtain ⟨ns, hbelow, _⟩ := @sequencesBelow_spec root d es fun name hname => by
    obtain ⟨q, hfind⟩ := h.below name fun hnone =>
      (hnames name).1 ⟨_, hname⟩ (Disk.item?_eq_none_iff.2 hnone)
    exact ⟨_, by rw [Disk.list, hfind]⟩
  refine ⟨UInt64.ofNat (ns.foldl max 0), ?_⟩
  rw [Files.openAt, Disk.makeDirectories_of_find h.find]
  simp only [lastSequence, hlist, hbelow]

/-- What is looked through when a directory is opened can be listed. -/
theorem list_of_sequencesBelow {es : List (String × Disk.Entry)} {ns : List Nat}
    (h : sequencesBelow d root es = .ok ns) {name : String}
    (hname : (name, .directory) ∈ es) :
    ∃ inner, d.list (root ++ [name]) = .ok inner := by
  induction es generalizing ns with
  | nil => cases hname
  | cons entry es ih =>
    obtain ⟨first, kind⟩ := entry
    cases kind with
    | file id =>
      rcases List.mem_cons.1 hname with heq | hname
      · cases heq
      · exact ih h hname
    | directory =>
      rw [sequencesBelow] at h
      split at h
      · cases h
      · next inner hinner =>
        split at h
        · cases h
        · next rest hrest =>
          rcases List.mem_cons.1 hname with heq | hname
          · cases heq
            exact ⟨inner, hinner⟩
          · exact ih hrest hname

/-- Where no files are in the way, a directory that could be opened can be opened
again. -/
theorem rooted_of_openAt {format : Format} {f : Files} (hd : d.Sound)
    (hT : ∀ part : Path, part <+: root → d.entry? part.place = none → T part.place)
    (hfree : ∀ name id, d.entry? (root.place ++ [name]) ≠ some (.file id))
    (hopen : Files.openAt format root d = (.ok f, d')) :
    f.format = format ∧ f.root = root ∧ Rooted root d' ∧ Disk.Within T d d' := by
  rw [Files.openAt] at hopen
  cases hm : d.makeDirectories root with
  | mk r d₁ =>
    obtain ⟨hwithin, hfound⟩ := Disk.makeDirectories_within hd hT hm
    rw [hm] at hopen
    cases r with
    | error g => cases hopen
    | ok u =>
      have hfind := hfound rfl
      simp only at hopen
      split at hopen
      · cases hopen
      · next n hlast =>
        cases hopen
        refine ⟨rfl, rfl, ⟨hfind, fun name hname => ?_⟩, hwithin⟩
        obtain ⟨es, hlist, _, hentries⟩ := Disk.mem_list hwithin.sound hfind
        have hdir : d'.entry? (root.place ++ [name]) = some .directory := by
          obtain ⟨e, he⟩ := Option.ne_none_iff_exists'.1 hname
          cases e with
          | directory => exact he
          | file id => exact absurd (Disk.file_of_makeDirectories hm he) (hfree name id)
        rw [lastSequence, hlist] at hlast
        simp only at hlast
        split at hlast
        · cases hlast
        · next ns hbelow =>
          obtain ⟨inner, hinner⟩ := list_of_sequencesBelow hbelow (hentries name _ hdir)
          rw [Disk.list] at hinner
          split at hinner
          · next q hq => exact ⟨q, hq⟩
          · cases hinner
          · cases hinner

end Files

/-! ## Media in one file -/

section

variable {d d' : Disk} {T : Path → Prop} {p : Path}

theorem opened_within {r : Except Disk.Fault (Nat × Frame.Scan)} (hd : d.Sound)
    (hparts : ∀ part : Path, part <+: p.parent →
      d.entry? part.place = none → T part.place)
    (hT : T p.place) (h : Frame.opened p d = (r, d')) : Disk.Within T d d' := by
  rw [Frame.opened] at h
  cases hm : d.makeDirectories p.parent with
  | mk r₁ d₁ =>
    obtain ⟨h₁, _⟩ := Disk.makeDirectories_within hd hparts hm
    rw [hm] at h
    cases r₁ with
    | error f =>
      cases h
      exact h₁
    | ok u =>
      simp only at h
      cases ho : d₁.openOrCreate p with
      | mk r₂ d₂ =>
        obtain ⟨h₂, hfile⟩ := Disk.openOrCreate_within h₁.sound hT ho
        rw [ho] at h
        cases r₂ with
        | error f =>
          cases h
          exact h₁.trans h₂
        | ok id =>
          simp only at h
          split at h
          · cases ht : d₂.truncate id (Frame.scan (d₂.content id)).validLength with
            | mk r₃ d₃ =>
              have h₃ := Disk.truncate_within h₂.sound (hfile id rfl) hT ht
              rw [ht] at h
              cases r₃ with
              | error f =>
                cases h
                exact (h₁.trans h₂).trans h₃
              | ok u =>
                cases h
                exact (h₁.trans h₂).trans h₃
          · cases h
            exact h₁.trans h₂

theorem Structured.openAt_within [Table.Engine] [Table.LawfulEngine]
    {r : Except Error Structured} (hd : d.Sound)
    (hparts : ∀ part : Path, part <+: p.parent →
      d.entry? part.place = none → T part.place)
    (hT : ∀ q, Table.around p q → T q) (h : Structured.openAt p d = (r, d')) :
    Disk.Within T d d' := by
  rw [Structured.openAt] at h
  cases hm : d.makeDirectories p.parent with
  | mk r₁ d₁ =>
    obtain ⟨h₁, _⟩ := Disk.makeDirectories_within hd hparts hm
    rw [hm] at h
    cases r₁ with
    | error f =>
      cases h
      exact h₁
    | ok u =>
      simp only at h
      cases hconnect : Table.Engine.connect p d₁ with
      | mk x d₂ =>
        have h₂ := (Table.LawfulEngine.connect_within h₁.sound hconnect).mono hT
        rw [hconnect] at h
        cases x <;> cases h <;> exact h₁.trans h₂

/-- There is no file where a path leads, so there will be none when the directories
above are made. -/
theorem vacant_of_free (hfree : ∀ id, d.entry? p.place ≠ some (.file id)) :
    Frame.Vacant d p := by
  intro bs hread
  obtain ⟨id, hstat, _⟩ := Disk.stat_of_read hread
  have hmake : d.makeDirectories p.parent =
      ((d.makeDirectories p.parent).1, (d.makeDirectories p.parent).2) := rfl
  exact absurd (Disk.file_of_makeDirectories hmake (Disk.entry_of_stat hstat))
    (hfree id)

end

/-! ## Where media are -/

def InFrames.kind : InFrames → Kind
  | archive => .archive
  | lineage => .recursive

/-- The name of the file. -/
def InFrames.fileName : InFrames → String
  | archive => "archive.seg"
  | lineage => "nodes.journal"

def Format.kind : Format → Kind
  | document => .document
  | glyph => .glyph

theorem InFrames.own_fileName (x : InFrames) : Path.Own x.fileName := by
  cases x <;> exact ⟨rfl, by decide, by decide⟩

theorem own_tableName : Path.Own "memories.sqlite" := ⟨rfl, by decide, by decide⟩

theorem InFrames.path_eq (x : InFrames) (dir : Path) :
    x.kind.path dir = x.kind.home dir ++ [x.fileName] := by
  rw [Kind.home, List.append_assoc]
  cases x <;> exact dir.join_eq (by decide)

theorem path_structured (dir : Path) :
    Kind.structured.path dir = Kind.structured.home dir ++ ["memories.sqlite"] := by
  rw [Kind.home, List.append_assoc]
  exact dir.join_eq (by decide)

theorem Format.path_eq (format : Format) (dir : Path) :
    format.kind.path dir = format.kind.home dir := by
  cases format <;> exact dir.join_eq (by decide)

namespace Kind

variable {k : Kind} {dir : Path} {name : String}

/-- A file in the directory of a medium belongs to it. -/
theorem territory_file (hown : Path.Own name) :
    k.territory dir (Path.place (k.home dir ++ [name])) := by
  rw [hown.place_concat]
  exact territory_append (territory_home k dir) _

theorem parent_file (hown : Path.Own name) :
    Path.parent (k.home dir ++ [name]) = k.home dir := by
  rw [Disk.parent_concat hown.here, home, Disk.trim_concat_of_own k.own_folder.here]

end Kind

theorem InFrames.territory_path (x : InFrames) (dir : Path) :
    x.kind.territory dir (x.kind.path dir).place := by
  rw [x.path_eq]
  exact Kind.territory_file x.own_fileName

theorem InFrames.parent_path (x : InFrames) (dir : Path) :
    Path.parent (x.kind.path dir) = x.kind.home dir := by
  rw [x.path_eq, Kind.parent_file x.own_fileName]

theorem territory_structured (dir : Path) :
    Kind.structured.territory dir (Kind.structured.path dir).place := by
  rw [path_structured]
  exact Kind.territory_file own_tableName

theorem parent_structured (dir : Path) :
    Path.parent (Kind.structured.path dir) = Kind.structured.home dir := by
  rw [path_structured, Kind.parent_file own_tableName]

/-- What belongs to the table belongs to the medium, and nothing else does. -/
theorem around_structured_iff {dir q : Path} :
    Table.around (Kind.structured.path dir) q ↔ Kind.structured.territory dir q := by
  rw [Table.around, parent_structured]
  refine ⟨?_, .inr⟩
  rintro (rfl | h)
  · exact territory_structured dir
  · exact h

/-! ## Media that can be opened again as they are -/

variable [Compression] [Table.Engine]

theorem InFrames.openIn_eq (x : InFrames) (dir : Path) (d : Disk) :
    openIn x.kind dir d = (x.appendOnly (x.kind.path dir)).openOn d := by
  cases x <;> simp only [openIn, InFrames.kind, InFrames.appendOnly, AppendOnly.openOn]

theorem Format.openIn_eq (format : Format) (dir : Path) (d : Disk) :
    openIn format.kind dir d =
      ((Files.openAt format (format.kind.path dir) d).1.map Medium.files,
      (Files.openAt format (format.kind.path dir) d).2) := by
  cases format <;> rfl

variable [Table.LawfulEngine]

/-- The medium can be opened again as it is: all that it knows is in the frames of
its file, which are those of records with a property, or in the table of its file, or
in its directory. -/
inductive Standing (P : Record → Prop) (dir : Path) (d : Disk) :
    Kind → Medium → Prop where
  | frames (x : InFrames) {file : Nat} {rs : List Record} {m : Medium}
      (h : x.Stands (x.kind.path dir) file true m d rs) (hall : ∀ r ∈ rs, P r) :
      Standing P dir d x.kind m
  | table {connection : Nat} {t : Table}
      (h : Structured.Filed (Kind.structured.path dir) connection d t) :
      Standing P dir d .structured (.structured (.file connection))
  | files {f : Files} (hroot : f.root = f.format.kind.path dir)
      (h : Files.Rooted f.root d) :
      Standing P dir d f.format.kind (.files f)

variable {P : Record → Prop} {k : Kind} {dir : Path} {m m' : Medium} {d d' : Disk}
    {T : Path → Prop}

theorem Standing.name (h : Standing P dir d k m) : m.name = k.name := by
  cases h with
  | frames x h =>
    cases x with
    | archive =>
      obtain ⟨a, rfl, _⟩ := h.archive
      rfl
    | lineage =>
      obtain ⟨l, rfl, _⟩ := h.lineage
      rfl
  | table h => rfl
  | @files f hroot h =>
    show f.format.name = f.format.kind.name
    cases f.format <;> rfl

theorem Standing.home (h : Standing P dir d k m) :
    d.entry? (k.home dir).place = some .directory := by
  cases h with
  | frames x h =>
    have hstat := h.kept.stat
    rw [x.path_eq] at hstat
    exact Disk.entry_above hstat
  | table h =>
    have habove := h.above
    rw [parent_structured] at habove
    exact (Disk.find_place habove).2
  | @files f hroot h =>
    have hfind := h.find
    rw [hroot, f.format.path_eq] at hfind
    exact (Disk.find_place hfind).2

/-- What happens outside of its directory does not matter to a medium: it stands, and
reads what it read. -/
theorem Standing.turn (h : Standing P dir d k m) (hd : d.Sound)
    (hw : Disk.Within T d d') (hout : ∀ q, T q → ¬k.territory dir q) :
    Standing P dir d' k m ∧ ∀ key, m.read key d' = m.read key d := by
  cases h with
  | frames x h hall =>
    obtain ⟨hstat, hcontent⟩ :=
      hw.stat (fun hT => hout _ hT (x.territory_path dir)) h.kept.stat
    have hread : d'.read (x.kind.path dir) = d.read (x.kind.path dir) := by
      rw [Disk.read_of_stat hstat, Disk.read_of_stat h.kept.stat, hcontent]
    refine ⟨.frames x ⟨h.state,
      h.kept.of_same hw.sound.wellFormed (hstat.trans h.kept.stat.symm) hread⟩ hall,
      fun key => ?_⟩
    cases x with
    | archive =>
      obtain ⟨a, rfl, rfl, _⟩ := h.archive
      simp only [Medium.read, Archive.read, hcontent]
    | lineage =>
      obtain ⟨l, rfl, _⟩ := h.lineage
      rfl
  | @table connection t h =>
    have hspares := Table.Spares.of_within hw fun q hq haround =>
      hout q hq (around_structured_iff.1 haround)
    have hholds := Table.LawfulEngine.turn h.holds hspares
    refine ⟨.table ⟨hw.sound, hholds, hw.find h.above⟩, fun key => ?_⟩
    simp only [Medium.read, Structured.read, Structured.rows,
      Table.LawfulEngine.rows_of_holds h.holds, Table.LawfulEngine.rows_of_holds hholds]
  | @files f hroot h =>
    have hinside : ∀ q, f.root.place <+: q → ¬T q := by
      intro q hq hT
      rw [hroot, f.format.path_eq] at hq
      exact hout q hT hq
    refine ⟨.files hroot (h.turn hw fun name => hinside _ (List.prefix_append _ _)),
      fun key => ?_⟩
    have hsame : Disk.SameOn (f.root.place <+: ·) d' d :=
      fun q hq => hw.item_eq (hinside q hq)
    simp only [Medium.read, Files.read_same (hw.find h.find) h.find
      hw.sound hd hsame key]

/-- On a disk with nothing in the way a write changes nothing outside of the
directory of the medium. -/
theorem Standing.write {r : Record} {a : Answer Unit} (h : Standing P dir d k m)
    (hr : P r) (hd : d.Sound) (hcalm : d.Calm) (hwrite : m.write r d = (a, m', d')) :
    Standing P dir d' k m' ∧ Disk.Within (k.territory dir) d d' ∧ a ≠ .unanswered := by
  cases h with
  | @frames x file rs m h hall =>
    rcases h.write_cases (fun _ => rfl) hwrite with ⟨_, ⟨_, rfl⟩, rfl, rfl⟩ |
      ⟨_, ⟨hfalse, _⟩ | ⟨_, happend, rfl, _⟩ | ⟨_, f, d₁, _, happend, _⟩⟩
    · exact ⟨.frames x h hall, .refl hd _, by simp⟩
    · cases hfalse
    · have hall' : ∀ x ∈ rs ++ [r], P x := by
        intro x hx
        rcases List.mem_append.1 hx with hx | hx
        · exact hall x hx
        · rw [List.mem_singleton.1 hx]
          exact hr
      exact ⟨.frames x (h.write_ok hwrite).2.2 hall',
        Disk.append_within hd (Disk.entry_of_stat h.kept.stat) (x.territory_path dir)
          happend, by simp⟩
    · obtain ⟨_, hok, _⟩ := hcalm.append file (Frame.encode (m.payloadFor r))
      rw [happend] at hok
      cases hok
  | @table connection t h =>
    cases hrow : Table.Row.ofRecord r with
    | error e =>
      simp only [Medium.write, Structured.write, hrow] at hwrite
      cases hwrite
      exact ⟨.table h, .refl hd _, by simp [Answer.ofExcept]⟩
    | ok row =>
      cases hinsert : Table.Engine.insert connection row d with
      | mk x d₁ =>
        have hwithin := (Table.LawfulEngine.insert_within h.holds hinsert).mono fun _ =>
          around_structured_iff.1
        simp only [Medium.write, Structured.write, hrow, Structured.insert, hinsert]
          at hwrite
        cases x <;> cases hwrite <;>
          exact ⟨.table (h.insert hinsert), hwithin, by simp [Answer.ofExcept]⟩
  | @files f hroot h =>
    cases hw : f.write r d with
    | mk b rest =>
      obtain ⟨f', d₁⟩ := rest
      simp only [Medium.write, hw] at hwrite
      cases hwrite
      obtain ⟨h', hwithin, hroot', hformat, ha⟩ := h.write hd hw
      rw [hroot, f.format.path_eq] at hwithin
      refine ⟨?_, hwithin, ha⟩
      rw [← hformat]
      exact .files (by rw [hroot', hformat, hroot]) (by rw [hroot']; exact h')

/-- On a disk with nothing in the way a medium is opened again as it is. -/
theorem Standing.reopen (h : Standing P dir d k m) (hP : ∀ r, P r → r.Sized)
    (hd : d.Sound) (hcalm : d.Calm) :
    ∃ m' d', openIn k dir d = (.ok m', d') ∧ Standing P dir d' k m' ∧
      Disk.Within (k.territory dir) d d' ∧
      ∀ key, m'.read key d' = m.read key d := by
  cases h with
  | @frames x file rs m h hall =>
    have hsized : x.Sized rs := x.sized_of_forall fun r hr => hP r (hall r hr)
    have hopen : openIn x.kind dir d = (.ok m, d) := by
      have hfound :=
        (InFrames.openOn_eq_ok_iff (x := x)).2 ⟨_, _, h.kept.opened_whole, rfl⟩
      rw [InFrames.found_scanOf h.kept.framed hsized, ← InFrames.withReady_after,
        ← h.state] at hfound
      rw [x.openIn_eq]
      exact hfound
    exact ⟨m, d, hopen, .frames x h hall, .refl hd _, fun _ => rfl⟩
  | @table connection t h =>
    obtain ⟨c, d', hconnect⟩ := Table.LawfulEngine.connect_calm h.holds hcalm
    have hwithin := Table.LawfulEngine.connect_within hd hconnect
    have hholds := Table.LawfulEngine.connect_holds h.holds hconnect
    refine ⟨.structured (.file c), d', ?_,
      .table ⟨hwithin.sound, hholds, hwithin.find h.above⟩,
      hwithin.mono fun _ => around_structured_iff.1, fun key => ?_⟩
    · simp only [openIn, Structured.openAt,
        Disk.makeDirectories_of_find h.above, hconnect]
      rfl
    · simp only [Medium.read, Structured.read, Structured.rows,
        Table.LawfulEngine.rows_of_holds h.holds,
        Table.LawfulEngine.rows_of_holds hholds]
  | @files f hroot h =>
    obtain ⟨n, hopen⟩ := h.openAt hd f.format
    obtain ⟨format, root, sequence⟩ := f
    refine ⟨.files ⟨format, root, n⟩, d, ?_,
      @Standing.files _ _ _ _ _ _ ⟨format, root, n⟩ hroot h, .refl hd _, fun key => rfl⟩
    simp only at hroot hopen
    cases format <;> simp only [openIn, Format.kind]
      at hroot hopen ⊢ <;> rw [← hroot, hopen] <;> rfl

/-- A medium that is opened below a directory where it finds no files can be opened
again as it is. -/
theorem standing_of_openIn {q : Path} (hd : d.Sound)
    (hdir : d.find dir = .ok (q, .directory))
    (hfree : ∀ q id, k.territory dir q → d.entry? q ≠ some (.file id))
    (hopen : openIn k dir d = (.ok m, d')) :
    Standing P dir d' k m ∧ Disk.Within (k.territory dir) d d' := by
  have hmissing (part : Path) (hpart : part <+: k.home dir) :=
    Kind.territory_of_missing (k := k) hdir hpart
  have hframes (x : InFrames) (hk : k = x.kind) : Standing P dir d' k m ∧
      Disk.Within (k.territory dir) d d' := by
    subst hk
    rw [x.openIn_eq] at hopen
    have hplace := x.territory_path dir
    obtain ⟨file, h⟩ := InFrames.openOn_vacant hd.wellFormed
      (vacant_of_free fun id => hfree _ id hplace) hopen
    obtain ⟨_, _, hopened, _⟩ := InFrames.openOn_eq_ok_iff.1 hopen
    exact ⟨.frames x h fun r hr => (List.not_mem_nil hr).elim,
      opened_within hd (by rw [x.parent_path]; exact hmissing) hplace hopened⟩
  have hfiles (format : Format) (hk : k = format.kind) :
      Standing P dir d' k m ∧ Disk.Within (k.territory dir) d d' := by
    subst hk
    rw [format.openIn_eq] at hopen
    obtain ⟨f, ho, rfl⟩ := AppendOnly.map_eq_ok hopen
    rw [format.path_eq] at ho
    obtain ⟨rfl, hroot, h, hwithin⟩ :=
      Files.rooted_of_openAt hd hmissing (fun name id =>
      hfree _ id (Kind.territory_append (Kind.territory_home _ dir) [name])) ho
    exact ⟨.files (by rw [hroot, Format.path_eq]) (by rw [hroot]; exact h), hwithin⟩
  cases k with
  | archive => exact hframes .archive rfl
  | recursive => exact hframes .lineage rfl
  | document => exact hfiles .document rfl
  | glyph => exact hfiles .glyph rfl
  | structured =>
    simp only [openIn] at hopen
    obtain ⟨s, ho, rfl⟩ := AppendOnly.map_eq_ok hopen
    have hvacant : Table.Vacant (Kind.structured.path dir) d :=
      fun q id haround hfile =>
        absurd hfile (hfree q id (around_structured_iff.1 haround))
    obtain ⟨t, hholds, _⟩ := Structured.openAt_vacant hd hvacant ho
    have hwithin :=
      Structured.openAt_within hd (by rw [parent_structured]; exact hmissing)
      (fun _ => around_structured_iff.1) ho
    cases s with
    | memory rows => cases hholds
    | file connection => exact ⟨.table hholds, hwithin⟩

end Medium

end Chronicle
