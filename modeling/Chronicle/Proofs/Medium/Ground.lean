import Chronicle.Proofs.Disk.Atomic
import Chronicle.Proofs.Disk.Within
import Chronicle.Proofs.Medium.FileName

/-!
# The ground of a directory of records

In the directory of a medium with a file for each record there are directories of
keys, and in these there are files. On such ground every call is understood without
knowing which records there are.

* `Ground`: what the calls need.
* `Ground.latestName`: among which names the latest one of a key is looked for.
* `Ground.openAt`: opening finds all running numbers.
* `Writes`, `write_eq_iff`: the ways in which a write goes.
* `Wrote`, `Ground.write`: a write leaves the file of its record in full if it is
  acknowledged, and all other files with the extension of the format as they were,
  wherever it stops.
* `Ground.write_calm`, `Ground.write_stopped`: with nothing in the way it is
  acknowledged, and it can stop after any number of bytes.
-/

namespace Chronicle.Medium.Files

/-- The root leads to a place with directories of keys in it, and in these are no
directories. -/
structure Ground (root place : Path) (d : Disk) : Prop where
  sound : d.Sound
  room : Roomy root
  root : d.find root = .ok (place, .directory)
  directories : ∀ name, d.item? (place ++ [name]) ≠ none →
    d.item? (place ++ [name]) = some .directory ∧ ∃ key, name = keyName key
  plain : ∀ dir name, d.item? (place ++ [dir] ++ [name]) ≠ some .directory

variable {f f' : Files} {root place : Path} {d d' : Disk} {key : String} {r : Record}
    {a : Answer Unit}

theorem concat_ne_concat_concat (place : Path) (name dir file : String) :
    place ++ [dir] ++ [file] ≠ place ++ [name] := by
  intro h
  have := congrArg List.length h
  simp at this

namespace Ground

theorem keyChild (h : Ground root place d) (key : String) :
    Disk.Child d root place (keyName key) :=
  ⟨h.root, own_keyName key,
    proper_keyDirectory h.room (Disk.find_eq_ok_iff.1 h.root).1 key⟩

theorem find_key (h : Ground root place d)
    (hdir : d.item? (place ++ [keyName key]) = some .directory) :
    d.find (root ++ [keyName key]) = .ok (place ++ [keyName key], .directory) := by
  rw [(h.keyChild key).find, Disk.item?_eq_directory_iff.1 hdir]

theorem fileChild (h : Ground root place d)
    (hdir : d.item? (place ++ [keyName key]) = some .directory) (t : Timestamp)
    (n : UInt64) {ext : String} (hext : Ending ext) :
    Disk.Child d (root ++ [keyName key]) (place ++ [keyName key]) (fileName t n ext) :=
  ⟨h.find_key hdir, own_fileName t n hext,
    proper_file h.room (Disk.find_eq_ok_iff.1 h.root).1 key t n hext⟩

/-- There is no file where a key has its directory. -/
theorem free (h : Ground root place d) (key : String) (bs : Bytes) :
    d.item? (place ++ [keyName key]) ≠ some (.file bs) := by
  intro hfile
  have hdir := (h.directories (keyName key) (by rw [hfile]; simp)).1
  rw [hfile] at hdir
  cases hdir

/-- What happens outside of the directory does not matter. -/
theorem of_same (h : Ground root place d) (hd : d'.Sound)
    (hroot : d'.find root = d.find root)
    (hsame : ∀ names, d'.item? (place ++ names) = d.item? (place ++ names)) :
    Ground root place d' := by
  refine ⟨hd, h.room, hroot.trans h.root, fun name => ?_, fun dir name => ?_⟩
  · rw [hsame]
    exact h.directories name
  · rw [List.append_assoc, hsame, ← List.append_assoc]
    exact h.plain dir name

/-- The plan of mishaps and the limit are nowhere. -/
theorem planned (h : Ground root place d) (plan : List (Option Nat))
    (limit : Option Nat) :
    Ground root place { d with plan := plan, limit := limit } := by
  have hc :=
    @Disk.changesOnly_of_eq d { d with plan := plan, limit := limit } h.sound rfl rfl []
  exact h.of_same hc.sound ((hc.find h.root).trans h.root.symm) fun names =>
    hc.same _ List.not_mem_nil

end Ground

/-! ## Reading -/

/-- Among which names the latest one of a key is looked for. -/
theorem latestName?_of_child (hd : d.Sound)
    (hchild : Disk.Child d root place (keyName key))
    (hfree : ∀ bs, d.item? (place ++ [keyName key]) ≠ some (.file bs)) (ext : String) :
    ∃ names, latestName? d (root ++ [keyName key]) ext = .ok (greatest? names) ∧
      ∀ name, name ∈ names ↔ d.item? (place ++ [keyName key]) = some .directory ∧
        d.item? (place ++ [keyName key] ++ [name]) ≠ none ∧
        Path.extension? name = some ext := by
  have hfind := hchild.find
  cases hdir : d.item? (place ++ [keyName key]) with
  | none =>
    rw [Disk.item?_eq_none_iff.1 hdir] at hfind
    refine ⟨[], by rw [latestName?, Disk.list, hfind]; rfl, ?_⟩
    intro name
    simp
  | some item =>
    cases item with
    | file bs => exact absurd hdir (hfree bs)
    | directory =>
      rw [Disk.item?_eq_directory_iff.1 hdir] at hfind
      obtain ⟨es, hlist, hnames, _⟩ := Disk.mem_list hd hfind
      refine ⟨_, by rw [latestName?, hlist], ?_⟩
      intro name
      have hlisted : name ∈ es.map (·.1) ↔ ∃ x, (name, x) ∈ es := by simp
      rw [List.mem_filter, hlisted, hnames, beq_iff_eq]
      simp

theorem Ground.latestName (h : Ground root place d) (key ext : String) :
    ∃ names, latestName? d (keyDirectory root key) ext = .ok (greatest? names) ∧
      ∀ name, name ∈ names ↔ d.item? (place ++ [keyName key]) = some .directory ∧
        d.item? (place ++ [keyName key] ++ [name]) ≠ none ∧
        Path.extension? name = some ext := by
  rw [keyDirectory_eq]
  exact latestName?_of_child h.sound (h.keyChild key) (h.free key) ext

/-! ## Opening -/

/-- If every directory can be listed, the running numbers of all files in them are
found. -/
theorem sequencesBelow_spec {es : List (String × Disk.Entry)}
    (hlist : ∀ name, (name, .directory) ∈ es →
      ∃ inner, d.list (root ++ [name]) = .ok inner) :
    ∃ ns, sequencesBelow d root es = .ok ns ∧ (∀ n ∈ ns, n < UInt64.size) ∧
      ∀ name inner file e n, (name, .directory) ∈ es →
      d.list (root ++ [name]) = .ok inner → (file, e) ∈ inner →
        sequenceOf? file = some n → n ∈ ns := by
  induction es with
  | nil =>
    refine ⟨[], rfl, fun n hn => (List.not_mem_nil hn).elim, ?_⟩
    intro name inner file e n hname
    cases hname
  | cons entry es ih =>
    obtain ⟨ns, hbelow, hsmall, hfound⟩ :=
      ih fun name hname => hlist name (List.mem_cons_of_mem _ hname)
    obtain ⟨first, kind⟩ := entry
    cases kind with
    | file id =>
      refine ⟨ns, hbelow, hsmall, ?_⟩
      intro name inner file e n hname
      rcases List.mem_cons.1 hname with heq | hname
      · cases heq
      · exact hfound name inner file e n hname
    | directory =>
      obtain ⟨inner, hinner⟩ := hlist first List.mem_cons_self
      refine ⟨(inner.filterMap fun entry => sequenceOf? entry.1) ++ ns, ?_, ?_, ?_⟩
      · rw [sequencesBelow, hinner]
        simp only [hbelow]
      · intro n hn
        rcases List.mem_append.1 hn with hn | hn
        · obtain ⟨_, _, hsome⟩ := List.mem_filterMap.1 hn
          exact Text.Decimal.lt_of_read? hsome
        · exact hsmall n hn
      · intro name inner' file e n hname hinner' hfile hsequence
        rcases List.mem_cons.1 hname with heq | hname
        · cases heq
          rw [hinner] at hinner'
          cases hinner'
          exact List.mem_append_left
            _ (List.mem_filterMap.2 ⟨(file, e), hfile, hsequence⟩)
        · exact List.mem_append_right
            _ (hfound name inner' file e n hname hinner' hfile hsequence)

theorem le_foldl_max (ns : List Nat) (m : Nat) :
    m ≤ ns.foldl max m ∧ ∀ n ∈ ns, n ≤ ns.foldl max m := by
  induction ns generalizing m with
  | nil => exact ⟨Nat.le_refl _, nofun⟩
  | cons k ns ih =>
    obtain ⟨hfirst, hrest⟩ := ih (max m k)
    rw [List.foldl_cons]
    refine ⟨by omega, fun n hn => ?_⟩
    rcases List.mem_cons.1 hn with rfl | hn
    · omega
    · exact hrest n hn

theorem foldl_max_lt {ns : List Nat} {m bound : Nat} (hm : m < bound)
    (h : ∀ n ∈ ns, n < bound) : ns.foldl max m < bound := by
  induction ns generalizing m with
  | nil => exact hm
  | cons k ns ih =>
    refine ih ?_ fun n hn => h n (List.mem_cons_of_mem _ hn)
    have hk := h k List.mem_cons_self
    omega

/-- The directory can be opened again, nothing changes, and it counts on from the
greatest number in it, be it that of a record or of a file beside. -/
theorem Ground.openAt (h : Ground root place d) (format : Format) :
    ∃ n, Files.openAt format root d = (.ok ⟨format, root, n⟩, d) ∧
      ∀ dir name k, d.item? (place ++ [dir]) = some .directory →
      d.item? (place ++ [dir] ++ [name]) ≠ none →
        sequenceOf? name = some k → k ≤ n.toNat := by
  obtain ⟨es, hlist, hnames, hentries⟩ := Disk.mem_list h.sound h.root
  -- Whatever is in the directory can be listed.
  have hfind : ∀ name, d.item? (place ++ [name]) ≠ none →
      d.find (root ++ [name]) = .ok (place ++ [name], .directory) := by
    intro name hname
    obtain ⟨hdir, key, rfl⟩ := h.directories name hname
    exact h.find_key hdir
  obtain ⟨ns, hbelow, hsmall, hfound⟩ :=
    @sequencesBelow_spec root d es fun name hname => by
    obtain ⟨inner, hinner, _⟩ :=
      Disk.mem_list h.sound (hfind name ((hnames name).1 ⟨_, hname⟩))
    exact ⟨inner, hinner⟩
  have hlast : lastSequence d root = .ok (ns.foldl max 0) := by
    rw [lastSequence, hlist]
    simp only [hbelow]
  refine ⟨UInt64.ofNat (ns.foldl max 0), ?_, ?_⟩
  · rw [Files.openAt, Disk.makeDirectories_of_find h.root]
    simp only [hlast]
  · intro dir name k hdir hname hk
    obtain ⟨inner, hinner, hfiles, _⟩ :=
      Disk.mem_list h.sound (hfind dir (by rw [hdir]; simp))
    obtain ⟨e, hfile⟩ := (hfiles name).2 hname
    have hmem := hfound dir inner name e k
      (hentries _ _ (Disk.item?_eq_directory_iff.1 hdir)) hinner hfile hk
    rw [UInt64.toNat_ofNat_of_lt' (foldl_max_lt (by decide) hsmall)]
    exact (le_foldl_max ns 0).2 _ hmem

/-! ## Writing -/

theorem toNat_succ {n : UInt64} (h : n.toNat + 1 ≠ UInt64.size) :
    (n + 1).toNat = n.toNat + 1 := by
  have hlt := n.toNat_lt_size
  rw [UInt64.toNat_add]
  have hone : (1 : UInt64).toNat = 1 := rfl
  rw [UInt64.size] at h hlt
  omega

/-- The ways in which a write goes, by how far it comes. -/
inductive Writes (f : Files) (r : Record) (d : Disk) :
    Answer Unit → Files → Disk → Prop where
  | unfit {e : Error} (hencode : f.format.encode r = .error e) :
      Writes f r d (.failed e) f d
  | noDirectory {bs : Bytes} {g : Disk.Fault} {d₁ : Disk}
      (hencode : f.format.encode r = .ok bs)
      (hmake : d.makeDirectories (f.root ++ [keyName r.key]) = (.error g, d₁)) :
      Writes f r d (.failed .disk) f d₁
  | noNumber {bs : Bytes} {d₁ : Disk} (hencode : f.format.encode r = .ok bs)
      (hmake : d.makeDirectories (f.root ++ [keyName r.key]) = (.ok (), d₁))
      (hlast : f.sequence.toNat + 1 = UInt64.size) :
      Writes f r d .brokeDown { f with sequence := 0 } d₁
  | noFile {bs : Bytes} {g : Disk.Fault} {d₁ d₂ : Disk}
      (hencode : f.format.encode r = .ok bs)
      (hmake : d.makeDirectories (f.root ++ [keyName r.key]) = (.ok (), d₁))
      (hleft : f.sequence.toNat + 1 ≠ UInt64.size)
      (hfile : d₁.writeAtomic (f.root ++ [keyName r.key] ++
        [fileName r.stamp (f.sequence + 1) f.format.extension]) bs = (.error g, d₂)) :
      Writes f r d (.failed .disk) { f with sequence := f.sequence + 1 } d₂
  | whole {bs : Bytes} {d₁ d₂ : Disk} (hencode : f.format.encode r = .ok bs)
      (hmake : d.makeDirectories (f.root ++ [keyName r.key]) = (.ok (), d₁))
      (hleft : f.sequence.toNat + 1 ≠ UInt64.size)
      (hfile : d₁.writeAtomic (f.root ++ [keyName r.key] ++
        [fileName r.stamp (f.sequence + 1) f.format.extension]) bs = (.ok (), d₂)) :
      Writes f r d (.done ()) { f with sequence := f.sequence + 1 } d₂

theorem write_eq_iff : f.write r d = (a, f', d') ↔ Writes f r d a f' d' := by
  constructor
  · intro h
    rw [Files.write] at h
    split at h
    · next hencode =>
      cases h
      exact .unfit hencode
    · next bs hencode =>
      simp only [keyDirectory_eq] at h
      split at h
      · next hmake =>
        cases h
        exact .noDirectory hencode hmake
      · next hmake =>
        split at h
        · next hlast =>
          cases h
          exact .noNumber hencode hmake hlast
        · next hleft =>
          split at h
          · next hfile =>
            cases h
            exact .noFile hencode hmake hleft hfile
          · next hfile =>
            cases h
            exact .whole hencode hmake hleft hfile
  · intro h
    rw [Files.write]
    cases h with
    | unfit hencode => rw [hencode]
    | noDirectory hencode hmake => simp only [hencode, keyDirectory_eq, hmake]
    | noNumber hencode hmake hlast =>
      simp only [hencode, keyDirectory_eq, hmake, if_pos hlast]
    | noFile hencode hmake hleft hfile =>
      simp only [hencode, keyDirectory_eq, hmake, if_neg hleft, hfile]
    | whole hencode hmake hleft hfile =>
      simp only [hencode, keyDirectory_eq, hmake, if_neg hleft, hfile]

/-- A name with the extension of a format is not that of a file beside. -/
theorem ne_beside {format : Format} {name : String} {t : Timestamp} {n : UInt64}
    (h : Path.extension? name = some format.extension) : name ≠ fileName t n "tmp" := by
  rintro rfl
  rw [extension?_fileName _ _ ending_tmp] at h
  exact extension_ne_tmp format (Option.some.inj h).symm

theorem fileName_ne_beside (format : Format) (t : Timestamp) (n : UInt64) :
    fileName t n format.extension ≠ fileName t n "tmp" :=
  ne_beside (extension?_fileName t n (ending_extension format))

theorem besidePath_file (f : Files) (key : String) (t : Timestamp) (n : UInt64) :
    Disk.besidePath (f.root ++ [keyName key] ++ [fileName t n f.format.extension]) =
      f.root ++ [keyName key] ++ [fileName t n "tmp"] := by
  rw [Disk.besidePath, List.dropLast_concat, List.getLast?_concat, Option.getD_some,
    withExtension_fileName _ _ (ending_extension f.format)]

/-- Writing a file changes what is under its name and beside it, and neither
directories nor files of other names. -/
theorem same_of_write {format : Format} {t : Timestamp} {n : UInt64}
    (hc : Disk.ChangesOnly [place ++ [keyName key] ++ [fileName t n format.extension],
      place ++ [keyName key] ++ [fileName t n "tmp"]] d d') :
    (∀ name, d'.item? (place ++ [name]) = d.item? (place ++ [name])) ∧
      ∀ dir name, Path.extension? name = some format.extension →
        ¬(dir = keyName key ∧ name = fileName t n format.extension) →
        d'.item? (place ++ [dir] ++ [name]) = d.item? (place ++ [dir] ++ [name]) := by
  constructor
  · intro name
    refine hc.same _ ?_
    simp only [List.mem_cons, List.not_mem_nil, or_false, not_or]
    exact ⟨(concat_ne_concat_concat _ _ _ _).symm,
      (concat_ne_concat_concat _ _ _ _).symm⟩
  · intro dir name hname hother
    refine hc.same _ ?_
    simp only [List.mem_cons, List.not_mem_nil, or_false, not_or, List.append_assoc,
      List.singleton_append, List.append_cancel_left_eq, List.cons.injEq, and_true]
    exact ⟨hother, fun hplace => ne_beside hname hplace.2⟩

namespace Ground

/-- A key's directory may be made, and a failed write may have made it. -/
theorem after_directory (h : Ground root place d)
    (hc : Disk.ChangesOnly [place ++ [keyName key]] d d')
    (hmade : d'.item? (place ++ [keyName key]) = d.item? (place ++ [keyName key]) ∨
      d'.item? (place ++ [keyName key]) = some .directory) :
    Ground root place d' ∧
      ∀ dir name, d'.item? (place ++ [dir] ++ [name]) =
        d.item? (place ++ [dir] ++ [name]) := by
  have hfile : ∀ dir name, d'.item? (place ++ [dir] ++ [name]) =
      d.item? (place ++ [dir] ++ [name]) := by
    intro dir name
    refine hc.same _ ?_
    rw [List.mem_singleton]
    exact concat_ne_concat_concat _ _ _ _
  refine ⟨⟨hc.sound, h.room, hc.find h.root, fun name hname => ?_, fun dir name => ?_⟩,
    hfile⟩
  · by_cases hkey : name = keyName key
    · subst hkey
      rcases hmade with hsame | hdir
      · rw [hsame] at hname ⊢
        exact h.directories _ hname
      · exact ⟨hdir, key, rfl⟩
    · have hsame := hc.same (place ++ [name]) (by simpa using hkey)
      rw [hsame] at hname ⊢
      exact h.directories _ hname
  · rw [hfile]
    exact h.plain dir name

/-- A file may be written under one name, with another one beside it. -/
theorem after_file {format : Format} {t : Timestamp} {n : UInt64}
    (h : Ground root place d)
    (hc : Disk.ChangesOnly [place ++ [keyName key] ++ [fileName t n format.extension],
      place ++ [keyName key] ++ [fileName t n "tmp"]] d d')
    (hname : d'.item? (place ++ [keyName key] ++ [fileName t n format.extension]) ≠
      some .directory)
    (hbeside : d'.item? (place ++ [keyName key] ++ [fileName t n "tmp"]) ≠
      some .directory) :
    Ground root place d' := by
  have hdirectory := (same_of_write hc).1
  refine ⟨hc.sound, h.room, hc.find h.root, fun name => ?_, fun dir name => ?_⟩
  · rw [hdirectory]
    exact h.directories name
  · by_cases hplace : dir = keyName key ∧ name = fileName t n format.extension
    · rw [hplace.1, hplace.2]
      exact hname
    · by_cases hplace' : dir = keyName key ∧ name = fileName t n "tmp"
      · rw [hplace'.1, hplace'.2]
        exact hbeside
      · rw [hc.same]
        · exact h.plain dir name
        · simpa using ⟨fun h₁ h₂ => hplace ⟨h₁, h₂⟩, fun h₁ h₂ => hplace' ⟨h₁, h₂⟩⟩

end Ground

/-- What a write leaves: the file of its record in full if it is acknowledged, and
all other files with the extension of the format as they were. -/
structure Wrote (f : Files) (place : Path) (r : Record) (d : Disk) (a : Answer Unit)
    (f' : Files) (d' : Disk) : Prop where
  root : f'.root = f.root
  format : f'.format = f.format
  ground : Ground f.root place d'
  stays : ∀ name, d.item? (place ++ [name]) = some .directory →
    d'.item? (place ++ [name]) = some .directory
  number : a ≠ .brokeDown →
    f'.sequence = f.sequence ∨
    (f.sequence.toNat + 1 < UInt64.size ∧ f'.sequence = f.sequence + 1)
  done : a = .done () → f.sequence.toNat + 1 < UInt64.size ∧
    f'.sequence = f.sequence + 1 ∧
    d'.item? (place ++ [keyName r.key]) = some .directory ∧
    ∃ bs, f.format.encode r = .ok bs ∧
      d'.item? (place ++ [keyName r.key] ++
        [fileName r.stamp (f.sequence + 1) f.format.extension]) = some (.file bs)
  same : ∀ dir name, Path.extension? name = some f.format.extension →
    ¬(a = .done () ∧ dir = keyName r.key ∧
      name = fileName r.stamp (f.sequence + 1) f.format.extension) →
    d'.item? (place ++ [dir] ++ [name]) = d.item? (place ++ [dir] ++ [name])

namespace Ground

/-- A write that comes to its end before it has a file has made a directory at most. -/
theorem wrote_of_directory (h : Ground f.root place d)
    (hc : Disk.ChangesOnly [place ++ [keyName r.key]] d d')
    (hmade : d'.item? (place ++ [keyName r.key]) = d.item? (place ++ [keyName r.key]) ∨
      d'.item? (place ++ [keyName r.key]) = some .directory)
    (hroot : f'.root = f.root) (hformat : f'.format = f.format)
    (hnumber : a ≠ .brokeDown → f'.sequence = f.sequence) (hnot : a ≠ .done ()) :
    Wrote f place r d a f' d' := by
  obtain ⟨hground, hfile⟩ := h.after_directory hc hmade
  exact ⟨hroot, hformat, hground, fun name => hc.directory _,
    fun ha => .inl (hnumber ha), fun ha => absurd ha hnot,
    fun dir name _ _ => hfile dir name⟩

/-- What a write leaves that comes to its file, whether it ends with it or not. -/
theorem wrote_of_file {bs : Bytes} {d₁ d₂ : Disk} {w : Except Disk.Fault Unit}
    (h : Ground f.root place d) (hencode : f.format.encode r = .ok bs)
    (hmake : d.makeDirectories (f.root ++ [keyName r.key]) = (.ok (), d₁))
    (hleft : f.sequence.toNat + 1 ≠ UInt64.size)
    (hfile : d₁.writeAtomic (f.root ++ [keyName r.key] ++
      [fileName r.stamp (f.sequence + 1) f.format.extension]) bs = (w, d₂))
    (ha : a = .done () ↔ w = .ok ()) :
    Wrote f place r d a { f with sequence := f.sequence + 1 } d₂ := by
  obtain ⟨hc₁, hok, hmade⟩ := (h.keyChild r.key).makeDirectories_spec h.sound hmake
  obtain ⟨h₁, hfile₁⟩ := h.after_directory hc₁ hmade
  have hdir := hok rfl
  obtain ⟨hc₂, hdone, hfailed, hbeside⟩ := Disk.writeAtomic_spec h₁.sound
    (h₁.fileChild hdir r.stamp (f.sequence + 1) (ending_extension f.format))
    (h₁.fileChild hdir r.stamp (f.sequence + 1) ending_tmp)
      (besidePath_file f r.key _ _)
    (fileName_ne_beside f.format _ _) hfile
  obtain ⟨hdirectory, hsame⟩ := same_of_write hc₂
  have hlt : f.sequence.toNat + 1 < UInt64.size := by
    have := f.sequence.toNat_lt_size
    omega
  have hplain : d₂.item? (place ++ [keyName r.key] ++
      [fileName r.stamp (f.sequence + 1) f.format.extension]) ≠ some .directory := by
    cases w with
    | error g =>
      rw [hfailed g rfl]
      exact h₁.plain _ _
    | ok u =>
      rw [hdone rfl]
      simp
  refine ⟨rfl, rfl, h₁.after_file hc₂ hplain (hbeside (h₁.plain _ _)),
    fun name hname => ?_, fun _ => .inr ⟨hlt, rfl⟩,
    fun hall => ?_, fun dir name hext hother => ?_⟩
  · rw [hdirectory]
    exact hc₁.directory _ hname
  · exact ⟨hlt, rfl, (hdirectory _).trans hdir, bs, hencode, hdone (ha.1 hall)⟩
  · by_cases hplace : dir = keyName r.key ∧
      name = fileName r.stamp (f.sequence + 1) f.format.extension
    · -- The file of the record is not there in full, so it is as it was.
      cases w with
      | error g => rw [hplace.1, hplace.2, hfailed g rfl, hfile₁]
      | ok u => exact absurd ⟨ha.2 rfl, hplace⟩ hother
    · rw [hsame dir name hext hplace, hfile₁]

/-- What a write leaves, however it ends. -/
theorem write (h : Ground f.root place d) (hwrite : f.write r d = (a, f', d')) :
    Wrote f place r d a f' d' := by
  have hmade {e : Except Disk.Fault Unit} {d₁ : Disk}
      (hmake : d.makeDirectories (f.root ++ [keyName r.key]) = (e, d₁)) :=
    (h.keyChild r.key).makeDirectories_spec h.sound hmake
  cases write_eq_iff.1 hwrite with
  | unfit _ =>
    exact h.wrote_of_directory (Disk.changesOnly_refl h.sound _) (.inl rfl)
      rfl rfl (fun _ => rfl) (by simp)
  | noDirectory _ hmake =>
    exact h.wrote_of_directory (hmade hmake).1 (hmade hmake).2.2
      rfl rfl (fun _ => rfl) (by simp)
  | noNumber _ hmake _ =>
    exact h.wrote_of_directory (hmade hmake).1 (hmade hmake).2.2
      rfl rfl (fun ha => absurd rfl ha) (by simp)
  | noFile hencode hmake hleft hfile =>
    exact h.wrote_of_file hencode hmake hleft hfile (by simp)
  | whole hencode hmake hleft hfile =>
    exact h.wrote_of_file hencode hmake hleft hfile (by simp)

/-- A record that has a file is taken if nothing is in the way and a number is left. -/
theorem write_calm {bs : Bytes} (h : Ground f.root place d)
    (hencode : f.format.encode r = .ok bs)
    (hnumber : f.sequence.toNat + 1 < UInt64.size) (hcalm : d.Calm) :
    ∃ f' d', f.write r d = (.done (), f', d') ∧ d'.Calm ∧
      f'.sequence.toNat = f.sequence.toNat + 1 := by
  obtain ⟨d₁, hm, hcalm₁⟩ :=
    (h.keyChild r.key).makeDirectories_calm hcalm (h.free r.key)
  obtain ⟨hc₁, hok, hmade⟩ := (h.keyChild r.key).makeDirectories_spec h.sound hm
  have h₁ := (h.after_directory hc₁ hmade).1
  have hdir := hok rfl
  obtain ⟨d₂, hw, hcalm₂, _⟩ := Disk.writeAtomic_calm h₁.sound hcalm₁
    (h₁.fileChild hdir r.stamp (f.sequence + 1) (ending_extension f.format))
    (h₁.fileChild hdir r.stamp (f.sequence + 1) ending_tmp)
      (besidePath_file f r.key _ _)
    (fileName_ne_beside f.format _ _) (h₁.plain _ _) (h₁.plain _ _) bs
  exact ⟨_, d₂, write_eq_iff.2 (.whole hencode hm (Nat.ne_of_lt hnumber) hw), hcalm₂,
    toNat_succ (Nat.ne_of_lt hnumber)⟩

/-- A write can be stopped when any number of the bytes of its file are beside. -/
theorem write_stopped {bs : Bytes} (h : Ground f.root place d)
    (hencode : f.format.encode r = .ok bs)
    (hnumber : f.sequence.toNat + 1 < UInt64.size) (k : Nat) :
    ∃ plan f' d', f.write r { d with plan := plan, limit := none } =
      (.failed .disk, f', d') ∧
      d'.item? (place ++ [keyName r.key] ++ [fileName r.stamp (f.sequence + 1) "tmp"]) =
        some (.file (bs.take k)) := by
  let beside := place ++ [keyName r.key] ++ [fileName r.stamp (f.sequence + 1) "tmp"]
  let plan := Disk.making (d.item? (place ++ [keyName r.key])) ++
    (Disk.making (d.item? beside) ++ [none, some k])
  have h' : Ground f.root place { d with plan := plan, limit := none } :=
    h.planned plan none
  obtain ⟨d₁, hm, hplan₁, hlimit₁⟩ :=
    (h'.keyChild r.key).makeDirectories_making (h'.free r.key) rfl
  obtain ⟨hc₁, hok, hmade⟩ := (h'.keyChild r.key).makeDirectories_spec h'.sound hm
  obtain ⟨h₁, hfile₁⟩ := h'.after_directory hc₁ hmade
  have hplan : d₁.plan = Disk.making (d₁.item? beside) ++ [none, some k] := by
    rw [hplan₁, hfile₁]
    rfl
  obtain ⟨d₂, hw, hitem⟩ := Disk.writeAtomic_stopped h₁.sound
    (h₁.fileChild (hok rfl) r.stamp (f.sequence + 1) ending_tmp)
      (besidePath_file f r.key _ _) (h₁.plain _ _) hplan
    hlimit₁ bs
  exact ⟨plan, _, d₂, write_eq_iff.2 (.noFile hencode hm (Nat.ne_of_lt hnumber) hw),
    hitem⟩

end Ground

end Chronicle.Medium.Files
