import Chronicle.Proofs.Medium.NewestWins

/-!
# The course of a directory of records

Whatever happens to a directory of records, the files in it with the extension of the
format are whole files of records that were written, and what is read depends on
these files alone. Such a file never goes away, and while there are running numbers
it never changes.

* `Tidy`: all files with the extension of the format are whole.
* `Serves`, `Tidy.read`: what is read from such files; `Tidy.read_congr`: from the
  same files the same is read.
* `Counts`: no running number in the directory is past the count.
* `Course`: what may happen to a directory from some moment on, with all disks that
  it passes through.
* `Course.tidy`, `Course.names_stay`, `Course.files_stay`, `Course.fresh`: what every
  course preserves, and that the next name is a new one.
-/

namespace Chronicle.Medium.Files

variable {format : Format} {root place : Path} {f f' f₀ : Files} {d d' d₀ : Disk}
    {rs rs₀ : List Record} {r : Record}
  {a : Answer Unit} {key : String} {log : List (Record × UInt64)}

/-! ## Whole files -/

/-- All files with the extension of the format are whole files of some records, in
the directories of their keys. -/
structure Tidy (format : Format) (root place : Path) (d : Disk)
    (rs : List Record) : Prop where
  ground : Ground root place d
  whole : ∀ dir name, d.item? (place ++ [dir] ++ [name]) ≠ none →
    Path.extension? name = some format.extension →
    d.item? (place ++ [dir]) = some .directory ∧
      ∃ r ∈ rs, ∃ n bs, dir = keyName r.key ∧
      name = fileName r.stamp n format.extension ∧ format.encode r = .ok bs ∧
        d.item? (place ++ [dir] ++ [name]) = some (.file bs)

theorem Keeps.tidy (h : f.Keeps place d log) :
    Tidy f.format f.root place d (log.map (·.1)) := by
  refine ⟨h.ground, fun dir name hname hext => ?_⟩
  obtain ⟨x, hx, rfl, rfl⟩ := h.known dir name hname hext
  obtain ⟨hdir, bs, hencode, hitem⟩ := h.held x hx
  exact ⟨hdir, x.1, List.mem_map_of_mem hx, x.2, bs, rfl, rfl, hencode, hitem⟩

namespace Tidy

/-- A write that is acknowledged adds a whole file, and no other one touches such
files. -/
theorem write (h : Tidy f.format f.root place d rs) (hw : Wrote f place r d a f' d') :
    Tidy f.format f.root place d' (if a = .done () then rs ++ [r] else rs) := by
  refine ⟨hw.ground, fun dir name hname hext => ?_⟩
  by_cases hnew : a = .done () ∧ dir = keyName r.key ∧
    name = fileName r.stamp (f.sequence + 1) f.format.extension
  · obtain ⟨rfl, rfl, rfl⟩ := hnew
    obtain ⟨_, _, hdir, bs, hencode, hitem⟩ := hw.done rfl
    rw [if_pos rfl]
    exact ⟨hdir, r, List.mem_append_right _ List.mem_cons_self, f.sequence + 1, bs, rfl,
      rfl, hencode, hitem⟩
  · rw [hw.same dir name hext hnew] at hname ⊢
    obtain ⟨hdir, x, hx, hfile⟩ := h.whole dir name hname hext
    refine ⟨hw.stays dir hdir, x, ?_, hfile⟩
    split
    · exact List.mem_append_left _ hx
    · exact hx

theorem of_same (h : Tidy format root place d rs) (hd : d'.Sound)
    (hroot : d'.find root = d.find root)
    (hsame : ∀ names, d'.item? (place ++ names) = d.item? (place ++ names)) :
    Tidy format root place d' rs := by
  refine ⟨h.ground.of_same hd hroot hsame, fun dir name => ?_⟩
  rw [List.append_assoc, hsame, hsame, ← List.append_assoc]
  exact h.whole dir name

theorem planned (h : Tidy format root place d rs) (plan : List (Option Nat))
    (limit : Option Nat) :
    Tidy format root place { d with plan := plan, limit := limit } rs :=
  ⟨h.ground.planned plan limit, h.whole⟩

end Tidy

/-! ## What is read -/

/-- What a key is served from its files: nothing if there are none, and otherwise the
record of the last name. -/
def Serves (format : Format) (place : Path) (d : Disk) (key : String) :
    Option Record → Prop
  | none => ∀ name, Path.extension? name = some format.extension →
    d.item? (place ++ [keyName key] ++ [name]) = none
  | some r => keyName r.key = keyName key ∧ ∃ n bs, format.encode r = .ok bs ∧
    d.item? (place ++ [keyName key] ++ [fileName r.stamp n format.extension]) =
      some (.file bs) ∧
      ∀ name, Path.extension? name = some format.extension →
      d.item? (place ++ [keyName key] ++ [name]) ≠ none →
        name = fileName r.stamp n format.extension ∨
        name < fileName r.stamp n format.extension

namespace Serves

theorem congr {o : Option Record} (h : Serves format place d key o)
    (hsame : ∀ name, Path.extension? name = some format.extension →
      d'.item? (place ++ [keyName key] ++ [name]) =
        d.item? (place ++ [keyName key] ++ [name])) :
    Serves format place d' key o := by
  cases o with
  | none =>
    intro name hext
    rw [hsame name hext]
    exact h name hext
  | some r =>
    obtain ⟨hkey, n, bs, hencode, hitem, hlast⟩ := h
    refine ⟨hkey, n, bs, hencode, ?_, fun name hext hname => ?_⟩
    · rw [hsame _ (extension?_fileName _ _ (ending_extension _))]
      exact hitem
    · rw [hsame name hext] at hname
      exact hlast name hext hname

/-- There is one last name, and a file is that of one record. -/
theorem unique {o o' : Option Record} (h : Serves format place d key o)
    (h' : Serves format place d key o') : o = o' := by
  have hext : ∀ t n, Path.extension? (fileName t n format.extension) =
      some format.extension :=
    fun t n => extension?_fileName t n (ending_extension format)
  cases o with
  | none =>
    cases o' with
    | none => rfl
    | some r' =>
      obtain ⟨_, n, bs, _, hitem, _⟩ := h'
      rw [h _ (hext _ _)] at hitem
      cases hitem
  | some r =>
    obtain ⟨_, n, bs, hencode, hitem, hlast⟩ := h
    cases o' with
    | none =>
      rw [h' _ (hext _ _)] at hitem
      cases hitem
    | some r' =>
      obtain ⟨_, n', bs', hencode', hitem', hlast'⟩ := h'
      -- Each of the two names is the last one.
      have hname : fileName r'.stamp n' format.extension =
          fileName r.stamp n format.extension := by
        rcases hlast _ (hext _ _) (by rw [hitem']; simp) with heq | hlt
        · exact heq
        · rcases hlast' _ (hext _ _) (by rw [hitem]; simp) with heq | hlt'
          · exact heq.symm
          · exact absurd hlt' (String.lt_asymm hlt)
      rw [hname, hitem] at hitem'
      cases hitem'
      have hread := Format.decode_encode hencode []
      rw [Format.decode_encode hencode' []] at hread
      rw [Except.ok.inj hread]

end Serves

namespace Tidy

/-- Reading never fails, and gives a whole record that was written. -/
theorem read (h : Tidy f.format f.root place d rs) (key : String) :
    ∃ o, f.read key d = .ok o ∧ Serves f.format place d key o ∧
      ∀ x, o = some x → x ∈ rs := by
  obtain ⟨names, hlatest, hnames⟩ := h.ground.latestName key f.format.extension
  rw [Files.read, latestPath?, hlatest]
  by_cases hempty : names = []
  · subst hempty
    refine ⟨none, rfl, fun name hext => ?_, by simp⟩
    by_cases hitem : d.item? (place ++ [keyName key] ++ [name]) = none
    · exact hitem
    · have hdir := (h.whole _ _ hitem hext).1
      exact absurd ((hnames name).2 ⟨hdir, hitem, hext⟩) List.not_mem_nil
  · obtain ⟨m, hm, hmax⟩ := exists_greatest hempty
    obtain ⟨hdir, hitem, hext⟩ := (hnames m).1 hm
    obtain ⟨_, x, hx, n, bs, hkey, rfl, hencode, hfile⟩ := h.whole _ _ hitem hext
    have hread :=
      (h.ground.fileChild hdir x.stamp n (ending_extension f.format)).read_of_item hfile
    refine ⟨some x, ?_,
      ⟨hkey.symm, n, bs, hencode, hfile, fun name hext' hname => ?_⟩, ?_⟩
    · rw [greatest?_eq_some hm hmax]
      simp only [Option.map_some, keyDirectory_eq, hread, Format.decode_encode hencode]
      rfl
    · exact hmax name ((hnames name).2 ⟨hdir, hname, hext'⟩)
    · intro y hy
      cases hy
      exact hx

/-- From the same files the same is read, whoever reads them. -/
theorem read_congr {rs' : List Record} (h : Tidy f.format f.root place d rs)
    (h' : Tidy f'.format f'.root place d' rs') (hformat : f'.format = f.format)
    (hsame : ∀ name, Path.extension? name = some f.format.extension →
      d'.item? (place ++ [keyName key] ++ [name]) =
        d.item? (place ++ [keyName key] ++ [name])) :
    f'.read key d' = f.read key d := by
  obtain ⟨o, hread, hserves, _⟩ := h.read key
  obtain ⟨o', hread', hserves', _⟩ := h'.read key
  rw [hformat] at hserves'
  rw [hread, hread', (hserves.congr hsame).unique hserves']

end Tidy

/-! ## Running numbers -/

/-- All names of files with the extension of the format are still in use. -/
def NamesStay (format : Format) (place : Path) (d d' : Disk) : Prop :=
  ∀ dir name, Path.extension? name = some format.extension →
    d.item? (place ++ [dir] ++ [name]) ≠ none →
    d'.item? (place ++ [dir] ++ [name]) ≠ none

theorem NamesStay.trans {x : Disk} (h : NamesStay format place x d)
    (h' : NamesStay format place d d') :
    NamesStay format place x d' :=
  fun dir name hext hname => h' dir name hext (h dir name hext hname)

/-- All files with the extension of the format are still there as they were. -/
def FilesStay (format : Format) (place : Path) (d d' : Disk) : Prop :=
  ∀ dir name, Path.extension? name = some format.extension →
    d.item? (place ++ [dir] ++ [name]) ≠ none →
    d'.item? (place ++ [dir] ++ [name]) = d.item? (place ++ [dir] ++ [name])

/-- No running number of a file with the extension of the format is past the count. -/
def Counts (f : Files) (place : Path) (d : Disk) : Prop :=
  ∀ dir t n, d.item? (place ++ [dir] ++ [fileName t n f.format.extension]) ≠ none →
    n ≤ f.sequence

theorem Keeps.counts (h : f.Keeps place d log) : f.Counts place d := by
  intro dir t n hname
  obtain ⟨x, hx, _, heq⟩ :=
    h.known _ _ hname (extension?_fileName _ _ (ending_extension _))
  rw [fileName_sequence_inj heq]
  exact h.counted x hx

/-- Opening finds the files as they are, and all their running numbers. -/
theorem Tidy.openAt (h : Tidy format root place d rs) :
    ∃ f, Files.openAt format root d = (.ok f, d) ∧ f.root = root ∧ f.format = format ∧
      f.Counts place d := by
  obtain ⟨n, hopen, hgreatest⟩ := h.ground.openAt format
  refine ⟨_, hopen, rfl, rfl, fun dir t k hname => ?_⟩
  have hdir := (h.whole _ _ hname (extension?_fileName _ _ (ending_extension format))).1
  rw [UInt64.le_iff_toNat_le]
  exact hgreatest dir _ _ hdir hname (sequenceOf?_fileName _ _ _)

namespace Counts

/-- The next number was not used, neither now nor before. -/
theorem fresh {x : Disk} (h : f.Counts place d)
    (hnumber : f.sequence.toNat + 1 < UInt64.size) (hx : NamesStay f.format place x d)
    (dir : String) (t : Timestamp) :
    x.item? (place ++ [dir] ++ [fileName t (f.sequence + 1) f.format.extension]) =
      none := by
  by_cases hname : x.item?
    (place ++ [dir] ++ [fileName t (f.sequence + 1) f.format.extension]) = none
  · exact hname
  · have hle :=
      h dir t _ (hx dir _ (extension?_fileName _ _ (ending_extension _)) hname)
    rw [UInt64.le_iff_toNat_le, toNat_succ (Nat.ne_of_lt hnumber)] at hle
    omega

/-- A write for which there is a number goes on with the count and touches none of
the files. -/
theorem write (h : f.Counts place d) (hw : Wrote f place r d a f' d')
    (hnumber : a ≠ .brokeDown) :
    f'.Counts place d' ∧ FilesStay f.format place d d' := by
  refine ⟨fun dir t n hname => ?_, fun dir name hext hname => hw.same dir name hext ?_⟩
  · rw [hw.format] at hname
    by_cases hnew : a = .done () ∧ dir = keyName r.key ∧
        fileName t n f.format.extension =
          fileName r.stamp (f.sequence + 1) f.format.extension
    · obtain ⟨rfl, _, heq⟩ := hnew
      rw [fileName_sequence_inj heq, (hw.done rfl).2.1]
      exact UInt64.le_refl _
    · rw [hw.same _ _ (extension?_fileName _ _ (ending_extension _)) hnew] at hname
      have hle := h dir t n hname
      rcases hw.number hnumber with hsame | ⟨hleft, hnext⟩
      · rw [hsame]
        exact hle
      · rw [hnext, UInt64.le_iff_toNat_le, toNat_succ (Nat.ne_of_lt hleft)]
        rw [UInt64.le_iff_toNat_le] at hle
        omega
  · rintro ⟨rfl, rfl, rfl⟩
    exact hname (h.fresh (hw.done rfl).1 (fun _ _ _ => id) _ _)

end Counts

/-! ## Courses -/

/-- What happens to a directory from some moment on, with the records that are
acknowledged and all disks on the way: records are written, it is dropped and opened
again, and anything happens to the disk but below that directory. If the count has to
hold, no write finds it at its end. -/
inductive Course (counting : Bool) (f₀ : Files) (d₀ : Disk) :
    Files → Disk → List Record → List Disk → Prop where
  | here : Course counting f₀ d₀ f₀ d₀ [] [d₀]
  | write {f f' : Files} {d d' : Disk} {rs : List Record} {past : List Disk}
      {r : Record} {a : Answer Unit} (h : Course counting f₀ d₀ f d rs past)
      (hwrite : f.write r d = (a, f', d'))
      (hnumber : counting = true → a ≠ .brokeDown) :
      Course counting f₀ d₀ f' d' (if a = .done () then rs ++ [r] else rs)
        (past ++ [d'])
  | reopen {f f' : Files} {d d' : Disk} {rs : List Record} {past : List Disk}
      (h : Course counting f₀ d₀ f d rs past)
      (hopen : openAt f.format f.root d = (.ok f', d')) :
      Course counting f₀ d₀ f' d' rs (past ++ [d'])
  | turn {f : Files} {d d' : Disk} {rs : List Record} {past : List Disk}
      (h : Course counting f₀ d₀ f d rs past) (hd : d'.Sound)
      (hroot : d'.find f.root = d.find f.root)
      (hsame : ∀ place e, d.find f.root = .ok (place, e) →
        ∀ names, d'.item? (place ++ names) = d.item? (place ++ names)) :
      Course counting f₀ d₀ f d' rs (past ++ [d'])

namespace Course

variable {counting : Bool} {past : List Disk}

/-- On every course all files stay whole. -/
theorem tidy (h : Course counting f₀ d₀ f d rs past)
    (h₀ : Tidy f₀.format f₀.root place d₀ rs₀) :
    f.root = f₀.root ∧ f.format = f₀.format ∧
      Tidy f₀.format f₀.root place d (rs₀ ++ rs) := by
  induction h with
  | here => exact ⟨rfl, rfl, by rw [List.append_nil]; exact h₀⟩
  | write _ hwrite _ ih =>
    obtain ⟨hroot, hformat, htidy⟩ := ih
    rw [← hroot, ← hformat] at htidy ⊢
    have hw := htidy.ground.write hwrite
    refine ⟨hw.root, hw.format, ?_⟩
    have htidy' := htidy.write hw
    split at htidy'
    · next hdone =>
      rw [if_pos hdone, ← List.append_assoc]
      exact htidy'
    · next hfailed =>
      rw [if_neg hfailed]
      exact htidy'
  | reopen _ hopen ih =>
    obtain ⟨hroot, hformat, htidy⟩ := ih
    obtain ⟨_, hopen', hroot', hformat', _⟩ := htidy.openAt
    rw [hroot, hformat, hopen'] at hopen
    cases hopen
    exact ⟨hroot', hformat', htidy⟩
  | turn _ hd hroot' hsame ih =>
    obtain ⟨hroot, hformat, htidy⟩ := ih
    rw [hroot] at hroot' hsame
    exact ⟨hroot, hformat, htidy.of_same hd hroot' (hsame place _ htidy.ground.root)⟩

/-- Opening again changes nothing, and finds all running numbers. -/
theorem counts_of_reopen (h : Course counting f₀ d₀ f d rs past)
    (h₀ : Tidy f₀.format f₀.root place d₀ rs₀)
    (hopen : openAt f.format f.root d = (.ok f', d')) : d' = d ∧ f'.Counts place d := by
  obtain ⟨hroot, hformat, htidy⟩ := h.tidy h₀
  obtain ⟨_, hopen', _, _, hcounts⟩ := htidy.openAt
  rw [hroot, hformat, hopen'] at hopen
  cases hopen
  exact ⟨rfl, hcounts⟩

/-- What every write leaves as it was holds from every disk on the way to the last
one. -/
theorem past_induction {R : Disk → Disk → Prop} (h : Course counting f₀ d₀ f d rs past)
    (h₀ : Tidy f₀.format f₀.root place d₀ rs₀) (htrans : ∀ x y z, R x y → R y z → R x z)
    (hsame : ∀ x y, (∀ names, y.item? (place ++ names) = x.item? (place ++ names)) →
      R x y)
    (hwrite : ∀ f d rs past r a f' d', Course counting f₀ d₀ f d rs past →
      f.format = f₀.format → Wrote f place r d a f' d' →
      (counting = true → a ≠ .brokeDown) → R d d') :
    ∀ x ∈ past, R x d := by
  have hself : ∀ x, R x x := fun x => hsame x x fun _ => rfl
  -- Each step adds the disk that it leads to, which is related to itself.
  have hconcat : ∀ {past : List Disk} {d d' : Disk}, (∀ x ∈ past, R x d) → R d d' →
      ∀ x ∈ past ++ [d'], R x d' := by
    intro past d d' hpast hstep x hx
    rcases List.mem_append.1 hx with hx | hx
    · exact htrans _ _ _ (hpast x hx) hstep
    · rw [List.mem_singleton.1 hx]
      exact hself d'
  induction h with
  | here =>
    intro x hx
    rw [List.mem_singleton.1 hx]
    exact hself d₀
  | write hcourse hw hnumber ih =>
    obtain ⟨hroot, hformat, htidy⟩ := hcourse.tidy h₀
    rw [← hroot, ← hformat] at htidy
    exact hconcat ih
      (hwrite _ _ _ _ _ _ _ _ hcourse hformat (htidy.ground.write hw) hnumber)
  | reopen hcourse hopen ih =>
    exact hconcat ih ((hcourse.counts_of_reopen h₀ hopen).1 ▸ hself _)
  | turn hcourse _ _ hturn ih =>
    obtain ⟨hroot, _, htidy⟩ := hcourse.tidy h₀
    rw [hroot] at hturn
    exact hconcat ih (hsame _ _ (hturn place _ htidy.ground.root))

/-- A name that a file with the extension of the format once had stays in use. -/
theorem names_stay (h : Course counting f₀ d₀ f d rs past)
    (h₀ : Tidy f₀.format f₀.root place d₀ rs₀) :
    ∀ x ∈ past, NamesStay f₀.format place x d := by
  refine h.past_induction (R := NamesStay f₀.format place) h₀ ?_ ?_ ?_
  · exact fun x y z => NamesStay.trans
  · intro x y hsame dir name _ hname
    rw [List.append_assoc, hsame, ← List.append_assoc]
    exact hname
  · intro f d rs past r a f' d' _ hformat hw _ dir name hext hname
    rw [← hformat] at hext
    by_cases hnew : a = .done () ∧ dir = keyName r.key ∧
      name = fileName r.stamp (f.sequence + 1) f.format.extension
    · obtain ⟨rfl, rfl, rfl⟩ := hnew
      obtain ⟨_, _, _, bs, _, hitem⟩ := hw.done rfl
      rw [hitem]
      simp
    · rw [hw.same dir name hext hnew]
      exact hname

/-- While there are running numbers, no number of a file is past the count. -/
theorem counts (h : Course true f₀ d₀ f d rs past)
    (h₀ : Tidy f₀.format f₀.root place d₀ rs₀) (hcounts : f₀.Counts place d₀) :
    f.Counts place d := by
  induction h with
  | here => exact hcounts
  | write hcourse hwrite hnumber ih =>
    obtain ⟨hroot, hformat, htidy⟩ := hcourse.tidy h₀
    rw [← hroot, ← hformat] at htidy
    exact (ih.write (htidy.ground.write hwrite) (hnumber rfl)).1
  | reopen hcourse hopen ih =>
    obtain ⟨rfl, hcounts'⟩ := hcourse.counts_of_reopen h₀ hopen
    exact hcounts'
  | turn hcourse _ _ hturn ih =>
    obtain ⟨hroot, _, htidy⟩ := hcourse.tidy h₀
    rw [hroot] at hturn
    intro dir t n hname
    rw [List.append_assoc, hturn place _ htidy.ground.root, ← List.append_assoc]
      at hname
    exact ih dir t n hname

/-- While there are running numbers, no file with the extension of the format
changes. -/
theorem files_stay (h : Course true f₀ d₀ f d rs past)
    (h₀ : Tidy f₀.format f₀.root place d₀ rs₀) (hcounts : f₀.Counts place d₀) :
    ∀ x ∈ past, FilesStay f₀.format place x d := by
  refine h.past_induction (R := FilesStay f₀.format place) h₀ ?_ ?_ ?_
  · intro x y z hxy hyz dir name hext hname
    have hy := hxy dir name hext hname
    rw [← hy] at hname ⊢
    exact hyz dir name hext hname
  · intro x y hsame dir name _ _
    rw [List.append_assoc, hsame]
  · intro f d rs past r a f' d' hcourse hformat hw hnumber dir name hext
    rw [← hformat] at hext
    exact ((hcourse.counts h₀ hcounts).write hw (hnumber rfl)).2 dir name hext

theorem start_mem (h : Course counting f₀ d₀ f d rs past) : d₀ ∈ past := by
  induction h with
  | here => exact List.mem_cons_self
  | write _ _ _ ih => exact List.mem_append_left _ ih
  | reopen _ _ ih => exact List.mem_append_left _ ih
  | turn _ _ _ _ ih => exact List.mem_append_left _ ih

/-- While there are running numbers, the next name was used on none of the disks, and
not before the course either. -/
theorem fresh (h : Course true f₀ d₀ f d rs past)
    (h₀ : Tidy f₀.format f₀.root place d₀ rs₀) (hcounts : f₀.Counts place d₀)
    (hnumber : f.sequence.toNat + 1 < UInt64.size) {x : Disk}
    (hx : x ∈ past ∨ NamesStay f₀.format place x d₀) (dir : String) (t : Timestamp) :
    x.item? (place ++ [dir] ++ [fileName t (f.sequence + 1) f₀.format.extension]) =
      none := by
  have hformat := (h.tidy h₀).2.1
  have hstay : NamesStay f₀.format place x d := by
    rcases hx with hx | hx
    · exact h.names_stay h₀ x hx
    · exact hx.trans (h.names_stay h₀ d₀ h.start_mem)
  rw [← hformat] at hstay ⊢
  exact (h.counts h₀ hcounts).fresh hnumber hstay dir t

/-- A course with running numbers continues a run. -/
theorem run (h : Course true f₀ d₀ f d rs past) (h₀ : Run format root f₀ d₀ rs₀) :
    Run format root f d (rs₀ ++ rs) := by
  obtain ⟨place, log, hkeeps, _, rfl, rfl⟩ := h₀.keeps
  induction h with
  | here =>
    rw [List.append_nil]
    exact h₀
  | write _ hwrite hnumber ih =>
    have hrun := ih.write hwrite (hnumber rfl)
    split at hrun
    · next hdone =>
      rw [if_pos hdone, ← List.append_assoc]
      exact hrun
    · next hfailed =>
      rw [if_neg hfailed]
      exact hrun
  | reopen hcourse hopen ih =>
    obtain ⟨hroot, hformat, _⟩ := hcourse.tidy hkeeps.tidy
    rw [hroot, hformat] at hopen
    exact ih.reopen hopen
  | turn hcourse hd hroot' hsame ih =>
    obtain ⟨hroot, _⟩ := hcourse.tidy hkeeps.tidy
    rw [hroot] at hroot' hsame
    exact ih.turn hd hroot' hsame

end Course

end Chronicle.Medium.Files
