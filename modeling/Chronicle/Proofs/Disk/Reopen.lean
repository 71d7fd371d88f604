import Chronicle.Proofs.Disk.Files

/-!
# Files that are opened again

What a failed write left in a file is taken back by cutting the file. A file that is
at its path is found there again: no directory has to be made for it, whatever names
the path to it goes through.

* `Calm`: nothing is in the way of a change.
* `takeBack_spec`: what a failed append leaves after the attempt to take it back.
* `makeDirectories_parent`: the directories above a file are there.
* `reopen_of_stat`: opening a file that is there changes nothing.
-/

namespace Chronicle.Disk

/-! ## Disks with nothing in the way -/

/-- There is no mishap ahead and no limit. -/
structure Calm (d : Disk) : Prop where
  plan : d.plan = []
  limit : d.limit = none

theorem Calm.append {d : Disk} (h : d.Calm) (id : Nat) (bs : Bytes) :
    ∃ d', d.append id bs = (.ok (), d') ∧ d'.Calm := by
  refine ⟨d.extend id bs, ?_, h.plan, h.limit⟩
  simp [Disk.append, draw, h.plan, room, h.limit]

/-- A file can be brought to any size that a file can have. -/
theorem Calm.truncate {d : Disk} (h : d.Calm) (id : Nat) {size : Nat}
    (hsize : size < sizeLimit) :
    ∃ d', d.truncate id size = (.ok (), d') ∧ d'.Calm := by
  have hroom : ∀ n, ({ d with plan := [] } : Disk).room id n = n := fun n => by
    simp only [room, h.limit]
  rw [Disk.truncate, draw_eq, h.plan]
  simp only [List.head?_nil, Option.join_none, List.tail_nil]
  rw [if_neg]
  · exact ⟨_, rfl, rfl, h.limit⟩
  · rintro (hlarge | hshort)
    · exact absurd hsize (Nat.not_lt.2 hlarge)
    · rw [hroom] at hshort
      omega

theorem plan_truncate {d d' : Disk} {id size : Nat} {r : Except Fault Unit}
    (hplan : d.plan = []) (h : d.truncate id size = (r, d')) : d'.plan = [] := by
  rw [truncate, draw_eq, hplan] at h
  simp only [List.head?_nil, Option.join_none] at h
  split at h <;> cases h <;> rfl

/-! ## Taking back -/

/-- A file that could not be cut is as it was. -/
theorem truncate_error {d d' : Disk} {id size : Nat} {f : Fault}
    (h : d.truncate id size = (.error f, d')) :
    SameTree d d' ∧ d'.contents = d.contents := by
  rw [truncate, draw_eq] at h
  cases hm : d.plan.head?.join with
  | some _ =>
    rw [hm] at h
    cases h
    exact ⟨⟨rfl, rfl⟩, rfl⟩
  | none =>
    rw [hm] at h
    simp only at h
    split at h
    · cases h
      exact ⟨⟨rfl, rfl⟩, rfl⟩
    · cases h

theorem size_eq (d : Disk) (id : Nat) : d.size id = (d.content id).length :=
  (length_content d id).symm

/-- What a failed append leaves in the file is a beginning of the bytes, and nothing
if it could be taken back. -/
theorem takeBack_spec {d d₁ d' : Disk} {id : Nat} {bs : Bytes} {f : Fault} {back : Bool}
    (hid : id < d.contents.length) (happend : d.append id bs = (.error f, d₁))
    (hback : d₁.rollBack id (d.size id) = (back, d')) :
    SameTree d d' ∧ ∃ written, d'.content id = d.content id ++ written ∧
      written <+: bs ∧
      (back = true → written = []) ∧
      (back = false → d₁.size id = d.size id + written.length) := by
  obtain ⟨htree, written, hcontent, hprefix, _⟩ := append_spec hid happend
  have hid₁ : id < d₁.contents.length := htree.length ▸ hid
  have hsize : d₁.size id = d.size id + written.length := by
    rw [size_eq, hcontent, List.length_append, length_content]
  rw [rollBack] at hback
  cases ht : d₁.truncate id (d.size id) with
  | mk r d₂ =>
    rw [ht] at hback
    cases r with
    | ok u =>
      cases hback
      obtain ⟨htree', hcut⟩ := truncate_ok hid₁ (by omega) ht
      refine ⟨htree.trans htree', [], ?_, List.nil_prefix, fun _ => rfl, nofun⟩
      rw [hcut, hcontent, size_eq, List.take_left, List.append_nil]
    | error g =>
      cases hback
      obtain ⟨htree', hsame⟩ := truncate_error ht
      refine ⟨htree.trans htree', written, ?_, hprefix, nofun, fun _ => hsize⟩
      rw [content, hsame]
      exact hcontent

/-! ## The directories above a file -/

/-- All names but the last one lead to a directory. -/
theorem walk_concat {d : Disk} {here q : Path} {names : List String} {name : String}
    {e : Entry} (h : d.walk here (names ++ [name]) = .ok (q, e)) :
    ∃ dir, d.walk here names = .ok (dir, .directory) ∧ q = Path.step dir name := by
  induction names generalizing here with
  | nil =>
    rw [List.nil_append, walk] at h
    split at h
    · next hdir =>
      split at h
      · cases h
      · rw [walk] at h
        split at h
        · cases h
          refine ⟨here, ?_, rfl⟩
          rw [walk, hdir]
        · cases h
    · cases h
    · cases h
  | cons first names ih =>
    rw [List.cons_append, walk] at h
    split at h
    · next hdir =>
      split at h
      · cases h
      · next hname =>
        obtain ⟨dir, hwalk, hstep⟩ := ih h
        refine ⟨dir, ?_, hstep⟩
        rw [walk, hdir]
        simp only [if_neg hname, hwalk]
    · cases h
    · cases h

/-- A file is met under a name of its own. -/
theorem name_of_file {d : Disk} {dir q : Path} {name : String} {id : Nat}
    (hdir : d.entry? dir = some .directory) (hq : q = Path.step dir name)
    (h : d.entry? q = some (.file id)) :
    Path.isHere name = false := by
  by_cases hhere : Path.isHere name = true
  · rw [hq, Path.step, if_pos hhere, hdir] at h
    cases h
  · exact Bool.not_eq_true _ ▸ hhere

theorem trim_concat_of_own {names : List String} {name : String}
    (h : Path.isHere name = false) :
    Path.trim (names ++ [name]) = names ++ [name] := by
  rw [Path.trim, List.reverse_append, List.reverse_singleton, List.singleton_append,
    List.dropWhile_cons, h]
  simp

theorem trim_concat_of_here {names : List String} {name : String}
    (h : Path.isHere name = true) :
    Path.trim (names ++ [name]) = Path.trim names := by
  rw [Path.trim, List.reverse_append, List.reverse_singleton, List.singleton_append,
    List.dropWhile_cons, if_pos h, Path.trim]

/-- Names at the end that stand for the place they are met at may be left out. -/
theorem walk_trim {d : Disk} {names : List String} {dir : Path}
    (h : d.walk [] names = .ok (dir, .directory)) :
    d.walk [] (Path.trim names) = .ok (dir, .directory) := by
  induction hn : names.length generalizing names with
  | zero =>
    rw [List.length_eq_zero_iff.1 hn] at h ⊢
    exact h
  | succ n ih =>
    obtain ⟨init, name, rfl⟩ : ∃ init name, names = init ++ [name] :=
      ⟨_, _, (List.dropLast_concat_getLast (List.ne_nil_of_length_eq_add_one hn)).symm⟩
    by_cases hhere : Path.isHere name = true
    · rw [trim_concat_of_here hhere]
      obtain ⟨dir', hwalk, hstep⟩ := walk_concat h
      rw [Path.step, if_pos hhere] at hstep
      subst hstep
      exact ih hwalk (by simpa using hn)
    · rw [trim_concat_of_own (Bool.not_eq_true _ ▸ hhere)]
      exact h

/-- Nothing is made on the way to a directory. -/
theorem makeBelow_append {d : Disk} {here place : Path} {names : List String}
    (h : d.walk here names = .ok (place, .directory)) (rest : List String) :
    d.makeBelow here (names ++ rest) = d.makeBelow place rest := by
  induction names generalizing here with
  | nil =>
    rw [walk] at h
    split at h
    · cases h
      rfl
    · cases h
  | cons name names ih =>
    rw [walk] at h
    rw [List.cons_append, makeBelow]
    split at h
    · next hdir =>
      split at h
      · cases h
      · next hname =>
        rw [hdir]
        simp only [if_neg hname]
        cases hnext : d.entry? (Path.step here name) with
        | some e => exact ih h
        | none =>
          -- A place on the way to a directory is not empty.
          exfalso
          cases names with
          | nil =>
            rw [walk, hnext] at h
            cases h
          | cons _ _ =>
            rw [walk, hnext] at h
            cases h
    · cases h
    · cases h

theorem makeBelow_of_walk {d : Disk} {here dir : Path} {names : List String}
    (h : d.walk here names = .ok (dir, .directory)) :
    d.makeBelow here names = (.ok (), d) := by
  have hrest := makeBelow_append h []
  rw [List.append_nil] at hrest
  rw [hrest, makeBelow, entry_of_walk h]

/-! ## The path of the directory above -/

theorem utf8ByteSize_toText_append (p q : Path) :
    p.toText.utf8ByteSize ≤ (p ++ q).toText.utf8ByteSize := by
  induction p with
  | nil => exact Nat.zero_le _
  | cons name p ih =>
    by_cases hp : p = []
    · subst hp
      by_cases hq : q = []
      · simp [hq]
      · rw [Path.toText, Path.toText, List.singleton_append,
          String.intercalate_cons_of_ne_nil hq, String.intercalate_singleton]
        simp only [String.utf8ByteSize_append]
        omega
    · have hpq : p ++ q ≠ [] := fun h => hp (List.append_eq_nil_iff.1 h).1
      rw [Path.toText, Path.toText] at ih ⊢
      rw [List.cons_append, String.intercalate_cons_of_ne_nil hp,
        String.intercalate_cons_of_ne_nil hpq]
      simp only [String.utf8ByteSize_append]
      omega

theorem isProper_of_append {p q : Path} (h : (p ++ q).isProper = true) :
    p.isProper = true := by
  rw [Path.isProper, Bool.and_eq_true, decide_eq_true_eq] at h ⊢
  rw [List.all_append, Bool.and_eq_true] at h
  exact ⟨Nat.le_trans (utf8ByteSize_toText_append p q) h.1, h.2.1⟩

theorem trim_part (p : Path) : Path.trim p <+: p := by
  rw [Path.trim, ← List.reverse_suffix, List.reverse_reverse]
  exact List.dropWhile_suffix _

theorem parent_part (p : Path) : Path.parent p <+: p :=
  (trim_part _).trans ((List.dropLast_prefix _).trans (trim_part p))

/-- A trimmed path does not end at the place where it is. -/
theorem endsHere_trim (p : Path) : (Path.trim p).endsHere = false := by
  rw [Path.endsHere, Path.trim, List.reverse_reverse]
  have hhead := List.head?_dropWhile_not Path.isHere p.reverse
  cases hd : p.reverse.dropWhile Path.isHere with
  | nil => rfl
  | cons name rest =>
    rw [hd] at hhead
    have hown : Path.isHere name = false := by simpa using hhead
    rw [Path.isHere, Bool.or_eq_false_iff] at hown
    rw [List.dropWhile_cons, hown.1]
    simp only [Bool.false_eq_true, if_false, List.head?_cons, decide_eq_false_iff_not,
      Option.some.injEq]
    intro hpoint
    rw [hpoint] at hown
    exact absurd hown.2 (by decide)

theorem parent_concat {names : List String} {name : String}
    (h : Path.isHere name = false) :
    Path.parent (names ++ [name]) = Path.trim names := by
  rw [Path.parent, trim_concat_of_own h, List.dropLast_concat]

/-- The directories above a file are there. -/
theorem makeDirectories_parent {d : Disk} {p : Path} {id : Nat}
    (h : d.stat p = .ok (.file id)) :
    d.makeDirectories p.parent = (.ok (), d) := by
  obtain ⟨hproper, q, hwalk⟩ := stat_eq_ok_iff.1 h
  have hne : p ≠ [] := by
    rintro rfl
    cases hwalk
  obtain ⟨names, name, rfl⟩ : ∃ names name, p = names ++ [name] :=
    ⟨_, _, (List.dropLast_concat_getLast hne).symm⟩
  obtain ⟨dir, hdir, hq⟩ := walk_concat hwalk
  have hown := name_of_file (entry_of_walk hdir) hq (entry_of_walk hwalk)
  have hparent : (Path.trim names).isProper = true := by
    obtain ⟨rest, hrest⟩ := trim_part names
    rw [← hrest, List.append_assoc] at hproper
    exact isProper_of_append hproper
  rw [parent_concat hown, makeDirectories, hparent, endsHere_trim]
  exact makeBelow_of_walk (walk_trim hdir)

/-- Opening a file that is there changes nothing. -/
theorem reopen_of_stat {d : Disk} {p : Path} {id : Nat}
    (h : d.stat p = .ok (.file id)) :
    d.makeDirectories p.parent = (.ok (), d) ∧ d.openOrCreate p = (.ok id, d) := by
  refine ⟨makeDirectories_parent h, ?_⟩
  rw [openOrCreate, openFile_eq_ok_iff.2 h]

/-! ## A disk with one file -/

/-- A disk with one file, whose name is `a`. -/
def holding (bs : Bytes) : Disk :=
  { entries := [((1, ["a"]), .file 0)], contents := [bs.reverse] }

theorem wellFormed_holding (bs : Bytes) : (holding bs).WellFormed := by
  intro x hx id hid
  cases List.mem_singleton.1 hx
  cases hid
  exact Nat.zero_lt_one

theorem calm_holding (bs : Bytes) : (holding bs).Calm := ⟨rfl, rfl⟩

theorem read_holding (bs : Bytes) : (holding bs).read ["a"] = .ok bs := by
  have hstat : (holding bs).stat ["a"] = .ok (.file 0) := rfl
  rw [read_of_stat hstat]
  exact congrArg Except.ok (List.reverse_reverse bs)

end Chronicle.Disk
