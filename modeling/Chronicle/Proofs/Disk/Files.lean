import Chronicle.Disk.Basic

/-!
# What the calls on files do

Writing, cutting and forcing a file change no path and no other file; a mishap or the
limit at most cuts the write short. Making a file adds one entry, and everything that
a path led to before, it leads to still.

* `append_spec`, `truncate_ok`, `sync_spec`: the content of the file after a call.
* `stat_openOrCreate`: the path of a file that was opened or made leads to that file.
* `WellFormed`: every path to a file leads to one that is there; kept by all of these
  calls.
-/

namespace Chronicle.Disk

/-! ## Paths that lead where they led -/

/-- The same entries and as many files: only contents, the plan and the limit may
differ. -/
structure SameTree (d d' : Disk) : Prop where
  entries : d'.entries = d.entries
  length : d'.contents.length = d.contents.length

namespace SameTree

variable {d d' d'' : Disk}

theorem trans (h : SameTree d d') (h' : SameTree d' d'') : SameTree d d'' :=
  ⟨h'.entries.trans h.entries, h'.length.trans h.length⟩

theorem entry_eq (h : SameTree d d') (p : Path) : d'.entry? p = d.entry? p := by
  unfold Disk.entry?
  rw [h.entries]

theorem walk (h : SameTree d d') (here : Path) (names : List String) :
    d'.walk here names = d.walk here names := by
  induction names generalizing here with
  | nil => rw [Disk.walk, Disk.walk, h.entry_eq]
  | cons name names ih => rw [Disk.walk, Disk.walk, h.entry_eq, ih]

theorem stat (h : SameTree d d') (p : Path) : d'.stat p = d.stat p := by
  rw [Disk.stat, Disk.stat, find, find, h.walk]

end SameTree

/-! ## Contents -/

/-- The mishap for a change is taken from the plan, and nothing else happens. -/
theorem draw_eq (d : Disk) :
    d.draw = (d.plan.head?.join, { d with plan := d.plan.tail }) := by
  unfold draw
  split
  · next hp =>
    cases d
    simp_all
  · next hp =>
    rw [hp]
    rfl

theorem content_setContent {d : Disk} {id : Nat} (hid : id < d.contents.length)
    (bs : Bytes) :
    (d.setContent id bs).content id = bs := by
  simp [content, setContent, List.getD_eq_getElem?_getD, hid]

/-- Bytes written at the end of a file stand there, all of them if the call says so
and otherwise a beginning of them. -/
theorem append_spec {d d' : Disk} {id : Nat} {bs : Bytes} {r : Except Fault Unit}
    (hid : id < d.contents.length) (h : d.append id bs = (r, d')) :
    SameTree d d' ∧ ∃ written, d'.content id = d.content id ++ written ∧
      written <+: bs ∧
      (r = .ok () → written = bs) := by
  rw [append, draw_eq] at h
  -- Whatever stops the write, what it has added is a beginning of the bytes.
  have hspec : ∀ k, SameTree d
      (({ d with plan := d.plan.tail } : Disk).extend id (bs.take k)) ∧
      (({ d with plan := d.plan.tail } : Disk).extend id (bs.take k)).content id =
        d.content id ++ bs.take k := by
    intro k
    rw [extend_eq_setContent]
    exact ⟨⟨rfl, List.length_set⟩, content_setContent hid _⟩
  cases hm : d.plan.head?.join with
  | some stop =>
    rw [hm] at h
    obtain ⟨rfl, rfl⟩ := Prod.mk.inj h
    exact ⟨(hspec _).1, _, (hspec _).2, List.take_prefix _ _, fun hr => by cases hr⟩
  | none =>
    rw [hm] at h
    obtain ⟨rfl, rfl⟩ := Prod.mk.inj h
    refine ⟨(hspec _).1, _, (hspec _).2, List.take_prefix _ _, fun hr => ?_⟩
    by_cases hroom : d.room id bs.length = bs.length
    · rw [hroom, List.take_length]
    · rw [if_neg hroom] at hr
      cases hr

/-- A file that was brought to a size keeps what it can of its content, and the rest
is zeros. -/
theorem truncate_spec {d d' : Disk} {id size : Nat} (hid : id < d.contents.length)
    (h : d.truncate id size = (.ok (), d')) :
    SameTree d d' ∧ d'.content id =
      (d.content id).take size ++ List.replicate (size - d.size id) 0 := by
  rw [truncate, draw_eq] at h
  cases hm : d.plan.head?.join with
  | some _ =>
    rw [hm] at h
    cases h
  | none =>
    rw [hm] at h
    simp only at h
    split at h
    · cases h
    · obtain ⟨_, rfl⟩ := Prod.mk.inj h
      refine ⟨⟨rfl, List.length_set⟩, ?_⟩
      rw [content_setContent (d := { d with plan := d.plan.tail }) hid]
      rfl

/-- A file that was cut to a size it had reached keeps so much of its content. -/
theorem truncate_ok {d d' : Disk} {id size : Nat} (hid : id < d.contents.length)
    (hsize : size ≤ d.size id) (h : d.truncate id size = (.ok (), d')) :
    SameTree d d' ∧ d'.content id = (d.content id).take size := by
  obtain ⟨htree, hcontent⟩ := truncate_spec hid h
  rw [Nat.sub_eq_zero_of_le hsize, List.replicate_zero, List.append_nil] at hcontent
  exact ⟨htree, hcontent⟩

/-- A file that was filled up with one byte has a zero at its end. -/
theorem truncate_succ {d d' : Disk} {id : Nat} (hid : id < d.contents.length)
    (h : d.truncate id (d.size id + 1) = (.ok (), d')) :
    SameTree d d' ∧ d'.content id = d.content id ++ [0] := by
  obtain ⟨htree, hcontent⟩ := truncate_spec hid h
  have hall : (d.content id).take (d.size id + 1) = d.content id :=
    List.take_of_length_le (by rw [length_content]; exact Nat.le_succ _)
  rw [hall, Nat.add_sub_cancel_left] at hcontent
  exact ⟨htree, hcontent⟩

/-- Nothing but a mishap keeps a file from being cut to a size it had reached. -/
theorem truncate_calm {d : Disk} {id size : Nat} (hplan : d.plan = [])
    (hsize : size ≤ d.size id) (hlimit : size < sizeLimit) :
    (d.truncate id size).1 = .ok () := by
  rw [truncate, draw_eq, hplan]
  simp only [List.head?_nil, Option.join_none]
  rw [if_neg]
  rintro (hlarge | hshort)
  · exact absurd hlimit (Nat.not_lt.2 hlarge)
  · omega

theorem sync_spec {d d' : Disk} {r : Except Fault Unit} (h : d.sync = (r, d')) :
    SameTree d d' ∧ d'.contents = d.contents := by
  rw [sync, draw_eq] at h
  cases hm : d.plan.head?.join with
  | some _ =>
    rw [hm] at h
    obtain ⟨_, rfl⟩ := Prod.mk.inj h
    exact ⟨⟨rfl, rfl⟩, rfl⟩
  | none =>
    rw [hm] at h
    obtain ⟨_, rfl⟩ := Prod.mk.inj h
    exact ⟨⟨rfl, rfl⟩, rfl⟩

/-! ## Paths that lead to more than before -/

/-- Every place that held something holds it still. -/
def Extends (d d' : Disk) : Prop := ∀ q e, d.entry? q = some e → d'.entry? q = some e

theorem extends_concat (d d' : Disk) (x : (Nat × Path) × Entry)
    (h : d'.entries = d.entries ++ [x]) : Extends d d' := by
  intro q e he
  unfold entry? at he ⊢
  split
  · rwa [if_pos ‹_›] at he
  · rw [if_neg ‹_›] at he
    rw [h, List.lookup_append, he, Option.some_or]

theorem walk_append {d : Disk} {here dir : Path} {names : List String}
    (h : d.walk here names = .ok (dir, .directory)) (rest : List String) :
    d.walk here (names ++ rest) = d.walk dir rest := by
  induction names generalizing here with
  | nil =>
    rw [walk] at h
    split at h
    · cases h; rfl
    · cases h
  | cons name names ih =>
    rw [walk] at h
    rw [List.cons_append, walk]
    split at h
    · next he =>
      split at h
      · cases h
      · simp only [if_neg ‹_›]
        exact ih h
    · cases h
    · cases h

theorem entry_of_walk {d : Disk} {here q : Path} {names : List String} {e : Entry}
    (h : d.walk here names = .ok (q, e)) : d.entry? q = some e := by
  induction names generalizing here with
  | nil =>
    rw [walk] at h
    split at h
    · next he => cases h; exact he
    · cases h
  | cons name names ih =>
    rw [walk] at h
    split at h
    · split at h
      · cases h
      · exact ih h
    · cases h
    · cases h

/-- A path leads where it led if the directories on it are there still, and what it
led to. -/
theorem walk_mono {d d' : Disk} {here q : Path} {names : List String} {e : Entry}
    (hdirectories : ∀ p, d.entry? p = some .directory → d'.entry? p = some .directory)
    (h : d.walk here names = .ok (q, e)) (he : d'.entry? q = some e) :
    d'.walk here names = .ok (q, e) := by
  induction names generalizing here with
  | nil =>
    rw [walk] at h ⊢
    split at h
    · cases h
      rw [he]
    · cases h
  | cons name names ih =>
    rw [walk] at h ⊢
    split at h
    · next hdir =>
      split at h
      · cases h
      · next hname =>
        rw [hdirectories _ hdir]
        simp only [if_neg hname]
        exact ih h
    · cases h
    · cases h

theorem Extends.walk {d d' : Disk} (h : Extends d d') {here : Path}
    {names : List String} {r : Path × Entry} (hr : d.walk here names = .ok r) :
    d'.walk here names = .ok r :=
  walk_mono (fun p => h p _) hr (h _ _ (entry_of_walk hr))

theorem stat_eq_ok_iff {d : Disk} {p : Path} {e : Entry} :
    d.stat p = .ok e ↔ p.isProper = true ∧ ∃ q, d.walk [] p = .ok (q, e) := by
  rw [stat, find]
  constructor
  · intro h
    split at h
    · next q e' hq =>
      cases h
      split at hq
      · exact ⟨‹_›, q, hq⟩
      · cases hq
    · cases h
  · rintro ⟨hp, q, hq⟩
    rw [if_pos hp, hq]

theorem openFile_eq_ok_iff {d : Disk} {p : Path} {id : Nat} :
    d.openFile p = .ok id ↔ d.stat p = .ok (.file id) := by
  rw [openFile]
  split <;> simp_all

theorem read_of_stat {d : Disk} {p : Path} {id : Nat} (h : d.stat p = .ok (.file id)) :
    d.read p = .ok (d.content id) := by
  rw [read, h]

theorem stat_of_read {d : Disk} {p : Path} {bs : Bytes} (h : d.read p = .ok bs) :
    ∃ id, d.stat p = .ok (.file id) ∧ d.content id = bs := by
  rw [read] at h
  split at h
  · next id hs => cases h; exact ⟨id, hs, rfl⟩
  · cases h
  · cases h

theorem stat_of_read_notFound {d : Disk} {p : Path} (h : d.read p = .error .notFound) :
    d.stat p = .error .notFound := by
  rw [read] at h
  split at h
  · cases h
  · cases h
  · next hs => cases h; exact hs

theorem stat_of_openFile_notFound {d : Disk} {p : Path}
    (h : d.openFile p = .error .notFound) :
    d.stat p = .error .notFound := by
  rw [openFile] at h
  split at h <;> simp_all

theorem walk_of_stat_notFound {d : Disk} {p : Path} (h : d.stat p = .error .notFound) :
    p.isProper = true ∧ d.walk [] p = .error .notFound := by
  rw [stat, find] at h
  split at h
  · cases h
  · next hw =>
    cases h
    split at hw
    · exact ⟨‹_›, hw⟩
    · cases hw

/-- A path at which nothing was found, but whose place has a directory, leads to what
is put at that place. -/
theorem stat_of_vacancy {d d' : Disk} {p place : Path} {e : Entry}
    (hstat : d.stat p = .error .notFound) (hv : d.vacancy p = .ok place)
    (h : d'.entries = d.entries ++ [(place.key, e)]) : d'.stat p = .ok e := by
  have hext := extends_concat d d' _ h
  obtain ⟨hp, hwalk⟩ := walk_of_stat_notFound hstat
  have hne : p ≠ [] := by
    rintro rfl
    cases hwalk
  obtain ⟨q, name, rfl⟩ : ∃ q name, p = q ++ [name] :=
    ⟨_, _, (List.dropLast_concat_getLast hne).symm⟩
  rw [vacancy, List.dropLast_concat, List.getLast?_concat, Option.getD_some] at hv
  split at hv
  · next dir hdir =>
    cases hv
    have hdir' : d.walk [] q = .ok (dir, .directory) := by
      rw [find] at hdir
      split at hdir
      · exact hdir
      · cases hdir
    -- The last name is met at the directory, and the place after it is empty before
    -- and holds `e` now.
    rw [walk_append hdir', walk, entry_of_walk hdir'] at hwalk
    simp only at hwalk
    split at hwalk
    · cases hwalk
    · next hname =>
      have hnone : d.entry? (Path.step dir name) = none := by
        rw [walk] at hwalk
        split at hwalk
        · cases hwalk
        · assumption
      have hplace : Path.step dir name ≠ [] := by
        intro h0
        rw [h0] at hnone
        cases hnone
      have hnow : d'.entry? (Path.step dir name) = some e := by
        unfold entry? at hnone ⊢
        rw [if_neg hplace] at hnone ⊢
        rw [h, List.lookup_append, hnone, Option.none_or, List.lookup_cons_self]
      refine stat_eq_ok_iff.2 ⟨hp, Path.step dir name, ?_⟩
      rw [walk_append (hext.walk hdir'), walk, entry_of_walk (hext.walk hdir')]
      simp only [if_neg hname]
      rw [walk, hnow]
  · cases hv
  · cases hv

/-! ## Files that are there -/

/-- Every entry that stands for a file stands for one that has a content. -/
def WellFormed (d : Disk) : Prop :=
  ∀ x ∈ d.entries, ∀ id, x.2 = .file id → id < d.contents.length

theorem wellFormed_empty : WellFormed {} := by
  intro x hx
  cases hx

theorem WellFormed.lt_of_stat {d : Disk} (hd : d.WellFormed) {p : Path} {id : Nat}
    (h : d.stat p = .ok (.file id)) : id < d.contents.length := by
  obtain ⟨_, q, hq⟩ := stat_eq_ok_iff.1 h
  have he := entry_of_walk hq
  unfold entry? at he
  split at he
  · cases he
  · obtain ⟨l₁, l₂, hl, _⟩ := List.lookup_eq_some_iff.1 he
    exact hd (q.key, .file id) (hl ▸ List.mem_append_right _ List.mem_cons_self) id rfl

theorem WellFormed.of_sameTree {d d' : Disk} (h : SameTree d d') (hd : d.WellFormed) :
    d'.WellFormed := by
  intro x hx id hid
  rw [h.length]
  exact hd x (h.entries ▸ hx) id hid

/-- A new entry keeps the disk well-formed if it stands for a directory or for a file
that is there. -/
theorem WellFormed.concat {d d' : Disk} (hd : d.WellFormed) {x : (Nat × Path) × Entry}
    (hentries : d'.entries = d.entries ++ [x])
    (hle : d.contents.length ≤ d'.contents.length)
    (hx : ∀ id, x.2 = .file id → id < d'.contents.length) : d'.WellFormed := by
  intro y hy id hid
  rw [hentries] at hy
  rcases List.mem_append.1 hy with hy | hy
  · exact Nat.lt_of_lt_of_le (hd y hy id hid) hle
  · rw [List.mem_singleton.1 hy] at hid
    exact hx id hid

/-- What holds of a disk, whatever its plan, and still does when a directory comes to
an empty place, holds after directories were made. -/
theorem makeBelow_induction {P : Disk → Prop}
    (hplan : ∀ (d : Disk) plan, P d → P { d with plan := plan })
    (hadd : ∀ (d : Disk) (place : Path), P d → place ≠ [] → d.entry? place = none →
      P { d with entries := d.entries ++ [(place.key, .directory)] })
    {d d' : Disk} {here : Path} {names : List String} {r : Except Fault Unit} (hd : P d)
    (h : d.makeBelow here names = (r, d')) : P d' := by
  induction names generalizing d here with
  | nil =>
    rw [makeBelow] at h
    split at h <;> cases h <;> exact hd
  | cons name names ih =>
    rw [makeBelow] at h
    split at h
    · split at h
      · cases h
        exact hd
      · simp only at h
        split at h
        · next hnone =>
          have hne : Path.step here name ≠ [] := by
            intro hnil
            rw [hnil] at hnone
            cases hnone
          rw [draw_eq] at h
          cases hm : d.plan.head?.join with
          | some _ =>
            rw [hm] at h
            cases h
            exact hplan _ _ hd
          | none =>
            rw [hm] at h
            exact ih (hadd { d with plan := d.plan.tail }
              _ (hplan d d.plan.tail hd) hne hnone) h
        · exact ih hd h
    · cases h
      exact hd

theorem makeDirectories_induction {P : Disk → Prop}
    (hplan : ∀ (d : Disk) plan, P d → P { d with plan := plan })
    (hadd : ∀ (d : Disk) (place : Path), P d → place ≠ [] → d.entry? place = none →
      P { d with entries := d.entries ++ [(place.key, .directory)] })
    {d d' : Disk} {p : Path} {r : Except Fault Unit} (hd : P d)
    (h : d.makeDirectories p = (r, d')) : P d' := by
  rw [makeDirectories] at h
  split at h
  · cases h
    exact hd
  · split at h
    · cases hm : d.makeBelow [] p.parent with
      | mk a d₁ =>
        have hd₁ := makeBelow_induction hplan hadd hd hm
        rw [hm] at h
        cases a with
        | error f =>
          cases h
          exact hd₁
        | ok u =>
          simp only at h
          split at h <;> cases h <;> exact hd₁
    · exact makeBelow_induction hplan hadd hd h

theorem WellFormed.makeDirectories {d d' : Disk} {p : Path} {r : Except Fault Unit}
    (hd : d.WellFormed) (h : d.makeDirectories p = (r, d')) : d'.WellFormed := by
  refine makeDirectories_induction (fun d plan hd => ?_) (fun d place hd _ _ => ?_) hd h
  · exact hd.of_sameTree ⟨rfl, rfl⟩
  · exact hd.concat rfl (Nat.le_refl _) nofun

/-- A file that was opened is at its path and there. It has the content it had if
there was one at the path, and is empty otherwise. -/
theorem openOrCreate_ok {d d' : Disk} {p : Path} {id : Nat} (hd : d.WellFormed)
    (h : d.openOrCreate p = (.ok id, d')) :
    d'.WellFormed ∧ d'.stat p = .ok (.file id) ∧
      ((d.stat p = .ok (.file id) ∧ d' = d) ∨
        (d.stat p = .error .notFound ∧ d'.content id = [])) := by
  rw [openOrCreate] at h
  split at h
  · next ho =>
    cases h
    have hstat := openFile_eq_ok_iff.1 ho
    exact ⟨hd, hstat, .inl ⟨hstat, rfl⟩⟩
  · next ho =>
    have hstat := stat_of_openFile_notFound ho
    split at h
    · cases h
    · next place hv =>
      rw [draw_eq] at h
      cases hm : d.plan.head?.join with
      | some _ =>
        rw [hm] at h
        cases h
      | none =>
        rw [hm] at h
        obtain ⟨hid, rfl⟩ := Prod.mk.inj h
        injection hid with hid
        subst hid
        refine ⟨hd.concat rfl (by simp) (fun id hid => ?_),
          stat_of_vacancy hstat hv rfl, .inr ⟨hstat, ?_⟩⟩
        · injection hid with hid
          simp [← hid]
        · simp [content, List.getD_eq_getElem?_getD]
  · cases h

end Chronicle.Disk
