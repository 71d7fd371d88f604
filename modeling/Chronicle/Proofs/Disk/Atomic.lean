import Chronicle.Disk.Atomic
import Chronicle.Proofs.Disk.Tree

/-!
# Files that are there in full or not at all

The bytes go to a file beside, which is then moved. Whatever goes wrong, a path leads
to the file it led to before or to the new one in full.

* `rename_eq`, `rename_child`: a file is moved within a directory, or nothing
  happens.
* `writeAtomic_spec`: what is where after a file was written, or was not.
* `writeAtomic_calm`: a file can be written if nothing is in the way.
* `writeAtomic_stopped`: writing it can stop when any number of bytes are in the file
  beside.
-/

namespace Chronicle.Disk

theorem append_contents {d d' : Disk} {id : Nat} {bs : Bytes} {r : Except Fault Unit}
    (h : d.append id bs = (r, d')) :
    d'.entries = d.entries ∧ ∃ c, d'.contents = d.contents.set id c := by
  rw [append, draw_eq] at h
  cases hm : d.plan.head?.join with
  | some _ =>
    rw [hm] at h
    cases h
    exact ⟨rfl, _, rfl⟩
  | none =>
    rw [hm] at h
    cases h
    exact ⟨rfl, _, rfl⟩

theorem truncate_contents {d d' : Disk} {id size : Nat}
    (h : d.truncate id size = (.ok (), d')) :
    d'.entries = d.entries ∧ ∃ c, d'.contents = d.contents.set id c := by
  rw [truncate, draw_eq] at h
  cases hm : d.plan.head?.join with
  | some _ =>
    rw [hm] at h
    cases h
  | none =>
    rw [hm] at h
    simp only at h
    split at h
    · cases h
    · cases h
      exact ⟨rfl, _, rfl⟩

/-- What is at each place after a file was moved. -/
theorem entry_rename {d d' : Disk} {a b : Path} {e : Entry} (ha : a ≠ []) (hb : b ≠ [])
    (hentries : d'.entries = Assoc.set a.key e (Assoc.erase b.key d.entries))
    (q : Path) :
    d'.entry? q = if q = a then some e else if q = b then none else d.entry? q := by
  by_cases hq : q = []
  · subst hq
    rw [if_neg (Ne.symm ha), if_neg (Ne.symm hb)]
    rfl
  · unfold entry?
    rw [if_neg hq, if_neg hq, hentries, Assoc.lookup_set, Assoc.lookup_erase]
    simp only [beq_iff_eq, Path.key_inj]

theorem mem_set {κ β : Type} [BEq κ] {k : κ} {b : β} {es : List (κ × β)} {x : κ × β}
    (h : x ∈ Assoc.set k b es) : x = (k, b) ∨ x ∈ es := by
  induction es with
  | nil => exact .inl (List.mem_singleton.1 h)
  | cons e es ih =>
    rw [Assoc.set] at h
    split at h
    · rcases List.mem_cons.1 h with rfl | h
      · exact .inl rfl
      · exact .inr (List.mem_cons_of_mem _ h)
    · rcases List.mem_cons.1 h with rfl | h
      · exact .inr List.mem_cons_self
      · exact (ih h).imp_right (List.mem_cons_of_mem _)

/-- A file that is moved to a place where no directory is. -/
theorem changesOnly_rename {d d' : Disk} {a b : Path} {id : Nat} (hd : d.Sound)
    (ha : a ≠ []) (hb : b ≠ []) (hfile : d.entry? b = some (.file id))
    (hfree : d.entry? a ≠ some .directory)
    (hentries : d'.entries = Assoc.set a.key (.file id) (Assoc.erase b.key d.entries))
    (hcontents : d'.contents = d.contents) : ChangesOnly [a, b] d d' := by
  have hentry := entry_rename ha hb hentries
  have hmem : ∀ x ∈ d'.entries, x = (a.key, .file id) ∨ x ∈ d.entries := by
    intro x hx
    rw [hentries] at hx
    exact (mem_set hx).imp_right fun h => (List.mem_filter.1 h).1
  refine ⟨⟨?_, ?_, ?_⟩, ?_, ?_⟩
  · intro x hx i hi
    rw [hcontents]
    rcases hmem x hx with rfl | hx
    · cases hi
      exact hd.lt_of_entry hfile
    · exact hd.wellFormed x hx i hi
  · intro x hx
    rcases hmem x hx with rfl | hx
    · rfl
    · exact hd.keyed x hx
  · intro p q i hp hq
    -- The file was at `b` alone, and is at `a` alone.
    have hother : ∀ {p : Path}, p ≠ a → d'.entry? p = some (.file i) → p ≠ b ∧
        d.entry? p = some (.file i) := by
      intro p hpa hp
      rw [hentry, if_neg hpa] at hp
      split at hp
      · cases hp
      · exact ⟨‹_›, hp⟩
    by_cases hpa : p = a <;> by_cases hqa : q = a
    · rw [hpa, hqa]
    · rw [hentry, if_pos hpa] at hp
      cases hp
      exact absurd (hd.single (hother hqa hq).2 hfile) (hother hqa hq).1
    · rw [hentry, if_pos hqa] at hq
      cases hq
      exact absurd (hd.single (hother hpa hp).2 hfile) (hother hpa hp).1
    · exact hd.single (hother hpa hp).2 (hother hqa hq).2
  · intro q hq
    simp only [List.mem_cons, List.not_mem_nil, or_false, not_or] at hq
    simp only [item?, hentry, if_neg hq.1, if_neg hq.2, content, hcontents]
  · intro q hq
    rw [item?_eq_directory_iff] at hq ⊢
    rw [hentry, if_neg, if_neg, hq]
    · rintro rfl
      rw [hfile] at hq
      cases hq
    · rintro rfl
      exact hfree hq

/-- Where no directory is in its place a file is moved, unless a mishap stops it. -/
theorem rename_eq {d : Disk} {dir place : Path} {old new : String} {id : Nat}
    (hold : Child d dir place old) (hnew : Child d dir place new)
    (hfile : d.entry? (place ++ [old]) = some (.file id))
    (hfree : d.entry? (place ++ [new]) ≠ some .directory) :
    d.rename (dir ++ [old]) (dir ++ [new]) =
      if d.plan.head?.join = none then (.ok (), { d with
        entries :=
  Assoc.set (place ++ [new]).key (.file id) (Assoc.erase (place ++ [old]).key d.entries)
        plan := d.plan.tail })
      else (.error .mishap, { d with plan := d.plan.tail }) := by
  rw [rename, hold.find, hfile, hnew.vacancy]
  simp only [hnew.stat, draw_eq]
  cases hm : d.plan.head?.join <;> cases he : d.entry? (place ++ [new]) with
  | none => rfl
  | some e =>
    cases e with
    | directory => exact absurd he hfree
    | file _ => rfl

/-- A file is moved from one name in a directory to another, or nothing happens. -/
theorem rename_child {d d' : Disk} {dir place : Path} {old new : String} {id : Nat}
    {r : Except Fault Unit} (hd : d.Sound) (hold : Child d dir place old)
    (hnew : Child d dir place new) (hfile : d.entry? (place ++ [old]) = some (.file id))
    (h : d.rename (dir ++ [old]) (dir ++ [new]) = (r, d')) :
    ChangesOnly [place ++ [new], place ++ [old]] d d' ∧
      (r = .ok () → d'.item? (place ++ [new]) = some (.file (d.content id))) ∧
      (∀ f, r = .error f → ∀ q, d'.item? q = d.item? q) ∧
      (d'.item? (place ++ [old]) ≠ some .directory) := by
  have ha : place ++ [new] ≠ [] := by simp
  have hb : place ++ [old] ≠ [] := by simp
  have hstays : d.item? (place ++ [old]) ≠ some .directory := by
    rw [ne_eq, item?_eq_directory_iff, hfile]
    simp
  by_cases hdir : d.entry? (place ++ [new]) = some .directory
  · rw [rename, hold.find, hfile, hnew.vacancy] at h
    simp only [hnew.stat, hdir] at h
    cases h
    exact ⟨changesOnly_refl hd _, fun hr => (by cases hr), fun _ _ _ => rfl, hstays⟩
  · rw [rename_eq hold hnew hfile hdir] at h
    split at h
    · obtain ⟨rfl, rfl⟩ := Prod.mk.inj h
      have hentry := @entry_rename d { d with
        entries := Assoc.set (place ++ [new]).key (.file id)
          (Assoc.erase (place ++ [old]).key d.entries)
        plan := d.plan.tail } _ _ (.file id) ha hb rfl
      refine ⟨changesOnly_rename hd ha hb hfile hdir rfl rfl, fun _ => ?_,
        fun f hr => (by cases hr), ?_⟩
      · simp only [item?, hentry, if_pos]
        rfl
      · rw [ne_eq, item?_eq_directory_iff, hentry]
        split
        · simp
        · simp
    · cases h
      exact ⟨changesOnly_plan hd _ _, fun hr => (by cases hr), fun _ _ _ => rfl, hstays⟩

/-- A file is written in full beside its name and then moved there. Until then the
name leads where it led, and what is left beside is no directory. -/
theorem writeAtomic_spec {d d' : Disk} {dir place : Path} {name beside : String}
    {bs : Bytes} {r : Except Fault Unit} (hd : d.Sound) (hname : Child d dir place name)
    (hbeside : Child d dir place beside)
    (hpath : besidePath (dir ++ [name]) = dir ++ [beside]) (hne : name ≠ beside)
    (h : d.writeAtomic (dir ++ [name]) bs = (r, d')) :
    ChangesOnly [place ++ [name], place ++ [beside]] d d' ∧
      (r = .ok () → d'.item? (place ++ [name]) = some (.file bs)) ∧
      (∀ f, r = .error f → d'.item? (place ++ [name]) = d.item? (place ++ [name])) ∧
      (d.item? (place ++ [beside]) ≠ some .directory →
        d'.item? (place ++ [beside]) ≠ some .directory) := by
  have hsub : ∀ q ∈ [place ++ [beside]], q ∈ [place ++ [name], place ++ [beside]] :=
    fun q hq => List.mem_cons_of_mem _ hq
  have hapart : place ++ [name] ∉ [place ++ [beside]] := by
    rw [List.mem_singleton]
    exact fun heq => hne (List.singleton_inj.1 (List.append_cancel_left heq))
  -- A call that fails before the move has changed what is beside at most.
  have hfailed : ∀ {d₁ : Disk}, ChangesOnly [place ++ [beside]] d d₁ →
      (d.item? (place ++ [beside]) ≠ some .directory →
        d₁.item? (place ++ [beside]) ≠ some .directory) →
      ∀ f, r = .error f → d' = d₁ →
      ChangesOnly [place ++ [name], place ++ [beside]] d d' ∧
        (r = .ok () → d'.item? (place ++ [name]) = some (.file bs)) ∧
        (∀ f, r = .error f → d'.item? (place ++ [name]) = d.item? (place ++ [name])) ∧
        (d.item? (place ++ [beside]) ≠ some .directory →
          d'.item? (place ++ [beside]) ≠ some .directory) := by
    rintro d₁ hc hkept f rfl rfl
    exact ⟨hc.mono hsub, nofun, fun _ _ => hc.same _ hapart, hkept⟩
  have hfile : ∀ {d₁ : Disk} {id : Nat}, d₁.entry? (place ++ [beside]) =
      some (.file id) →
      d.item? (place ++ [beside]) ≠ some .directory →
      d₁.item? (place ++ [beside]) ≠ some .directory := by
    intro d₁ id hentry _
    rw [ne_eq, item?_eq_directory_iff, hentry]
    nofun
  rw [writeAtomic, hpath] at h
  cases ho : d.openOrCreate (dir ++ [beside]) with
  | mk r₁ d₁ =>
    rw [ho] at h
    obtain ⟨hc₁, ⟨id, rfl, hentry₁⟩ | ⟨⟨f, rfl⟩, hsame⟩⟩ :=
      hbeside.openOrCreate_spec hd ho
    · simp only at h
      have hid : id < d₁.contents.length := hc₁.sound.lt_of_entry hentry₁
      cases ht : d₁.truncate id 0 with
      | mk r₂ d₂ =>
        rw [ht] at h
        cases r₂ with
        | error f =>
          cases h
          obtain ⟨htree, hcontents⟩ := truncate_error ht
          have hc₂ := hc₁.trans (changesOnly_of_eq hc₁.sound htree.entries hcontents _)
          exact hfailed hc₂ (hfile ((htree.entry_eq _).trans hentry₁)) f rfl rfl
        | ok u =>
          simp only at h
          obtain ⟨hentries₂, c₂, hcontents₂⟩ := truncate_contents ht
          obtain ⟨htree₂, hempty⟩ := truncate_ok hid (Nat.zero_le _) ht
          have hc₂ :=
            hc₁.trans (changesOnly_of_content hc₁.sound hentry₁ hentries₂ hcontents₂)
          have hentry₂ := (htree₂.entry_eq (place ++ [beside])).trans hentry₁
          cases ha : d₂.append id bs with
          | mk r₃ d₃ =>
            rw [ha] at h
            obtain ⟨hentries₃, c₃, hcontents₃⟩ := append_contents ha
            obtain ⟨htree₃, written, hcontent₃, _, hall⟩ :=
              append_spec (htree₂.length ▸ hid) ha
            have hc₃ :=
              hc₂.trans (changesOnly_of_content hc₂.sound hentry₂ hentries₃ hcontents₃)
            have hentry₃ := (htree₃.entry_eq (place ++ [beside])).trans hentry₂
            cases r₃ with
            | error f =>
              cases h
              exact hfailed hc₃ (hfile hentry₃) f rfl rfl
            | ok u =>
              simp only at h
              have hwritten : d₃.content id = bs := by
                rw [hcontent₃, hempty, hall rfl]
                rfl
              cases hs : d₃.sync with
              | mk r₄ d₄ =>
                rw [hs] at h
                obtain ⟨htree₄, hcontents₄⟩ := sync_spec hs
                have hc₄ :=
                  hc₃.trans (changesOnly_of_eq hc₃.sound htree₄.entries hcontents₄ _)
                have hentry₄ := (htree₄.entry_eq (place ++ [beside])).trans hentry₃
                cases r₄ with
                | error f =>
                  cases h
                  exact hfailed hc₄ (hfile hentry₄) f rfl rfl
                | ok u =>
                  obtain ⟨hc₅, hok, herror, hlast⟩ :=
                    rename_child hc₄.sound (hbeside.of_changes hc₄)
                    (hname.of_changes hc₄) hentry₄ h
                  have hcontent₄ : d₄.content id = bs := by
                    rw [content, hcontents₄]
                    exact hwritten
                  refine ⟨(hc₄.mono hsub).trans hc₅, fun hr => ?_, fun f hr => ?_,
                    fun _ => hlast⟩
                  · rw [hok hr, hcontent₄]
                  · rw [herror f hr]
                    exact hc₄.same _ hapart
    · cases h
      refine hfailed hc₁ (fun hnot => ?_) f rfl rfl
      rw [hsame]
      exact hnot

/-! ## With nothing in the way -/

theorem rename_calm {d : Disk} {dir place : Path} {old new : String} {id : Nat}
    (hcalm : d.Calm) (hold : Child d dir place old) (hnew : Child d dir place new)
    (hfile : d.entry? (place ++ [old]) = some (.file id))
    (hfree : d.item? (place ++ [new]) ≠ some .directory) (hne : new ≠ old) :
    ∃ d', d.rename (dir ++ [old]) (dir ++ [new]) = (.ok (), d') ∧ d'.Calm ∧
      d'.item? (place ++ [old]) = none := by
  rw [rename_eq hold hnew hfile fun he =>
    hfree (item?_eq_directory_iff.2 he), hcalm.plan]
  refine ⟨_, rfl, ⟨rfl, hcalm.limit⟩, ?_⟩
  rw [item?_eq_none_iff, entry_rename (by simp) (by simp) rfl, if_neg, if_pos rfl]
  exact fun heq => hne (List.singleton_inj.1 (List.append_cancel_left heq)).symm

/-- A file can be written if nothing is in the way, and nothing is then. Nothing is
left beside it. -/
theorem writeAtomic_calm {d : Disk} {dir place : Path} {name beside : String}
    (hd : d.Sound) (hcalm : d.Calm) (hname : Child d dir place name)
    (hbeside : Child d dir place beside)
    (hpath : besidePath (dir ++ [name]) = dir ++ [beside]) (hne : name ≠ beside)
    (hfree : d.item? (place ++ [name]) ≠ some .directory)
    (hfree' : d.item? (place ++ [beside]) ≠ some .directory) (bs : Bytes) :
    ∃ d', d.writeAtomic (dir ++ [name]) bs = (.ok (), d') ∧ d'.Calm ∧
      d'.item? (place ++ [beside]) = none := by
  have hapart : place ++ [name] ∉ [place ++ [beside]] := by
    rw [List.mem_singleton]
    exact fun heq => hne (List.singleton_inj.1 (List.append_cancel_left heq))
  obtain ⟨id, d₁, ho, hcalm₁⟩ := hbeside.openOrCreate_calm hcalm hfree'
  obtain ⟨hc₁, ⟨id', hid', hentry₁⟩ | ⟨⟨f, hf⟩, _⟩⟩ := hbeside.openOrCreate_spec hd ho
  · cases hid'
    obtain ⟨d₂, ht, hcalm₂⟩ := hcalm₁.truncate id (show 0 < sizeLimit by decide)
    obtain ⟨htree₂, _⟩ := truncate_ok (hc₁.sound.lt_of_entry hentry₁) (Nat.zero_le _) ht
    obtain ⟨hentries₂, c₂, hcontents₂⟩ := truncate_contents ht
    have hc₂ :=
      hc₁.trans (changesOnly_of_content hc₁.sound hentry₁ hentries₂ hcontents₂)
    have hentry₂ := (htree₂.entry_eq (place ++ [beside])).trans hentry₁
    obtain ⟨d₃, ha, hcalm₃⟩ := hcalm₂.append id bs
    obtain ⟨hentries₃, c₃, hcontents₃⟩ := append_contents ha
    have hc₃ :=
      hc₂.trans (changesOnly_of_content hc₂.sound hentry₂ hentries₃ hcontents₃)
    have hentry₃ := (entry_of_entries hentries₃ (place ++ [beside])).trans hentry₂
    have hsync : d₃.sync = (.ok (), d₃) := by
      rw [sync, draw, hcalm₃.plan]
    obtain ⟨d₄, hr, hcalm₄⟩ :=
      rename_calm hcalm₃ (hbeside.of_changes hc₃) (hname.of_changes hc₃) hentry₃
      (by rw [hc₃.same _ hapart]; exact hfree) hne
    refine ⟨d₄, ?_, hcalm₄⟩
    rw [writeAtomic, hpath, ho]
    simp only [ht, ha, hsync, hr]
  · cases hf

/-! ## Stopped after some bytes -/

/-- The part of a plan that lets a call make what is not there yet. -/
def making (item : Option Item) : List (Option Nat) :=
  if item = none then [none] else []

theorem Child.makeDirectories_making {d : Disk} {dir place : Path} {name : String}
    {rest : List (Option Nat)} (h : Child d dir place name)
    (hfree : ∀ bs, d.item? (place ++ [name]) ≠ some (.file bs))
    (hplan : d.plan = making (d.item? (place ++ [name])) ++ rest) :
    ∃ d', d.makeDirectories (dir ++ [name]) = (.ok (), d') ∧ d'.plan = rest ∧
      d'.limit = d.limit := by
  rw [h.makeDirectories_eq]
  cases he : d.entry? (place ++ [name]) with
  | some e =>
    cases e with
    | directory =>
      rw [item?_eq_directory_iff.2 he] at hplan
      exact ⟨d, rfl, hplan, rfl⟩
    | file id => exact absurd (item?_eq_file_iff.2 ⟨id, he, rfl⟩) (hfree _)
  | none =>
    rw [item?_eq_none_iff.2 he] at hplan
    simp only [draw_eq, hplan]
    exact ⟨_, rfl, rfl, rfl⟩

theorem Child.openOrCreate_making {d : Disk} {dir place : Path} {name : String}
    {rest : List (Option Nat)} (h : Child d dir place name)
    (hfree : d.item? (place ++ [name]) ≠ some .directory)
    (hplan : d.plan = making (d.item? (place ++ [name])) ++ rest) :
    ∃ id d', d.openOrCreate (dir ++ [name]) = (.ok id, d') ∧ d'.plan = rest ∧
      d'.limit = d.limit := by
  rw [openOrCreate, openFile, h.stat]
  cases he : d.entry? (place ++ [name]) with
  | some e =>
    cases e with
    | directory => exact absurd (item?_eq_directory_iff.2 he) hfree
    | file id =>
      rw [item?_eq_file_iff.2 ⟨id, he, rfl⟩] at hplan
      exact ⟨id, d, rfl, hplan, rfl⟩
  | none =>
    rw [item?_eq_none_iff.2 he] at hplan
    simp only [h.vacancy, draw_eq, hplan]
    exact ⟨_, _, rfl, rfl, rfl⟩

/-- A write can be stopped when any number of its bytes are in the file beside. -/
theorem writeAtomic_stopped {d : Disk} {dir place : Path} {name beside : String}
    {k : Nat} (hd : d.Sound) (hbeside : Child d dir place beside)
    (hpath : besidePath (dir ++ [name]) = dir ++ [beside])
    (hfree : d.item? (place ++ [beside]) ≠ some .directory)
    (hplan : d.plan = making (d.item? (place ++ [beside])) ++ [none, some k])
    (hlimit : d.limit = none) (bs : Bytes) :
    ∃ d', d.writeAtomic (dir ++ [name]) bs = (.error .mishap, d') ∧
      d'.item? (place ++ [beside]) = some (.file (bs.take k)) := by
  obtain ⟨id, d₁, ho, hplan₁, hlimit₁⟩ := hbeside.openOrCreate_making hfree hplan
  obtain ⟨hc₁, ⟨id', hid', hentry₁⟩ | ⟨⟨f, hf⟩, _⟩⟩ := hbeside.openOrCreate_spec hd ho
  · cases hid'
    have hid : id < d₁.contents.length := hc₁.sound.lt_of_entry hentry₁
    -- The file beside is emptied, and then takes the bytes up to the mishap.
    obtain ⟨d₂, ht, hplan₂, hlimit₂⟩ : ∃ d₂, d₁.truncate id 0 = (.ok (), d₂) ∧
      d₂.plan = [some k] ∧
        d₂.limit = d₁.limit := by
      rw [truncate, draw_eq, hplan₁]
      refine ⟨_, if_neg ?_, rfl, rfl⟩
      rintro (hlarge | hshort)
      · exact absurd hlarge (by decide)
      · omega
    obtain ⟨htree₂, hempty⟩ := truncate_ok hid (Nat.zero_le _) ht
    have hroom : d₂.room id bs.length = bs.length := by
      rw [room, hlimit₂, hlimit₁, hlimit]
    have hmin : bs.take (min k bs.length) = bs.take k := List.take_eq_take_min.symm
    have ha : d₂.append id bs =
        (.error .mishap, ({ d₂ with plan := [] } : Disk).extend id (bs.take k)) := by
      rw [append, draw_eq, hplan₂, hroom]
      simp only [List.head?_cons, Option.join_some, List.tail_cons, hmin]
    refine ⟨_, by rw [writeAtomic, hpath, ho]; simp only [ht, ha]; rfl, ?_⟩
    have hid₂ : id < ({ d₂ with plan := [] } : Disk).contents.length :=
      htree₂.length ▸ hid
    rw [item?_eq_file_iff]
    refine ⟨id, (htree₂.entry_eq (place ++ [beside])).trans hentry₁, ?_⟩
    rw [extend_eq_setContent, content_setContent hid₂]
    show d₂.content id ++ bs.take k = bs.take k
    rw [hempty, List.take_zero, List.nil_append]
  · cases hf

end Chronicle.Disk
