import Chronicle.Proofs.Medium.Document
import Chronicle.Proofs.Medium.Ground
import Chronicle.Proofs.Raster.RoundTrip

/-!
# Directories of records

A directory keeps every record that was written to it in a file of its own. Running
numbers grow with the writes, so no name is used twice, and of the names of a key the
last one is that of the latest timestamp, and of the latest write among equal
timestamps.

* `newest?`: the record of the latest timestamp, the last written one if there are
  several.
* `Keeps`: what a directory holds after some acknowledged writes.
* `Keeps.read`, `Keeps.write`, `Keeps.openAt`: what the calls do to it.
-/

namespace Chronicle.Medium

theorem Format.decode_encode {format : Format} {r : Record} {bs : Bytes}
    (h : format.encode r = .ok bs) (p : Path) :
    format.decode p bs = .ok r := by
  cases format with
  | document =>
    cases h
    exact Record.ofDocument_toDocument p.toText r
  | glyph =>
    rw [encode] at h
    split at h
    · next g hg =>
      cases h
      obtain ⟨hmap, hrecord⟩ := Raster.toRecord_ofRecord hg
      rw [decode, hmap]
      exact hrecord
    · cases h

namespace Files

/-! ## The newest record -/

/-- Of some records, in the order in which they were written, the one with the latest
timestamp; of those the one written last. -/
def newest? (rs : List Record) : Option Record :=
  rs.foldl (fun best r =>
    match best with
    | none => some r
    | some b => if r.stamp < b.stamp then some b else some r) none

theorem newest?_concat (rs : List Record) (r : Record) :
    newest? (rs ++ [r]) =
      match newest? rs with
      | none => some r
      | some b => if r.stamp < b.stamp then some b else some r := by
  rw [newest?, List.foldl_append]
  rfl

theorem newest?_eq_none {rs : List Record} (h : newest? rs = none) : rs = [] := by
  by_cases hne : rs = []
  · exact hne
  · rw [← List.dropLast_concat_getLast hne, newest?_concat] at h
    split at h
    · cases h
    · split at h <;> cases h

/-- No record before the newest one is later, and those after it are earlier. -/
theorem newest?_eq_some {rs : List Record} {b : Record} (h : newest? rs = some b) :
    ∃ before after, rs = before ++ b :: after ∧ (∀ r ∈ before, ¬b.stamp < r.stamp) ∧
      ∀ r ∈ after, r.stamp < b.stamp := by
  induction hn : rs.length generalizing rs b with
  | zero =>
    rw [List.length_eq_zero_iff.1 hn] at h
    cases h
  | succ n ih =>
    obtain ⟨init, z, rfl⟩ : ∃ init z, rs = init ++ [z] :=
      ⟨_, _, (List.dropLast_concat_getLast (List.ne_nil_of_length_eq_add_one hn)).symm⟩
    rw [newest?_concat] at h
    cases hinit : newest? init with
    | none =>
      rw [hinit] at h
      cases h
      exact ⟨[], [], by rw [newest?_eq_none hinit], by simp, by simp⟩
    | some c =>
      rw [hinit] at h
      obtain ⟨before, after, rfl, hbefore, hafter⟩ := ih hinit (by simpa using hn)
      simp only at h
      split at h
      · next hlt =>
        cases h
        refine ⟨before, after ++ [z], by simp, hbefore, fun r hr => ?_⟩
        rcases List.mem_append.1 hr with hr | hr
        · exact hafter r hr
        · rw [List.mem_singleton.1 hr]
          exact hlt
      · next hle =>
        -- The last record is not earlier than the newest of the others, and so than
        -- none of them.
        cases h
        refine ⟨before ++ c :: after, [], rfl, fun r hr => ?_, by simp⟩
        rw [Timestamp.lt_iff_toNat] at hle ⊢
        rcases List.mem_append.1 hr with hr | hr
        · have hr' := hbefore r hr
          rw [Timestamp.lt_iff_toNat] at hr'
          omega
        · rcases List.mem_cons.1 hr with rfl | hr
          · exact hle
          · have hr' := hafter r hr
            rw [Timestamp.lt_iff_toNat] at hr'
            omega

/-- A file comes before another one: by timestamp, then by running number. -/
def Before (x y : Record × UInt64) : Prop :=
  x.1.stamp < y.1.stamp ∨ (x.1.stamp = y.1.stamp ∧ x.2 < y.2)

theorem before_iff_toNat {x y : Record × UInt64} :
    Before x y ↔
      x.1.stamp.unixMs.toNat < y.1.stamp.unixMs.toNat ∨
        (x.1.stamp.unixMs.toNat = y.1.stamp.unixMs.toNat ∧
          (x.1.stamp.logical.toNat < y.1.stamp.logical.toNat ∨
            (x.1.stamp.logical.toNat = y.1.stamp.logical.toNat ∧
              x.2.toNat < y.2.toNat))) := by
  rw [Before, Timestamp.lt_iff_toNat, Timestamp.eq_iff_toNat, UInt64.lt_iff_toNat_lt]
  omega

/-- Where running numbers grow with the writes, all other files come before that of
the newest record. -/
theorem exists_newest {log : List (Record × UInt64)}
    (hgrow : log.Pairwise fun x y => x.2 < y.2) (hne : log ≠ []) :
    ∃ x ∈ log, newest? (log.map (·.1)) = some x.1 ∧ ∀ y ∈ log, y = x ∨ Before y x := by
  obtain ⟨b, hnewest⟩ : ∃ b, newest? (log.map (·.1)) = some b := by
    refine Option.ne_none_iff_exists'.1 fun hnone => hne ?_
    exact List.map_eq_nil_iff.1 (newest?_eq_none hnone)
  obtain ⟨before, after, hsplit, hbefore, hafter⟩ := newest?_eq_some hnewest
  obtain ⟨first, rest, rfl, rfl, hrest⟩ := List.map_eq_append_iff.1 hsplit
  obtain ⟨x, last, rfl, rfl, rfl⟩ := List.map_eq_cons_iff.1 hrest
  refine ⟨x, List.mem_append_right _ List.mem_cons_self, hnewest, fun y hy => ?_⟩
  rcases List.mem_append.1 hy with hy | hy
  · -- What was written before and is not later has a smaller running number.
    have hstamp := hbefore _ (List.mem_map_of_mem hy)
    have hnumber := (List.pairwise_append.1 hgrow).2.2 y hy x List.mem_cons_self
    rw [Timestamp.lt_iff_toNat] at hstamp
    rw [UInt64.lt_iff_toNat_lt] at hnumber
    rw [before_iff_toNat]
    omega
  · rcases List.mem_cons.1 hy with rfl | hy
    · exact .inl rfl
    · exact .inr (.inl (hafter _ (List.mem_map_of_mem hy)))

/-- The greater of a name that may be there and another one. -/
def greater (best : Option String) (name : String) : Option String :=
  match best with
  | none => some name
  | some b => if b < name then some name else some b

theorem greatest?_eq_foldl (names : List String) :
    greatest? names = names.foldl greater none :=
  rfl

/-- The name that all others come before is the greatest. -/
theorem greatest?_eq_some {names : List String} {m : String} (hm : m ∈ names)
    (hmax : ∀ x ∈ names, x = m ∨ x < m) : greatest? names = some m := by
  -- Either the greatest name was met and stays, or it is still to come.
  have key : ∀ (names : List String) (best : Option String),
      (∀ x ∈ names, x = m ∨ x < m) →
      (best = some m ∨ (m ∈ names ∧ ∀ b, best = some b → b < m)) →
      names.foldl greater best = some m := by
    intro names
    induction names with
    | nil =>
      rintro best _ (hbest | ⟨hmem, _⟩)
      · exact hbest
      · cases hmem
    | cons name names ih =>
      intro best hall hbest
      have hrest : ∀ x ∈ names, x = m ∨ x < m :=
        fun x hx => hall x (List.mem_cons_of_mem _ hx)
      rw [List.foldl_cons]
      refine ih _ hrest ?_
      rcases hbest with rfl | ⟨hmem, hsmall⟩
      · left
        rw [greater]
        rcases hall name List.mem_cons_self with rfl | hlt
        · rw [if_neg (String.lt_irrefl _)]
        · rw [if_neg (String.lt_asymm hlt)]
      · rcases hall name List.mem_cons_self with rfl | hlt
        · left
          cases best with
          | none => rfl
          | some b => rw [greater, if_pos (hsmall b rfl)]
        · right
          have hlater : m ∈ names := by
            rcases List.mem_cons.1 hmem with rfl | hmem
            · exact absurd hlt (String.lt_irrefl _)
            · exact hmem
          refine ⟨hlater, fun c hc => ?_⟩
          cases best with
          | none =>
            cases hc
            exact hlt
          | some b =>
            rw [greater] at hc
            split at hc
            · cases hc
              exact hlt
            · cases hc
              exact hsmall _ rfl
  rw [greatest?_eq_foldl]
  exact key names none hmax (.inr ⟨hm, fun b hb => by cases hb⟩)

/-- Some name comes after all others. -/
theorem exists_greatest {names : List String} (hne : names ≠ []) :
    ∃ m ∈ names, ∀ x ∈ names, x = m ∨ x < m := by
  induction names with
  | nil => exact absurd rfl hne
  | cons name names ih =>
    by_cases hempty : names = []
    · subst hempty
      exact ⟨name, List.mem_cons_self, fun x hx => .inl (List.mem_singleton.1 hx)⟩
    · obtain ⟨m, hm, hmax⟩ := ih hempty
      by_cases hlt : m < name
      · refine ⟨name, List.mem_cons_self, fun x hx => ?_⟩
        rcases List.mem_cons.1 hx with rfl | hx
        · exact .inl rfl
        · rcases hmax x hx with rfl | hxm
          · exact .inr hlt
          · exact .inr (String.lt_trans hxm hlt)
      · refine ⟨m, List.mem_cons_of_mem _ hm, fun x hx => ?_⟩
        rcases List.mem_cons.1 hx with rfl | hx
        · by_cases heq : x = m
          · exact .inl heq
          · exact .inr (Std.lt_of_le_of_ne (String.not_lt.1 hlt) heq)
        · exact hmax x hx

/-- The greatest name depends on which names there are, and not on their order. -/
theorem greatest?_congr {names names' : List String}
    (h : ∀ name, name ∈ names ↔ name ∈ names') :
    greatest? names = greatest? names' := by
  by_cases hempty : names = []
  · subst hempty
    rw [List.eq_nil_iff_forall_not_mem.2 fun name hname =>
      List.not_mem_nil ((h name).2 hname)]
  · obtain ⟨m, hm, hmax⟩ := exists_greatest hempty
    rw [greatest?_eq_some hm hmax,
      greatest?_eq_some ((h m).1 hm) fun x hx => hmax x ((h x).2 hx)]

/-! ## What a directory keeps -/

/-- The root leads to a place with the directories of keys in it, and in these, with
the extension of the format, the files of the written records and no others. -/
structure Keeps (f : Files) (place : Path) (d : Disk)
    (log : List (Record × UInt64)) : Prop where
  sound : d.Sound
  room : Roomy f.root
  root : d.find f.root = .ok (place, .directory)
  grow : log.Pairwise fun x y => x.2 < y.2
  counted : ∀ x ∈ log, x.2 ≤ f.sequence
  directories : ∀ name, d.item? (place ++ [name]) ≠ none →
    d.item? (place ++ [name]) = some .directory ∧ ∃ key, name = keyName key
  held : ∀ x ∈ log, d.item? (place ++ [keyName x.1.key]) = some .directory ∧
    ∃ bs, f.format.encode x.1 = .ok bs ∧
      d.item? (place ++ [keyName x.1.key] ++
        [fileName x.1.stamp x.2 f.format.extension]) = some (.file bs)
  plain : ∀ dir name, d.item? (place ++ [dir] ++ [name]) ≠ some .directory
  known : ∀ dir name, d.item? (place ++ [dir] ++ [name]) ≠ none →
    Path.extension? name = some f.format.extension →
    ∃ x ∈ log, dir = keyName x.1.key ∧ name = fileName x.1.stamp x.2 f.format.extension

variable {f f' : Files} {place : Path} {d d' : Disk} {log : List (Record × UInt64)}

namespace Keeps

theorem ground (h : f.Keeps place d log) : Ground f.root place d :=
  ⟨h.sound, h.room, h.root, h.directories, h.plain⟩

/-- What was written is there if the files with the extension of the format are the
same. -/
theorem of_files (h : f.Keeps place d log) (hroot : f'.root = f.root)
    (hformat : f'.format = f.format) (hground : Ground f.root place d')
    (hcounted : ∀ x ∈ log, x.2 ≤ f'.sequence)
    (hstays : ∀ name, d.item? (place ++ [name]) = some .directory →
      d'.item? (place ++ [name]) = some .directory)
    (hsame : ∀ dir name, Path.extension? name = some f.format.extension →
      d'.item? (place ++ [dir] ++ [name]) = d.item? (place ++ [dir] ++ [name])) :
    f'.Keeps place d' log := by
  rw [← hroot] at hground
  refine ⟨hground.sound, hground.room, hground.root, h.grow, hcounted,
    hground.directories, fun x hx => ?_, hground.plain, fun dir name hname hext => ?_⟩
  · obtain ⟨hdir, bs, hencode, hitem⟩ := h.held x hx
    rw [hformat, hsame _ _ (extension?_fileName _ _ (ending_extension _))]
    exact ⟨hstays _ hdir, bs, hencode, hitem⟩
  · rw [hformat] at hext ⊢
    rw [hsame dir name hext] at hname
    exact h.known dir name hname hext

/-! ## Reading -/

/-- The latest name of a key is that of its newest record, if the hashes of keys tell
them apart. -/
theorem latestName (h : f.Keeps place d log) (key : String)
    (hdistinct : ∀ x ∈ log, keyName x.1.key = keyName key → x.1.key = key) :
    ∃ name?, latestName? d (keyDirectory f.root key) f.format.extension = .ok name? ∧
      ((name? = none ∧ log.filter (·.1.key == key) = []) ∨
        ∃ x ∈ log, x.1.key = key ∧
        name? = some (fileName x.1.stamp x.2 f.format.extension) ∧
          newest? ((log.filter (·.1.key == key)).map (·.1)) = some x.1) := by
  obtain ⟨names, hlatest, hnames⟩ := h.ground.latestName key f.format.extension
  have hmem : ∀ name, name ∈ names ↔
      ∃ x ∈ log, x.1.key = key ∧ name = fileName x.1.stamp x.2 f.format.extension := by
    intro name
    rw [hnames]
    constructor
    · rintro ⟨_, hitem, hext⟩
      obtain ⟨x, hx, hkey, hname⟩ := h.known _ _ hitem hext
      exact ⟨x, hx, hdistinct x hx hkey.symm, hname⟩
    · rintro ⟨x, hx, rfl, rfl⟩
      obtain ⟨hdir, bs, _, hitem⟩ := h.held x hx
      exact ⟨hdir, by rw [hitem]; simp, extension?_fileName _ _ (ending_extension _)⟩
  refine ⟨_, hlatest, ?_⟩
  by_cases hempty : log.filter (·.1.key == key) = []
  · left
    refine ⟨?_, hempty⟩
    have hnil : names = [] := by
      refine List.eq_nil_iff_forall_not_mem.2 fun name hname => ?_
      obtain ⟨x, hx, hkey, _⟩ := (hmem name).1 hname
      exact List.filter_eq_nil_iff.1 hempty x hx (beq_iff_eq.2 hkey)
    rw [hnil]
    rfl
  · right
    obtain ⟨x, hx, hnewest, hbefore⟩ := exists_newest (h.grow.filter _) hempty
    obtain ⟨hxlog, hxkey⟩ := List.mem_filter.1 hx
    refine ⟨x, hxlog, eq_of_beq hxkey, ?_, hnewest⟩
    refine greatest?_eq_some ((hmem _).2 ⟨x, hxlog, eq_of_beq hxkey, rfl⟩)
      fun name hname => ?_
    obtain ⟨y, hy, hykey, rfl⟩ := (hmem name).1 hname
    rcases hbefore y (List.mem_filter.2 ⟨hy, beq_iff_eq.2 hykey⟩) with rfl | hlt
    · exact .inl rfl
    · exact .inr ((fileName_lt_iff _ _ _ _ _).2 hlt)

/-- A key reads its newest record. -/
theorem read (h : f.Keeps place d log) (key : String)
    (hdistinct : ∀ x ∈ log, keyName x.1.key = keyName key → x.1.key = key) :
    f.read key d = .ok (newest? ((log.map (·.1)).filter (·.key == key))) := by
  have hfilter : (log.map (·.1)).filter (·.key == key) =
      (log.filter (·.1.key == key)).map (·.1) := by
    rw [List.filter_map]
    rfl
  obtain ⟨name?, hlatest, ⟨rfl, hempty⟩ | ⟨x, hx, hkey, rfl, hnewest⟩⟩ :=
    h.latestName key hdistinct
  · rw [Files.read, latestPath?, hlatest, hfilter, hempty]
    rfl
  · obtain ⟨hdir, bs, hencode, hitem⟩ := h.held x hx
    rw [hkey] at hdir hitem
    have hread :=
      (h.ground.fileChild hdir x.1.stamp x.2 (ending_extension f.format)).read_of_item
        hitem
    rw [Files.read, latestPath?, hlatest, hfilter, hnewest]
    simp only [Option.map_some, keyDirectory_eq, hread, Format.decode_encode hencode]
    rfl

/-! ## Writing -/

/-- A number that is left is greater than all that were given. -/
theorem lt_next (h : f.Keeps place d log) (hnumber : f.sequence.toNat + 1 < UInt64.size)
    {x : Record × UInt64} (hx : x ∈ log) : x.2 < f.sequence + 1 := by
  have hle := h.counted x hx
  rw [UInt64.le_iff_toNat_le] at hle
  rw [UInt64.lt_iff_toNat_lt, toNat_succ (Nat.ne_of_lt hnumber)]
  omega

/-- An acknowledged write adds its record: the files of earlier records are not
touched, as their running numbers are smaller. -/
theorem concat {r : Record} (h : f.Keeps place d log)
    (hw : Wrote f place r d (.done ()) f' d') :
    f'.Keeps place d' (log ++ [(r, f.sequence + 1)]) := by
  obtain ⟨hnumber, hnext, hdir, bs, hencode, hitem⟩ := hw.done rfl
  have hground := hw.ground
  rw [← hw.root] at hground
  refine ⟨hground.sound, hground.room, hground.root, ?_, fun x hx => ?_,
    hground.directories, fun x hx => ?_, hground.plain, fun dir name hname hext => ?_⟩
  · refine List.pairwise_append.2
      ⟨h.grow, List.pairwise_singleton _ _, fun x hx y hy => ?_⟩
    rw [List.mem_singleton.1 hy]
    exact h.lt_next hnumber hx
  · rw [hnext]
    rcases List.mem_append.1 hx with hx | hx
    · exact UInt64.le_of_lt (h.lt_next hnumber hx)
    · rw [List.mem_singleton.1 hx]
      exact UInt64.le_refl _
  · rw [hw.format]
    rcases List.mem_append.1 hx with hx | hx
    · obtain ⟨hxdir, bs', hxencode, hxitem⟩ := h.held x hx
      refine ⟨hw.stays _ hxdir, bs', hxencode,
        (hw.same _ _ (extension?_fileName _ _ (ending_extension _)) ?_).trans hxitem⟩
      rintro ⟨_, _, heq⟩
      have hlt := h.lt_next hnumber hx
      rw [fileName_sequence_inj heq] at hlt
      exact absurd hlt (UInt64.lt_irrefl _)
    · rw [List.mem_singleton.1 hx]
      exact ⟨hdir, bs, hencode, hitem⟩
  · rw [hw.format] at hext ⊢
    by_cases hplace : dir = keyName r.key ∧
      name = fileName r.stamp (f.sequence + 1) f.format.extension
    · exact ⟨(r, f.sequence + 1), List.mem_append_right _ List.mem_cons_self, hplace⟩
    · rw [hw.same dir name hext fun hall => hplace hall.2] at hname
      obtain ⟨x, hx, hkey⟩ := h.known dir name hname hext
      exact ⟨x, List.mem_append_left _ hx, hkey⟩

/-- A write adds its record if it is acknowledged and changes nothing else. -/
theorem write {r : Record} {a : Answer Unit} (h : f.Keeps place d log)
    (hwrite : f.write r d = (a, f', d')) (hnumber : a ≠ .brokeDown) :
    f'.Keeps place d' (if a = .done () then log ++ [(r, f.sequence + 1)] else log) ∧
      f'.root = f.root ∧
      f'.format = f.format := by
  have hw := h.ground.write hwrite
  refine ⟨?_, hw.root, hw.format⟩
  split
  · next hdone =>
    subst hdone
    exact h.concat hw
  · next hfailed =>
    refine h.of_files hw.root hw.format hw.ground (fun x hx => ?_) hw.stays
      fun dir name hext =>
      hw.same dir name hext fun hall => hfailed hall.1
    rcases hw.number hnumber with hsame | ⟨hleft, hnext⟩
    · rw [hsame]
      exact h.counted x hx
    · rw [hnext]
      exact UInt64.le_of_lt (h.lt_next hleft hx)

/-! ## Opening -/

/-- The directory can be opened again, and goes on counting where it was. -/
theorem openAt (h : f.Keeps place d log) :
    ∃ f', Files.openAt f.format f.root d = (.ok f', d) ∧ f'.Keeps place d log ∧
      f'.root = f.root ∧
      f'.format = f.format := by
  obtain ⟨n, hopen, hgreatest⟩ := h.ground.openAt f.format
  refine ⟨_, hopen, ?_, rfl, rfl⟩
  refine @of_files f ⟨f.format, f.root, n⟩ place d d log h rfl rfl h.ground
    (fun x hx => ?_) (fun _ hdir => hdir) fun _ _ _ => rfl
  -- The running number of each record is among those found.
  obtain ⟨hdir, bs, _, hitem⟩ := h.held x hx
  rw [UInt64.le_iff_toNat_le]
  exact hgreatest _ _ _ hdir (by rw [hitem]; simp) (sequenceOf?_fileName _ _ _)

/-- What happens outside of the directory does not matter. -/
theorem of_same (h : f.Keeps place d log) (hd : d'.Sound)
    (hroot : d'.find f.root = d.find f.root)
    (hsame : ∀ names, d'.item? (place ++ names) = d.item? (place ++ names)) :
    f.Keeps place d' log := by
  refine h.of_files rfl rfl (h.ground.of_same hd hroot hsame) h.counted (fun name => ?_)
    fun dir name _ => ?_
  · rw [hsame]
    exact id
  · rw [List.append_assoc, hsame]

end Keeps

end Files

end Chronicle.Medium
