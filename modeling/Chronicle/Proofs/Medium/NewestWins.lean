import Chronicle.Proofs.Medium.Files

/-!
# The newest record wins

A directory of records serves the record with the latest timestamp, which is the one
written last as long as the clock is not set back between the writes of a key. Where
it is, an older write hides the later one for good: the name of a file begins with
the timestamp, and the order of the writes comes last in it.

* `Run`: what may happen to a directory: records are written, it is opened again, and
  everything around it changes.
* `last_write_is_read_iff_no_later_stamp`: what is read after every run, and when
  that is the last write.
* `write_after_clock_set_back_is_not_read`: a write that is acknowledged and not
  read.
-/

namespace Chronicle.Medium.Files

/-! ## Newest and last -/

/-- No record is later than the newest one. -/
theorem not_lt_of_newest? {rs : List Record} {b : Record} (h : newest? rs = some b) :
    b ∈ rs ∧ ∀ r ∈ rs, ¬b.stamp < r.stamp := by
  obtain ⟨before, after, rfl, hbefore, hafter⟩ := newest?_eq_some h
  refine ⟨List.mem_append_right _ List.mem_cons_self, fun r hr => ?_⟩
  rcases List.mem_append.1 hr with hr | hr
  · exact hbefore r hr
  · rw [Timestamp.lt_iff_toNat]
    rcases List.mem_cons.1 hr with rfl | hr
    · omega
    · have hlt := hafter r hr
      rw [Timestamp.lt_iff_toNat] at hlt
      omega

/-- The newest record is the last one if and only if none is later than that. -/
theorem newest?_eq_getLast?_iff (rs : List Record) :
    newest? rs = rs.getLast? ↔ ∀ last, rs.getLast? = some last →
      ∀ r ∈ rs, ¬last.stamp < r.stamp := by
  by_cases hne : rs = []
  · subst hne
    exact iff_of_true rfl nofun
  · obtain ⟨init, z, rfl⟩ : ∃ init z, rs = init ++ [z] :=
      ⟨_, _, (List.dropLast_concat_getLast hne).symm⟩
    rw [List.getLast?_concat]
    constructor
    · rintro hnewest last ⟨⟩
      exact (not_lt_of_newest? hnewest).2
    · intro hlast
      have hz := hlast z rfl
      rw [newest?_concat]
      cases hinit : newest? init with
      | none => rfl
      | some b =>
        exact if_neg (hz b (List.mem_append_left _ (not_lt_of_newest? hinit).1))

/-! ## Runs -/

/-- The path leads to a directory with nothing below it. -/
def Bare (d : Disk) (root : Path) : Prop :=
  ∃ place, d.find root = .ok (place, .directory) ∧ ∀ names, names ≠ [] →
    d.item? (place ++ names) = none

/-- What a directory comes to, with the records that it has acknowledged. It is
opened where nothing was, records are written to it while there are running numbers,
it is dropped and opened again, and anything happens to the disk but below that
directory. -/
inductive Run (format : Format) (root : Path) : Files → Disk → List Record → Prop where
  | start {f : Files} {d₀ d : Disk} (hd : d₀.Sound) (hroom : Roomy root)
      (hopen : openAt format root d₀ = (.ok f, d)) (hbare : Bare d root) :
      Run format root f d []
  | write {f f' : Files} {d d' : Disk} {rs : List Record} {r : Record} {a : Answer Unit}
      (h : Run format root f d rs) (hwrite : f.write r d = (a, f', d'))
      (hnumber : a ≠ .brokeDown) :
      Run format root f' d' (if a = .done () then rs ++ [r] else rs)
  | reopen {f f' : Files} {d d' : Disk} {rs : List Record} (h : Run format root f d rs)
      (hopen : openAt format root d = (.ok f', d')) : Run format root f' d' rs
  | turn {f : Files} {d d' : Disk} {rs : List Record} (h : Run format root f d rs)
      (hd : d'.Sound) (hroot : d'.find root = d.find root)
      (hsame : ∀ place e, d.find root = .ok (place, e) →
        ∀ names, d'.item? (place ++ names) = d.item? (place ++ names)) :
      Run format root f d' rs

variable {format : Format} {root : Path} {f : Files} {d : Disk} {rs : List Record}

/-- A directory that was opened where nothing is keeps no records. -/
theorem keeps_nil {d₀ : Disk} (hd : d₀.Sound) (hroom : Roomy root)
    (hopen : openAt format root d₀ = (.ok f, d)) (hbare : Bare d root) :
    ∃ place, f.Keeps place d [] ∧ f.root = root ∧ f.format = format := by
  rw [openAt] at hopen
  cases hm : d₀.makeDirectories root with
  | mk r d₁ =>
    rw [hm] at hopen
    have hd₁ := hd.makeDirectories hm
    cases r with
    | error _ => cases hopen
    | ok u =>
      simp only at hopen
      split at hopen
      · cases hopen
      · cases hopen
        obtain ⟨place, hfind, hnothing⟩ := hbare
        have hone : ∀ name, d.item? (place ++ [name]) = none :=
          fun name => hnothing [name] (by simp)
        have htwo : ∀ dir name, d.item? (place ++ [dir] ++ [name]) = none := by
          intro dir name
          rw [List.append_assoc]
          exact hnothing _ (by simp)
        refine ⟨place,
          ⟨hd₁, hroom, hfind, .nil, fun x hx => (List.not_mem_nil hx).elim, ?_,
          fun x hx => (List.not_mem_nil hx).elim, ?_, ?_⟩, rfl, rfl⟩
        · exact fun name hname => absurd (hone name) hname
        · intro dir name
          rw [htwo]
          simp
        · exact fun dir name hname => absurd (htwo dir name) hname

/-- After every run the acknowledged records, and no others, are there under growing
running numbers. -/
theorem Run.keeps (h : Run format root f d rs) :
    ∃ place log, f.Keeps place d log ∧ log.map (·.1) = rs ∧ f.root = root ∧
      f.format = format := by
  induction h with
  | start hd hroom hopen hbare =>
    obtain ⟨place, hkeeps, hroot, hformat⟩ := keeps_nil hd hroom hopen hbare
    exact ⟨place, [], hkeeps, rfl, hroot, hformat⟩
  | write _ hwrite hnumber ih =>
    obtain ⟨place, log, hkeeps, rfl, hroot, hformat⟩ := ih
    obtain ⟨hkeeps', hroot', hformat'⟩ := hkeeps.write hwrite hnumber
    refine ⟨place, _, hkeeps', ?_, hroot'.trans hroot, hformat'.trans hformat⟩
    split
    · rw [List.map_append, List.map_singleton]
    · rfl
  | reopen _ hopen ih =>
    obtain ⟨place, log, hkeeps, hrs, rfl, rfl⟩ := ih
    obtain ⟨f', hopen', hkeeps', hroot, hformat⟩ := hkeeps.openAt
    rw [hopen] at hopen'
    cases hopen'
    exact ⟨place, log, hkeeps', hrs, hroot, hformat⟩
  | turn _ hd hroot hsame ih =>
    obtain ⟨place, log, hkeeps, hrs, rfl, hformat⟩ := ih
    exact ⟨place, log, hkeeps.of_same hd hroot (hsame place _ hkeeps.root),
      hrs, rfl, hformat⟩

theorem hash_of_keyName {key key' : String} (h : keyName key = keyName key') :
    Hash.Domain.key.hash (Bytes.ofText key) =
      Hash.Domain.key.hash (Bytes.ofText key') := by
  have hread := Digest.ofHex_toHex (Hash.Domain.key.hash (Bytes.ofText key))
  rw [keyName, keyName] at h
  rw [h, Digest.ofHex_toHex] at hread
  exact (Except.ok.inj hread).symm

/-! ## Reading -/

theorem Run.read (h : Run format root f d rs) (key : String)
    (hdistinct : ∀ r ∈ rs, Hash.Domain.key.hash (Bytes.ofText r.key) =
      Hash.Domain.key.hash (Bytes.ofText key) → r.key = key) :
    f.read key d = .ok (newest? (rs.filter (·.key == key))) := by
  obtain ⟨place, log, hkeeps, rfl, _⟩ := h.keeps
  exact hkeeps.read key fun x hx hname =>
    hdistinct x.1 (List.mem_map_of_mem hx) (hash_of_keyName hname)

/-- After every run a key reads, of the records acknowledged under it, the one with
the latest timestamp and of those the last written one. That is the last record if
and only if no other one of the key is later by its timestamp. A record that has a
file is taken if nothing is in the way and a running number is left. The directory
can always be opened again, and reads the same then. -/
theorem last_write_is_read_iff_no_later_stamp (h : Run format root f d rs)
    (key : String)
    (hdistinct : ∀ r ∈ rs, Hash.Domain.key.hash (Bytes.ofText r.key) =
      Hash.Domain.key.hash (Bytes.ofText key) → r.key = key) :
    f.read key d = .ok (newest? (rs.filter (·.key == key))) ∧
      (f.read key d = .ok (rs.filter (·.key == key)).getLast? ↔
        ∀ last, (rs.filter (·.key == key)).getLast? = some last →
          ∀ r ∈ rs, r.key = key → ¬last.stamp < r.stamp) ∧
      (∀ r bs, format.encode r = .ok bs → f.sequence.toNat + 1 < UInt64.size → d.Calm →
        ∃ f' d', f.write r d = (.done (), f', d') ∧ d'.Calm) ∧
      ∃ f', openAt format root d = (.ok f', d) ∧ f'.read key d = f.read key d := by
  have hread := h.read key hdistinct
  obtain ⟨place, log, hkeeps, hrs, rfl, rfl⟩ := h.keeps
  refine ⟨hread, ?_, ?_, ?_⟩
  · rw [hread, Except.ok.injEq, newest?_eq_getLast?_iff]
    refine forall_congr' fun last => imp_congr_right fun _ => forall_congr' fun r => ?_
    rw [List.mem_filter, beq_iff_eq, and_imp]
  · intro r bs hencode hnumber hcalm
    obtain ⟨f', d', hwrite, hcalm', _⟩ := hkeeps.ground.write_calm hencode hnumber hcalm
    exact ⟨f', d', hwrite, hcalm'⟩
  · obtain ⟨f', hopen, _⟩ := hkeeps.openAt
    exact ⟨f', hopen, ((h.reopen hopen).read key hdistinct).trans hread.symm⟩

/-! ## A clock that is set back -/

/-- Every list of records that have files can be written to a new directory. -/
theorem exists_run (format : Format) {rs : List Record}
    (hencode : ∀ r ∈ rs, ∃ bs, format.encode r = .ok bs)
    (hcount : rs.length < UInt64.size) :
    ∃ f d, Run format ["r"] f d rs ∧ d.Calm ∧ f.sequence.toNat = rs.length := by
  induction hn : rs.length generalizing rs with
  | zero =>
    rw [List.length_eq_zero_iff.1 hn]
    let d : Disk := { entries := [((1, ["r"]), .directory)] }
    have hopen : openAt format ["r"] {} = (.ok ⟨format, ["r"], 0⟩, d) := rfl
    have hbare : Bare d ["r"] := by
      refine ⟨["r"], rfl, fun names hnames => ?_⟩
      rw [Disk.item?_eq_none_iff]
      unfold Disk.entry?
      rw [if_neg (by simp)]
      have hkey : (Path.key (["r"] ++ names) == (1, ["r"])) = false := by
        rw [beq_eq_false_iff_ne]
        intro heq
        exact hnames (by simpa [Path.key] using heq)
      show List.lookup _ [((1, ["r"]), Disk.Entry.directory)] = none
      rw [List.lookup_cons, hkey]
      rfl
    have hroom : Roomy ["r"] := by
      unfold Roomy
      decide
    exact ⟨_, d, .start Disk.sound_empty hroom hopen hbare, ⟨rfl, rfl⟩, rfl⟩
  | succ n ih =>
    obtain ⟨init, z, rfl⟩ : ∃ init z, rs = init ++ [z] :=
      ⟨_, _, (List.dropLast_concat_getLast (List.ne_nil_of_length_eq_add_one hn)).symm⟩
    have hlength : init.length = n := by simpa using hn
    obtain ⟨f, d, hrun, hcalm, hsequence⟩ :=
      ih (fun r hr => hencode r (List.mem_append_left _ hr)) (by omega) hlength
    obtain ⟨bs, hz⟩ := hencode z (List.mem_append_right _ List.mem_cons_self)
    obtain ⟨place, log, hkeeps, _, _, hformat⟩ := hrun.keeps
    obtain ⟨f', d', hwrite, hcalm', hnext⟩ :=
      hkeeps.ground.write_calm (by rw [hformat]; exact hz) (by omega) hcalm
    have hrun' := hrun.write hwrite (fun h => by cases h)
    rw [if_pos rfl] at hrun'
    exact ⟨f', d', hrun', hcalm', by rw [hnext, hsequence]⟩

/-- A record whose binary form has room in a frame has a file in either format. -/
theorem exists_encode (format : Format) {r : Record}
    (h : r.toBinary.length < Frame.payloadLimit) :
    ∃ bs, format.encode r = .ok bs := by
  cases format with
  | document => exact ⟨_, rfl⟩
  | glyph =>
    rw [Format.encode, Raster.ofRecord_eq_ok_iff.2 ⟨h, rfl⟩]
    exact ⟨_, rfl⟩

/-- A record of one key with a value of one byte. -/
def note (value : UInt8) (unixMs : UInt64) : Record :=
  ⟨"note", "k", [value], Digest.zero, ⟨unixMs, 0⟩⟩

theorem exists_encode_note (format : Format) (value : UInt8) (unixMs : UInt64) :
    ∃ bs, format.encode (note value unixMs) = .ok bs := by
  refine exists_encode format ?_
  rw [Record.length_toBinary]
  show (Bytes.ofText "note").length + (Bytes.ofText "k").length + 1 + 108 <
    Frame.payloadLimit
  decide

/-- The clock is set back between the second and the third write. -/
theorem last_write_is_read_iff_no_later_stamp_setBack :
    ∃ f d, Run .glyph ["r"] f d [note 1 1, note 2 3, note 3 2] ∧
      f.read "k" d = .ok (some (note 2 3)) ∧
      f.read "k" d ≠ .ok (some (note 3 2)) := by
  obtain ⟨f, d, hrun, _⟩ := @exists_run .glyph [note 1 1, note 2 3, note 3 2]
    (by simp [exists_encode_note]) (by decide)
  have hread := (last_write_is_read_iff_no_later_stamp hrun "k" (by simp [note])).1
  have hnewest : newest? ([note 1 1, note 2 3, note 3 2].filter (·.key == "k")) =
      some (note 2 3) := by decide
  rw [hnewest] at hread
  refine ⟨f, d, hrun, hread, ?_⟩
  rw [hread]
  intro heq
  exact absurd (Option.some.inj (Except.ok.inj heq)) (by decide)

/-- In either format a record that is written last, with an earlier timestamp, is
acknowledged and not read. -/
theorem write_after_clock_set_back_is_not_read :
    (∃ f d, Run .document ["r"] f d [note 1 2, note 2 1] ∧
        f.read "k" d = .ok (some (note 1 2))) ∧
      (∃ f d, Run .glyph ["r"] f d [note 1 2, note 2 1] ∧
        f.read "k" d = .ok (some (note 1 2))) ∧
      note 1 2 ≠ note 2 1 := by
  have hnewest : newest? ([note 1 2, note 2 1].filter (·.key == "k")) =
      some (note 1 2) := by decide
  have hread : ∀ format, ∃ f d, Run format ["r"] f d [note 1 2, note 2 1] ∧
      f.read "k" d = .ok (some (note 1 2)) := by
    intro format
    obtain ⟨f, d, hrun, _⟩ :=
      @exists_run format [note 1 2, note 2 1] (by simp [exists_encode_note]) (by decide)
    exact ⟨f, d, hrun, by rw [hrun.read "k" (by simp [note]), hnewest]⟩
  exact ⟨hread .document, hread .glyph, by decide⟩

end Chronicle.Medium.Files
