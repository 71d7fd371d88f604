import Chronicle.Proofs.Medium.Neighbours

/-!
# What a medium sees of a disk

Below one directory each medium has a directory of its own, and it sees nothing else.
Where two disks have the same in that directory, a medium answers every call alike,
and they still have the same in it afterwards. Files may have other numbers on the
other disk, and its other directories may look different.

* `Uniform`: what a write does is known without the disk it is made on.
* `Settled`: the medium stands in its directory and nothing is in its way.
* `Settled.write_same`, `Settled.read_same`: it sees nothing outside of its
  directory.
* `InMemory.write_eq`, `InMemory.read_eq`: media in memory see nothing at all.
-/

namespace Chronicle

/-! ## Disks that look alike in one part -/

namespace Disk

variable {d d' e : Disk} {T : Path → Prop} {p q dir place : Path} {name beside : String}
    {id : Nat} {bs : Bytes}

/-- What is at a place when bytes were appended to the file at another one. -/
def grown (place : Path) (bs : Bytes) (q : Path) (x : Option Item) : Option Item :=
  match x with
  | some (.file c) => if q = place then some (.file (c ++ bs)) else x
  | _ => x

theorem grown_of_ne (hq : q ≠ place) (x : Option Item) : grown place bs q x = x := by
  unfold grown
  split
  · rw [if_neg hq]
  · rfl

theorem item?_append (hd : d.Sound) (hplace : d.entry? place = some (.file id))
    (happend : d.append id bs = (.ok (), d')) (q : Path) :
    d'.item? q = grown place bs q (d.item? q) := by
  by_cases hq : q = place
  · subst hq
    obtain ⟨htree, written, hcontent, _, hall⟩ :=
      append_spec (hd.lt_of_entry hplace) happend
    rw [item?_eq_file_iff.2 ⟨id, hplace, rfl⟩, grown, if_pos rfl, item?_eq_file_iff]
    exact ⟨id, (htree.entry_eq q).trans hplace, by rw [hcontent, hall rfl]⟩
  · rw [(append_within (T := (· = place)) hd hplace rfl happend).item_eq hq,
      grown_of_ne hq]

/-- A directory is made, and nothing else. -/
theorem Child.makeDirectories_item (h : Child d dir place name) (hd : d.Sound)
    (hcalm : d.Calm) (hfree : ∀ bs, d.item? (place ++ [name]) ≠ some (.file bs)) :
    ∃ d', d.makeDirectories (dir ++ [name]) = (.ok (), d') ∧ d'.Calm ∧
      ChangesOnly [place ++ [name]] d d' ∧
      ∀ q, d'.item? q = if q = place ++ [name] then some .directory else d.item? q := by
  obtain ⟨d', hmake, hcalm'⟩ := h.makeDirectories_calm hcalm hfree
  obtain ⟨hc, hok, _⟩ := h.makeDirectories_spec hd hmake
  refine ⟨d', hmake, hcalm', hc, ?_⟩
  intro q
  split
  · next hq => rw [hq, hok rfl]
  · next hq => exact hc.same q (by rwa [List.mem_singleton])

/-- A file is written, and nothing else. -/
theorem writeAtomic_item (hd : d.Sound) (hcalm : d.Calm)
    (hname : Child d dir place name) (hbeside : Child d dir place beside)
    (hpath : besidePath (dir ++ [name]) = dir ++ [beside]) (hne : name ≠ beside)
    (hfree : d.item? (place ++ [name]) ≠ some .directory)
    (hfree' : d.item? (place ++ [beside]) ≠ some .directory) (bs : Bytes) :
    ∃ d', d.writeAtomic (dir ++ [name]) bs = (.ok (), d') ∧
      ∀ q, d'.item? q =
        if q = place ++ [name] then some (.file bs)
        else if q = place ++ [beside] then none else d.item? q := by
  obtain ⟨d', hwrite, _, hgone⟩ :=
    writeAtomic_calm hd hcalm hname hbeside hpath hne hfree hfree' bs
  obtain ⟨hc, hok, _⟩ := writeAtomic_spec hd hname hbeside hpath hne hwrite
  refine ⟨d', hwrite, ?_⟩
  intro q
  split
  · next hq => rw [hq, hok rfl]
  · next hq =>
    split
    · next hq' => rw [hq', hgone]
    · next hq' => exact hc.same q (by simp [hq, hq'])

end Disk

namespace Medium

/-! ## Writes that do not depend on the disk -/

/-- What a call does is known without the disk that it is made on: what it answers,
what it makes of the medium, and what becomes of each place. -/
def Uniform (P : Disk → Prop) (call : Disk → Answer Unit × Medium × Disk) : Prop :=
  ∃ a m, ∃ g : Path → Option Disk.Item → Option Disk.Item,
    ∀ d, P d → ∃ d', call d = (a, m, d') ∧ ∀ q, d'.item? q = g q (d.item? q)

theorem Uniform.same {P : Disk → Prop} {call : Disk → Answer Unit × Medium × Disk}
    {T : Path → Prop} {d e : Disk} (h : Uniform P call) (hd : P d) (he : P e)
    (hsame : Disk.SameOn T d e) :
    (call d).1 = (call e).1 ∧ (call d).2.1 = (call e).2.1 ∧
      Disk.SameOn T (call d).2.2 (call e).2.2 := by
  obtain ⟨a, m, g, h⟩ := h
  obtain ⟨d', hcall, hitem⟩ := h d hd
  obtain ⟨e', hcall', hitem'⟩ := h e he
  rw [hcall, hcall']
  refine ⟨rfl, rfl, ?_⟩
  intro q hq
  rw [hitem, hitem', hsame q hq]

/-! ## Directories of records -/

namespace Files

/-- In the directories of keys there are no directories. -/
structure Plain (root : Path) (d : Disk) : Prop where
  room : Roomy root
  files : ∀ dir name, d.item? (root.place ++ [dir] ++ [name]) ≠ some .directory

variable {root : Path} {d d' e : Disk} {T : Path → Prop} {key : String}

theorem Plain.turn (h : Plain root d) (hw : Disk.Within T d d')
    (hout : ∀ q, T q → ¬root.place <+: q) : Plain root d' := by
  have hsame (dir name : String) :
      d'.item? (root.place ++ [dir] ++ [name]) =
        d.item? (root.place ++ [dir] ++ [name]) := by
    refine hw.item_eq fun hT => hout _ hT ?_
    rw [List.append_assoc]
    exact List.prefix_append _ _
  refine ⟨h.room, fun dir name => ?_⟩
  rw [hsame]
  exact h.files dir name

theorem Rooted.keyChild (h : Rooted root d) (hroom : Roomy root) (key : String) :
    Disk.Child d root root.place (keyName key) :=
  ⟨h.find, own_keyName key,
    proper_keyDirectory hroom (Disk.find_eq_ok_iff.1 h.find).1 key⟩

/-- There is no file where a key has its directory. -/
theorem Rooted.free (h : Rooted root d) (key : String) (bs : Bytes) :
    d.item? (root.place ++ [keyName key]) ≠ some (.file bs) := by
  intro hfile
  obtain ⟨id, hentry, _⟩ := Disk.item?_eq_file_iff.1 hfile
  obtain ⟨q, hfind⟩ := h.below (keyName key) (by rw [hentry]; simp)
  have hdir := (Disk.find_place hfind).2
  rw [(own_keyName key).place_concat, hentry] at hdir
  cases hdir

theorem Rooted.fileChild (h : Rooted root d) (hroom : Roomy root)
    (hdir : d.item? (root.place ++ [keyName key]) = some .directory) (t : Timestamp)
    (n : UInt64) {ext : String} (hext : Ending ext) :
    Disk.Child d (root ++ [keyName key]) (root.place ++ [keyName key])
      (fileName t n ext) := by
  refine ⟨?_, own_fileName t n hext,
    proper_file hroom (Disk.find_eq_ok_iff.1 h.find).1 key t n hext⟩
  rw [(h.keyChild hroom key).find, Disk.item?_eq_directory_iff.1 hdir]

/-- The directory of a key is made, and nothing else. -/
theorem Rooted.makeKey (h : Rooted root d) (hplain : Plain root d) (hd : d.Sound)
    (hcalm : d.Calm) (key : String) :
    ∃ d', d.makeDirectories (root ++ [keyName key]) = (.ok (), d') ∧ d'.Calm ∧
      d'.Sound ∧ Rooted root d' ∧
      Plain root d' ∧
      ∀ q, d'.item? q = if q = root.place ++ [keyName key] then some .directory
        else d.item? q := by
  obtain ⟨d', hmake, hcalm', hc, hitem⟩ :=
    (h.keyChild hplain.room key).makeDirectories_item hd hcalm (h.free key)
  have hbelow (dir name : String) :
      d'.item? (root.place ++ [dir] ++ [name]) =
        d.item? (root.place ++ [dir] ++ [name]) := by
    rw [hitem, if_neg (concat_ne_concat_concat _ _ _ _)]
  refine ⟨d', hmake, hcalm', hc.sound, (h.makeDirectories hd hmake).1,
    ⟨hplain.room, fun dir name => ?_⟩, hitem⟩
  rw [hbelow]
  exact hplain.files dir name

/-- What a write does wherever nothing is in its way. Of the disk it needs nothing
for that, as its answer depends on the record and on the running number alone. -/
theorem write_item (f : Files) (r : Record) :
    ∃ a f', ∃ g : Path → Option Disk.Item → Option Disk.Item, ∀ d : Disk, d.Sound →
      d.Calm → Rooted f.root d →
      Plain f.root d → ∃ d', f.write r d = (a, f', d') ∧
      (∀ q, d'.item? q = g q (d.item? q)) ∧ Plain f.root d' := by
  cases hencode : f.format.encode r with
  | error e =>
    exact ⟨.failed e, f, fun _ x => x, fun d _ _ _ hplain =>
      ⟨d, write_eq_iff.2 (.unfit hencode), fun _ => rfl, hplain⟩⟩
  | ok bs =>
    by_cases hlast : f.sequence.toNat + 1 = UInt64.size
    · refine ⟨.brokeDown, { f with sequence := 0 },
        fun q x => if q = f.root.place ++ [keyName r.key] then some .directory
          else x, ?_⟩
      intro d hd hcalm h hplain
      obtain ⟨d', hmake, _, _, _, hplain', hitem⟩ := h.makeKey hplain hd hcalm r.key
      exact ⟨d', write_eq_iff.2 (.noNumber hencode hmake hlast), hitem, hplain'⟩
    · have hext := ending_extension f.format
      refine ⟨.done (), { f with sequence := f.sequence + 1 }, fun q x =>
        if q = f.root.place ++ [keyName r.key] ++
          [fileName r.stamp (f.sequence + 1) f.format.extension] then
          some (.file bs)
        else if q = f.root.place ++ [keyName r.key] ++
          [fileName r.stamp (f.sequence + 1) "tmp"] then none
        else if q = f.root.place ++ [keyName r.key] then some .directory else x, ?_⟩
      intro d hd hcalm h hplain
      obtain ⟨d₁, hmake, hcalm₁, hd₁, h₁, hplain₁, hitem₁⟩ :=
        h.makeKey hplain hd hcalm r.key
      have hdir : d₁.item? (f.root.place ++ [keyName r.key]) = some .directory := by
        rw [hitem₁, if_pos rfl]
      obtain ⟨d₂, hwrite, hitem₂⟩ := Disk.writeAtomic_item hd₁ hcalm₁
        (h₁.fileChild hplain.room hdir r.stamp (f.sequence + 1) hext)
        (h₁.fileChild hplain.room hdir r.stamp (f.sequence + 1) ending_tmp)
          (besidePath_file f r.key _ _)
        (fileName_ne_beside f.format _ _) (hplain₁.files _ _) (hplain₁.files _ _) bs
      refine ⟨d₂, write_eq_iff.2 (.whole hencode hmake hlast hwrite),
        fun q => by rw [hitem₂, hitem₁], hplain.room, fun dir name => ?_⟩
      rw [hitem₂]
      split
      · simp
      · split
        · simp
        · exact hplain₁.files dir name

end Files

/-! ## Media in their directories -/

theorem Kind.territory_path (k : Kind) (dir : Path) :
    k.territory dir (k.path dir).place := by
  have hfiles (format : Format) : format.kind.territory dir
      (format.kind.path dir).place := by
    rw [format.path_eq]
    exact territory_home _ dir
  cases k with
  | structured => exact territory_structured dir
  | archive => exact InFrames.archive.territory_path dir
  | recursive => exact InFrames.lineage.territory_path dir
  | document => exact hfiles .document
  | glyph => exact hfiles .glyph

variable [Compression] [Table.Engine]

/-- What a standing medium is, and where its file or its directory is. -/
theorem Standing.shape [Table.LawfulEngine] {P : Record → Prop} {dir : Path} {k : Kind}
    {m : Medium} {d : Disk} (h : Standing P dir d k m) :
    (∃ a, m = .archive a ∧ a.appendable = true ∧
        d.entry? (k.path dir).place = some (.file a.file)) ∨
      (∃ l, m = .lineage l ∧ ∃ j, l.journal = some j ∧ j.appendable = true ∧
        d.entry? (k.path dir).place = some (.file j.file)) ∨
      (∃ s, m = .structured s ∧ k = .structured ∧
        ∃ c t, s = .file c ∧ Structured.Filed (Kind.structured.path dir) c d t) ∨
      ∃ f, m = .files f ∧ k = f.format.kind ∧ f.root.place = (k.home dir).place ∧
      Files.Rooted f.root d := by
  cases h with
  | frames x h =>
    have hentry := Disk.entry_of_stat h.kept.stat
    cases x with
    | archive =>
      obtain ⟨a, rfl, rfl, hready, _⟩ := h.archive
      exact .inl ⟨a, rfl, hready, hentry⟩
    | lineage =>
      obtain ⟨l, rfl, hj, _⟩ := h.lineage
      exact .inr (.inl ⟨l, rfl, _, hj, rfl, hentry⟩)
  | @table c t h => exact .inr (.inr (.inl ⟨_, rfl, rfl, c, t, rfl, h⟩))
  | @files f hroot h =>
    exact .inr (.inr (.inr ⟨f, rfl, rfl, by rw [hroot, Format.path_eq], h⟩))

/-- The medium stands in its directory, and nothing is in its way. -/
structure Settled [Table.LawfulEngine] (dir : Path) (k : Kind) (m : Medium)
    (d : Disk) : Prop where
  sound : d.Sound
  calm : d.Calm
  standing : Standing (fun _ => True) dir d k m
  plain : ∀ f, m = .files f → Files.Plain f.root d

variable {dir : Path} {k : Kind} {m m' : Medium} {d d' e : Disk} {T : Path → Prop}

section

variable [Table.LawfulEngine]

theorem Settled.archive_at {a : Archive} (h : Settled dir k (.archive a) d) :
    a.appendable = true ∧ d.entry? (k.path dir).place = some (.file a.file) := by
  rcases h.standing.shape with ⟨_, heq, hat⟩ | ⟨_, heq, _⟩ | ⟨_, heq, _⟩ |
    ⟨_, heq, _⟩ <;> cases heq
  exact hat

theorem Settled.lineage_at {l : Lineage} (h : Settled dir k (.lineage l) d) :
    ∃ j, l.journal = some j ∧ j.appendable = true ∧
      d.entry? (k.path dir).place = some (.file j.file) := by
  rcases h.standing.shape with ⟨_, heq, _⟩ | ⟨_, heq, hat⟩ | ⟨_, heq, _⟩ |
    ⟨_, heq, _⟩ <;> cases heq
  exact hat

theorem Settled.table_at {s : Structured} (h : Settled dir k (.structured s) d) :
    k = .structured ∧ ∃ c t, s = .file c ∧
      Structured.Filed (Kind.structured.path dir) c d t := by
  rcases h.standing.shape with ⟨_, heq, _⟩ | ⟨_, heq, _⟩ | ⟨_, heq, hat⟩ |
    ⟨_, heq, _⟩ <;> cases heq
  exact hat

theorem Settled.files_at {f : Files} (h : Settled dir k (.files f) d) :
    k = f.format.kind ∧ f.root.place = (k.home dir).place ∧ Files.Rooted f.root d := by
  rcases h.standing.shape with ⟨_, heq, _⟩ | ⟨_, heq, _⟩ | ⟨_, heq, _⟩ |
    ⟨_, heq, hat⟩ <;> cases heq
  exact hat

/-- What happens outside of its directory is not in the way of a medium. -/
theorem Settled.turn (h : Settled dir k m d) (hw : Disk.Within T d d')
    (hout : ∀ q, T q → ¬k.territory dir q) : Settled dir k m d' := by
  refine ⟨hw.sound, hw.calm h.calm, (h.standing.turn h.sound hw hout).1, ?_⟩
  intro f hf
  subst hf
  refine (h.plain f rfl).turn hw ?_
  intro q hq
  rw [h.files_at.2.1]
  exact hout q hq

/-- A write stays in the directory of the medium, and leaves it in order. -/
theorem Settled.write {r : Record} {a : Answer Unit} (h : Settled dir k m d)
    (hwrite : m.write r d = (a, m', d')) :
    Settled dir k m' d' ∧ Disk.Within (k.territory dir) d d' := by
  obtain ⟨hstanding, hwithin, _⟩ := h.standing.write trivial h.sound h.calm hwrite
  refine ⟨⟨hwithin.sound, hwithin.calm h.calm, hstanding, ?_⟩, hwithin⟩
  intro f' hf'
  subst hf'
  cases m with
  | files f =>
    obtain ⟨b, f₁, g, hitems⟩ := Files.write_item f r
    obtain ⟨d₁, hw, _, hplain⟩ := hitems d h.sound h.calm h.files_at.2.2 (h.plain f rfl)
    simp only [Medium.write, hw] at hwrite
    cases hwrite
    obtain ⟨_, _, hroot, _⟩ := h.files_at.2.2.write h.sound hw
    rw [hroot]
    exact hplain
  | _ =>
    simp only [Medium.write] at hwrite
    cases hwrite

end

/-! ## Media in memory -/

/-- The medium has no part of any disk. -/
def InMemory : Medium → Prop
  | memory _ | rehearsal _ | structured (.memory _) => True
  | lineage l => l.journal = none
  | structured (.file _) | files _ | archive _ => False

/-- A medium in memory does the same whatever the disk is, and leaves it alone. -/
theorem InMemory.write_eq (h : InMemory m) (r : Record) :
    ∃ a m', InMemory m' ∧ ∀ d, m.write r d = (a, m', d) := by
  cases m with
  | memory m => exact ⟨.done (), .memory (m.write r), trivial, fun _ => rfl⟩
  | rehearsal m =>
    exact ⟨(m.write r).1, .rehearsal (m.write r).2, trivial, fun _ => rfl⟩
  | lineage l =>
    refine ⟨.done (), .lineage { l with graph := l.graph.add r }, h, ?_⟩
    intro d
    have hjournal : l.journal = none := h
    simp only [Medium.write, Lineage.write, hjournal]
    rfl
  | structured s =>
    cases s with
    | file id => exact h.elim
    | memory rows =>
      cases hrow : Table.Row.ofRecord r with
      | error e =>
        refine ⟨.failed e, .structured (.memory rows), trivial, ?_⟩
        intro d
        simp only [Medium.write, Structured.write, hrow]
        rfl
      | ok row =>
        cases htakes : Table.Engine.takes rows row with
        | false =>
          refine ⟨.failed .table, .structured (.memory rows), trivial, ?_⟩
          intro d
          simp only [Medium.write, Structured.write, hrow, Structured.insert, htakes]
          rfl
        | true =>
          refine ⟨.done (), .structured (.memory (rows ++ [row])), trivial, ?_⟩
          intro d
          simp only [Medium.write, Structured.write, hrow, Structured.insert, htakes]
          rfl
  | files f => exact h.elim
  | archive a => exact h.elim

theorem InMemory.read_eq (h : InMemory m) (key : String) (d e : Disk) :
    m.read key d = m.read key e := by
  cases m with
  | memory _ | rehearsal _ | lineage _ => rfl
  | structured s =>
    cases s with
    | memory rows => rfl
    | file id => exact h.elim
  | files f => exact h.elim
  | archive a => exact h.elim

theorem InMemory.uniform (h : InMemory m) (P : Disk → Prop) (r : Record) :
    Uniform P (m.write r) := by
  obtain ⟨a, m', _, hwrite⟩ := h.write_eq r
  exact ⟨a, m', fun _ x => x, fun d _ => ⟨d, hwrite d, fun _ => rfl⟩⟩

/-! ## What a medium sees -/

variable [Table.LawfulEngine]

/-- A call that appends to the file of a medium, or does nothing. -/
theorem uniform_append {r : Record} (bs : Bytes) (a : Answer Unit) (m' : Medium)
    (h : ∀ d, Settled dir k m d → ∃ id d', d.entry? (k.path dir).place =
      some (.file id) ∧ d.append id bs = (.ok (), d') ∧ m.write r d = (a, m', d')) :
    Uniform (Settled dir k m) (m.write r) := by
  refine ⟨a, m', Disk.grown (k.path dir).place bs, ?_⟩
  intro d hd
  obtain ⟨id, d', hentry, happend, hwrite⟩ := h d hd
  exact ⟨d', hwrite, Disk.item?_append hd.sound hentry happend⟩

theorem uniform_refused {r : Record} (a : Answer Unit) (m' : Medium)
    (h : ∀ d, Settled dir k m d → m.write r d = (a, m', d)) :
    Uniform (Settled dir k m) (m.write r) :=
  ⟨a, m', fun _ x => x, fun d hd => ⟨d, h d hd, fun _ => rfl⟩⟩

/-- What a write does to a medium and to its directory is the same on every disk
where the medium stands, unless that is up to an engine. -/
theorem uniform_settled (dir : Path) (k : Kind) (m : Medium)
    (hm : ∀ c, m ≠ .structured (.file c)) (r : Record) :
    Uniform (Settled dir k m) (m.write r) := by
  cases m with
  | memory m => exact InMemory.uniform (m := .memory m) trivial _ r
  | rehearsal m => exact InMemory.uniform (m := .rehearsal m) trivial _ r
  | files f =>
    obtain ⟨a, f', g, hitems⟩ := Files.write_item f r
    refine ⟨a, .files f', g, ?_⟩
    intro d hd
    obtain ⟨d', hwrite, hitem, _⟩ :=
      hitems d hd.sound hd.calm hd.files_at.2.2 (hd.plain f rfl)
    refine ⟨d', ?_, hitem⟩
    simp only [Medium.write, hwrite]
  | archive a =>
    cases hframe : Archive.frame r with
    | error e =>
      refine uniform_refused (.failed e) (.archive a) fun d _ => ?_
      simp only [Medium.write, Archive.write, hframe]
      rfl
    | ok bs =>
      refine uniform_append bs (.done ())
        (.archive { a with
          length := a.length + bs.length
          index := Assoc.set r.key a.length a.index }) ?_
      intro d hd
      obtain ⟨hready, hentry⟩ := hd.archive_at
      obtain ⟨d', happend, _⟩ := hd.calm.append a.file bs
      refine ⟨a.file, d', hentry, happend, ?_⟩
      simp only [Medium.write, Archive.write, hframe, hready, happend]
      rfl
  | lineage l =>
    cases hjournal : l.journal with
    | none => exact InMemory.uniform (m := .lineage l) hjournal _ r
    | some j =>
      cases hframe : Frame.encode? (Node.link r (l.graph.headOrZero r.key)).toBinary
        with
      | none =>
        refine uniform_refused (.failed (.unwritable
          (.longPayload (Node.link r (l.graph.headOrZero r.key)).toBinary.length)))
            (.lineage l) fun d _ => ?_
        simp only [Medium.write, Lineage.write, hjournal, Lineage.record, hframe]
        rw [← hjournal]
        rfl
      | some bs =>
        refine uniform_append bs (.done ()) (.lineage ⟨l.graph.add r, some j⟩) ?_
        intro d hd
        obtain ⟨j', hj', hready, hentry⟩ := hd.lineage_at
        rw [hjournal] at hj'
        cases hj'
        obtain ⟨d', happend, _⟩ := hd.calm.append j.file bs
        refine ⟨j.file, d', hentry, happend, ?_⟩
        simp only [Medium.write, Lineage.write, hjournal, Lineage.record, hframe,
          hready, happend]
        rfl
  | structured s =>
    cases s with
    | memory rows =>
      exact InMemory.uniform (m := .structured (.memory rows)) trivial _ r
    | file c => exact absurd rfl (hm c)

/-- Where the directory of a medium is the same, a write does the same. -/
theorem Settled.write_same (h : Settled dir k m d) (h' : Settled dir k m e)
    (hsame : Disk.SameOn (k.territory dir) d e) (r : Record) :
    (m.write r d).1 = (m.write r e).1 ∧ (m.write r d).2.1 = (m.write r e).2.1 ∧
      Disk.SameOn (k.territory dir) (m.write r d).2.2 (m.write r e).2.2 := by
  by_cases hm : ∃ c, m = .structured (.file c)
  · obtain ⟨c, rfl⟩ := hm
    obtain ⟨rfl, _, t, hc, hfiled⟩ := h.table_at
    cases hc
    obtain ⟨_, _, u, hc, hfiled'⟩ := h'.table_at
    cases hc
    obtain ⟨rfl, hinsert⟩ := Table.LawfulEngine.same hfiled.holds hfiled'.holds
      fun q hq => hsame q (around_structured_iff.1 hq)
    cases hrow : Table.Row.ofRecord r with
    | error x =>
      simp only [Medium.write, Structured.write, hrow, true_and]
      exact hsame
    | ok row =>
      -- Both disks take the row or neither does, as both have the same rows.
      have hafter := hinsert h.calm h'.calm row
      have hanswer : (Table.Engine.insert c row d).1 =
          (Table.Engine.insert c row e).1 := by
        rw [hfiled.insert_calm h.calm, hfiled'.insert_calm h'.calm]
      simp only [Medium.write, Structured.write, hrow, Structured.insert]
      generalize Table.Engine.insert c row d = x at hafter hanswer
      generalize Table.Engine.insert c row e = y at hafter hanswer
      obtain ⟨b, d'⟩ := x
      obtain ⟨b', e'⟩ := y
      simp only at hafter hanswer
      subst hanswer
      cases b <;> exact ⟨rfl, rfl, fun q hq => hafter q (around_structured_iff.2 hq)⟩
  · exact (uniform_settled dir k m (fun c hc => hm ⟨c, hc⟩) r).same h h' hsame

/-- What a medium reads depends on its directory alone. -/
theorem Settled.read_same (h : Settled dir k m d) (h' : Settled dir k m e)
    (hsame : Disk.SameOn (k.territory dir) d e) (key : String) :
    m.read key d = m.read key e := by
  have hplace := k.territory_path dir
  cases m with
  | memory _ | rehearsal _ | lineage _ => rfl
  | files f =>
    obtain ⟨_, hroot, hrooted⟩ := h.files_at
    obtain ⟨_, _, hrooted'⟩ := h'.files_at
    have hread := Files.read_same hrooted.find hrooted'.find h.sound h'.sound
      (by rw [hroot]; exact hsame) key
    simp only [Medium.read, hread]
  | archive a =>
    have hcontent := hsame.content_eq hplace h.archive_at.2 h'.archive_at.2
    simp only [Medium.read, Archive.read, hcontent]
  | structured s =>
    obtain ⟨rfl, c, t, rfl, hfiled⟩ := h.table_at
    obtain ⟨_, _, u, hc, hfiled'⟩ := h'.table_at
    cases hc
    obtain ⟨rfl, _⟩ := Table.LawfulEngine.same hfiled.holds hfiled'.holds
      fun q hq => hsame q (around_structured_iff.1 hq)
    simp only [Medium.read, Structured.read, Structured.rows,
      Table.LawfulEngine.rows_of_holds hfiled.holds,
      Table.LawfulEngine.rows_of_holds hfiled'.holds]

/-- A medium that is opened where nothing is stands in its directory, and nothing is
in its way. -/
theorem settled_of_openIn {q : Path} (hd : d.Sound) (hcalm : d.Calm)
    (hdir : d.find dir = .ok (q, .directory))
    (hfree : ∀ q, k.territory dir q → d.entry? q = none)
    (hroom : Files.Roomy (k.home dir)) (hopen : openIn k dir d = (.ok m, d')) :
    Settled dir k m d' ∧ Disk.Within (k.territory dir) d d' := by
  have hnofile : ∀ q id, k.territory dir q → d.entry? q ≠ some (.file id) := by
    intro q id hq
    rw [hfree q hq]
    simp
  obtain ⟨hstanding, hwithin⟩ := standing_of_openIn hd hdir hnofile hopen
  refine ⟨⟨hwithin.sound, hwithin.calm hcalm, hstanding, ?_⟩, hwithin⟩
  intro f hf
  subst hf
  obtain rfl : k = f.format.kind := by
    rcases hstanding.shape with ⟨_, heq, _⟩ | ⟨_, heq, _⟩ | ⟨_, heq, _⟩ |
      ⟨_, heq, hk, _⟩ <;> cases heq
    exact hk
  rw [Format.openIn_eq] at hopen
  obtain ⟨f', ho, heq⟩ := AppendOnly.map_eq_ok hopen
  cases heq
  rw [Format.path_eq] at ho
  -- Only the directory itself can be missing.
  have hmissing : ∀ part : Path, part <+: f.format.kind.home dir →
      d.entry? part.place = none →
      part.place = (f.format.kind.home dir).place :=
    fun part hpart hnone => congrArg Path.place
      (Disk.part_missing (Disk.find_base hdir) hpart hnone)
  obtain ⟨_, hroot, _, hmade⟩ :=
    Files.rooted_of_openAt (T := (· = (f.format.kind.home dir).place)) hd hmissing
    (fun name id => hnofile _ id
      (Kind.territory_append (Kind.territory_home _ dir) [name])) ho
  have hnone (inner name : String) : d'.item? (f.root.place ++ [inner] ++ [name]) =
      none := by
    rw [hroot, List.append_assoc, hmade.item_eq (by simp), Disk.item?_eq_none_iff]
    exact hfree _ (Kind.territory_append (Kind.territory_home _ dir) _)
  refine ⟨hroot ▸ hroom, fun inner name => ?_⟩
  rw [hnone]
  simp

end Medium

end Chronicle
