import Chronicle.Medium.Memory
import Chronicle.Medium.Structured
import Chronicle.Proofs.Table.Engine
import Chronicle.Proofs.Text.Ascii

/-!
# What a table keeps

A table keeps a row for each record that was written to it, and the last row of a key
has its latest record. Whoever opens the file of a table again finds the same rows.

* `Keeps.read`: a table reads what a medium in memory would.
* `Keeps.write_ok`, `Keeps.write_error`: a record is taken or leaves nothing to be
  found.
* `Keeps.openAt`, `openAt_vacant`: what is found when a table is opened.
-/

namespace Chronicle

namespace Table

/-! ## Rows -/

theorem Row.ofRecord_eq_ok {r : Record} {row : Row} (h : Row.ofRecord r = .ok row) :
    row = ⟨.integer r.stamp.unixMs.toNat, .integer r.stamp.logical.toNat, .text r.kind,
      .text r.key, .blob r.value, .text r.signature.toHex⟩ := by
  rw [Row.ofRecord] at h
  split at h
  · cases h
  · exact (Except.ok.inj h).symm

theorem Row.isFor_of_ofRecord {r : Record} {row : Row} (h : Row.ofRecord r = .ok row)
    (key : String) : row.isFor key = (key == r.key) := by
  rw [Row.ofRecord_eq_ok h, Row.isFor, Bool.eq_iff_iff, beq_iff_eq, beq_iff_eq,
    Cell.text.injEq, eq_comm]

theorem Row.toRecord_of_ofRecord {r : Record} {row : Row}
    (h : Row.ofRecord r = .ok row) :
    row.toRecord r.key = .ok r := by
  have hms := r.stamp.unixMs.toNat_lt
  have hlogical := r.stamp.logical.toNat_lt
  rw [Row.ofRecord_eq_ok h, Row.toRecord]
  simp only [Digest.ofHex_toHex]
  rw [if_pos ⟨Int.natCast_nonneg _, Int.ofNat_lt.2 hms, Int.natCast_nonneg _,
    Int.ofNat_lt.2 hlogical⟩]
  simp only [Int.toNat_natCast, UInt64.ofNat_toNat, UInt32.ofNat_toNat]

/-- The rows have the latest record of every key. -/
def Serves (t : Table) (rs : List Record) : Prop :=
  ∀ key, t.read key = .ok ((Medium.Memory.ofRecords rs).read key)

theorem serves_nil : Serves [] [] := fun _ => rfl

theorem Serves.concat {t : Table} {rs : List Record} {r : Record} {row : Row}
    (h : t.Serves rs) (hrow : Row.ofRecord r = .ok row) :
    Serves (t ++ [row]) (rs ++ [r]) := by
  intro key
  rw [Medium.Memory.read_ofRecords_concat, read, latest?, List.reverse_append,
    List.reverse_singleton, List.singleton_append, List.find?_cons,
    Row.isFor_of_ofRecord hrow]
  by_cases hkey : key == r.key
  · rw [if_pos hkey, hkey]
    simp only
    rw [eq_of_beq hkey, Row.toRecord_of_ofRecord hrow]
    rfl
  · rw [if_neg hkey, ← h key, Bool.eq_false_iff.2 hkey]
    rfl

/-- Directories that are made on the way to a table leave its place vacant. -/
theorem Vacant.makeDirectories {p q : Path} {d d' : Disk} {r : Except Disk.Fault Unit}
    (h : Vacant p d) (hd : d.Sound)
    (hmake : d.makeDirectories q = (r, d')) : Vacant p d' := by
  intro place id haround hfile
  have hbefore := Disk.file_of_makeDirectories hmake hfile
  obtain ⟨hwithin, _⟩ :=
    Disk.makeDirectories_within (T := fun q => d.entry? q = none) hd
    (fun _ _ hnone => hnone) hmake
  have hcontent :=
    hwithin.content place id (by rw [hbefore]; exact fun hnone => by cases hnone)
    hbefore
  rw [hcontent]
  exact h place id haround hbefore

end Table

namespace Medium.Structured

open Table (Row LawfulEngine)

variable [Table.Engine]

/-- The table has a row for the record and room for the row. -/
def Takes (s : Structured) (r : Record) (d : Disk) : Prop :=
  ∃ row t, Row.ofRecord r = .ok row ∧ s.rows d = .ok t ∧ Table.Engine.takes t row = true

theorem write_eq {r : Record} {row : Row} (h : Row.ofRecord r = .ok row)
    (s : Structured) (d : Disk) : s.write r d = s.insert row d := by
  rw [write, h]

variable [LawfulEngine]

/-- The engine has the table open at the path, in a directory that can be found. -/
structure Filed (p : Path) (connection : Nat) (d : Disk) (t : Table) : Prop where
  sound : d.Sound
  holds : LawfulEngine.Holds p connection d t
  above : d.find p.parent = .ok (p.parent.place, .directory)

/-- The table is in memory, or it is the one at the path. -/
def Holds (s : Structured) (place : Option Path) (d : Disk) (t : Table) : Prop :=
  match s, place with
  | memory rows, none => rows = t
  | file connection, some p => Filed p connection d t
  | _, _ => False

/-- The table keeps the records. -/
def Keeps (s : Structured) (place : Option Path) (d : Disk) (rs : List Record) : Prop :=
  ∃ t : Table, s.Holds place d t ∧ t.Serves rs

variable {s s' : Structured} {place : Option Path} {p : Path} {d d' : Disk} {t : Table}
  {rs : List Record}

theorem Holds.rows (h : s.Holds place d t) : s.rows d = .ok t := by
  rcases s with rows | connection <;> rcases place with _ | p
  · rw [Structured.rows, show rows = t from h]
  · cases h
  · cases h
  · rw [Structured.rows, LawfulEngine.rows_of_holds (Filed.holds h)]

theorem Keeps.read (h : s.Keeps place d rs) (key : String) :
    s.read key d = .ok ((Memory.ofRecords rs).read key) := by
  obtain ⟨t, hholds, hserves⟩ := h
  rw [Structured.read, hholds.rows]
  exact hserves key

/-- Nothing that leaves the table alone changes what it keeps. -/
theorem Keeps.turn (h : s.Keeps place d rs)
    (hspares : ∀ p, place = some p → Table.Spares p d d') : s.Keeps place d' rs := by
  obtain ⟨t, hholds, hserves⟩ := h
  refine ⟨t, ?_, hserves⟩
  rcases s with rows | connection <;> rcases place with _ | p
  · exact hholds
  · cases hholds
  · cases hholds
  · have hfiled : Filed p connection d t := hholds
    have hp := hspares p rfl
    exact ⟨hp.sound, LawfulEngine.turn hfiled.holds hp, hp.find hfiled.above⟩

/-! ## Writing -/

theorem Filed.insert {connection : Nat} {row : Row} {x : Bool}
    (h : Filed p connection d t)
    (hinsert : Table.Engine.insert connection row d = (x, d')) :
    Filed p connection d' (if x then t ++ [row] else t) := by
  have hwithin := LawfulEngine.insert_within h.holds hinsert
  refine ⟨hwithin.sound, ?_, hwithin.find h.above⟩
  cases x with
  | true => exact LawfulEngine.insert_done h.holds hinsert
  | false => exact LawfulEngine.insert_refused h.holds hinsert

/-- With nothing in the way a row is inserted if and only if there is room for it. -/
theorem Filed.insert_calm {connection : Nat} (h : Filed p connection d t)
    (hcalm : d.Calm) (row : Row) :
    (Table.Engine.insert connection row d).1 = Table.Engine.takes t row := by
  cases htakes : Table.Engine.takes t row with
  | true =>
    obtain ⟨d', hinsert⟩ := LawfulEngine.insert_calm h.holds hcalm htakes
    rw [hinsert]
  | false =>
    cases hinsert : Table.Engine.insert connection row d with
    | mk x d' =>
      cases x with
      | false => rfl
      | true =>
        rw [LawfulEngine.insert_takes h.holds hinsert] at htakes
        cases htakes

/-- All that an insertion can do. -/
theorem Holds.insert {row : Row} {x : Except Error Unit} (h : s.Holds place d t)
    (hinsert : s.insert row d = (x, s', d')) :
    (x = .ok () ∧ Table.Engine.takes t row = true ∧ s'.Holds place d' (t ++ [row])) ∨
      (∃ e, x = .error e) ∧ s'.Holds place d' t := by
  rcases s with rows | connection <;> rcases place with _ | p
  · obtain rfl : rows = t := h
    rw [Structured.insert] at hinsert
    split at hinsert
    · next htakes =>
      cases hinsert
      exact .inl ⟨rfl, htakes, rfl⟩
    · cases hinsert
      exact .inr ⟨⟨_, rfl⟩, rfl⟩
  · cases h
  · cases h
  · have hfiled : Filed p connection d t := h
    rw [Structured.insert] at hinsert
    split at hinsert
    · next hrow =>
      cases hinsert
      exact .inl ⟨rfl, LawfulEngine.insert_takes hfiled.holds hrow, hfiled.insert hrow⟩
    · next hrow =>
      cases hinsert
      exact .inr ⟨⟨_, rfl⟩, hfiled.insert hrow⟩

theorem Keeps.write_ok {r : Record} (h : s.Keeps place d rs)
    (hwrite : s.write r d = (.ok (), s', d')) : s'.Keeps place d' (rs ++ [r]) := by
  obtain ⟨t, hholds, hserves⟩ := h
  cases hrow : Row.ofRecord r with
  | error e =>
    rw [write, hrow] at hwrite
    cases hwrite
  | ok row =>
    rw [write_eq hrow] at hwrite
    obtain ⟨_, _, hholds'⟩ | ⟨⟨_, hx⟩, _⟩ := hholds.insert hwrite
    · exact ⟨t ++ [row], hholds', hserves.concat hrow⟩
    · cases hx

theorem Keeps.write_error {r : Record} {e : Error} (h : s.Keeps place d rs)
    (hwrite : s.write r d = (.error e, s', d')) : s'.Keeps place d' rs := by
  obtain ⟨t, hholds, hserves⟩ := h
  cases hrow : Row.ofRecord r with
  | error e =>
    rw [write, hrow] at hwrite
    cases hwrite
    exact ⟨t, hholds, hserves⟩
  | ok row =>
    rw [write_eq hrow] at hwrite
    obtain ⟨hx, _⟩ | ⟨_, hholds'⟩ := hholds.insert hwrite
    · cases hx
    · exact ⟨t, hholds', hserves⟩

/-- A record that has no row, or no room for its row, is refused. -/
theorem Keeps.write_of_not_takes {r : Record} (h : s.Keeps place d rs)
    (htakes : ¬s.Takes r d) :
    ∃ e s' d', s.write r d = (.error e, s', d') := by
  obtain ⟨t, hholds, _⟩ := h
  cases hrow : Row.ofRecord r with
  | error e => exact ⟨e, s, d, by rw [write, hrow]⟩
  | ok row =>
    rw [write_eq hrow]
    cases hinsert : s.insert row d with
    | mk x rest =>
      obtain ⟨s', d'⟩ := rest
      obtain ⟨_, hroom, _⟩ | ⟨⟨e, rfl⟩, _⟩ := hholds.insert hinsert
      · exact absurd ⟨row, t, hrow, hholds.rows, hroom⟩ htakes
      · exact ⟨e, s', d', rfl⟩

/-- A record that has a row and room for it is taken if nothing is in the way, and
nothing is then. -/
theorem Keeps.write_calm {r : Record} (h : s.Keeps place d rs) (htakes : s.Takes r d)
    (hcalm : d.Calm) : ∃ s' d', s.write r d = (.ok (), s', d') ∧ d'.Calm := by
  obtain ⟨t, hholds, _⟩ := h
  obtain ⟨row, t', hrow, hrows, hroom⟩ := htakes
  rw [hholds.rows] at hrows
  obtain rfl := Except.ok.inj hrows
  rw [write_eq hrow]
  rcases s with rows | connection <;> rcases place with _ | p
  · obtain rfl : rows = t := hholds
    rw [Structured.insert, if_pos hroom]
    exact ⟨_, d, rfl, hcalm⟩
  · cases hholds
  · cases hholds
  · have hfiled : Filed p connection d t := hholds
    obtain ⟨d', hinsert⟩ := LawfulEngine.insert_calm hfiled.holds hcalm hroom
    rw [Structured.insert, hinsert]
    exact ⟨_, d', rfl, (LawfulEngine.insert_within hfiled.holds hinsert).calm hcalm⟩

/-! ## Opening -/

/-- A table in a file that is opened again keeps what it kept. -/
theorem Keeps.openAt {x : Structured} (h : s.Keeps (some p) d rs)
    (hopen : Structured.openAt p d = (.ok x, d')) :
    x.Keeps (some p) d' rs ∧ Disk.Within (Table.around p) d d' := by
  obtain ⟨t, hholds, hserves⟩ := h
  rcases s with rows | connection
  · cases hholds
  · have hfiled : Filed p connection d t := hholds
    rw [Structured.openAt, Disk.makeDirectories_of_find hfiled.above] at hopen
    simp only at hopen
    split at hopen
    · cases hopen
    · next hconnect =>
      cases hopen
      have hwithin := LawfulEngine.connect_within hfiled.sound hconnect
      have hholds' := LawfulEngine.connect_holds hfiled.holds hconnect
      exact ⟨⟨t, ⟨hwithin.sound, hholds', hwithin.find hfiled.above⟩, hserves⟩, hwithin⟩

/-- A table in a file can be opened again if nothing is in the way. -/
theorem Keeps.openAt_calm (h : s.Keeps (some p) d rs) (hcalm : d.Calm) :
    ∃ x d', Structured.openAt p d = (.ok x, d') := by
  obtain ⟨t, hholds, _⟩ := h
  rcases s with rows | connection
  · cases hholds
  · have hfiled : Filed p connection d t := hholds
    obtain ⟨c, d', hconnect⟩ := LawfulEngine.connect_calm hfiled.holds hcalm
    rw [Structured.openAt, Disk.makeDirectories_of_find hfiled.above]
    simp only [hconnect]
    exact ⟨_, d', rfl⟩

/-- Where there are no files yet a table is opened that keeps nothing. -/
theorem openAt_vacant {x : Structured} (hd : d.Sound) (hvacant : Table.Vacant p d)
    (hopen : Structured.openAt p d = (.ok x, d')) : x.Keeps (some p) d' [] := by
  rw [Structured.openAt] at hopen
  cases hmake : d.makeDirectories p.parent with
  | mk r d₁ =>
    obtain ⟨hwithin, hfound⟩ :=
      Disk.makeDirectories_within (T := fun _ => True) hd (fun _ _ _ => trivial) hmake
    rw [hmake] at hopen
    cases r with
    | error f => cases hopen
    | ok u =>
      simp only at hopen
      split at hopen
      · cases hopen
      · next hconnect =>
        cases hopen
        have hholds := LawfulEngine.connect_vacant hwithin.sound
          (hvacant.makeDirectories hd hmake) hconnect
        have hwithin' := LawfulEngine.connect_within hwithin.sound hconnect
        exact ⟨[], ⟨hwithin'.sound, hholds, hwithin'.find (hfound rfl)⟩,
          Table.serves_nil⟩

end Medium.Structured

end Chronicle
