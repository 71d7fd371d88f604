import Chronicle.Proofs.Disk.Within
import Chronicle.Table.Engine

/-!
# What is asked of a table engine

Whoever relies on an engine knows nothing of its files. A row is in the table if and
only if its insertion succeeded, and rows stay as they are, in the order in which
they came. For that the engine needs the directory of its file for itself: it looks
at nothing else and changes nothing else.

* `around`: the part of the tree that belongs to the table at a path.
* `LawfulEngine`: an engine that keeps its tables.
-/

namespace Chronicle.Table

/-- What belongs to the table at a path: its place, and all that is in its directory. -/
def around (p q : Path) : Prop := q = p.place ∨ p.parent.place <+: q

/-- There are no files for a table at the path yet, or only an empty one at its
place. -/
def Vacant (p : Path) (d : Disk) : Prop :=
  ∀ q id, around p q → d.entry? q = some (.file id) → q = p.place ∧ d.content id = []

/-- Nothing has happened around the path, whatever has happened elsewhere on the disk
and whatever is in the way of a change now. -/
def Spares (p : Path) (d d' : Disk) : Prop :=
  Disk.Within (fun q => ¬around p q) { d with plan := d'.plan, limit := d'.limit } d'

theorem Spares.of_within {p : Path} {d d' : Disk} {T : Path → Prop}
    (h : Disk.Within T d d') (hout : ∀ q, T q → ¬around p q) : Spares p d d' :=
  ⟨h.sound, fun q hq => h.entry q fun hT => hq (hout q hT),
    fun q id hq => h.content q id fun hT => hq (hout q hT), h.directory,
    fun hcalm => ⟨hcalm.plan, hcalm.limit⟩⟩

/-- The file at the path is found as it was. -/
theorem Spares.stat {p : Path} {d d' : Disk} {id : Nat} (h : Spares p d d')
    (hstat : d.stat p = .ok (.file id)) :
    d'.stat p = .ok (.file id) ∧ d'.content id = d.content id := by
  have htree : Disk.SameTree d { d with plan := d'.plan, limit := d'.limit } :=
    ⟨rfl, rfl⟩
  unfold Spares at h
  exact h.stat (fun hout => hout (.inl rfl)) ((htree.stat p).trans hstat)

/-- Directories are found where they were. -/
theorem Spares.find {p q place : Path} {d d' : Disk} (h : Spares p d d')
    (hfind : d.find q = .ok (place, .directory)) :
    d'.find q = .ok (place, .directory) := by
  have htree : Disk.SameTree d { d with plan := d'.plan, limit := d'.limit } :=
    ⟨rfl, rfl⟩
  unfold Spares at h
  refine h.find ?_
  rw [Disk.find, htree.walk]
  exact hfind

/-- An engine that keeps its tables. -/
class LawfulEngine [Engine] where
  /-- The engine has the table at the path open under the number, and these are its
  rows. -/
  Holds : Path → Nat → Disk → Table → Prop
  /-- All rows are returned as they are, oldest first. -/
  rows_of_holds {p : Path} {c : Nat} {d : Disk} {t : Table}
    (h : Holds p c d t) : Engine.rows c d = some t
  /-- Nothing else on the disk matters to the table. -/
  turn {p : Path} {c : Nat} {d d' : Disk} {t : Table} (h : Holds p c d t)
    (hspares : Spares p d d') : Holds p c d' t
  /-- A table that is opened where no files are is empty. -/
  connect_vacant {p : Path} {c : Nat} {d d' : Disk} (hd : d.Sound)
    (hvacant : Vacant p d) (h : Engine.connect p d = (some c, d')) : Holds p c d' []
  /-- A table that is opened again has the same rows. -/
  connect_holds {p : Path} {c c' : Nat} {d d' : Disk} {t : Table} (h : Holds p c d t)
    (hconnect : Engine.connect p d = (some c', d')) : Holds p c' d' t
  /-- A table can be opened again if nothing is in the way. -/
  connect_calm {p : Path} {c : Nat} {d : Disk} {t : Table} (h : Holds p c d t)
    (hcalm : d.Calm) : ∃ c' d', Engine.connect p d = (some c', d')
  connect_within {p : Path} {d d' : Disk} {x : Option Nat} (hd : d.Sound)
    (h : Engine.connect p d = (x, d')) : Disk.Within (around p) d d'
  /-- A row that was inserted comes after the others. -/
  insert_done {p : Path} {c : Nat} {d d' : Disk} {t : Table} {row : Row}
    (h : Holds p c d t)
    (hinsert : Engine.insert c row d = (true, d')) : Holds p c d' (t ++ [row])
  /-- A row that was not inserted changes nothing, whatever kept it from being
  inserted. -/
  insert_refused {p : Path} {c : Nat} {d d' : Disk} {t : Table} {row : Row}
    (h : Holds p c d t) (hinsert : Engine.insert c row d = (false, d')) : Holds p c d' t
  /-- There was room for every row that was inserted. -/
  insert_takes {p : Path} {c : Nat} {d d' : Disk} {t : Table} {row : Row}
    (h : Holds p c d t)
    (hinsert : Engine.insert c row d = (true, d')) : Engine.takes t row = true
  /-- A row for which there is room is inserted if nothing is in the way. -/
  insert_calm {p : Path} {c : Nat} {d : Disk} {t : Table} {row : Row}
    (h : Holds p c d t) (hcalm : d.Calm)
    (htakes : Engine.takes t row = true) : ∃ d', Engine.insert c row d = (true, d')
  insert_within {p : Path} {c : Nat} {d d' : Disk} {t : Table} {row : Row} {x : Bool}
    (h : Holds p c d t)
    (hinsert : Engine.insert c row d = (x, d')) : Disk.Within (around p) d d'
  /-- What the engine looks at belongs to the table: where that is the same there are
  the same rows, and an insertion leaves it the same. -/
  same {p : Path} {c : Nat} {d e : Disk} {t u : Table} (h : Holds p c d t)
    (h' : Holds p c e u) (hsame : Disk.SameOn (around p) d e) :
    t = u ∧ (d.Calm → e.Calm → ∀ row,
      Disk.SameOn (around p) (Engine.insert c row d).2 (Engine.insert c row e).2)

end Chronicle.Table
