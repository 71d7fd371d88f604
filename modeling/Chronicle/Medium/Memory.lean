import Chronicle.Assoc
import Chronicle.Record

/-!
# Records in memory

The plainest medium: the latest record of each key.

* `read_write`: what a key reads after a write.
* `read_ofRecords_concat`: what a key reads after writes one after the other.
-/

namespace Chronicle.Medium

/-- The latest record of each key (`InMemoryAdapter`). -/
structure Memory where
  /-- The name of the medium. -/
  name : String := "memory"
  /-- The latest record of each key. -/
  records : List (String × Record) := []
deriving DecidableEq

namespace Memory

/-- The number of keys (`len`). -/
def size (m : Memory) : Nat := m.records.length

/-- Takes a record in place of the one before of its key. -/
def write (m : Memory) (r : Record) : Memory :=
  { m with records := Assoc.set r.key r m.records }

/-- The latest record of a key. -/
def read (m : Memory) (key : String) : Option Record := m.records.lookup key

theorem read_write (m : Memory) (r : Record) (key : String) :
    (m.write r).read key = if key == r.key then some r else m.read key :=
  Assoc.lookup_set key r.key r m.records

/-- The medium after records were written to an empty one, the first of the list
first. -/
def ofRecords (rs : List Record) : Memory := rs.foldl write {}

theorem read_ofRecords_concat (rs : List Record) (r : Record) (key : String) :
    (ofRecords (rs ++ [r])).read key = if key == r.key then some r
      else (ofRecords rs).read key := by
  rw [ofRecords, List.foldl_append, List.foldl_cons, List.foldl_nil,
    read_write, ofRecords]

end Memory

end Chronicle.Medium
