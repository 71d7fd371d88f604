import Chronicle.Medium.Archive
import Chronicle.Medium.Files
import Chronicle.Medium.Kind
import Chronicle.Medium.Lineage
import Chronicle.Medium.Rehearsal
import Chronicle.Medium.Structured

/-!
# Media

All media under one type, and where those on disk have their files.
-/

namespace Chronicle

/-- A medium (what stands behind a `BackendAdapter`). -/
inductive Medium where
  /-- Records in memory. -/
  | memory (m : Medium.Memory)
  /-- Records in memory that fail on demand. -/
  | rehearsal (m : Medium.Rehearsal)
  /-- Records in a table. -/
  | structured (m : Medium.Structured)
  /-- A file for each record. -/
  | files (m : Medium.Files)
  /-- Records with their history. -/
  | lineage (m : Medium.Lineage)
  /-- Records in one archive file. -/
  | archive (m : Medium.Archive)
deriving DecidableEq

namespace Medium

/-- The name of a medium. -/
def name : Medium → String
  | memory m => m.name
  | rehearsal m => m.inner.name
  | structured _ => Kind.structured.name
  | files m => m.format.name
  | lineage _ => Kind.recursive.name
  | archive _ => Kind.archive.name

variable [Compression] [Table.Engine]

/-- Takes a record. -/
def write (m : Medium) (r : Record) (d : Disk) : Answer Unit × Medium × Disk :=
  match m with
  | memory m => (.done (), memory (m.write r), d)
  | rehearsal m =>
    let (a, m) := m.write r
    (a, rehearsal m, d)
  | structured m =>
    let (a, m, d) := m.write r d
    (.ofExcept a, structured m, d)
  | files m =>
    let (a, m, d) := m.write r d
    (a, files m, d)
  | lineage m =>
    let (a, m, d) := m.write r d
    (.ofExcept a, lineage m, d)
  | archive m =>
    let (a, m, d) := m.write r d
    (.ofExcept a, archive m, d)

/-- The latest record of a key. -/
def read (m : Medium) (key : String) (d : Disk) : Answer (Option Record) :=
  match m with
  | memory m => .done (m.read key)
  | rehearsal m => m.read key
  | structured m => .ofExcept (m.read key d)
  | files m => .ofExcept (m.read key d)
  | lineage m => .ofExcept (m.read key)
  | archive m => .ofExcept (m.read key d)

/-- Forces what was taken to where it is kept. -/
def flush (m : Medium) (d : Disk) : Answer Unit × Disk :=
  match m with
  | memory _ | structured _ | files _ => (.done (), d)
  | rehearsal m => (m.flush, d)
  | lineage m =>
    let (a, d) := m.flush d
    (.ofExcept a, d)
  | archive m =>
    let (a, d) := m.flush d
    (.ofExcept a, d)

instance : Adapter Medium where
  name := name
  write := write
  read m key d := (m.read key d, m, d)
  flush m d :=
    let (a, d) := m.flush d
    (a, m, d)

/-- Where a medium has its files below a directory. -/
def Kind.path (k : Kind) (dir : Path) : Path :=
  dir.join (match k with
    | .structured => "structured/memories.sqlite"
    | .document => "documents"
    | .recursive => "recursive/nodes.journal"
    | .archive => "archive/archive.seg"
    | .glyph => "glyphs")

/-- Opens a medium below a directory (`open` of a `BackendKind`). -/
def openIn (k : Kind) (dir : Path) (d : Disk) : Except Error Medium × Disk :=
  let p := k.path dir
  match k with
  | .structured =>
    let (r, d) := Structured.openAt p d
    (r.map structured, d)
  | .document =>
    let (r, d) := Files.openAt .document p d
    (r.map files, d)
  | .recursive =>
    let (r, d) := Lineage.openAt p d
    (r.map lineage, d)
  | .archive =>
    let (r, d) := Archive.openAt p d
    (r.map archive, d)
  | .glyph =>
    let (r, d) := Files.openAt .glyph p d
    (r.map files, d)

end Medium

end Chronicle
