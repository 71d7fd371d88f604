import Chronicle.Assoc
import Chronicle.Medium.Adapter
import Chronicle.Node

/-!
# Records with their history

Nodes by hash, and the newest node of each key. From there the links lead back
through every record of the key. With a journal the nodes are also kept in a file,
from which they come back when it is opened; nodes that do not have the hash that
they claim are passed over, and a torn one at the end is cut off.

A write that fails takes back what it wrote to the journal. If that fails too,
nothing more is taken until the journal is opened again.
-/

namespace Chronicle.Medium

/-- Nodes by hash and the newest node of each key. -/
structure Graph where
  /-- The nodes. -/
  nodes : List (Digest × Node) := []
  /-- The hash of the newest node of each key. -/
  heads : List (String × Digest) := []
deriving DecidableEq

namespace Graph

/-- The graph with a node as the newest of its key. -/
def link (g : Graph) (n : Node) : Graph :=
  ⟨Assoc.set n.hash n g.nodes, Assoc.set n.record.key n.hash g.heads⟩

/-- The hash to which the next node of a key links. -/
def headOrZero (g : Graph) (key : String) : Digest :=
  (g.heads.lookup key).getD Digest.zero

/-- The node with a hash, on the way through the history of a key (`checked_node`). -/
def checked (g : Graph) (key : String) (hash : Digest) : Except Error Node :=
  match g.nodes.lookup hash with
  | none => .error (.corrupt (.missingNode key hash))
  | some n =>
    if n.hash == hash && n.verify then .ok n
    else .error (.corrupt (.falseNode key hash))

/-- The newest node of a key. -/
def head? (g : Graph) (key : String) : Option Node :=
  (g.heads.lookup key).bind fun h => g.nodes.lookup h

/-- The newest record of a key. -/
def read (g : Graph) (key : String) : Except Error (Option Record) :=
  match g.heads.lookup key with
  | none => .ok none
  | some hash => (g.checked key hash).map fun n => some n.record

/-- The records from a node on back, at most `steps` of them; `none` if there are
more. -/
def walk (g : Graph) (key : String) :
    Nat → Option Digest → Option (Except Error (List Record))
  | _, none => some (.ok [])
  | 0, some _ => none
  | steps + 1, some hash =>
    match g.checked key hash with
    | .error e => some (.error e)
    | .ok n =>
      match walk g key steps (if n.prev.isZero then none else some n.prev) with
      | some (.ok rs) => some (.ok (n.record :: rs))
      | other => other

/-- Every record of a key, newest first; `none` if the links lead round in a circle. -/
def history (g : Graph) (key : String) : Option (Except Error (List Record)) :=
  g.walk key (g.nodes.length + 1) (g.heads.lookup key)

end Graph

/-- An open journal. -/
structure Journal where
  /-- Where the file was opened. -/
  path : Path
  /-- The number of the open file. -/
  file : Nat
  /-- The file ends with a complete frame. -/
  appendable : Bool
deriving DecidableEq, Repr

/-- Records with their history (`RecursiveAdapter`). -/
structure Lineage where
  /-- The nodes. -/
  graph : Graph := {}
  /-- Where the nodes are kept beyond memory. -/
  journal : Option Journal := none
deriving DecidableEq

namespace Lineage

/-- The graph with the node in the payload of a frame, if there is one and it has the
hash it claims. -/
def replay (g : Graph) (payload : Bytes) : Graph :=
  match Node.ofBinary payload with
  | .ok n => if n.verify then g.link n else g
  | .error _ => g

/-- The nodes in the intact frames of a file. -/
def graphOf (s : Frame.Scan) : Graph := (s.intact.map (·.payload)).foldl replay {}

/-- Opens the journal at a path; missing directories and a missing file are made. -/
def openAt (p : Path) (d : Disk) : Except Error Lineage × Disk :=
  match d.makeDirectories p.parent with
  | (.error _, d) => (.error .disk, d)
  | (.ok (), d) =>
    match d.openOrCreate p with
    | (.error _, d) => (.error .disk, d)
    | (.ok file, d) =>
      let bs := d.content file
      let s := Frame.scan bs
      let l : Lineage := ⟨graphOf s, some ⟨p, file, true⟩⟩
      if s.validLength < bs.length then
        match d.truncate file s.validLength with
        | (.error _, d) => (.error .disk, d)
        | (.ok (), d) => (.ok l, d)
      else (.ok l, d)

/-- Appends a node to the journal. -/
def record (j : Journal) (n : Node) (d : Disk) : Except Error Unit × Journal × Disk :=
  let payload := n.toBinary
  match Frame.encode? payload with
  | none => (.error (.unwritable (.longPayload payload.length)), j, d)
  | some bs =>
    if !j.appendable then (.error (.unavailable .partialNode), j, d)
    else
      let before := d.size j.file
      match d.append j.file bs with
      | (.ok (), d) => (.ok (), j, d)
      | (.error _, d) =>
        let (appendable, d) := d.rollBack j.file before
        (.error .disk, { j with appendable }, d)

/-- Takes a record as the newest of its key. -/
def write (l : Lineage) (r : Record) (d : Disk) : Except Error Unit × Lineage × Disk :=
  let n := Node.link r (l.graph.headOrZero r.key)
  match l.journal with
  | none => (.ok (), { l with graph := l.graph.link n }, d)
  | some j =>
    match record j n d with
    | (.ok (), j, d) => (.ok (), ⟨l.graph.link n, some j⟩, d)
    | (.error e, j, d) => (.error e, ⟨l.graph, some j⟩, d)

/-- The newest record of a key. -/
def read (l : Lineage) (key : String) : Except Error (Option Record) := l.graph.read key

/-- Forces the journal to the disk. -/
def flush (l : Lineage) (d : Disk) : Except Error Unit × Disk :=
  match l.journal with
  | none => (.ok (), d)
  | some _ =>
    match d.sync with
    | (.ok (), d) => (.ok (), d)
    | (.error _, d) => (.error .disk, d)

end Lineage

end Chronicle.Medium
