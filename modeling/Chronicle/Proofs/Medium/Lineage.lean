import Chronicle.Medium.Lineage
import Chronicle.Medium.Memory
import Chronicle.Proofs.Binary.RoundTrip
import Chronicle.Proofs.Frame.OnDisk

/-!
# What a lineage keeps

A lineage keeps a node for each record that was written to it. Every newest node is
stored under its own hash and has the hash it claims, as long as no new node is given
the hash of another one that is already there. The journal has the nodes in the order
in which they were linked, so it leads to the same graph again.

* `Graph.Serves.link`: a new node becomes the newest of its key and leaves the other
  keys alone.
* `Keeps.read`: a lineage reads what a medium in memory would.
* `Keeps.write_ok`, `Keeps.write_error`: a record is taken or leaves nothing to be
  found.
* `Keeps.openAt`, `openAt_vacant`: what is found when a journal is opened.
-/

namespace Chronicle.Medium

/-! ## The graph -/

namespace Graph

/-- The node that a record would get. -/
def next (g : Graph) (r : Record) : Node := Node.link r (g.headOrZero r.key)

/-- No other node has the hash of this one. -/
def Apart (g : Graph) (n : Node) : Prop := ∀ m, g.nodes.lookup n.hash = some m → m = n

/-- The newest node of every key is there, has the hash it claims, and has the latest
record of the key. -/
def Serves (g : Graph) (rs : List Record) : Prop :=
  ∀ key, match (Memory.ofRecords rs).read key with
    | none => g.heads.lookup key = none
    | some r =>
      ∃ n : Node, g.heads.lookup key = some n.hash ∧ g.nodes.lookup n.hash = some n ∧
        n.verify = true ∧ n.record = r

theorem serves_nil : ({} : Graph).Serves [] := fun _ => rfl

variable {g : Graph} {rs : List Record}

theorem Serves.link {n : Node} (h : g.Serves rs) (hapart : g.Apart n)
    (hverify : n.verify = true) :
    (g.link n).Serves (rs ++ [n.record]) := by
  intro key
  rw [Memory.read_ofRecords_concat]
  by_cases hkey : key == n.record.key
  · rw [if_pos hkey]
    refine ⟨n, ?_, ?_, hverify, rfl⟩
    · rw [Graph.link, Assoc.lookup_set, if_pos hkey]
    · rw [Graph.link, Assoc.lookup_set, if_pos (beq_self_eq_true _)]
  · rw [if_neg hkey]
    have hbefore := h key
    split at hbefore
    · rw [Graph.link, Assoc.lookup_set, if_neg hkey]
      exact hbefore
    · obtain ⟨m, hhead, hnode, hm, hrecord⟩ := hbefore
      refine ⟨m, ?_, ?_, hm, hrecord⟩
      · rw [Graph.link, Assoc.lookup_set, if_neg hkey]
        exact hhead
      · -- A node with the hash of the new one is the new one.
        rw [Graph.link, Assoc.lookup_set]
        by_cases hhash : m.hash == n.hash
        · rw [if_pos hhash, hapart m (eq_of_beq hhash ▸ hnode)]
        · rw [if_neg hhash]
          exact hnode

theorem Serves.read (h : g.Serves rs) (key : String) :
    g.read key = .ok ((Memory.ofRecords rs).read key) := by
  have hkey := h key
  rw [Graph.read]
  cases hlatest : (Memory.ofRecords rs).read key with
  | none =>
    rw [hlatest] at hkey
    rw [show g.heads.lookup key = none from hkey]
  | some r =>
    rw [hlatest] at hkey
    obtain ⟨n, hhead, hnode, hverify, rfl⟩ := hkey
    rw [hhead]
    simp only [checked, hnode, beq_self_eq_true, hverify, Bool.and_self, if_true]
    rfl

end Graph

namespace Lineage

open Frame (Kept)

/-! ## The journal -/

theorem toBinary_ne_nil (n : Node) : n.toBinary ≠ [] := by
  intro h
  have hlength := congrArg List.length h
  rw [Node.length_toBinary, List.length_nil] at hlength
  omega

/-- A journal leads to the graph that its nodes were linked to. -/
theorem graphOf_scanOf {ns : List Node} (hframed : Frame.Framed (ns.map Node.toBinary))
    (hverify : ∀ n ∈ ns, n.verify = true) :
    graphOf (Frame.scanOf (ns.map Node.toBinary)) = ns.foldl Graph.link {} := by
  have hreplay : ∀ g : Graph, (ns.map Node.toBinary).foldl replay g =
      ns.foldl Graph.link g := by
    induction ns with
    | nil => exact fun g => rfl
    | cons n ns ih =>
      intro g
      have hlimit : n.toBinary.length < UInt64.size :=
        Nat.lt_trans (hframed _ List.mem_cons_self).2 (by decide)
      have hstep : replay g n.toBinary = g.link n := by
        rw [replay, Node.ofBinary_toBinary hlimit]
        exact if_pos (hverify n List.mem_cons_self)
      rw [List.map_cons, List.foldl_cons, List.foldl_cons, hstep]
      exact ih (fun p hp => hframed p (List.mem_cons_of_mem _ hp))
        (fun m hm => hverify m (List.mem_cons_of_mem _ hm)) (g.link n)
  rw [graphOf, Frame.scanOf_intact, Frame.map_payload_tilesOf]
  exact hreplay {}

/-- The journal has the nodes of the graph. -/
def Journaled (l : Lineage) (j : Journal) (d : Disk) : Prop :=
  ∃ ns : List Node, Kept d j.path j.file (ns.map Node.toBinary) j.appendable ∧
    (∀ n ∈ ns, n.verify = true) ∧ l.graph = ns.foldl Graph.link {}

/-- The lineage keeps the records: its graph serves the latest of them, and its
journal, if there is one, leads to that graph. -/
structure Keeps (l : Lineage) (d : Disk) (rs : List Record) : Prop where
  serves : l.graph.Serves rs
  journaled : ∀ j, l.journal = some j → l.Journaled j d

variable {l l' : Lineage} {d d' : Disk} {rs : List Record}

theorem Keeps.read (h : l.Keeps d rs) (key : String) :
    l.read key = .ok ((Memory.ofRecords rs).read key) :=
  h.serves.read key

/-- Nothing that leaves the journal alone changes what the lineage keeps. -/
theorem Keeps.of_same (h : l.Keeps d rs) (hd : d'.WellFormed)
    (hsame : ∀ j, l.journal = some j → d'.stat j.path = d.stat j.path ∧
      d'.read j.path = d.read j.path) :
    l.Keeps d' rs := by
  refine ⟨h.serves, ?_⟩
  intro j hj
  obtain ⟨ns, hkept, hrest⟩ := h.journaled j hj
  exact ⟨ns, hkept.of_same hd (hsame j hj).1 (hsame j hj).2, hrest⟩

/-! ## Writing -/

/-- All that a write to a journal can do. -/
theorem record_cases {j j' : Journal} {n : Node} {x : Except Error Unit}
    (h : record j n d = (x, j', d')) :
    (¬n.toBinary.length < Frame.payloadLimit ∧
        x = .error (.unwritable (.longPayload n.toBinary.length)) ∧
        j' = j ∧ d' = d) ∨
      (n.toBinary.length < Frame.payloadLimit ∧
        ((j.appendable = false ∧ x = .error (.unavailable .partialNode) ∧
          j' = j ∧ d' = d) ∨
          (j.appendable = true ∧ d.append j.file (Frame.encode n.toBinary) =
            (.ok (), d') ∧ x = .ok () ∧ j' = j) ∨
          (j.appendable = true ∧ ∃ f d₁ back,
            d.append j.file (Frame.encode n.toBinary) = (.error f, d₁) ∧
            d₁.rollBack j.file (d.size j.file) = (back, d') ∧ x = .error .disk ∧
            j' = { j with appendable := back }))) := by
  rw [record, Frame.encode?] at h
  by_cases hlimit : n.toBinary.length < Frame.payloadLimit
  · refine .inr ⟨hlimit, ?_⟩
    rw [if_pos hlimit] at h
    simp only at h
    by_cases happendable : j.appendable = true
    · rw [if_neg (by rw [happendable]; exact Bool.false_ne_true)] at h
      cases happend : d.append j.file (Frame.encode n.toBinary) with
      | mk y d₁ =>
        rw [happend] at h
        cases y with
        | ok u =>
          cases h
          exact .inr (.inl ⟨happendable, rfl, rfl, rfl⟩)
        | error f =>
          cases hback : d₁.rollBack j.file (d.size j.file) with
          | mk back d₂ =>
            simp only [hback] at h
            cases h
            exact .inr (.inr ⟨happendable, f, d₁, back, rfl, hback, rfl, rfl⟩)
    · have hclosed : j.appendable = false := Bool.not_eq_true _ ▸ happendable
      rw [if_pos (by rw [hclosed]; rfl)] at h
      cases h
      exact .inl ⟨hclosed, rfl, rfl, rfl⟩
  · rw [if_neg hlimit] at h
    cases h
    exact .inl ⟨hlimit, rfl, rfl, rfl⟩

theorem Keeps.write_memory {r : Record} (h : l.Keeps d rs) (hmemory : l.journal = none)
    (hapart : l.graph.Apart (l.graph.next r)) :
    ∃ l', l.write r d = (.ok (), l', d) ∧ l'.journal = none ∧
      l'.Keeps d (rs ++ [r]) := by
  refine ⟨{ l with graph := l.graph.link (l.graph.next r) }, ?_, hmemory,
    h.serves.link hapart (Node.verify_link _ _), ?_⟩
  · rw [write, hmemory]
    rfl
  · intro j hj
    rw [hmemory] at hj
    cases hj

theorem write_eq {j : Journal} (hj : l.journal = some j) (r : Record) (d : Disk) :
    l.write r d = match record j (l.graph.next r) d with
      | (.ok (), j, d) => (.ok (), ⟨l.graph.link (l.graph.next r), some j⟩, d)
      | (.error e, j, d) => (.error e, ⟨l.graph, some j⟩, d) := by
  rw [write, hj]
  rfl

theorem Keeps.write_ok {r : Record} {j : Journal} (h : l.Keeps d rs)
    (hj : l.journal = some j) (hapart : l.graph.Apart (l.graph.next r))
    (hwrite : l.write r d = (.ok (), l', d')) :
    l'.journal = some j ∧ l'.Keeps d' (rs ++ [r]) := by
  rw [write_eq hj] at hwrite
  cases hrecord : record j (l.graph.next r) d with
  | mk x rest =>
    obtain ⟨j', d₁⟩ := rest
    rw [hrecord] at hwrite
    cases x with
    | error e => cases hwrite
    | ok u =>
      cases hwrite
      rcases record_cases hrecord with ⟨_, hx, _⟩ | ⟨hlimit, hcases⟩
      · cases hx
      · rcases hcases with ⟨_, hx, _⟩ | ⟨happendable, happend, _, rfl⟩ |
          ⟨_, f, d₂, back, _, _, hx, _⟩
        · cases hx
        · obtain ⟨ns, hkept, hverify, hgraph⟩ := h.journaled j' hj
          refine ⟨rfl, h.serves.link hapart (Node.verify_link _ _), ?_⟩
          intro k hk
          cases hk
          refine ⟨ns ++ [l.graph.next r], ?_, ?_, ?_⟩
          · rw [List.map_append, List.map_singleton, happendable]
            exact (happendable ▸ hkept).append_ok (toBinary_ne_nil _) hlimit happend
          · intro n hn
            rcases List.mem_append.1 hn with hn | hn
            · exact hverify n hn
            · rw [List.mem_singleton.1 hn]
              exact Node.verify_link _ _
          · rw [List.foldl_append, ← hgraph]
            rfl
        · cases hx

theorem Keeps.write_error {r : Record} {j : Journal} {e : Error} (h : l.Keeps d rs)
    (hj : l.journal = some j)
    (htears : d.Tears j.file (Frame.encode (l.graph.next r).toBinary))
    (hwrite : l.write r d = (.error e, l', d')) :
    (∃ back, l'.journal = some { j with appendable := back }) ∧ l'.Keeps d' rs := by
  rw [write_eq hj] at hwrite
  cases hrecord : record j (l.graph.next r) d with
  | mk x rest =>
    obtain ⟨j', d₁⟩ := rest
    rw [hrecord] at hwrite
    cases x with
    | ok u => cases hwrite
    | error e' =>
      cases hwrite
      rcases record_cases hrecord with ⟨_, _, rfl, rfl⟩ | ⟨hlimit, hcases⟩
      · exact ⟨⟨j'.appendable, rfl⟩, h.serves, fun k hk => h.journaled k (hj.trans hk)⟩
      · rcases hcases with ⟨_, _, rfl, rfl⟩ | ⟨_, _, hx, _⟩ |
          ⟨happendable, f, d₂, back, happend, hback, _, rfl⟩
        · exact ⟨⟨j'.appendable, rfl⟩, h.serves,
            fun k hk => h.journaled k (hj.trans hk)⟩
        · cases hx
        · obtain ⟨ns, hkept, hverify, hgraph⟩ := h.journaled j hj
          refine ⟨⟨back, rfl⟩, h.serves, ?_⟩
          intro k hk
          cases hk
          exact ⟨ns, (happendable ▸ hkept).append_error hlimit htears happend hback,
            hverify, hgraph⟩

/-- A record that is too long for a frame is refused, and nothing happens. -/
theorem write_of_long {r : Record} {j : Journal} (hj : l.journal = some j)
    (h : ¬(l.graph.next r).toBinary.length < Frame.payloadLimit) (d : Disk) :
    l.write r d =
      (.error (.unwritable (.longPayload (l.graph.next r).toBinary.length)), l, d) := by
  rw [write_eq hj, record, Frame.encode?, if_neg h]
  simp only [← hj]

/-- A record that has room in a frame is taken if nothing is in the way, and nothing
is then. -/
theorem write_calm {r : Record} {j : Journal} (hj : l.journal = some j)
    (h : (l.graph.next r).toBinary.length < Frame.payloadLimit)
    (happendable : j.appendable = true) (hcalm : d.Calm) :
    ∃ l' d', l.write r d = (.ok (), l', d') ∧ l'.journal = some j ∧ d'.Calm := by
  obtain ⟨d', happend, hcalm'⟩ :=
    hcalm.append j.file (Frame.encode (l.graph.next r).toBinary)
  rw [write_eq hj, record, Frame.encode?, if_pos h]
  simp only
  rw [if_neg (by rw [happendable]; exact Bool.false_ne_true), happend]
  exact ⟨_, d', rfl, rfl, hcalm'⟩

/-! ## Opening -/

theorem openAt_eq (p : Path) (d : Disk) :
    openAt p d = match Frame.opened p d with
      | (.error _, d) => (.error .disk, d)
      | (.ok (file, s), d) => (.ok ⟨graphOf s, some ⟨p, file, true⟩⟩, d) := by
  rw [openAt, Frame.opened]
  cases d.makeDirectories p.parent with
  | mk r d =>
    cases r with
    | error f => rfl
    | ok u =>
      simp only
      cases d.openOrCreate p with
      | mk r d =>
        cases r with
        | error f => rfl
        | ok file =>
          simp only
          split
          · cases d.truncate file (Frame.scan (d.content file)).validLength with
            | mk r d => cases r <;> rfl
          · rfl

/-- A lineage takes records when its journal was just opened. -/
theorem appendable_of_openAt {p : Path} {x : Lineage}
    (hopen : Lineage.openAt p d = (.ok x, d')) :
    ∀ j, x.journal = some j → j.appendable = true := by
  rw [openAt_eq] at hopen
  split at hopen
  · cases hopen
  · cases hopen
    intro j hj
    cases hj
    rfl

/-- A journal that is opened again leads to the same graph. -/
theorem Journaled.openAt {x : Lineage} {j : Journal} (h : l.Journaled j d)
    (hopen : Lineage.openAt j.path d = (.ok x, d')) :
    x = ⟨l.graph, some ⟨j.path, j.file, true⟩⟩ ∧
      x.Journaled ⟨j.path, j.file, true⟩ d' := by
  obtain ⟨ns, hkept, hverify, hgraph⟩ := h
  rw [openAt_eq] at hopen
  split at hopen
  · cases hopen
  · next file s d₁ ho =>
    obtain ⟨rfl, rfl, hkept'⟩ := hkept.opened ho
    cases hopen
    have hsame := graphOf_scanOf hkept.framed hverify
    rw [hsame, ← hgraph]
    exact ⟨rfl, ns, hkept', hverify, hgraph⟩

/-- A journal that takes records is opened again as it is. -/
theorem Journaled.openAt_ready {j : Journal} (h : l.Journaled j d)
    (happendable : j.appendable = true) :
    Lineage.openAt j.path d = (.ok ⟨l.graph, some j⟩, d) := by
  obtain ⟨path, file, appendable⟩ := j
  obtain rfl : appendable = true := happendable
  obtain ⟨ns, hkept, hverify, hgraph⟩ := h
  rw [openAt_eq, hkept.opened_whole, hgraph]
  simp only [graphOf_scanOf hkept.framed hverify]

/-- A lineage whose journal is opened again keeps what it kept. -/
theorem Keeps.openAt {x : Lineage} {j : Journal} (h : l.Keeps d rs)
    (hj : l.journal = some j) (hopen : Lineage.openAt j.path d = (.ok x, d')) :
    x.journal = some ⟨j.path, j.file, true⟩ ∧ x.Keeps d' rs := by
  obtain ⟨rfl, hjournaled⟩ := (h.journaled j hj).openAt hopen
  refine ⟨rfl, h.serves, ?_⟩
  intro k hk
  cases hk
  exact hjournaled

theorem Keeps.openAt_calm {j : Journal} (h : l.Keeps d rs) (hj : l.journal = some j)
    (hcalm : d.Calm) (hsize : d.size j.file < Disk.sizeLimit) :
    ∃ x d', Lineage.openAt j.path d = (.ok x, d') ∧ d'.Calm := by
  obtain ⟨ns, hkept, _⟩ := h.journaled j hj
  obtain ⟨d', hopen, hcalm'⟩ := hkept.opened_calm hcalm hsize
  rw [openAt_eq, hopen]
  exact ⟨_, d', rfl, hcalm'⟩

theorem keeps_empty (d : Disk) : ({} : Lineage).Keeps d [] := by
  refine ⟨Graph.serves_nil, ?_⟩
  intro j hj
  cases hj

/-- Where there is nothing yet, or an empty file, a journal is opened that keeps
nothing. -/
theorem openAt_vacant {p : Path} {x : Lineage} (hd : d.WellFormed)
    (hvacant : Frame.Vacant d p) (hopen : Lineage.openAt p d = (.ok x, d')) :
    (∃ file, x = ⟨{}, some ⟨p, file, true⟩⟩) ∧ x.Keeps d' [] := by
  rw [openAt_eq] at hopen
  split at hopen
  · cases hopen
  · next file s d₁ ho =>
    obtain ⟨rfl, hkept⟩ := Frame.opened_vacant hd hvacant ho
    cases hopen
    refine ⟨⟨file, rfl⟩, Graph.serves_nil, ?_⟩
    intro k hk
    cases hk
    exact ⟨[], hkept, fun n hn => (by cases hn), rfl⟩

end Lineage

end Chronicle.Medium
