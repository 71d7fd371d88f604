import Chronicle.Proofs.Medium.History
import Chronicle.Proofs.Medium.Recovery

/-!
# Histories in journals of any origin

A journal may hold any nodes that have the hashes they claim, and a hash says nothing
about the key of the node before. So the history of a key begins with a record of the
key, and goes on to whatever nodes the links name. It stays with the key exactly as
far as they do, and one more node in the journal makes the history of any node that
of another key.

* `Graph.Trail.length_le`: a trail that ends is no longer than the table of nodes.
* `Graph.history_eq_ok_iff`: a history is the trail from the newest node of its key.
* `Graph.Trail.adopt`: a new node takes over the trail from any other one.
* `history_stays_with_key_iff_links_do`: what is in the histories of any journal.
* `history_has_record_of_other_key`: a journal in which a history leaves its key.
-/

namespace Chronicle

/-- The node before is that one. -/
def Node.LinksTo (n m : Node) : Prop := n.before? = some m.hash

theorem Node.before?_link (r : Record) {hash : Digest} (h : hash.isZero = false) :
    (Node.link r hash).before? = some hash := by
  show (if hash.isZero then none else some hash) = some hash
  rw [h]
  rfl

namespace Medium

namespace Graph

variable {g : Graph} {hash : Option Digest} {ns ms : List Node} {n m : Node}
    {key : String}

/-! ## Trails -/

/-- Links lead one way. -/
theorem Trail.unique (h : g.Trail hash ns) (h' : g.Trail hash ms) : ns = ms := by
  induction h generalizing ms with
  | stop =>
    cases h'
    rfl
  | @node n ns hnode _ _ ih =>
    generalize hhash : some n.hash = first at h'
    cases h' with
    | stop => cases hhash
    | @node m ms hnode' _ hrest' =>
      rw [Option.some.inj hhash, hnode'] at hnode
      cases hnode
      rw [ih hrest']

theorem Trail.lookup (h : g.Trail hash ns) (hn : n ∈ ns) :
    g.nodes.lookup n.hash = some n := by
  induction h with
  | stop => cases hn
  | node hnode _ _ ih =>
    rcases List.mem_cons.1 hn with rfl | hn
    · exact hnode
    · exact ih hn

/-- From each node of a trail the rest of it leads on. -/
theorem Trail.from_mem (h : g.Trail hash ns) (hn : n ∈ ns) :
    ∃ rest, g.Trail (some n.hash) rest ∧ rest.length ≤ ns.length := by
  induction h with
  | stop => cases hn
  | @node m ms hnode hverify hrest ih =>
    rcases List.mem_cons.1 hn with rfl | hn
    · exact ⟨_, .node hnode hverify hrest, Nat.le_refl _⟩
    · obtain ⟨rest, htrail, hle⟩ := ih hn
      exact ⟨rest, htrail, Nat.le_succ_of_le hle⟩

/-- No node is met twice: the way from there would be as long as a part of itself. -/
theorem Trail.nodup (h : g.Trail hash ns) : (ns.map (·.hash)).Nodup := by
  induction h with
  | stop => exact .nil
  | @node n ns hnode hverify hrest ih =>
    rw [List.map_cons, List.nodup_cons]
    refine ⟨?_, ih⟩
    intro hagain
    obtain ⟨m, hm, hsame⟩ := List.mem_map.1 hagain
    obtain ⟨rest, htrail, hle⟩ := hrest.from_mem hm
    rw [hsame] at htrail
    rw [← Trail.unique (.node hnode hverify hrest) htrail, List.length_cons] at hle
    omega

theorem mem_of_lookup {d : Digest} (h : g.nodes.lookup d = some n) :
    d ∈ g.nodes.map (·.1) := by
  obtain ⟨before, after, hsplit, _⟩ := List.lookup_eq_some_iff.1 h
  rw [hsplit, List.map_append]
  exact List.mem_append_right _ List.mem_cons_self

/-- A trail that ends is no longer than the table of nodes. -/
theorem Trail.length_le (h : g.Trail hash ns) : ns.length ≤ g.nodes.length := by
  have hstored : ns.map (·.hash) ⊆ g.nodes.map (·.1) := by
    intro d hd
    obtain ⟨n, hn, rfl⟩ := List.mem_map.1 hd
    exact mem_of_lookup (h.lookup hn)
  have hle := h.nodup.length_le_of_subset hstored
  rwa [List.length_map, List.length_map] at hle

/-! ## What is found on the way -/

theorem checked_eq_ok_iff {d : Digest} :
    g.checked key d = .ok n ↔ g.nodes.lookup d = some n ∧ n.hash = d ∧
      n.verify = true := by
  rw [checked]
  cases g.nodes.lookup d with
  | none => simp
  | some m =>
    simp only [Bool.and_eq_true, beq_iff_eq]
    split
    · next hgood =>
      constructor
      · rintro ⟨⟩
        exact ⟨rfl, hgood⟩
      · rintro ⟨⟨⟩, _⟩
        rfl
    · next hbad =>
      constructor
      · intro h
        cases h
      · rintro ⟨⟨⟩, hgood⟩
        exact absurd hgood hbad

/-- A walk that comes to an end followed a trail. -/
theorem trail_of_walk {steps : Nat} {rs : List Record}
    (h : g.walk key steps hash = some (.ok rs)) :
    ∃ ns, g.Trail hash ns ∧ rs = ns.map (·.record) := by
  induction steps generalizing hash rs with
  | zero =>
    cases hash with
    | none =>
      cases h
      exact ⟨[], .stop, rfl⟩
    | some d => cases h
  | succ steps ih =>
    cases hash with
    | none =>
      cases h
      exact ⟨[], .stop, rfl⟩
    | some d =>
      rw [walk] at h
      split at h
      · cases h
      · next n hchecked =>
        obtain ⟨hnode, rfl, hverify⟩ := checked_eq_ok_iff.1 hchecked
        split at h
        · next rs' hwalk =>
          cases h
          obtain ⟨ns, htrail, rfl⟩ := ih hwalk
          exact ⟨n :: ns, .node hnode hverify htrail, rfl⟩
        · next other hother =>
          exact absurd h (hother rs)

/-- The history of a key is the trail from its newest node. If there is none, the
walk fails or goes round for ever. -/
theorem history_eq_ok_iff {rs : List Record} :
    g.history key = some (.ok rs) ↔ ∃ ns, g.Trail (g.heads.lookup key) ns ∧
      rs = ns.map (·.record) := by
  constructor
  · exact trail_of_walk
  · rintro ⟨ns, htrail, rfl⟩
    exact htrail.walk key (Nat.le_succ_of_le htrail.length_le)

/-- Where every node is stored under its own hash, a walk fails at a node that is not
there, and nowhere else. -/
theorem error_of_walk {steps : Nat} {e : Error}
    (hstored : ∀ d n, g.nodes.lookup d = some n → n.hash = d ∧ n.verify = true)
    (h : g.walk key steps hash = some (.error e)) :
    ∃ d, g.nodes.lookup d = none ∧ e = .corrupt (.missingNode key d) := by
  induction steps generalizing hash with
  | zero => cases hash <;> cases h
  | succ steps ih =>
    cases hash with
    | none => cases h
    | some d =>
      rw [walk] at h
      split at h
      · next e' hchecked =>
        cases h
        cases hlookup : g.nodes.lookup d with
        | none =>
          rw [checked, hlookup] at hchecked
          cases hchecked
          exact ⟨d, hlookup, rfl⟩
        | some n =>
          rw [checked_eq_ok_iff.2 ⟨hlookup, hstored d n hlookup⟩] at hchecked
          cases hchecked
      · split at h
        · cases h
        · exact ih h

/-! ## Graphs of nodes -/

/-- Every node of the graph is one of these and is stored under its hash, and so is
every newest node. -/
structure Stores (g : Graph) (ns : List Node) : Prop where
  nodes : ∀ d n, g.nodes.lookup d = some n → n ∈ ns ∧ n.hash = d
  heads : ∀ key d, g.heads.lookup key = some d →
    ∃ n ∈ ns, n.record.key = key ∧ n.hash = d

theorem Stores.link (h : g.Stores ns) (n : Node) : (g.link n).Stores (ns ++ [n]) := by
  have hlast : n ∈ ns ++ [n] := List.mem_append_right _ List.mem_cons_self
  refine ⟨?_, ?_⟩
  · intro d m hm
    rw [Graph.link, Assoc.lookup_set] at hm
    split at hm
    · next hsame =>
      cases hm
      exact ⟨hlast, (eq_of_beq hsame).symm⟩
    · obtain ⟨hmem, hhash⟩ := h.nodes d m hm
      exact ⟨List.mem_append_left _ hmem, hhash⟩
  · intro key d hd
    rw [Graph.link, Assoc.lookup_set] at hd
    split at hd
    · next hsame =>
      cases hd
      exact ⟨n, hlast, (eq_of_beq hsame).symm, rfl⟩
    · obtain ⟨m, hmem, hm⟩ := h.heads key d hd
      exact ⟨m, List.mem_append_left _ hmem, hm⟩

theorem Stores.foldl_link (h : g.Stores ms) (ns : List Node) :
    (ns.foldl Graph.link g).Stores (ms ++ ns) := by
  induction ns generalizing g ms with
  | nil => rwa [List.append_nil]
  | cons n ns ih =>
    have hrest := ih (h.link n)
    rwa [List.append_assoc, List.singleton_append] at hrest

theorem stores_foldl_link (ns : List Node) : (ns.foldl link {}).Stores ns := by
  have hnothing : ({} : Graph).Stores [] := by
    refine ⟨?_, ?_⟩ <;> simp
  exact hnothing.foldl_link ns

theorem Trail.mem_of_stores (h : g.Trail hash ms) (hstores : g.Stores ns) :
    ∀ n ∈ ms, n ∈ ns :=
  fun _ hn => (hstores.nodes _ _ (h.lookup hn)).1

/-- The newest node of a key is a node of the key, if hashes tell nodes apart. -/
theorem Stores.key_of_head (h : g.Stores ns) (hns : Unambiguous ns)
    (htrail : g.Trail (g.heads.lookup key) (n :: ms)) : n.record.key = key := by
  generalize hhead : g.heads.lookup key = head at htrail
  cases htrail with
  | node hnode =>
    obtain ⟨n', hn', hkey, hhash⟩ := h.heads key _ hhead
    rw [← hns n' hn' n (h.nodes _ _ hnode).1 hhash, hkey]

/-! ## Keys along a trail -/

theorem Trail.linksTo (h : g.Trail hash (n :: m :: ns)) : n.LinksTo m := by
  cases h with
  | node _ _ hrest =>
    generalize hbefore : n.before? = before at hrest
    cases hrest with
    | node => exact hbefore

theorem Trail.tail (h : g.Trail hash (n :: ns)) : g.Trail n.before? ns := by
  cases h with
  | node _ _ hrest => exact hrest

/-- Where no link on the way leads to another key, all nodes have the key of the
first one. -/
theorem Trail.keys (h : g.Trail hash (n :: ns))
    (hlinks : ∀ a ∈ n :: ns, ∀ b ∈ n :: ns, a.LinksTo b → b.record.key = a.record.key) :
    ∀ m ∈ ns, m.record.key = n.record.key := by
  induction ns generalizing hash n with
  | nil =>
    intro m hm
    cases hm
  | cons k ns ih =>
    have hfirst : k.record.key = n.record.key :=
      hlinks n List.mem_cons_self k
        (List.mem_cons_of_mem _ List.mem_cons_self) h.linksTo
    have hrest := ih h.tail fun a ha b hb =>
      hlinks a (List.mem_cons_of_mem _ ha) b (List.mem_cons_of_mem _ hb)
    intro m hm
    rcases List.mem_cons.1 hm with rfl | hm
    · exact hfirst
    · exact (hrest m hm).trans hfirst

/-- A new node that links to another one has the trail from there behind it, whatever
the keys of the two are. -/
theorem Trail.adopt {d : Digest} {r : Record} (h : g.Trail (some d) ns)
    (hd : d.isZero = false) (hnew : g.New (Node.link r d)) :
    (g.link (Node.link r d)).Trail ((g.link (Node.link r d)).heads.lookup r.key)
      (Node.link r d :: ns) := by
  have hhead : (g.link (Node.link r d)).heads.lookup r.key =
      some (Node.link r d).hash := by
    rw [Graph.link, Assoc.lookup_set]
    exact if_pos (beq_self_eq_true _)
  have hnode : (g.link (Node.link r d)).nodes.lookup (Node.link r d).hash =
      some (Node.link r d) := by
    rw [Graph.link, Assoc.lookup_set, if_pos (beq_self_eq_true _)]
  rw [hhead]
  refine .node hnode (Node.verify_link r d) ?_
  rw [Node.before?_link r hd]
  exact h.link hnew

end Graph

namespace Lineage

/-! ## Journals -/

/-- The nodes in the intact frames of a journal that have the hashes they claim. -/
def nodesIn (bs : Bytes) : List Node := (Frame.scan bs).intact.filterMap nodeIn?

theorem graphOf_scan (bs : Bytes) :
    graphOf (Frame.scan bs) = (nodesIn bs).foldl Graph.link {} :=
  graphOf_eq _

/-- The part of a journal that is kept when it is opened. -/
def keptOf (bs : Bytes) : Bytes := bs.take (Frame.scan bs).validLength

/-- All of a journal is kept that ends with a frame. -/
theorem keptOf_journal {ps : List Bytes} (h : Frame.Framed ps) :
    keptOf (Frame.journal ps) = Frame.journal ps := by
  have hscan := Frame.scan_journal h Frame.torn_nil
  rw [List.append_nil] at hscan
  rw [keptOf, hscan, Frame.scanOf_validLength, List.take_length]

/-- A node that is added to what is kept of a journal is found after the others. -/
theorem nodesIn_concat {n : Node} (bs : Bytes)
    (hlimit : n.toBinary.length < Frame.payloadLimit) (hverify : n.verify = true) :
    nodesIn (keptOf bs ++ Frame.encode n.toBinary) = nodesIn bs ++ [n] := by
  obtain ⟨hconsecutive, s, hbs, _⟩ := Frame.exists_laid 0 bs
  have hkept : keptOf bs = Frame.laid (Frame.tiles 0 bs) := by
    have hvalid : (Frame.scan bs).validLength =
        (Frame.laid (Frame.tiles 0 bs)).length := (Frame.length_laid _).symm
    have htake := @List.take_left _ (Frame.laid (Frame.tiles 0 bs)) s
    rwa [← hbs, ← hvalid] at htake
  let t : Frame.Tile := ⟨0 + Frame.coveredLength (Frame.tiles 0 bs),
    Hash.Crc32.checksum n.toBinary, n.toBinary⟩
  have hscan : Frame.scan (keptOf bs ++ Frame.encode n.toBinary) =
      ⟨Frame.tiles 0 bs ++ [t]⟩ := by
    have hframe := Frame.tiles_encode (0 + Frame.coveredLength (Frame.tiles 0 bs))
      n.toBinary [] hlimit (toBinary_ne_nil n)
    rw [List.append_nil, Frame.tiles_of_unframed Frame.unframed_nil] at hframe
    rw [Frame.scan, hkept, Frame.tiles_laid hconsecutive, hframe]
  have hnode : nodeIn? t = some n := by
    have hread : Node.ofBinary t.payload = .ok n :=
      Node.ofBinary_toBinary (Nat.lt_trans hlimit (by decide))
    rw [nodeIn?, hread]
    exact Option.filter_eq_some_iff.2 ⟨rfl, hverify⟩
  have hintact : t.isIntact = true := beq_self_eq_true _
  rw [nodesIn, hscan, Frame.Scan.intact, List.filter_append,
    List.filter_cons_of_pos hintact, List.filter_nil, List.filterMap_append,
    List.filterMap_cons_some hnode, List.filterMap_nil]
  rfl

/-- The graph of a journal with one more node. -/
theorem graphOf_concat {n : Node} (bs : Bytes)
    (hlimit : n.toBinary.length < Frame.payloadLimit) (hverify : n.verify = true) :
    graphOf (Frame.scan (keptOf bs ++ Frame.encode n.toBinary)) =
      (graphOf (Frame.scan bs)).link n := by
  rw [graphOf_scan, nodesIn_concat bs hlimit hverify, List.foldl_append, ← graphOf_scan]
  rfl

theorem graphOf_single {n : Node} (hlimit : n.toBinary.length < Frame.payloadLimit)
    (hverify : n.verify = true) :
    graphOf (Frame.scan (Frame.journal [n.toBinary])) = Graph.link {} n := by
  have hframe : Frame.journal [n.toBinary] = keptOf [] ++ Frame.encode n.toBinary := by
    simp [Frame.journal, keptOf]
  have hnothing : graphOf (Frame.scan []) = {} := by
    rw [Frame.scan, Frame.tiles_of_unframed Frame.unframed_nil]
    rfl
  rw [hframe, graphOf_concat [] hlimit hverify, hnothing]

theorem verify_of_mem_nodesIn {bs : Bytes} {n : Node} (h : n ∈ nodesIn bs) :
    n.verify = true := by
  obtain ⟨t, _, ht⟩ := List.mem_filterMap.1 h
  exact verify_of_nodeIn? ht

variable {p : Path} {d d' : Disk} {l : Lineage} {bs : Bytes}

/-- Opening a journal leads to the graph of its nodes. -/
theorem graph_of_openAt (hd : d.WellFormed) (hread : d.read p = .ok bs)
    (hopen : openAt p d = (.ok l, d')) :
    l.graph = graphOf (Frame.scan bs) := by
  obtain ⟨file, hstat, rfl⟩ := Disk.stat_of_read hread
  rw [openAt_eq] at hopen
  split at hopen
  · cases hopen
  · next ho =>
    cases hopen
    obtain ⟨_, rfl, _⟩ := Frame.opened_ok hd hstat ho
    rfl

/-- Whatever bytes are in a journal, the history of a key is the trail from its
newest node, if that comes to an end. All nodes on it are in the journal, and the
first of them is one of the key, as long as no two different nodes have one hash. Its
records are those of the key exactly if no link on the way leads to a node of another
key. A history that fails leads to a node that is not in the journal. A new node with
a record of any key can be added to the journal that links to any other one, and the
history of its key goes on with all that is behind that one. -/
theorem history_stays_with_key_iff_links_do (hd : d.WellFormed)
    (hread : d.read p = .ok bs) (hopen : openAt p d = (.ok l, d')) (key : String) :
    (∀ rs, l.graph.history key = some (.ok rs) ↔
        ∃ ns, l.graph.Trail (l.graph.heads.lookup key) ns ∧ rs = ns.map (·.record)) ∧
      (∀ ns, l.graph.Trail (l.graph.heads.lookup key) ns → (∀ n ∈ ns, n ∈ nodesIn bs) ∧
        (Graph.Unambiguous (nodesIn bs) →
          (∀ n, ns.head? = some n → n.record.key = key) ∧
          ((∀ n ∈ ns, n.record.key = key) ↔
            ∀ n ∈ ns, ∀ m ∈ ns, n.LinksTo m → m.record.key = n.record.key))) ∧
      (∀ e, l.graph.history key = some (.error e) →
        ∃ hash, l.graph.nodes.lookup hash = none ∧
        e = .corrupt (.missingNode key hash)) ∧
      ∀ (hash : Digest) (ns : List Node) (r : Record), l.graph.Trail (some hash) ns →
      hash.isZero = false →
        l.graph.New (Node.link r hash) →
        (Node.link r hash).toBinary.length < Frame.payloadLimit →
        ∀ e e' l', e.WellFormed →
        e.read p = .ok (keptOf bs ++ Frame.encode (Node.link r hash).toBinary) →
          openAt p e = (.ok l', e') →
          l'.graph.history r.key = some (.ok (r :: ns.map (·.record))) := by
  have hgraph := graph_of_openAt hd hread hopen
  have hstores : l.graph.Stores (nodesIn bs) := by
    rw [hgraph, graphOf_scan]
    exact Graph.stores_foldl_link _
  refine ⟨fun rs => Graph.history_eq_ok_iff, ?_, ?_, ?_⟩
  · intro ns htrail
    refine ⟨htrail.mem_of_stores hstores, fun hns => ?_⟩
    cases ns with
    | nil => simp
    | cons n ns =>
      have hfirst := hstores.key_of_head hns htrail
      refine ⟨fun m hm => Option.some.inj hm ▸ hfirst, ?_, fun hlinks m hm => ?_⟩
      · intro hkeys a ha b hb _
        rw [hkeys a ha, hkeys b hb]
      · rcases List.mem_cons.1 hm with rfl | hm
        · exact hfirst
        · exact (htrail.keys hlinks m hm).trans hfirst
  · intro e he
    refine Graph.error_of_walk (fun hash n hn => ?_) he
    obtain ⟨hmem, hhash⟩ := hstores.nodes hash n hn
    exact ⟨hhash, verify_of_mem_nodesIn hmem⟩
  · intro hash ns r htrail hnonzero hnew hlimit e e' l' he hread' hopen'
    rw [graph_of_openAt he hread' hopen',
      graphOf_concat bs hlimit (Node.verify_link r hash), ← hgraph]
    exact Graph.history_eq_ok_iff.2 ⟨_, htrail.adopt hnonzero hnew, rfl⟩

/-! ## A node of another key -/

/-- A node, and one of another key that links to it. -/
def nodesOfTwoKeys : Node × Node :=
  let first := Node.link ⟨"note", "k", [1], Digest.zero, ⟨1, 0⟩⟩ Digest.zero
  (first, Node.link ⟨"note", "q", [2], Digest.zero, ⟨2, 0⟩⟩ first.hash)

/-- The frames of the two nodes, at first of one of them only. -/
def framesOfTwoKeys : Bytes × Bytes :=
  (Frame.journal [nodesOfTwoKeys.1.toBinary],
    Frame.journal [nodesOfTwoKeys.1.toBinary] ++ Frame.encode nodesOfTwoKeys.2.toBinary)

theorem short_twoKeys : nodesOfTwoKeys.1.toBinary.length < Frame.payloadLimit ∧
    nodesOfTwoKeys.2.toBinary.length < Frame.payloadLimit := by
  rw [Node.length_toBinary, Node.length_toBinary, Record.length_toBinary,
    Record.length_toBinary]
  decide

theorem keptOf_twoKeys : keptOf framesOfTwoKeys.1 = framesOfTwoKeys.1 := by
  refine keptOf_journal fun p hp => ?_
  rw [List.mem_singleton.1 hp]
  exact ⟨toBinary_ne_nil _, short_twoKeys.1⟩

theorem verify_twoKeys :
    nodesOfTwoKeys.1.verify = true ∧ nodesOfTwoKeys.2.verify = true :=
  ⟨Node.verify_link _ _, Node.verify_link _ _⟩

theorem graphOf_twoKeys :
    graphOf (Frame.scan framesOfTwoKeys.1) = Graph.link {} nodesOfTwoKeys.1 :=
  graphOf_single short_twoKeys.1 verify_twoKeys.1

/-- The nodes have different hashes, and neither of them stands for none. -/
theorem new_twoKeys : nodesOfTwoKeys.1.hash.isZero = false ∧
    (Graph.link {} nodesOfTwoKeys.1).New nodesOfTwoKeys.2 := by
  have hbytes : nodesOfTwoKeys.1.hash.bytes.head? = some 156 ∧
      nodesOfTwoKeys.2.hash.bytes.head? = some 122 := by
    decide +kernel
  have hother {a b : Digest} (h : a.bytes.head? ≠ b.bytes.head?) : a ≠ b :=
    fun hab => h (by rw [hab])
  refine ⟨beq_eq_false_iff_ne.2 (hother ?_), beq_eq_false_iff_ne.2 (hother ?_), ?_⟩
  · rw [hbytes.1]
    decide
  · rw [hbytes.2]
    decide
  · rw [Graph.link, Assoc.lookup_set, if_neg]
    · rfl
    · rw [beq_iff_eq]
      exact hother (by rw [hbytes.1, hbytes.2]; decide)

theorem trail_twoKeys :
    (Graph.link {} nodesOfTwoKeys.1).Trail (some nodesOfTwoKeys.1.hash)
      [nodesOfTwoKeys.1] := by
  refine .node ?_ verify_twoKeys.1 .stop
  rw [Graph.link, Assoc.lookup_set, if_pos (beq_self_eq_true _)]

/-- A journal that is there can be opened if nothing is in the way. -/
theorem exists_openAt (hread : d.read p = .ok bs) (hcalm : d.Calm)
    (hsize : bs.length < Disk.sizeLimit) :
    ∃ l d', openAt p d = (.ok l, d') := by
  obtain ⟨file, hstat, rfl⟩ := Disk.stat_of_read hread
  rw [Disk.length_content] at hsize
  obtain ⟨d', hopened, _⟩ := Frame.opened_calm hstat hcalm hsize
  rw [openAt_eq, hopened]
  exact ⟨_, d', rfl⟩

theorem size_twoKeys :
    framesOfTwoKeys.1.length < Disk.sizeLimit ∧
      framesOfTwoKeys.2.length < Disk.sizeLimit := by
  have hlimit : 2 * (Frame.headerSize + Frame.payloadLimit) < Disk.sizeLimit := by
    decide
  have hshort := short_twoKeys
  simp only [framesOfTwoKeys, Frame.journal, List.flatMap_cons, List.flatMap_nil,
    List.append_nil, List.length_append, Frame.length_encode]
  omega

/-- A journal with one node, and the same one with the other node. -/
theorem history_stays_with_key_iff_links_do_twoKeys :
    ∃ l l' d' e', openAt ["a"] (Disk.holding framesOfTwoKeys.1) = (.ok l, d') ∧
      openAt ["a"] (Disk.holding framesOfTwoKeys.2) = (.ok l', e') ∧
      l.graph.history "k" = some (.ok [nodesOfTwoKeys.1.record]) ∧
      l'.graph.history "q" = some
        (.ok [nodesOfTwoKeys.2.record, nodesOfTwoKeys.1.record]) := by
  have hread := Disk.read_holding framesOfTwoKeys.1
  obtain ⟨l, d', hopen⟩ := exists_openAt hread (Disk.calm_holding _) size_twoKeys.1
  have hread' := Disk.read_holding framesOfTwoKeys.2
  obtain ⟨l', e', hopen'⟩ := exists_openAt hread' (Disk.calm_holding _) size_twoKeys.2
  have hgraph := graph_of_openAt (Disk.wellFormed_holding _) hread hopen
  rw [graphOf_twoKeys] at hgraph
  obtain ⟨hhistory, _, _, hadopt⟩ :=
    history_stays_with_key_iff_links_do (Disk.wellFormed_holding _) hread hopen "k"
  refine ⟨l, l', d', e', hopen, hopen',
    (hhistory _).2 ⟨[nodesOfTwoKeys.1], ?_, rfl⟩, ?_⟩
  · rw [hgraph]
    exact trail_twoKeys
  · refine hadopt _ [nodesOfTwoKeys.1] nodesOfTwoKeys.2.record
      (hgraph ▸ trail_twoKeys) new_twoKeys.1
      (hgraph ▸ new_twoKeys.2) short_twoKeys.2 _ e' l'
        (Disk.wellFormed_holding _) ?_ hopen'
    rw [keptOf_twoKeys]
    exact hread'

/-- In the journal of the two nodes the history of the second one's key has the
record of the first one. -/
theorem history_has_record_of_other_key :
    ∃ l d', openAt ["a"] (Disk.holding framesOfTwoKeys.2) = (.ok l, d') ∧
      ∃ rs, l.graph.history "q" = some (.ok rs) ∧ ∃ r ∈ rs, r.key ≠ "q" := by
  have hread := Disk.read_holding framesOfTwoKeys.2
  obtain ⟨l, d', hopen⟩ := exists_openAt hread (Disk.calm_holding _) size_twoKeys.2
  have hframes : framesOfTwoKeys.2 =
      keptOf framesOfTwoKeys.1 ++ Frame.encode nodesOfTwoKeys.2.toBinary := by
    rw [keptOf_twoKeys]
    rfl
  have hgraph := graph_of_openAt (Disk.wellFormed_holding _) hread hopen
  rw [hframes, graphOf_concat _ short_twoKeys.2 verify_twoKeys.2, graphOf_twoKeys]
    at hgraph
  refine ⟨l, d', hopen, [nodesOfTwoKeys.2.record, nodesOfTwoKeys.1.record], ?_,
    nodesOfTwoKeys.1.record, List.mem_cons_of_mem _ List.mem_cons_self, by decide⟩
  rw [hgraph]
  exact Graph.history_eq_ok_iff.2
    ⟨_, trail_twoKeys.adopt new_twoKeys.1 new_twoKeys.2, rfl⟩

end Lineage

end Medium

end Chronicle
