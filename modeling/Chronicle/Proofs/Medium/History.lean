import Chronicle.Proofs.Medium.Lineage

/-!
# The whole history of a key

The nodes of all keys of a lineage are in one table, and only their links tell which
of them belong together. From the newest node of a key they lead back through every
record that was written under the key, and then they end, as long as no new node has
the hash of another one or the hash that stands for none.

* `Graph.Trail`: the nodes to which links lead.
* `Graph.Trail.walk`: whoever follows them gets there.
* `Graph.Remembers.link`: a new node comes before the history of its key and leaves
  the other keys alone.
* `Run.recounts`: what a lineage remembers after every run.
* `history_has_every_record`: the history of every key has the records of the key,
  newest first.
-/

namespace Chronicle

/-- Under a new key a table has one entry more. -/
theorem Assoc.length_set {κ β : Type} [BEq κ] {k : κ} {b : β} {es : List (κ × β)}
    (h : es.lookup k = none) :
    (Assoc.set k b es).length = es.length + 1 := by
  induction es with
  | nil => rfl
  | cons e es ih =>
    obtain ⟨k', b'⟩ := e
    rw [lookup_cons_ite] at h
    split at h
    · cases h
    · next hk => rw [set, if_neg hk, List.length_cons, ih h, List.length_cons]

/-- The hash of the node before, if there is one. -/
def Node.before? (n : Node) : Option Digest :=
  if n.prev.isZero then none else some n.prev

namespace Medium

namespace Graph

variable {g : Graph} {rs : List Record} {n : Node} {ns : List Node}
    {hash : Option Digest}

/-! ## Following links -/

/-- The nodes to which links lead back from a hash, up to one that has none before
it. Each of them is stored under its hash and has the hash that it claims. -/
inductive Trail (g : Graph) : Option Digest → List Node → Prop where
  | stop : Trail g none []
  | node {n : Node} {ns : List Node} (hnode : g.nodes.lookup n.hash = some n)
      (hverify : n.verify = true) (hrest : Trail g n.before? ns) :
      Trail g (some n.hash) (n :: ns)

/-- The walk has all records as soon as it may take as many steps. -/
theorem Trail.walk (h : g.Trail hash ns) (key : String) {steps : Nat}
    (hsteps : ns.length ≤ steps) :
    g.walk key steps hash = some (.ok (ns.map (·.record))) := by
  induction h generalizing steps with
  | stop => cases steps <;> rfl
  | @node n ns hnode hverify hrest ih =>
    cases steps with
    | zero => cases hsteps
    | succ steps =>
      have hchecked : g.checked key n.hash = .ok n := by
        simp only [checked, hnode, beq_self_eq_true, hverify, Bool.and_self, if_true]
      have hgoes := ih (Nat.le_of_succ_le_succ hsteps)
      rw [Node.before?] at hgoes
      simp only [Graph.walk, hchecked, hgoes, List.map_cons]

/-- Where links lead is what is read first. -/
theorem Trail.read {key : String} (h : g.Trail (g.heads.lookup key) ns) :
    g.read key = .ok (ns.map (·.record)).head? := by
  rw [Graph.read]
  cases hhead : g.heads.lookup key with
  | none =>
    rw [hhead] at h
    cases h
    rfl
  | some first =>
    rw [hhead] at h
    cases h with
    | node hnode hverify hrest =>
      simp only [checked, hnode, beq_self_eq_true, hverify, Bool.and_self, if_true]
      rfl

/-! ## New nodes -/

/-- The hash of the node is not in use, and is not the one that stands for no node. -/
structure New (g : Graph) (n : Node) : Prop where
  nonzero : n.hash.isZero = false
  unused : g.nodes.lookup n.hash = none

theorem New.apart (h : g.New n) : g.Apart n := by
  intro m hm
  rw [h.unused] at hm
  cases hm

/-- A new node takes the place of no other. -/
theorem New.lookup_link {d : Digest} {m : Node} (h : g.New n)
    (hm : g.nodes.lookup d = some m) :
    (g.link n).nodes.lookup d = some m := by
  rw [Graph.link, Assoc.lookup_set]
  split
  · next hsame =>
    rw [eq_of_beq hsame, h.unused] at hm
    cases hm
  · exact hm

/-- A node stays new when another one is linked. -/
theorem New.link {m : Node} (h : g.New n) (hother : n.hash ≠ m.hash) :
    (g.link m).New n := by
  refine ⟨h.nonzero, ?_⟩
  rw [Graph.link, Assoc.lookup_set, if_neg (by simpa using hother)]
  exact h.unused

theorem Trail.link (h : g.Trail hash ns) (hnew : g.New n) :
    (g.link n).Trail hash ns := by
  induction h with
  | stop => exact .stop
  | node hnode hverify _ ih => exact .node (hnew.lookup_link hnode) hverify ih

/-! ## What a graph remembers -/

/-- The records of a key, newest first. -/
def recordsOf (key : String) (rs : List Record) : List Record :=
  (rs.filter fun r => r.key == key).reverse

theorem recordsOf_concat (key : String) (rs : List Record) (r : Record) :
    recordsOf key (rs ++ [r]) = if r.key == key then r :: recordsOf key rs
      else recordsOf key rs := by
  simp only [recordsOf, List.filter_append, List.filter_cons, List.filter_nil]
  split
  · rw [List.reverse_append, List.reverse_singleton, List.singleton_append]
  · rw [List.append_nil]

/-- There is one node for each record. From the newest node of every key links lead
back through the records of the key, and all nodes are stored under their own hashes. -/
structure Remembers (g : Graph) (rs : List Record) : Prop where
  trail : ∀ key, ∃ ns, g.Trail (g.heads.lookup key) ns ∧
    ns.map (·.record) = recordsOf key rs
  /-- No newest node is taken for none. -/
  heads : ∀ key first, g.heads.lookup key = some first → first.isZero = false
  size : g.nodes.length = rs.length
  verified : ∀ hash n, g.nodes.lookup hash = some n → n.hash = hash ∧ n.verify = true

theorem remembers_nil : ({} : Graph).Remembers [] where
  trail := fun _ => ⟨[], .stop, rfl⟩
  heads := by simp
  size := rfl
  verified := by simp

/-- The next node of a key links to the newest one, and to none if there is none. -/
theorem Remembers.before?_next (h : g.Remembers rs)
    (hprev : n.prev = g.headOrZero n.record.key) :
    n.before? = g.heads.lookup n.record.key := by
  rw [Node.before?, hprev, headOrZero]
  cases hhead : g.heads.lookup n.record.key with
  | none => rfl
  | some first =>
    rw [Option.getD_some, h.heads _ _ hhead]
    rfl

theorem Remembers.link (h : g.Remembers rs) (hnew : g.New n) (hverify : n.verify = true)
    (hprev : n.prev = g.headOrZero n.record.key) :
    (g.link n).Remembers (rs ++ [n.record]) := by
  have hheads : ∀ key, (g.link n).heads.lookup key =
      if key == n.record.key then some n.hash else g.heads.lookup key := by
    intro key
    rw [Graph.link, Assoc.lookup_set]
  refine ⟨?_, ?_, ?_, ?_⟩
  · intro key
    obtain ⟨ns, htrail, hrecords⟩ := h.trail key
    rw [hheads key, recordsOf_concat]
    by_cases hkey : key = n.record.key
    · subst hkey
      rw [if_pos (beq_self_eq_true _), if_pos (beq_self_eq_true _)]
      refine ⟨n :: ns, .node ?_ hverify ?_, congrArg _ hrecords⟩
      · rw [Graph.link, Assoc.lookup_set, if_pos (beq_self_eq_true _)]
      · rw [h.before?_next hprev]
        exact htrail.link hnew
    · rw [if_neg (by simpa using hkey), if_neg (by simpa using Ne.symm hkey)]
      exact ⟨ns, htrail.link hnew, hrecords⟩
  · intro key first hfirst
    rw [hheads key] at hfirst
    split at hfirst
    · cases hfirst
      exact hnew.nonzero
    · exact h.heads key first hfirst
  · show (Assoc.set n.hash n g.nodes).length = _
    rw [Assoc.length_set hnew.unused, h.size, List.length_append]
    rfl
  · intro hash m hm
    rw [Graph.link, Assoc.lookup_set] at hm
    split at hm
    · next hsame =>
      cases hm
      exact ⟨(eq_of_beq hsame).symm, hverify⟩
    · exact h.verified hash m hm

/-- The history of a key is found within the steps that the walk may take. -/
theorem Remembers.history (h : g.Remembers rs) (key : String) :
    g.history key = some (.ok (recordsOf key rs)) := by
  obtain ⟨ns, htrail, hrecords⟩ := h.trail key
  have hfew : ns.length ≤ rs.length := by
    rw [← List.length_map (·.record), hrecords, recordsOf, List.length_reverse]
    exact List.length_filter_le _ _
  rw [← hrecords]
  refine htrail.walk key ?_
  rw [h.size]
  omega

end Graph

namespace Lineage

/-! ## Runs -/

/-- What a lineage comes to, with a journal or without, and the records that it has
taken. It begins with nothing. Records are written to it, and those that are taken
get a new node. Its journal is dropped and opened again, and anything happens to the
disk but to the journal. What a refused record leaves in the journal is less than a
frame or can be taken back. -/
inductive Run : Option Path → Lineage → Disk → List Record → Prop where
  | memory (d : Disk) : Run none {} d []
  | opened {p : Path} {l : Lineage} {d d' : Disk} (hd : d.WellFormed)
      (hvacant : Frame.Vacant d p) (hopen : openAt p d = (.ok l, d')) :
      Run (some p) l d' []
  | taken {journal : Option Path} {l l' : Lineage} {d d' : Disk} {rs : List Record}
      {r : Record} (h : Run journal l d rs) (hnew : l.graph.New (l.graph.next r))
      (hwrite : l.write r d = (.ok (), l', d')) :
      Run journal l' d' (rs ++ [r])
  | refused {journal : Option Path} {l l' : Lineage} {d d' : Disk} {rs : List Record}
      {r : Record} {e : Error} (h : Run journal l d rs)
      (hwrite : l.write r d = (.error e, l', d'))
      (htears : ∀ j, l.journal = some j →
        d.Tears j.file (Frame.encode (l.graph.next r).toBinary)) :
      Run journal l' d' rs
  | reopen {p : Path} {l l' : Lineage} {d d' : Disk} {rs : List Record}
      (h : Run (some p) l d rs) (hopen : openAt p d = (.ok l', d')) :
      Run (some p) l' d' rs
  | turn {journal : Option Path} {l : Lineage} {d d' : Disk} {rs : List Record}
      (h : Run journal l d rs) (hd : d'.WellFormed)
      (hsame : ∀ p, journal = some p → d'.stat p = d.stat p ∧ d'.read p = d.read p) :
      Run journal l d' rs

/-- The lineage has its journal there, if anywhere, and remembers the records, as the
journal does. -/
structure Recounts (l : Lineage) (journal : Option Path) (d : Disk)
    (rs : List Record) : Prop where
  path : l.journal.map (·.path) = journal
  keeps : l.Keeps d rs
  remembers : l.graph.Remembers rs

variable {l l' : Lineage} {d d' : Disk} {rs : List Record} {r : Record}
    {journal : Option Path}

theorem graph_of_taken (hwrite : l.write r d = (.ok (), l', d')) :
    l'.graph = l.graph.link (l.graph.next r) := by
  cases hj : l.journal with
  | none =>
    rw [write, hj] at hwrite
    cases hwrite
    rfl
  | some j =>
    rw [write_eq hj] at hwrite
    split at hwrite <;> cases hwrite
    rfl

theorem graph_of_refused {e : Error} (hwrite : l.write r d = (.error e, l', d')) :
    l'.graph = l.graph ∧ l.journal.isSome = true := by
  cases hj : l.journal with
  | none =>
    rw [write, hj] at hwrite
    cases hwrite
  | some j =>
    rw [write_eq hj] at hwrite
    split at hwrite <;> cases hwrite
    exact ⟨rfl, rfl⟩

theorem Recounts.taken (h : l.Recounts journal d rs)
    (hnew : l.graph.New (l.graph.next r)) (hwrite : l.write r d = (.ok (), l', d')) :
    l'.Recounts journal d' (rs ++ [r]) := by
  have hremembers : l'.graph.Remembers (rs ++ [r]) := by
    rw [graph_of_taken hwrite]
    exact h.remembers.link hnew (Node.verify_link _ _) rfl
  cases hj : l.journal with
  | none =>
    obtain ⟨x, hw, hmemory, hkeeps⟩ := h.keeps.write_memory hj hnew.apart
    rw [hw] at hwrite
    cases hwrite
    exact ⟨by rw [hmemory, ← hj]; exact h.path, hkeeps, hremembers⟩
  | some j =>
    obtain ⟨hj', hkeeps⟩ := h.keeps.write_ok hj hnew.apart hwrite
    exact ⟨by rw [hj', ← hj]; exact h.path, hkeeps, hremembers⟩

theorem Recounts.refused {e : Error} (h : l.Recounts journal d rs)
    (hwrite : l.write r d = (.error e, l', d'))
    (htears : ∀ j, l.journal = some j →
      d.Tears j.file (Frame.encode (l.graph.next r).toBinary)) :
    l'.Recounts journal d' rs := by
  obtain ⟨hgraph, hsome⟩ := graph_of_refused hwrite
  obtain ⟨j, hj⟩ := Option.isSome_iff_exists.1 hsome
  obtain ⟨⟨back, hj'⟩, hkeeps⟩ := h.keeps.write_error hj (htears j hj) hwrite
  refine ⟨?_, hkeeps, by rw [hgraph]; exact h.remembers⟩
  rw [hj', ← h.path, hj]
  rfl

theorem Recounts.reopen {p : Path} (h : l.Recounts (some p) d rs)
    (hopen : openAt p d = (.ok l', d')) :
    l'.graph = l.graph ∧ l'.Recounts (some p) d' rs := by
  obtain ⟨j, hj, rfl⟩ := Option.map_eq_some_iff.1 h.path
  obtain ⟨hj', hkeeps⟩ := h.keeps.openAt hj hopen
  obtain ⟨rfl, _⟩ := (h.keeps.journaled j hj).openAt hopen
  exact ⟨rfl, rfl, hkeeps, h.remembers⟩

theorem Recounts.reopen_calm {p : Path} (h : l.Recounts (some p) d rs) (hcalm : d.Calm)
    (hsize : ∀ bs, d.read p = .ok bs → bs.length < Disk.sizeLimit) :
    ∃ l' d', openAt p d = (.ok l', d') := by
  obtain ⟨j, hj, rfl⟩ := Option.map_eq_some_iff.1 h.path
  obtain ⟨ns, hkept, _⟩ := h.keeps.journaled j hj
  have hless := hsize _ (Disk.read_of_stat hkept.stat)
  rw [Disk.length_content] at hless
  obtain ⟨l', d', hopen, _⟩ := h.keeps.openAt_calm hj hcalm hless
  exact ⟨l', d', hopen⟩

theorem Run.recounts (h : Run journal l d rs) : l.Recounts journal d rs := by
  induction h with
  | memory d => exact ⟨rfl, keeps_empty d, Graph.remembers_nil⟩
  | opened hd hvacant hopen =>
    obtain ⟨⟨file, rfl⟩, hkeeps⟩ := openAt_vacant hd hvacant hopen
    exact ⟨rfl, hkeeps, Graph.remembers_nil⟩
  | taken _ hnew hwrite ih => exact ih.taken hnew hwrite
  | refused _ hwrite htears ih => exact ih.refused hwrite htears
  | reopen _ hopen ih => exact (ih.reopen hopen).2
  | turn _ hd hsame ih =>
    refine ⟨ih.path, ih.keeps.of_same hd ?_, ih.remembers⟩
    intro j hj
    apply hsame
    rw [← ih.path, hj]
    rfl

/-- A record that has room in a frame is taken if nothing is in the way, and nothing
is then. -/
theorem Run.goesOn {j : Journal} (h : Run journal l d rs) (hj : l.journal = some j)
    (happendable : j.appendable = true)
    (hshort : r.toBinary.length + 144 < Frame.payloadLimit) (hcalm : d.Calm)
    (hnew : l.graph.New (l.graph.next r)) :
    ∃ d', Run journal ⟨l.graph.link (l.graph.next r), some j⟩ d' (rs ++ [r]) ∧
      d'.Calm := by
  have hnext : (l.graph.next r).toBinary.length < Frame.payloadLimit := by
    rw [Node.length_toBinary]
    exact hshort
  obtain ⟨⟨graph, j'⟩, d', hwrite, rfl, hcalm'⟩ := write_calm hj hnext happendable hcalm
  obtain rfl : graph = _ := graph_of_taken hwrite
  exact ⟨d', h.taken hnew hwrite, hcalm'⟩

/-! ## Histories -/

/-- After every run the history of every key has the records that were taken under
the key and no others, newest first, and is found in no more steps than these. What
is read is its first record. Every node is stored under its hash and has the hash
that it claims. A journal that is opened again leads to the same graph. It is found
as it is if it takes records, and otherwise it can be opened if nothing is in the
way. -/
theorem history_has_every_record (h : Run journal l d rs) :
    (∀ key, l.graph.history key = some (.ok (Graph.recordsOf key rs)) ∧
      (∀ steps, (Graph.recordsOf key rs).length ≤ steps →
        l.graph.walk key steps (l.graph.heads.lookup key) =
          some (.ok (Graph.recordsOf key rs))) ∧
      l.read key = .ok (Graph.recordsOf key rs).head?) ∧
      (∀ hash n, l.graph.nodes.lookup hash = some n → n.hash = hash ∧ n.verify = true) ∧
      (∀ p l' d', journal = some p → openAt p d = (.ok l', d') → l'.graph = l.graph) ∧
      (∀ j, l.journal = some j → j.appendable = true → openAt j.path d = (.ok l, d)) ∧
      (∀ p, journal = some p → d.Calm →
        (∀ bs, d.read p = .ok bs → bs.length < Disk.sizeLimit) →
        ∃ l' d', openAt p d = (.ok l', d')) := by
  have hrecounts := h.recounts
  refine ⟨?_, hrecounts.remembers.verified, ?_, ?_, ?_⟩
  · intro key
    obtain ⟨ns, htrail, hrecords⟩ := hrecounts.remembers.trail key
    refine ⟨hrecounts.remembers.history key, fun steps hsteps => ?_, ?_⟩
    · rw [← hrecords] at hsteps ⊢
      exact htrail.walk key (by rwa [List.length_map] at hsteps)
    · rw [← hrecords]
      exact htrail.read
  · rintro p l' d' rfl hopen
    exact (hrecounts.reopen hopen).1
  · intro j hj happendable
    rw [(hrecounts.keeps.journaled j hj).openAt_ready happendable, ← hj]
  · rintro p rfl hcalm hsize
    exact hrecounts.reopen_calm hcalm hsize

/-- Records of two keys, one between the two of the other key. -/
def notesOfTwoKeys : Record × Record × Record :=
  (⟨"note", "k", [1], Digest.zero, ⟨1, 0⟩⟩, ⟨"note", "q", [2], Digest.zero, ⟨2, 0⟩⟩,
    ⟨"note", "k", [3], Digest.zero, ⟨3, 0⟩⟩)

/-- A lineage takes the records, and its journal is opened again before the last of
them. -/
theorem history_has_every_record_twoKeys :
    ∃ l d, Run (some ["j"]) l d
      [notesOfTwoKeys.1, notesOfTwoKeys.2.1, notesOfTwoKeys.2.2] ∧
      l.graph.history "k" = some (.ok [notesOfTwoKeys.2.2, notesOfTwoKeys.1]) ∧
      l.graph.history "q" = some (.ok [notesOfTwoKeys.2.1]) ∧
      l.read "k" = .ok (some notesOfTwoKeys.2.2) := by
  let first := Node.link notesOfTwoKeys.1 Digest.zero
  let second := Node.link notesOfTwoKeys.2.1 Digest.zero
  let third := Node.link notesOfTwoKeys.2.2 first.hash
  have hbytes : [first, second, third].map (·.hash.bytes.head?) =
      [some 0x9c, some 0xad, some 0xb1] := by
    decide +kernel
  simp only [List.map_cons, List.map_nil, List.cons.injEq, and_true] at hbytes
  obtain ⟨hfirst, hsecond, hthird⟩ := hbytes
  have hother {a b : Digest} (h : a.bytes.head? ≠ b.bytes.head?) : a ≠ b :=
    fun hab => h (by rw [hab])
  have hnew (n : Node) (h : n.hash.bytes.head? ≠ some 0) : ({} : Graph).New n :=
    ⟨beq_eq_false_iff_ne.2 (hother h), rfl⟩
  have hvacant : Frame.Vacant {} ["j"] := by
    intro bs hread
    cases hread
  let d₀ : Disk := { entries := [((1, ["j"]), .file 0)], contents := [[]] }
  have h₀ : Run (some ["j"]) ⟨{}, some ⟨["j"], 0, true⟩⟩ d₀ [] :=
    .opened Disk.wellFormed_empty hvacant (by with_unfolding_all rfl)
  -- The first node.
  have hnew₁ : ({} : Graph).New first := hnew _ (by rw [hfirst]; decide)
  obtain ⟨d₁, h₁, hcalm₁⟩ := h₀.goesOn rfl rfl (by decide +kernel) ⟨rfl, rfl⟩ hnew₁
  -- The second one, of another key.
  have hnew₂ : (Graph.link {} first).New second :=
    (hnew _ (by rw [hsecond]; decide)).link (hother (by rw [hsecond, hfirst]; decide))
  obtain ⟨d₂, h₂, hcalm₂⟩ := h₁.goesOn rfl rfl (by decide +kernel) hcalm₁ hnew₂
  -- The third one, after the journal was opened again.
  have hopen : openAt ["j"] d₂ =
      (.ok ⟨(Graph.link {} first).link second, some ⟨["j"], 0, true⟩⟩, d₂) := by
    obtain ⟨_, _, _, hready, _⟩ := history_has_every_record h₂
    exact hready ⟨["j"], 0, true⟩ rfl rfl
  have hnew₃ : ((Graph.link {} first).link second).New third :=
    ((hnew _ (by rw [hthird]; decide)).link
      (hother (by rw [hthird, hfirst]; decide))).link
      (hother (by rw [hthird, hsecond]; decide))
  obtain ⟨d₃, h₃, _⟩ :=
    (h₂.reopen hopen).goesOn rfl rfl (by decide +kernel) hcalm₂ hnew₃
  obtain ⟨hkeys, _⟩ := history_has_every_record h₃
  exact ⟨_, d₃, h₃, (hkeys "k").1, (hkeys "q").1, (hkeys "k").2.2⟩

end Lineage

end Medium

end Chronicle
