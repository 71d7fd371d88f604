import Chronicle.Compressed
import Chronicle.Medium.Basic
import Chronicle.Proofs.Medium.Archive
import Chronicle.Proofs.Medium.Lineage
import Chronicle.Proofs.Medium.Structured
import Chronicle.Proofs.Table.File

/-!
# Media that only append

Archives, lineages and tables never change what they have written, and still they
serve the latest record of each key, as the plainest medium in memory does that
forgets all others.

* `Run`: what may happen to such a medium: records are written, the medium is opened
  again, and everything around it changes.
* `Keeps.write`, `Keeps.reopen`, `Keeps.turn`: nothing of that loses or invents a
  record.
* `append_only_media_read_as_memory`: after every run, the medium reads what the
  medium in memory reads.
-/

namespace Chronicle.Medium

/-- The media that only append, and where they keep their records. -/
inductive AppendOnly where
  | archive (p : Path)
  /-- With a journal or without. -/
  | lineage (journal : Option Path)
  /-- In a file or in memory. -/
  | table (file : Option Path)

namespace AppendOnly

def file? : AppendOnly → Option Path
  | archive p => some p
  | lineage journal => journal
  | table file => file

/-- There is nothing yet where the medium keeps its records. -/
def Unused : AppendOnly → Disk → Prop
  | archive p, d | lineage (some p), d => d.WellFormed ∧ Frame.Vacant d p
  | table (some p), d => d.Sound ∧ Table.Vacant p d
  | lineage none, _ | table none, _ => True

/-- Whatever has happened to the disk, it did not happen where the medium keeps its
records. -/
def Undisturbed : AppendOnly → Disk → Disk → Prop
  | archive p, d, d' | lineage (some p), d, d' =>
    d'.WellFormed ∧ d'.stat p = d.stat p ∧ d'.read p = d.read p
  | table (some p), d, d' => Table.Spares p d d'
  | lineage none, _, _ | table none, _, _ => True

theorem map_eq_ok {α β : Type} {r : Except Error α × Disk} {f : α → β} {b : β}
    {d' : Disk} (h : (r.1.map f, r.2) = (.ok b, d')) :
    ∃ a, r = (.ok a, d') ∧ b = f a := by
  obtain ⟨r, d⟩ := r
  cases r with
  | error e => cases h
  | ok a =>
    cases h
    exact ⟨a, rfl, rfl⟩

end AppendOnly

section

variable [Compression] [Table.Engine]

def AppendOnly.openOn : AppendOnly → Disk → Except Error Medium × Disk
  | archive p, d => ((Archive.openAt p d).1.map .archive, (Archive.openAt p d).2)
  | lineage (some p), d => ((Lineage.openAt p d).1.map .lineage, (Lineage.openAt p d).2)
  | lineage none, d => (.ok (.lineage {}), d)
  | table (some p), d =>
    ((Structured.openAt p d).1.map .structured, (Structured.openAt p d).2)
  | table none, d => (.ok (.structured (.memory [])), d)

/-- The record can be written down: it has room in a frame, or its clock reading has
room in a column and the row has room in the table. -/
def Takes (m : Medium) (r : Record) (d : Disk) : Prop :=
  match m with
  | .archive _ => (Archive.payload r).length < Frame.payloadLimit
  | .lineage l =>
    l.journal.isSome = true → (l.graph.next r).toBinary.length < Frame.payloadLimit
  | .structured s => s.Takes r d
  | _ => True

/-- What is asked of the circumstances of a write. The lengths in a record can be
told. No new node has the hash of another one that is there. What a write leaves
behind in a file of frames when it fails is less than a frame or can be taken back. -/
def Safe (m : Medium) (r : Record) (d : Disk) : Prop :=
  match m with
  | .archive a => r.Sized ∧ d.Tears a.file (Frame.encode (Archive.payload r))
  | .lineage l => l.graph.Apart (l.graph.next r) ∧
      ∀ j, l.journal = some j → d.Tears j.file (Frame.encode (l.graph.next r).toBinary)
  | _ => True

/-- The medium has not given up on its file. -/
def Ready : Medium → Prop
  | .archive a => a.appendable = true
  | .lineage l => ∀ j, l.journal = some j → j.appendable = true
  | _ => True

namespace AppendOnly

/-- The ways in which a medium is opened. -/
inductive Opens : AppendOnly → Disk → Medium → Disk → Prop where
  | archive {p : Path} {a : Archive} {d d' : Disk}
      (h : Archive.openAt p d = (.ok a, d')) :
      Opens (.archive p) d (.archive a) d'
  | journal {p : Path} {l : Lineage} {d d' : Disk}
      (h : Lineage.openAt p d = (.ok l, d')) :
      Opens (.lineage (some p)) d (.lineage l) d'
  | lineage (d : Disk) : Opens (.lineage none) d (.lineage {}) d
  | file {p : Path} {s : Structured} {d d' : Disk}
      (h : Structured.openAt p d = (.ok s, d')) :
      Opens (.table (some p)) d (.structured s) d'
  | table (d : Disk) : Opens (.table none) d (.structured (.memory [])) d

theorem opens_of_openOn {x : AppendOnly} {m : Medium} {d d' : Disk}
    (hopen : x.openOn d = (.ok m, d')) : x.Opens d m d' := by
  rcases x with p | (_ | p) | (_ | p)
  · obtain ⟨a, ho, rfl⟩ := map_eq_ok hopen
    exact .archive ho
  · cases hopen
    exact .lineage _
  · obtain ⟨l, ho, rfl⟩ := map_eq_ok hopen
    exact .journal ho
  · cases hopen
    exact .table _
  · obtain ⟨s, ho, rfl⟩ := map_eq_ok hopen
    exact .file ho

/-- A medium takes records when it was just opened. -/
theorem Opens.ready {x : AppendOnly} {m : Medium} {d d' : Disk}
    (h : x.Opens d m d') : m.Ready := by
  cases h with
  | archive ho => exact Archive.appendable_of_openAt ho
  | journal ho => exact Lineage.appendable_of_openAt ho
  | lineage =>
    intro j hj
    cases hj
  | file => trivial
  | table => trivial

/-- What a medium comes to, with the records that it has acknowledged. It is opened
where there was nothing, records are written to it, it is dropped and opened again if
it has a file, and anything happens to the disk but to what belongs to the medium. -/
inductive Run (x : AppendOnly) : Medium → Disk → List Record → Prop where
  | start {m : Medium} {d₀ d : Disk} (hunused : x.Unused d₀)
      (hopen : x.openOn d₀ = (.ok m, d)) : Run x m d []
  | write {m m' : Medium} {d d' : Disk} {rs : List Record} {r : Record}
      {a : Answer Unit} (h : Run x m d rs) (hsafe : m.Safe r d)
      (hwrite : m.write r d = (a, m', d')) :
      Run x m' d' (if a = .done () then rs ++ [r] else rs)
  | reopen {m m' : Medium} {d d' : Disk} {rs : List Record} (h : Run x m d rs)
      (hfile : x.file?.isSome = true)
      (hopen : x.openOn d = (.ok m', d')) : Run x m' d' rs
  | turn {m : Medium} {d d' : Disk} {rs : List Record} (h : Run x m d rs)
      (hsame : x.Undisturbed d d') : Run x m d' rs

/-! ## What such a medium keeps -/

variable [Table.LawfulEngine]

/-- The medium is of this kind and keeps the records. -/
inductive Keeps : AppendOnly → Medium → Disk → List Record → Prop where
  | archive {a : Archive} {p : Path} {d : Disk} {rs : List Record} (hpath : a.path = p)
      (h : a.Keeps d rs) :
      Keeps (.archive p) (.archive a) d rs
  | lineage {l : Lineage} {journal : Option Path} {d : Disk} {rs : List Record}
      (hpath : l.journal.map (·.path) = journal) (h : l.Keeps d rs) :
      Keeps (.lineage journal) (.lineage l) d rs
  | table {s : Structured} {file : Option Path} {d : Disk} {rs : List Record}
      (h : s.Keeps file d rs) :
      Keeps (.table file) (.structured s) d rs

variable {x : AppendOnly} {m m' : Medium} {d d' : Disk} {rs : List Record}

theorem Keeps.read (h : x.Keeps m d rs) (key : String) :
    m.read key d = .done ((Memory.ofRecords rs).read key) := by
  cases h with
  | archive hpath h =>
    rw [Medium.read, h.read]
    rfl
  | lineage hpath h =>
    rw [Medium.read, h.read]
    rfl
  | table h =>
    rw [Medium.read, h.read]
    rfl

/-- On a disk with nothing in the way only the hashes of nodes can come into
conflict. -/
theorem Keeps.safe {r : Record} (h : x.Keeps m d rs) (hsized : r.Sized) (hcalm : d.Calm)
    (hapart : ∀ l, m = .lineage l → l.graph.Apart (l.graph.next r)) : m.Safe r d := by
  cases h with
  | archive hpath h => exact ⟨hsized, hcalm.tears _ _⟩
  | lineage hpath h => exact ⟨hapart _ rfl, fun j _ => hcalm.tears _ _⟩
  | table h => trivial

theorem Keeps.write {r : Record} {a : Answer Unit} (h : x.Keeps m d rs)
    (hsafe : m.Safe r d) (hwrite : m.write r d = (a, m', d')) :
    x.Keeps m' d' (if a = .done () then rs ++ [r] else rs) := by
  cases h with
  | @archive b p _ _ hpath h =>
    cases hw : b.write r d with
    | mk e rest =>
      obtain ⟨b', d₁⟩ := rest
      simp only [Medium.write, hw] at hwrite
      cases hwrite
      have hsame : b'.path = b.path := by
        rcases Archive.write_cases hw with ⟨_, _, _, rfl, _⟩ |
          ⟨_, _, ⟨_, _, rfl, _⟩ | ⟨_, _, _, rfl⟩ | ⟨_, _, _, _, _, _, _, rfl⟩⟩ <;> rfl
      cases e with
      | ok u => exact .archive (hsame.trans hpath) (h.write_ok hsafe.1 hw)
      | error e => exact .archive (hsame.trans hpath) (h.write_error hsafe.2 hw)
  | @lineage l journal _ _ hpath h =>
    obtain ⟨hapart, htears⟩ := hsafe
    cases hj : l.journal with
    | none =>
      obtain ⟨l', hw, hmemory, hkeeps⟩ := h.write_memory hj hapart
      simp only [Medium.write, hw] at hwrite
      cases hwrite
      refine .lineage ?_ hkeeps
      rw [hmemory, ← hpath, hj]
    | some j =>
      rw [hj] at hpath
      cases hw : l.write r d with
      | mk e rest =>
        obtain ⟨l', d₁⟩ := rest
        simp only [Medium.write, hw] at hwrite
        cases hwrite
        cases e with
        | ok u =>
          obtain ⟨hj', hkeeps⟩ := h.write_ok hj hapart hw
          exact .lineage (by rw [hj', hpath]) hkeeps
        | error e =>
          obtain ⟨⟨back, hj'⟩, hkeeps⟩ := h.write_error hj (htears j hj) hw
          exact .lineage (by rw [hj', ← hpath]; rfl) hkeeps
  | @table s file _ _ h =>
    cases hw : s.write r d with
    | mk e rest =>
      obtain ⟨s', d₁⟩ := rest
      simp only [Medium.write, hw] at hwrite
      cases hwrite
      cases e with
      | ok u => exact .table (h.write_ok hw)
      | error e => exact .table (h.write_error hw)

/-- What cannot be written down is refused, and what the medium keeps stays the same. -/
theorem Keeps.write_of_not_takes {r : Record} (h : x.Keeps m d rs)
    (htakes : ¬m.Takes r d) :
    ∃ e m' d', m.write r d = (.failed e, m', d') ∧ x.Keeps m' d' rs := by
  cases h with
  | archive hpath h =>
    refine ⟨.unwritable (.longPayload (Archive.payload r).length), _, d, ?_,
      .archive hpath h⟩
    rw [Medium.write, Archive.write_of_long htakes]
    rfl
  | @lineage l journal _ _ hpath h =>
    obtain ⟨hsome, hlong⟩ := Classical.not_imp.1 htakes
    obtain ⟨j, hj⟩ := Option.isSome_iff_exists.1 hsome
    refine ⟨.unwritable (.longPayload (l.graph.next r).toBinary.length), _, d, ?_,
      .lineage hpath h⟩
    rw [Medium.write, Lineage.write_of_long hj hlong]
    rfl
  | table h =>
    obtain ⟨e, s', d', hwrite⟩ := h.write_of_not_takes htakes
    refine ⟨e, .structured s', d', ?_, .table (h.write_error hwrite)⟩
    rw [Medium.write, hwrite]
    rfl

/-- What can be written down is taken if nothing is in the way, and nothing is then. -/
theorem Keeps.write_calm {r : Record} (h : x.Keeps m d rs) (htakes : m.Takes r d)
    (hready : m.Ready) (hcalm : d.Calm) :
    ∃ m' d', m.write r d = (.done (), m', d') ∧ m'.Ready ∧ d'.Calm := by
  cases h with
  | archive hpath h =>
    obtain ⟨a', d', hw, hready', hcalm'⟩ := Archive.write_calm htakes hready hcalm
    refine ⟨.archive a', d', ?_, hready', hcalm'⟩
    rw [Medium.write, hw]
    rfl
  | @lineage l journal _ _ hpath h =>
    cases hj : l.journal with
    | none =>
      refine ⟨.lineage { l with graph := l.graph.link (l.graph.next r) }, d, ?_,
        hready, hcalm⟩
      rw [Medium.write, Lineage.write, hj]
      rfl
    | some j =>
      obtain ⟨l', d', hw, hj', hcalm'⟩ :=
        Lineage.write_calm hj (htakes (by rw [hj]; rfl)) (hready j hj) hcalm
      refine ⟨.lineage l', d', ?_, ?_, hcalm'⟩
      · rw [Medium.write, hw]
        rfl
      · intro k hk
        rw [hj'] at hk
        cases hk
        exact hready j hj
  | table h =>
    obtain ⟨s', d', hw, hcalm'⟩ := h.write_calm htakes hcalm
    refine ⟨.structured s', d', ?_, trivial, hcalm'⟩
    rw [Medium.write, hw]
    rfl

/-! ## Opening and what happens meanwhile -/

theorem Opens.keeps_nil (h : x.Opens d m d') (hunused : x.Unused d) :
    x.Keeps m d' [] := by
  cases h with
  | archive ho =>
    obtain ⟨hpath, hkeeps⟩ := Archive.openAt_vacant hunused.1 hunused.2 ho
    exact .archive hpath hkeeps
  | journal ho =>
    obtain ⟨⟨file, hj⟩, hkeeps⟩ := Lineage.openAt_vacant hunused.1 hunused.2 ho
    exact .lineage (by rw [hj]; rfl) hkeeps
  | lineage => exact .lineage rfl (Lineage.keeps_empty _)
  | file ho => exact .table (Structured.openAt_vacant hunused.1 hunused.2 ho)
  | table => exact .table ⟨[], rfl, Table.serves_nil⟩

/-- Opening a medium again changes nothing. -/
theorem Keeps.reopen (h : x.Keeps m d rs) (hfile : x.file?.isSome = true)
    (hopens : x.Opens d m' d') : x.Keeps m' d' rs := by
  cases h with
  | archive hpath h =>
    subst hpath
    cases hopens with
    | archive ho =>
      obtain ⟨hpath, hkeeps⟩ := h.openAt ho
      exact .archive hpath hkeeps
  | @lineage l _ _ _ hpath h =>
    cases hopens with
    | journal ho =>
      obtain ⟨j, hj, rfl⟩ := Option.map_eq_some_iff.1 hpath
      obtain ⟨hj', hkeeps⟩ := h.openAt hj ho
      exact .lineage (by rw [hj']; rfl) hkeeps
    | lineage => cases hfile
  | table h =>
    cases hopens with
    | file ho => exact .table (h.openAt ho).1
    | table => cases hfile

/-- A medium can be opened again if nothing is in the way, and nothing is then. -/
theorem Keeps.openOn_calm {p : Path} (h : x.Keeps m d rs) (hfile : x.file? = some p)
    (hcalm : d.Calm) (hsize : ∀ bs, d.read p = .ok bs → bs.length < Disk.sizeLimit) :
    ∃ m' d', x.openOn d = (.ok m', d') ∧ d'.Calm := by
  cases h with
  | @archive a p' _ _ hpath h =>
    cases hfile
    subst hpath
    have hless := hsize _ (Disk.read_of_stat h.kept.stat)
    rw [Disk.length_content] at hless
    obtain ⟨b, d', ho, hcalm'⟩ := h.openAt_calm hcalm hless
    rw [openOn, ho]
    exact ⟨_, d', rfl, hcalm'⟩
  | @lineage l journal _ _ hpath h =>
    cases hj : l.journal with
    | none =>
      rw [hj] at hpath
      cases hpath
      cases hfile
    | some j =>
      rw [hj] at hpath
      cases hpath
      cases hfile
      obtain ⟨_, hkept, _⟩ := h.journaled j hj
      have hless := hsize _ (Disk.read_of_stat hkept.stat)
      rw [Disk.length_content] at hless
      obtain ⟨b, d', ho, hcalm'⟩ := h.openAt_calm hj hcalm hless
      simp only [Option.map_some, openOn, ho]
      exact ⟨_, d', rfl, hcalm'⟩
  | @table s file _ _ h =>
    cases hfile
    obtain ⟨b, d', ho⟩ := h.openAt_calm hcalm
    rw [openOn, ho]
    exact ⟨_, d', rfl, (h.openAt ho).2.calm hcalm⟩

theorem Keeps.turn (h : x.Keeps m d rs) (hsame : x.Undisturbed d d') :
    x.Keeps m d' rs := by
  cases h with
  | archive hpath h =>
    obtain ⟨hd, hstat, hread⟩ := hsame
    subst hpath
    exact .archive rfl (h.of_same hd hstat hread)
  | @lineage l journal _ _ hpath h =>
    cases hj : l.journal with
    | none =>
      refine .lineage hpath ⟨h.serves, fun j hj' => ?_⟩
      rw [hj] at hj'
      cases hj'
    | some j =>
      rw [hj] at hpath
      cases hpath
      obtain ⟨hd, hstat, hread⟩ := hsame
      refine .lineage (by rw [hj]) (h.of_same hd fun j' hj' => ?_)
      rw [hj] at hj'
      cases hj'
      exact ⟨hstat, hread⟩
  | @table s file _ _ h =>
    refine .table (h.turn ?_)
    rintro p rfl
    exact hsame

theorem Run.keeps (h : x.Run m d rs) : x.Keeps m d rs := by
  induction h with
  | start hunused hopen => exact (opens_of_openOn hopen).keeps_nil hunused
  | write _ hsafe hwrite ih => exact ih.write hsafe hwrite
  | reopen _ hfile hopen ih => exact ih.reopen hfile (opens_of_openOn hopen)
  | turn _ hsame ih => exact ih.turn hsame

/-! ## Reading -/

/-- The medium is as good as one in memory that has taken the same records. -/
structure RefinesMemory (x : AppendOnly) (m : Medium) (d : Disk)
    (rs : List Record) : Prop where
  /-- Every key reads what it would in memory. -/
  read : ∀ key, m.read key d = .done ((Memory.ofRecords rs).read key)
  /-- A record that cannot be written down is refused, and every key reads as before. -/
  refused : ∀ r, ¬m.Takes r d →
    ∃ e m' d', m.write r d = (.failed e, m', d') ∧ ∀ key, m'.read key d' = m.read key d
  /-- Any other one is taken if nothing is in the way of a medium that has not given
  up on its file. -/
  taken : ∀ r, m.Takes r d → m.Ready → d.Calm →
    ∃ m' d', m.write r d = (.done (), m', d') ∧ m'.Ready ∧ d'.Calm
  /-- Where nothing is in the way, nothing but two nodes with one hash makes it unsafe
  to write a record whose lengths can be told. -/
  safe : ∀ r, r.Sized → d.Calm →
    (∀ l, m = .lineage l → l.graph.Apart (l.graph.next r)) → m.Safe r d
  /-- Whatever a write is answered, it changes what its key reads if it is
  acknowledged, and nothing else. -/
  written : ∀ r a m' d', m.Safe r d → m.write r d = (a, m', d') → ∀ key,
    m'.read key d' = if a = .done () ∧ key = r.key then .done (some r) else m.read key d
  /-- A medium that was just opened has not given up on its file. -/
  ready : ∀ d₀ d₁ m₀, x.openOn d₀ = (.ok m₀, d₁) → m₀.Ready
  /-- The medium can be opened again if nothing is in the way, and reads the same
  then. -/
  reopened : ∀ p, x.file? = some p → d.Calm →
    (∀ bs, d.read p = .ok bs → bs.length < Disk.sizeLimit) →
    ∃ m' d', x.openOn d = (.ok m', d') ∧ d'.Calm ∧ ∀ key, m'.read key d' = m.read key d

/-- After every run the medium is as good as one in memory after the same
acknowledged records. -/
theorem append_only_media_read_as_memory (h : x.Run m d rs) :
    x.RefinesMemory m d rs where
  read := h.keeps.read
  refused r htakes := by
    obtain ⟨e, m', d', hwrite, hkeeps'⟩ := h.keeps.write_of_not_takes htakes
    refine ⟨e, m', d', hwrite, fun key => ?_⟩
    rw [hkeeps'.read key, h.keeps.read key]
  taken r htakes hready hcalm := h.keeps.write_calm htakes hready hcalm
  safe r hsized hcalm hapart := h.keeps.safe hsized hcalm hapart
  written r a m' d' hsafe hwrite key := by
    rw [(h.keeps.write hsafe hwrite).read key, h.keeps.read key]
    by_cases ha : a = .done ()
    · rw [if_pos ha, Memory.read_ofRecords_concat]
      by_cases hkey : key = r.key
      · rw [if_pos (beq_iff_eq.2 hkey), if_pos ⟨ha, hkey⟩]
      · rw [if_neg (fun hbeq => hkey (beq_iff_eq.1 hbeq)),
          if_neg (fun hand => hkey hand.2)]
    · rw [if_neg ha, if_neg (fun hand => ha hand.1)]
  ready d₀ d₁ m₀ hopen := (opens_of_openOn hopen).ready
  reopened p hfile hcalm hsize := by
    obtain ⟨m', d', hopen, hcalm'⟩ := h.keeps.openOn_calm hfile hcalm hsize
    have hkeeps' := h.keeps.reopen (by rw [hfile]; rfl) (opens_of_openOn hopen)
    refine ⟨m', d', hopen, hcalm', fun key => ?_⟩
    rw [hkeeps'.read key, h.keeps.read key]

end AppendOnly

end

namespace AppendOnly

/-- Two records of one key, of which the one that is written last is the older one. -/
def pairOfOneKey : Record × Record :=
  (⟨"note", "k", [1], Digest.zero, ⟨2, 0⟩⟩, ⟨"note", "k", [2], Digest.zero, ⟨1, 0⟩⟩)

theorem sized_pairOfOneKey : pairOfOneKey.1.Sized ∧ pairOfOneKey.2.Sized := by
  refine ⟨⟨?_, ?_, ?_⟩, ?_, ?_, ?_⟩ <;> decide +kernel

/-- An archive that takes two records of one key and is opened again in between. -/
theorem append_only_media_read_as_memory_archive :
    ∃ m d, (archive ["a"]).Run m d [pairOfOneKey.1, pairOfOneKey.2] ∧
      m.read "k" d = .done (some pairOfOneKey.2) := by
  let m₀ : Medium := .archive ⟨["a"], 0, 0, [], true⟩
  let d₀ : Disk := { entries := [((1, ["a"]), .file 0)], contents := [[]] }
  have hvacant : Frame.Vacant {} ["a"] := by
    intro bs hread
    cases hread
  have hopen : (archive ["a"]).openOn {} = (.ok m₀, d₀) := by with_unfolding_all rfl
  have h₀ : (archive ["a"]).Run m₀ d₀ [] :=
    .start ⟨Disk.wellFormed_empty, hvacant⟩ hopen
  have hapart (m : Medium) (r : Record) (hm : ∃ a, m = .archive a) :
      ∀ l, m = .lineage l → l.graph.Apart (l.graph.next r) := by
    rintro l rfl
    obtain ⟨a, ha⟩ := hm
    cases ha
  -- The first record is written, and the archive is opened again.
  have hfirst := append_only_media_read_as_memory h₀
  have htakes₀ : m₀.Takes pairOfOneKey.1 d₀ :=
    show (Archive.payload pairOfOneKey.1).length < Frame.payloadLimit by decide +kernel
  obtain ⟨m₁, d₁, hw₁, _, hcalm₁⟩ := hfirst.taken _ htakes₀ rfl ⟨rfl, rfl⟩
  have h₁ :=
    h₀.write (hfirst.safe _ sized_pairOfOneKey.1 ⟨rfl, rfl⟩ (hapart _ _ ⟨_, rfl⟩)) hw₁
  rw [if_pos rfl] at h₁
  have hsize : ∀ bs, d₁.read ["a"] = .ok bs → bs.length < Disk.sizeLimit := by
    have hshort : ((m₀.write pairOfOneKey.1 d₀).2.2.read ["a"]).toOption.elim 0
        List.length < Disk.sizeLimit := by
      decide +kernel
    intro bs hbs
    rw [hw₁, hbs] at hshort
    exact hshort
  have hsecond := append_only_media_read_as_memory h₁
  obtain ⟨m₂, d₂, hopen₂, hcalm₂, _⟩ := hsecond.reopened ["a"] rfl hcalm₁ hsize
  have h₂ := h₁.reopen rfl hopen₂
  -- The second record is written and read.
  have hthird := append_only_media_read_as_memory h₂
  obtain ⟨a, _, rfl⟩ := map_eq_ok hopen₂
  have htakes₂ : Takes (.archive a) pairOfOneKey.2 d₂ :=
    show (Archive.payload pairOfOneKey.2).length < Frame.payloadLimit by decide +kernel
  obtain ⟨m₃, d₃, hw₃, _⟩ := hthird.taken _ htakes₂ (hsecond.ready _ _ _ hopen₂) hcalm₂
  have h₃ :=
    h₂.write (hthird.safe _ sized_pairOfOneKey.2 hcalm₂ (hapart _ _ ⟨_, rfl⟩)) hw₃
  rw [if_pos rfl] at h₃
  exact ⟨m₃, d₃, h₃, (append_only_media_read_as_memory h₃).read "k"⟩

end AppendOnly

end Chronicle.Medium
