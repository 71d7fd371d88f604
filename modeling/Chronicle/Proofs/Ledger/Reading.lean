import Mathlib.Logic.Relation
import Chronicle.Proofs.Ledger.RollBack

/-!
# Reading a log piece by piece

Whoever reads the first blocks of a log file asks for the number of lines, opens the
file and gets its bytes piece by piece, until there are enough lines, a line is no
block, or the file ends. Each of these steps is made at a moment of its own. If log
and disk are the same at all of them, the answer is that of `BlockLog.readRange`.

* `Phase.Step`: the steps, each at the log and the disk of its moment.
* `blocks_of_seen`: what was seen of a file when reading ends has the same blocks as
  the file.
* `Phase.Right.answer_eq`: reading while nothing changes gives what `readRange`
  gives.
* `exists_answer`: whoever reads can come to an answer.
-/

namespace Chronicle.Ledger

open Text Relation

/-! ## Lines that were seen -/

/-- Reading a file of which these bytes were seen is at an end: all was seen, or
enough lines, or one that is no block. -/
def Ends (lines : Nat) (content seen : Bytes) : Prop :=
  content.length ≤ seen.length ∨ lines ≤ (Lines.split seen).1.length ∨
    ∃ x ∈ (Lines.split seen).1, FileLog.block? x = none

/-- A line that is no block decides, whatever comes after it. -/
theorem FileLog.blocks_append_of_bad {front : List Bytes}
    (hbad : ∃ x ∈ front, block? x = none) (n : Nat) (back back' : List Bytes) :
    blocks n (front ++ back) = blocks n (front ++ back') := by
  induction front generalizing n with
  | nil => simp at hbad
  | cons x front ih =>
    rw [List.cons_append, List.cons_append, blocks, blocks]
    cases hx : block? x with
    | none => rfl
    | some b =>
      have hrest : ∃ y ∈ front, block? y = none := by
        obtain ⟨y, hy, hnone⟩ := hbad
        rcases List.mem_cons.1 hy with rfl | hy
        · rw [hx] at hnone
          cases hnone
        · exact ⟨y, hy, hnone⟩
      simp only [ih hrest (n + 1)]

/-- The lines of a beginning of some bytes, as far as they are complete, are the
first lines of all the bytes. -/
theorem all_of_seen {seen content : Bytes} (h : seen <+: content) :
    ∃ rest rest', Lines.all seen = (Lines.split seen).1 ++ rest ∧
      Lines.all content = (Lines.split seen).1 ++ rest' := by
  obtain ⟨more, rfl⟩ := h
  have hjoin := Lines.join_split seen
  have hlines : ∀ x ∈ (Lines.split seen).1, Lines.newline ∉ x :=
    (Lines.newline_not_mem_splitFrom seen [] List.not_mem_nil).1
  refine ⟨Lines.all (Lines.split seen).2,
    Lines.all ((Lines.split seen).2 ++ more), ?_, ?_⟩
  · rw [← FileLog.all_join_append hlines, hjoin]
  · rw [← FileLog.all_join_append hlines, ← List.append_assoc, hjoin]

/-- When reading ends, what was seen of a file has the blocks that the file has. -/
theorem blocks_of_seen {lines : Nat} {seen content : Bytes} (h : seen <+: content)
    (hends : Ends lines content seen) :
    FileLog.blocks 0 ((Lines.all seen).take lines) =
      FileLog.blocks 0 ((Lines.all content).take lines) := by
  obtain ⟨rest, rest', hseen, hcontent⟩ := all_of_seen h
  -- The line that is going on may look different in the file, but it counts only if
  -- the complete ones are too few.
  by_cases henough : lines ≤ (Lines.split seen).1.length
  · rw [hseen, hcontent, List.take_append_of_le_length henough,
      List.take_append_of_le_length henough]
  · rcases hends with hall | hlines | hbad
    · rw [h.eq_of_length_le hall]
    · exact absurd hlines henough
    · have htake : (Lines.split seen).1.take lines = (Lines.split seen).1 :=
        List.take_of_length_le (Nat.le_of_not_le henough)
      rw [hseen, hcontent, List.take_append, List.take_append, htake]
      exact FileLog.blocks_append_of_bad hbad 0 _ _

/-! ## The steps of a reader -/

/-- How far somebody has come who reads the first blocks of a log. -/
inductive Phase where
  /-- Nothing is done. -/
  | begun
  /-- So many lines of the file are to be read. -/
  | sized (lines : Nat)
  /-- The file is open, and these bytes of it were seen. -/
  | reading (lines file : Nat) (seen : Bytes)
  /-- The blocks are there, or an error. -/
  | answered (r : Except Error (List Block))

namespace Phase

/-- One step of reading the first `n` blocks, at a moment when log and disk are as
given. -/
inductive Step (n : Nat) (log : BlockLog) (d : Disk) : Phase → Phase → Prop where
  /-- Blocks in memory are read at once. -/
  | memory {blocks : List Block} (hlog : log = .memory blocks) :
      Step n log d begun (answered (log.readRange 0 n d))
  /-- No more lines are read than the log counts. -/
  | size {f : FileLog} (hlog : log = .file f) :
      Step n log d begun (sized (min n f.count))
  | nothing : Step n log d (sized 0) (answered (.ok []))
  | missing {f : FileLog} {lines : Nat} {e : Disk.Fault} (hlog : log = .file f)
      (hlines : 0 < lines) (hopen : d.openFile f.path = .error e) :
      Step n log d (sized lines) (answered (.error .disk))
  | opened {f : FileLog} {lines id : Nat} (hlog : log = .file f) (hlines : 0 < lines)
      (hopen : d.openFile f.path = .ok id) :
      Step n log d (sized lines) (reading lines id [])
  /-- The next bytes, as many as there are up to some number. -/
  | more {lines id : Nat} {seen : Bytes} (count : Nat) :
      Step n log d (reading lines id seen)
      (reading lines id (seen ++ ((d.content id).drop seen.length).take count))
  | finished {lines id : Nat} {seen : Bytes} (hends : Ends lines (d.content id) seen) :
      Step n log d (reading lines id seen)
        (answered (FileLog.blocks 0 ((Lines.all seen).take lines)))

/-- The reader has got nothing but what is there now. -/
inductive Right (n : Nat) (log : BlockLog) (d : Disk) : Phase → Prop where
  | begun : Right n log d begun
  | sized {f : FileLog} (hlog : log = .file f) : Right n log d (sized (min n f.count))
  | reading {f : FileLog} {id : Nat} {seen : Bytes} (hlog : log = .file f)
      (hlines : 0 < min n f.count) (hopen : d.openFile f.path = .ok id)
      (hseen : seen <+: d.content id) :
      Right n log d (reading (min n f.count) id seen)
  | answered : Right n log d (answered (log.readRange 0 n d))

end Phase

/-- Some bytes of a file and the next ones are a beginning of the file. -/
theorem seen_more {seen content : Bytes} (h : seen <+: content) (count : Nat) :
    seen ++ (content.drop seen.length).take count <+: content := by
  obtain ⟨more, rfl⟩ := h
  rw [List.drop_left, List.prefix_append_right_inj]
  exact List.take_prefix count more

/-! ## Reading at one moment -/

theorem FileLog.readRange_of_openFile {f : FileLog} {n id : Nat} {d : Disk}
    (hlines : 0 < min n f.count) (hopen : d.openFile f.path = .ok id) :
    f.readRange 0 n d = blocks 0 ((Lines.all (d.content id)).take (min n f.count)) := by
  have hread := Disk.read_of_stat (Disk.openFile_eq_ok_iff.1 hopen)
  rw [FileLog.readRange, if_neg (Nat.not_lt_zero n)]
  simp only [if_neg (Nat.not_le.2 hlines), hread, List.drop_zero, Nat.sub_zero]

theorem FileLog.readRange_of_missing {f : FileLog} {n : Nat} {d : Disk} {e : Disk.Fault}
    (hlines : 0 < min n f.count) (hopen : d.openFile f.path = .error e) :
    f.readRange 0 n d = .error .disk := by
  have hread : ∃ e', d.read f.path = .error e' := by
    rw [Disk.openFile] at hopen
    rw [Disk.read]
    split at hopen <;> simp_all
  obtain ⟨e', hread⟩ := hread
  rw [FileLog.readRange, if_neg (Nat.not_lt_zero n)]
  simp only [if_neg (Nat.not_le.2 hlines), hread]

theorem FileLog.readRange_of_none {f : FileLog} {n : Nat} (hlines : min n f.count = 0)
    (d : Disk) :
    f.readRange 0 n d = .ok [] := by
  rw [FileLog.readRange, if_neg (Nat.not_lt_zero n)]
  simp only [hlines, Nat.le_refl, if_true]

variable {n : Nat} {log : BlockLog} {d : Disk} {p q : Phase}
    {r : Except Error (List Block)}

theorem Phase.Right.step (h : Right n log d p) (hstep : Step n log d p q) :
    Right n log d q := by
  cases h with
  | begun =>
    cases hstep with
    | memory _ => exact .answered
    | size hlog => exact .sized hlog
  | @sized f hlog =>
    subst hlog
    generalize hk : min n f.count = k at hstep
    cases hstep with
    | nothing =>
      have hanswer : (BlockLog.file f).readRange 0 n d = .ok [] :=
        FileLog.readRange_of_none hk d
      exact hanswer ▸ .answered
    | missing hlog hlines hopen =>
      cases hlog
      have hanswer : (BlockLog.file f).readRange 0 n d = .error .disk :=
        FileLog.readRange_of_missing (hk ▸ hlines) hopen
      exact hanswer ▸ .answered
    | opened hlog hlines hopen =>
      cases hlog
      rw [← hk] at hlines ⊢
      exact .reading rfl hlines hopen List.nil_prefix
  | @reading f id seen hlog hlines hopen hseen =>
    subst hlog
    cases hstep with
    | more count => exact .reading rfl hlines hopen (seen_more hseen count)
    | finished hends =>
      have hanswer : (BlockLog.file f).readRange 0 n d =
          FileLog.blocks 0 ((Lines.all seen).take (min n f.count)) := by
        rw [blocks_of_seen hseen hends]
        exact FileLog.readRange_of_openFile hlines hopen
      exact hanswer ▸ .answered
  | answered => cases hstep

theorem Phase.Right.run (h : Right n log d p) (hrun : ReflTransGen (Step n log d) p q) :
    Right n log d q := by
  induction hrun with
  | refl => exact h
  | tail _ hstep ih => exact ih.step hstep

/-- While nothing changes there is one answer. -/
theorem Phase.Right.answer_eq (h : Right n log d p)
    (hrun : ReflTransGen (Step n log d) p (.answered r)) : r = log.readRange 0 n d := by
  have hright := h.run hrun
  cases hright
  rfl

/-! ## There is an answer -/

/-- Whoever has opened the file can see the rest of it. -/
theorem answers_of_reading (n : Nat) (log : BlockLog) (d : Disk) (lines id : Nat)
    (seen : Bytes) :
    ∃ r, ReflTransGen (Phase.Step n log d) (.reading lines id seen) (.answered r) := by
  refine ⟨_, (ReflTransGen.single (.more (d.content id).length)).tail
    (.finished (.inl ?_))⟩
  rw [List.length_append, List.length_take, List.length_drop]
  omega

theorem answers_of_sized (n : Nat) (f : FileLog) (d : Disk) (lines : Nat) :
    ∃ r, ReflTransGen (Phase.Step n (.file f) d) (.sized lines) (.answered r) := by
  rcases Nat.eq_zero_or_pos lines with rfl | hlines
  · exact ⟨_, .single .nothing⟩
  · cases hopen : d.openFile f.path with
    | error e => exact ⟨_, .single (.missing rfl hlines hopen)⟩
    | ok id =>
      obtain ⟨r, hr⟩ := answers_of_reading n (.file f) d lines id []
      exact ⟨r, hr.head (.opened rfl hlines hopen)⟩

theorem answers_of_begun (n : Nat) (log : BlockLog) (d : Disk) :
    ∃ r, ReflTransGen (Phase.Step n log d) .begun (.answered r) := by
  cases log with
  | memory blocks => exact ⟨_, .single (.memory rfl)⟩
  | file f =>
    obtain ⟨r, hr⟩ := answers_of_sized n f d (min n f.count)
    exact ⟨r, hr.head (.size rfl)⟩

/-- Whoever reads can come to an answer, if it counts no lines where there is no
file. -/
theorem exists_answer (n : Nat) (d : Disk)
    (h : ∀ lines, p = .sized lines → ∃ f, log = .file f) :
    ∃ r, ReflTransGen (Phase.Step n log d) p (.answered r) := by
  cases p with
  | begun => exact answers_of_begun n log d
  | sized lines =>
    obtain ⟨f, rfl⟩ := h lines rfl
    exact answers_of_sized n f d lines
  | reading lines id seen => exact answers_of_reading n log d lines id seen
  | answered r => exact ⟨r, .refl⟩

end Chronicle.Ledger
