import Chronicle.Proofs.Ledger.Reading
import Chronicle.Proofs.Ledger.Stamps

/-!
# Verification alongside appends

Verification notes the length of the ledger and then reads so many blocks. Between
these two, and between the pieces in which a file is read, others append. They add to
the log and never change what it began with, even if an append fails and cannot be
taken back; and nothing after the blocks that were there at the beginning is looked
at.

* `BlockLog.Keeps.append`: an append, whatever becomes of it, keeps what the log
  began with.
* `Scene.Step`: calls to append, and the steps of the verifier at disks that somebody
  is writing to.
* `Scene.Sound.step`, `Scene.Sound.run`: the verifier never gets to see anything but
  the blocks of the beginning.
* `verification_alongside_appends_is_exact`: the verdict is the one on the ledger at
  the beginning, and blocks that are missing when they are read are reported.
-/

namespace Chronicle

open Text Relation

/-- What a file begins with stays if the file is cut, or made longer, to a size not
below that. -/
theorem Disk.truncate_keeps {d : Disk} {id size : Nat} {front : Bytes}
    (hid : id < d.contents.length) (hfront : front <+: d.content id)
    (hsize : front.length ≤ size) :
    SameTree d (d.truncate id size).2 ∧
      front <+: (d.truncate id size).2.content id := by
  rw [truncate, draw_eq]
  cases d.plan.head?.join with
  | some _ => exact ⟨⟨rfl, rfl⟩, hfront⟩
  | none =>
    simp only
    split
    · exact ⟨⟨rfl, rfl⟩, hfront⟩
    · refine ⟨⟨rfl, List.length_set⟩, ?_⟩
      rw [content_setContent (d := { d with plan := d.plan.tail }) hid]
      have hcut : front <+: (d.content id).take size :=
        List.prefix_take_iff.2 ⟨hfront, hsize⟩
      exact hcut.trans (List.prefix_append _ _)

namespace Ledger

/-! ## What a log began with -/

namespace FileLog

/-- The path of the log leads to the open file, which begins with these lines, and
the log counts them. -/
structure Begins (l : FileLog) (d : Disk) (ls : List Bytes) : Prop where
  stat : d.stat l.path = .ok (.file l.file)
  present : l.file < d.contents.length
  front : Lines.join ls <+: d.content l.file
  ends : ∀ x ∈ ls, Lines.newline ∉ x
  count : ls.length ≤ l.count
  size : (Lines.join ls).length ≤ l.size

variable {l l' : FileLog} {d d' : Disk} {ls : List Bytes} {b : Block}
    {r : Except Error Unit}

theorem Intact.begins (h : l.Intact d ls) : l.Begins d ls where
  stat := h.stat
  present := h.present
  front := h.content ▸ List.prefix_rfl
  ends := h.ends
  count := h.count.ge
  size := h.size.ge

theorem Begins.of_sameTree (h : l.Begins d ls) (htree : Disk.SameTree d d')
    (hfront : Lines.join ls <+: d'.content l.file) : l.Begins d' ls where
  stat := (htree.stat l.path).trans h.stat
  present := htree.length ▸ h.present
  front := hfront
  ends := h.ends
  count := h.count
  size := h.size

/-- An append keeps the lines of the beginning, also if it fails and cannot be taken
back. -/
theorem Begins.append (h : l.Begins d ls) (ha : l.append b d = (r, l', d')) :
    l'.Begins d' ls ∧ l'.file = l.file := by
  rw [FileLog.append] at ha
  split at ha
  · cases ha
    exact ⟨h, rfl⟩
  · cases hw : l.write (line b) d with
    | mk a d₁ =>
      obtain ⟨htree, written, hcontent, _, _⟩ := write_spec h.present hw
      have hfront : Lines.join ls <+: d₁.content l.file := by
        rw [hcontent]
        exact h.front.trans (List.prefix_append _ _)
      have hwritten := h.of_sameTree htree hfront
      rw [hw] at ha
      cases a with
      | ok u =>
        cases ha
        exact ⟨{ hwritten with
          count := hwritten.count.trans (Nat.le_succ _)
          size := hwritten.size.trans (Nat.le_add_right _ _) }, rfl⟩
      | error f =>
        -- What was written is cut off or stays; the cut is not before the lines that
        -- the log counts.
        cases ha
        obtain ⟨htree', hkept⟩ := Disk.truncate_keeps hwritten.present hfront h.size
        exact ⟨hwritten.of_sameTree htree' hkept, rfl⟩

/-- Bytes that begin with the lines of some blocks begin with these blocks. -/
theorem blocks_of_front {bs : List Block} {bytes : Bytes}
    (hends : ∀ x ∈ ls, Lines.newline ∉ x) (hblocks : ls.map block? = bs.map some)
    (hfront : Lines.join ls <+: bytes) :
    blocks 0 ((Lines.all bytes).take bs.length) = .ok bs := by
  obtain ⟨rest, rfl⟩ := hfront
  have hlength : ls.length = bs.length := by simpa using congrArg List.length hblocks
  rw [all_join_append hends, ← hlength, List.take_left]
  exact blocks_eq_ok_iff.2 hblocks

end FileLog

namespace BlockLog

/-- The number of the file in which the blocks are. -/
def file? : BlockLog → Option Nat
  | memory _ => none
  | file f => some f.file

theorem file?_eq_some {log : BlockLog} {id : Nat} (h : log.file? = some id) :
    ∃ f, log = file f ∧ f.file = id := by
  cases log with
  | memory blocks => cases h
  | file f => exact ⟨f, rfl, Option.some.inj h⟩

/-- The first blocks of the log are these, in a file on these lines. -/
def Keeps (bs : List Block) (ls : List Bytes) : BlockLog → Disk → Prop
  | memory blocks, _ => bs <+: blocks
  | file f, d => f.Begins d ls ∧ ls.map FileLog.block? = bs.map some

/-- The first blocks of the log are these. -/
def BeginsWith (log : BlockLog) (d : Disk) (bs : List Block) : Prop :=
  ∃ ls, log.Keeps bs ls d

variable {log log' : BlockLog} {d d' : Disk} {bs : List Block} {ls : List Bytes}
    {b : Block} {r : Except Error Unit}

theorem Holds.beginsWith (h : log.Holds d bs) : log.BeginsWith d bs := by
  cases log with
  | memory blocks => exact ⟨[], h ▸ List.prefix_rfl⟩
  | file f =>
    obtain ⟨ls, hls, hbs⟩ := h
    exact ⟨ls, hls.begins, hbs⟩

/-- An append, whatever becomes of it, keeps what the log began with, in the same
file. -/
theorem Keeps.append (h : log.Keeps bs ls d) (ha : log.append b d = (r, log', d')) :
    log'.Keeps bs ls d' ∧ log'.file? = log.file? := by
  cases log with
  | memory blocks =>
    rw [BlockLog.append] at ha
    split at ha
    · cases ha
      exact ⟨h, rfl⟩
    · cases ha
      exact ⟨List.IsPrefix.trans h (List.prefix_append _ _), rfl⟩
  | file f =>
    obtain ⟨f', rfl, hf⟩ := append_file ha
    obtain ⟨hbegins, hfile⟩ := h.1.append hf
    exact ⟨⟨hbegins, h.2⟩, congrArg some hfile⟩

theorem Keeps.turned (h : log.Keeps bs ls d) (plan : List (Option Nat))
    (limit : Option Nat) :
    log.Keeps bs ls { d with plan, limit } := by
  cases log with
  | memory blocks => exact h
  | file f => exact ⟨h.1.of_sameTree ⟨rfl, rfl⟩ h.1.front, h.2⟩

/-- The disks that a reader may see: the one between two appends, and those while a
block is being written. -/
inductive Visible (log : BlockLog) (d : Disk) : Disk → Prop where
  | settled : Visible log d d
  | growing {f : FileLog} (hlog : log = .file f) (b : Block) (count : Nat) :
      Visible log d (d.extend f.file ((FileLog.line b).take count))

theorem Keeps.visible (h : log.Keeps bs ls d) (hd : log.Visible d d') :
    log.Keeps bs ls d' := by
  cases hd with
  | settled => exact h
  | @growing f hlog b count =>
    subst hlog
    refine ⟨h.1.of_sameTree ⟨rfl, List.length_set⟩ ?_, h.2⟩
    rw [Disk.extend_eq_setContent, Disk.content_setContent h.1.present]
    exact h.1.front.trans (List.prefix_append _ _)

end BlockLog

/-- A call leaves log and files as they are, or appends one block to the log, with or
without success. -/
theorem Call.log_of_make {c : Call} {l l' : Ledger} {d d' : Disk}
    {r : Except (Failure Error) Block} (h : c.make l d = (r, l', d')) :
    (l'.log = l.log ∧ d' = c.attempt.disk d) ∨
      ∃ b a, l.log.append b (c.attempt.disk d) = (a, l'.log, d') := by
  cases Call.outcome h with
  | inconsistent _ => exact .inl ⟨rfl, rfl⟩
  | locked _ _ => exact .inl ⟨rfl, rfl⟩
  | exhausted _ _ _ => exact .inl ⟨rfl, rfl⟩
  | refused _ _ _ _ hlog =>
    rcases hlog with hsame | happend
    · exact .inl hsame
    · exact .inr ⟨_, _, happend⟩
  | accepted _ _ _ happend => exact .inr ⟨_, _, happend⟩

theorem BlockLog.Keeps.call {c : Call} {l l' : Ledger} {d d' : Disk} {bs : List Block}
    {ls : List Bytes} {r : Except (Failure Error) Block} (h : l.log.Keeps bs ls d)
    (hmake : c.make l d = (r, l', d')) :
    l'.log.Keeps bs ls d' ∧ l'.log.file? = l.log.file? := by
  have hturned := h.turned c.plan c.limit
  rcases Call.log_of_make hmake with ⟨hlog, rfl⟩ | ⟨b, a, happend⟩
  · rw [hlog]
    exact ⟨hturned, rfl⟩
  · exact hturned.append happend

/-! ## A verifier among callers -/

/-- A ledger and a disk, and how far the verifier has come. -/
structure Scene where
  ledger : Ledger
  disk : Disk
  phase : Phase

namespace Scene

/-- Somebody calls to append, or the verifier, who has noted the length `n`, makes a
step. -/
inductive Step (n : Nat) : Scene → Scene → Prop where
  | call {l l' : Ledger} {d d' : Disk} {p : Phase} {r : Except (Failure Error) Block}
      (c : Call) (hmake : c.make l d = (r, l', d')) : Step n ⟨l, d, p⟩ ⟨l', d', p⟩
  | look {l : Ledger} {d e : Disk} {p q : Phase} (hvisible : l.log.Visible d e)
      (hstep : Phase.Step n l.log e p q) :
      Step n ⟨l, d, p⟩ ⟨l, d, q⟩

/-- What the verifier has got so far, if the log began with these blocks on these
lines. -/
inductive Fits (bs : List Block) (ls : List Bytes) (file : Option Nat) :
    Phase → Prop where
  | begun : Fits bs ls file .begun
  | sized {id : Nat} (hfile : file = some id) : Fits bs ls file (.sized bs.length)
  /-- It has seen part of the lines, or the lines and something after them. -/
  | reading {id : Nat} {seen : Bytes} (hfile : file = some id)
      (hseen : seen <+: Lines.join ls ∨ Lines.join ls <+: seen) :
      Fits bs ls file (.reading bs.length id seen)
  | answered : Fits bs ls file (.answered (.ok bs))

/-- The log still begins with the blocks, and the verifier has got nothing else. -/
structure Sound (bs : List Block) (ls : List Bytes) (s : Scene) : Prop where
  keeps : s.ledger.log.Keeps bs ls s.disk
  fits : Fits bs ls s.ledger.log.file? s.phase

variable {bs : List Block} {ls : List Bytes} {log : BlockLog} {d : Disk} {p q : Phase}

theorem Fits.lines_eq {file : Option Nat} {lines : Nat}
    (h : Fits bs ls file (.sized lines)) : lines = bs.length := by
  cases h
  rfl

/-- More bytes of a file do not lead away from what it begins with. -/
theorem comparable_more {front content seen : Bytes} (hfront : front <+: content)
    (h : seen <+: front ∨ front <+: seen) (count : Nat) :
    seen ++ (content.drop seen.length).take count <+: front ∨
      front <+: seen ++ (content.drop seen.length).take count := by
  rcases h with hpart | hwhole
  · exact List.prefix_or_prefix_of_prefix (seen_more (hpart.trans hfront) count) hfront
  · exact .inr (hwhole.trans (List.prefix_append _ _))

/-- One step of the verifier at a disk on which the log begins with the blocks. -/
theorem Fits.step (h : Fits bs ls log.file? p) (hkeeps : log.Keeps bs ls d)
    (hstep : Phase.Step bs.length log d p q) : Fits bs ls log.file? q := by
  cases hstep with
  | @memory blocks hlog =>
    subst hlog
    have hanswer : (BlockLog.memory blocks).readRange 0 bs.length d = .ok bs := by
      rw [BlockLog.readRange, if_neg (Nat.not_lt_zero _), List.drop_zero,
        ← List.prefix_iff_eq_take.1 hkeeps]
    rw [hanswer]
    exact .answered
  | @size f hlog =>
    subst hlog
    -- The log counts the lines that it began with, so that all of them are asked for.
    have hlength : ls.length = bs.length := by simpa using congrArg List.length hkeeps.2
    rw [Nat.min_eq_left (hlength ▸ hkeeps.1.count)]
    exact .sized rfl
  | nothing =>
    have hnil : bs = [] := List.length_eq_zero_iff.1 h.lines_eq.symm
    exact hnil ▸ .answered
  | @missing f lines e hlog hlines hopen =>
    subst hlog
    rw [Disk.openFile_eq_ok_iff.2 hkeeps.1.stat] at hopen
    cases hopen
  | @opened f lines id hlog hlines hopen =>
    subst hlog
    rw [Disk.openFile_eq_ok_iff.2 hkeeps.1.stat] at hopen
    cases hopen
    cases h with
    | sized _ => exact .reading rfl (.inl List.nil_prefix)
  | @more lines id seen count =>
    cases h with
    | reading hfile hseen =>
      obtain ⟨f, rfl, rfl⟩ := BlockLog.file?_eq_some hfile
      exact .reading rfl (comparable_more hkeeps.1.front hseen count)
  | @finished lines id seen hends =>
    cases h with
    | reading hfile hseen =>
      obtain ⟨f, rfl, rfl⟩ := BlockLog.file?_eq_some hfile
      obtain ⟨hbegins, hblocks⟩ := hkeeps
      have hanswer : FileLog.blocks 0 ((Lines.all seen).take bs.length) = .ok bs := by
        rcases hseen with hpart | hwhole
        · -- Not more than the lines was seen, all of it still there: the file has the
          -- same blocks.
          rw [blocks_of_seen (hpart.trans hbegins.front) hends]
          exact FileLog.blocks_of_front hbegins.ends hblocks hbegins.front
        · exact FileLog.blocks_of_front hbegins.ends hblocks hwhole
      rw [hanswer]
      exact .answered

theorem Sound.step {s t : Scene} (h : s.Sound bs ls) (hstep : Step bs.length s t) :
    t.Sound bs ls := by
  cases hstep with
  | call c hmake =>
    obtain ⟨hkeeps, hfile⟩ := h.keeps.call hmake
    exact ⟨hkeeps, hfile ▸ h.fits⟩
  | look hvisible hstep => exact ⟨h.keeps, h.fits.step (h.keeps.visible hvisible) hstep⟩

theorem Sound.run {s t : Scene} (h : s.Sound bs ls)
    (hrun : ReflTransGen (Step bs.length) s t) : t.Sound bs ls := by
  induction hrun with
  | refl => exact h
  | tail _ hstep ih => exact ih.step hstep

theorem run_of_reader {l : Ledger} {n : Nat}
    (h : ReflTransGen (Phase.Step n l.log d) p q) :
    ReflTransGen (Step n) ⟨l, d, p⟩ ⟨l, d, q⟩ := by
  induction h with
  | refl => exact .refl
  | tail _ hstep ih => exact ih.tail (.look .settled hstep)

/-- The verifier can always come to an answer, with no need for anybody else to move. -/
theorem Sound.answers {s : Scene} (h : s.Sound bs ls) :
    ∃ r, ReflTransGen (Step bs.length) s ⟨s.ledger, s.disk, .answered r⟩ := by
  obtain ⟨l, d, p⟩ := s
  obtain ⟨r, hr⟩ : ∃ r, ReflTransGen (Phase.Step bs.length l.log d) p
    (.answered r) := by
    apply exists_answer
    rintro lines rfl
    cases h.fits with
    | sized hfile =>
      obtain ⟨f, hlog, _⟩ := BlockLog.file?_eq_some hfile
      exact ⟨f, hlog⟩
  exact ⟨r, run_of_reader hr⟩

end Scene

/-! ## Verdicts -/

/-- The verdict of a verifier who has noted a length, on what it could read. -/
def verdictOn (length : Nat) : Except Error (List Block) → Except Error Verdict
  | .error (.corruptEntry index _) => .ok ⟨some index, length⟩
  | .error e => .error e
  | .ok bs => .ok (judge length bs)

variable {log : BlockLog} {d : Disk} {n : Nat} {bs cs : List Block}

theorem verify_eq_verdictOn {l : Ledger} (hlength : l.length = .ok n)
    (hattached : l.faults.read = false) (d : Disk) :
    l.verify d = verdictOn n (l.log.readRange 0 n d) := by
  have htail : ∃ t, l.tail? = .ok t ∧ t.nextIndex = n := by
    rw [length] at hlength
    cases ht : l.tail? with
    | error e =>
      rw [ht] at hlength
      cases hlength
    | ok t =>
      rw [ht] at hlength
      exact ⟨t, rfl, Except.ok.inj hlength⟩
  obtain ⟨t, ht, rfl⟩ := htail
  rw [verify, ht]
  simp only [readLog_of_attached hattached]
  cases l.log.readRange 0 t.nextIndex d with
  | error e => cases e <;> rfl
  | ok cs => rfl

theorem judge_of_sound (h : Chain.verify bs = .ok ()) (n : Nat) :
    judge n bs = ⟨if bs.length < n then some bs.length else none, n⟩ := by
  rw [judge, (Chain.firstDivergence_eq_none_iff bs).2 h]

/-- What can be read of the log are these blocks. After them the log ends, or comes a
line that is no block. -/
def BlockLog.Retains : BlockLog → Disk → List Block → Prop
  | memory blocks, _, cs => blocks = cs
  | file f, d, cs => cs.length ≤ f.count ∧ ∃ id ls rest, d.openFile f.path = .ok id ∧
      Lines.all (d.content id) = ls ++ rest ∧ ls.map FileLog.block? = cs.map some ∧
      ∀ x ∈ rest.head?, FileLog.block? x = none

/-- Of a log that has lost blocks those that are left are read, or the first line
after them is reported. -/
theorem BlockLog.Retains.readRange (h : log.Retains d cs) (hn : cs.length < n) :
    log.readRange 0 n d = .ok cs ∨
      log.readRange 0 n d = .error (.corruptEntry cs.length .unreadable) := by
  cases log with
  | memory blocks =>
    cases h
    rw [BlockLog.readRange, if_neg (Nat.not_lt_zero _), List.drop_zero,
      List.take_of_length_le hn.le]
    exact .inl rfl
  | file f =>
    obtain ⟨hcount, id, ls, rest, hopen, hall, hblocks, hbad⟩ := h
    have hlength : ls.length = cs.length := by simpa using congrArg List.length hblocks
    have hasked : cs.length ≤ min n f.count := Nat.le_min.2 ⟨hn.le, hcount⟩
    rw [BlockLog.readRange]
    rcases Nat.eq_zero_or_pos (min n f.count) with hzero | hpos
    · -- The file is not even opened.
      have hnil : cs = [] := List.length_eq_zero_iff.1 (Nat.le_zero.1 (hzero ▸ hasked))
      rw [FileLog.readRange_of_none hzero, hnil]
      exact .inl rfl
    · rw [FileLog.readRange_of_openFile hpos hopen, hall, List.take_append,
        List.take_of_length_le (hlength ▸ hasked)]
      cases hrest : rest.take (min n f.count - ls.length) with
      | nil =>
        rw [List.append_nil]
        exact .inl (FileLog.blocks_eq_ok_iff.2 hblocks)
      | cons x more =>
        have hx : FileLog.block? x = none := by
          have hhead := congrArg List.head? hrest
          rw [List.head?_take] at hhead
          split at hhead
          · cases hhead
          · exact hbad x hhead
        rw [FileLog.blocks_of_bad hblocks hx, Nat.zero_add]
        exact .inr rfl

theorem BlockLog.Retains.verdict (h : log.Retains d cs)
    (hsound : Chain.verify cs = .ok ()) (hn : cs.length < n) :
    verdictOn n (log.readRange 0 n d) = .ok ⟨some cs.length, n⟩ := by
  rcases h.readRange hn with hread | hread
  · rw [hread, verdictOn, judge_of_sound hsound, if_pos hn]
  · rw [hread]
    rfl

theorem Phase.Right.answers {p : Phase} (h : p.Right n log d) :
    ∃ r, ReflTransGen (Phase.Step n log d) p (.answered r) := by
  apply exists_answer
  rintro lines rfl
  cases h with
  | sized hlog => exact ⟨_, hlog⟩

/-- A ledger of `n` blocks, a sound chain, is verified piece by piece. If nobody else
does anything the verdict is that of `verify`. If others call to append, before and
between the steps of the verifier, who may see any part of a block that is being
written: whatever becomes of their calls, the verifier can come to an answer, and its
verdict is that the `n` blocks are all right. But if the log has lost blocks, and of
what is left only `m` blocks can be read, then a verifier who has seen nothing that
is not there any more can come to an answer, and reports block `m`. -/
theorem verification_alongside_appends_is_exact {l : Ledger}
    (hbegins : l.log.BeginsWith d bs) (hlength : l.length = .ok bs.length)
    (hattached : l.faults.read = false) (hsound : Chain.verify bs = .ok ()) :
    (∀ r, ReflTransGen (Phase.Step bs.length l.log d) .begun (.answered r) →
        l.verify d = verdictOn bs.length r) ∧
    (∀ s, ReflTransGen (Scene.Step bs.length) ⟨l, d, .begun⟩ s →
      (∃ r, ReflTransGen (Scene.Step bs.length) s ⟨s.ledger, s.disk, .answered r⟩) ∧
      ∀ r, s.phase = .answered r → verdictOn bs.length r = .ok ⟨none, bs.length⟩) ∧
    ∀ (log : BlockLog) (e : Disk) (cs : List Block) (p : Phase), log.Retains e cs →
    Chain.verify cs = .ok () →
      cs.length < bs.length → p.Right bs.length log e →
      (∃ r, ReflTransGen (Phase.Step bs.length log e) p (.answered r)) ∧
      ∀ r, ReflTransGen (Phase.Step bs.length log e) p (.answered r) →
        verdictOn bs.length r = .ok ⟨some cs.length, bs.length⟩ := by
  obtain ⟨ls, hkeeps⟩ := hbegins
  refine ⟨?_, ?_, ?_⟩
  · intro r hrun
    rw [Phase.Right.begun.answer_eq hrun]
    exact verify_eq_verdictOn hlength hattached d
  · intro s hrun
    have hs : s.Sound bs ls := Scene.Sound.run ⟨hkeeps, .begun⟩ hrun
    refine ⟨hs.answers, ?_⟩
    intro r hr
    have hfits := hs.fits
    rw [hr] at hfits
    cases hfits
    rw [verdictOn, judge_of_sound hsound, if_neg (Nat.lt_irrefl _)]
  · intro log e cs p hretains hcs hlost hp
    refine ⟨hp.answers, ?_⟩
    intro r hrun
    rw [hp.answer_eq hrun]
    exact hretains.verdict hcs hlost

/-- A log file of one block is verified. Its first bytes are seen while three bytes
of a second block are there, which is then accepted. And if the file is emptied
before anything is seen, the first block is reported. -/
theorem verification_alongside_appends_is_exact_secondBlock :
    ∃ (l l' : Ledger) (d d' emptied : Disk) (b c : Block) (call : Call) (seen : Bytes),
      l.Follows d [b] [] ∧ call.make l d = (.ok c, l', d') ∧ l'.length = .ok 2 ∧
      ReflTransGen (Scene.Step 1) ⟨l, d, .begun⟩ ⟨l', d', .reading 1 0 seen⟩ ∧
      (∃ r, ReflTransGen (Scene.Step 1) ⟨l', d', .reading 1 0 seen⟩
        ⟨l', d', .answered r⟩ ∧
        verdictOn 1 r = .ok ⟨none, 1⟩) ∧
      ∃ r, ReflTransGen (Phase.Step 1 l.log emptied) .begun (.answered r) ∧
      verdictOn 1 r = .ok ⟨some 0, 1⟩ := by
  let b := Block.sealed 0 Digest.zero Digest.zero ⟨5, 0⟩ 1
  let f : FileLog := ⟨["ledger"], .osDefault, 0, 1, (FileLog.line b).length⟩
  let emptied : Disk := { entries := [((1, ["ledger"]), .file 0)], contents := [[]] }
  let holding (bytes : Bytes) : Disk := { emptied with contents := [bytes.reverse] }
  let d := holding (FileLog.line b)
  let l : Ledger := ⟨.file f, {}, Tail.ofBlocks [b], false⟩
  let call : Call := ⟨7, Digest.zero, true, 1, false, [], none⟩
  have hjoin : Lines.join [b.toLine] = FileLog.line b := by
    rw [Lines.join_cons, Lines.join_nil, FileLog.line]
  have hholding : ∀ bytes, (holding bytes).content 0 = bytes :=
    fun bytes => List.reverse_reverse bytes
  have hcontent : d.content 0 = Lines.join [b.toLine] := (hholding _).trans hjoin.symm
  have hsize : (FileLog.line b).length = (Lines.join [b.toLine]).length :=
    congrArg List.length hjoin.symm
  have hintact : f.Intact d [b.toLine] :=
    ⟨rfl, Nat.zero_lt_one, hcontent, by simp [b.newline_not_mem_toLine], rfl, hsize⟩
  have hholds : l.log.Holds d [b] := ⟨_, hintact, by simp [FileLog.block?_toLine]⟩
  have hfollows : l.Follows d [b] [] :=
    ⟨BlockLog.left_nil_iff.2 hholds, rfl, rfl, rfl, rfl⟩
  have hsound : Chain.verify [b] = .ok () :=
    (Chain.verifyFrom_eq_ok_iff _ _ _).2 ⟨fun _ => by decide, ⟨rfl, rfl, rfl⟩, trivial⟩
  obtain ⟨_, halongside, hlost⟩ :=
    verification_alongside_appends_is_exact (l := l) hholds.beginsWith rfl rfl hsound
  have hproper : call.attempt.Proper l d :=
    Attempt.proper_of_clean rfl (by decide) hfollows.left.leftover_eq
  cases hmake : call.attempt.make l d with
  | mk r rest =>
    obtain ⟨l', d'⟩ := rest
    have hgoes := hproper.1
    rw [hmake] at hgoes
    obtain ⟨c, rfl⟩ := hfollows.attempt_calm ⟨rfl, rfl, rfl⟩ (by decide) hgoes hmake
    have hconsistent : call.Consistent := rfl
    have hcall : call.make l d = (.ok c, l', d') :=
      (Call.make_of_consistent hconsistent l d).trans hmake
    have hlength : l'.length = .ok 2 := by
      rcases hfollows.attempt hgoes hmake with ⟨_, _, hr, _⟩ |
        ⟨c', _, _, _, _, _, hadded⟩
      · cases hr
      · have hfollows' := (hadded rfl).2
        rw [length, tail?, hfollows'.sane, hfollows'.tail]
        rfl
    have hsized : ReflTransGen (Scene.Step 1) ⟨l, d, .begun⟩ ⟨l, d, .sized 1⟩ :=
      .single (.look .settled (.size rfl))
    have hopened : ReflTransGen (Scene.Step 1) ⟨l, d, .begun⟩ ⟨l, d, .reading 1 0 []⟩ :=
      hsized.tail (.look .settled (.opened rfl Nat.zero_lt_one rfl))
    have hseen := hopened.tail (.look (.growing rfl c 3) (.more 300))
    have hrun := hseen.tail (.call call hcall)
    obtain ⟨⟨r, hanswer⟩, _⟩ := halongside _ hrun
    have hverdict := (halongside _ (hrun.trans hanswer)).2 r rfl
    obtain ⟨⟨r', hemptied⟩, hreport⟩ :=
      hlost l.log emptied [] .begun ⟨Nat.zero_le _, 0, [], [], rfl, rfl, rfl, by simp⟩
        rfl Nat.zero_lt_one .begun
    exact ⟨l, l', d, d', emptied, b, c, call, _, hfollows, hcall, hlength, hrun,
      ⟨r, hanswer, hverdict⟩, r', hemptied, hreport r' hemptied⟩

end Ledger

end Chronicle
