import Chronicle.Proofs.Binary.Cut
import Chronicle.Proofs.Disk.Reopen
import Chronicle.Proofs.Ledger.Detection

/-!
# Opening a log file that was cut

A log file is cut at any byte, and other bytes without a newline may stand after the
cut. Opening takes away what follows the last complete line, and what is left is a
shorter chain, which can be gone on with.

* `FileLog.openAt_torn`: what opening makes of complete lines and a torn one.
* `FileLog.Intact.openAt`: opening a file of complete lines changes nothing.
* `Run.lists`: what a run appends stands in the file line by line.
* `cut_log_reopens_with_its_whole_lines`: the ledger over a file that was cut.
-/

namespace Chronicle.Ledger

open Text

namespace FileLog

/-! ## Opening -/

/-- A torn line is taken away and the lines before it are counted, if nothing is in
the way. -/
theorem discardTornTail_spec {p : Path} {d d' : Disk} {id : Nat} {ls : List Bytes}
    {rest : Bytes} {r : Except Error (Nat × Nat)} (hid : id < d.contents.length)
    (hstat : d.stat p = .ok (.file id))
    (hcontent : d.content id = Lines.join ls ++ rest)
    (hls : ∀ x ∈ ls, Lines.newline ∉ x) (hrest : Lines.newline ∉ rest)
    (h : discardTornTail p d = (r, d')) :
    Disk.SameTree d d' ∧
      (∀ counts, r = .ok counts → counts = (ls.length, (Lines.join ls).length) ∧
        d'.content id = Lines.join ls) ∧
      (d.plan = [] → (Lines.join ls).length < Disk.sizeLimit →
        ∃ counts, r = .ok counts) := by
  rw [discardTornTail, Disk.read_of_stat hstat, hcontent] at h
  simp only [Lines.split_join_append ls rest hls hrest, List.length_append,
    Nat.add_sub_cancel] at h
  split at h
  · next hempty =>
    cases h
    rw [List.isEmpty_iff.1 hempty, List.append_nil] at hcontent
    refine ⟨⟨rfl, rfl⟩, fun counts hr => ?_, fun _ _ => ⟨_, rfl⟩⟩
    cases hr
    exact ⟨rfl, hcontent⟩
  · rw [Disk.openFile_eq_ok_iff.2 hstat] at h
    have hle : (Lines.join ls).length ≤ d.size id := by
      rw [← Disk.length_content, hcontent, List.length_append]
      exact Nat.le_add_right _ _
    have hcalm : d.plan = [] → (Lines.join ls).length < Disk.sizeLimit →
        (d.truncate id (Lines.join ls).length).1 = .ok () :=
      fun hplan hsize => Disk.truncate_calm hplan hle hsize
    simp only at h
    cases ht : d.truncate id (Lines.join ls).length with
    | mk a d₁ =>
      rw [ht] at h hcalm
      cases a with
      | error f =>
        cases h
        refine ⟨(Disk.truncate_error ht).1, fun _ hr => ?_, fun hplan hsize => ?_⟩
        · cases hr
        · cases hcalm hplan hsize
      | ok u =>
        obtain ⟨htree, hkept⟩ := Disk.truncate_ok hid hle ht
        rw [hcontent, List.take_left] at hkept
        simp only at h
        cases hs : d₁.sync with
        | mk c d₂ =>
          obtain ⟨htree', hsame⟩ := Disk.sync_spec hs
          have hkept' : d₂.content id = Lines.join ls := by
            rw [Disk.content, hsame, ← Disk.content, hkept]
          rw [hs] at h
          cases c with
          | error f =>
            cases h
            refine ⟨htree.trans htree', fun _ hr => ?_, fun hplan _ => ?_⟩
            · cases hr
            · rw [Disk.sync, Disk.draw, Disk.plan_truncate hplan ht] at hs
              cases hs
          | ok u =>
            cases h
            refine ⟨htree.trans htree', fun counts hr => ?_, fun _ _ => ⟨_, rfl⟩⟩
            cases hr
            exact ⟨rfl, hkept'⟩

/-- Opening leaves the complete lines of a file, whatever stands after them without a
newline. -/
theorem openAt_torn {p : Path} {mode : SyncMode} {d d' : Disk} {id : Nat}
    {ls : List Bytes} {rest : Bytes} {r : Except Error FileLog}
    (hid : id < d.contents.length) (hstat : d.stat p = .ok (.file id))
    (hcontent : d.content id = Lines.join ls ++ rest)
    (hls : ∀ x ∈ ls, Lines.newline ∉ x) (hrest : Lines.newline ∉ rest)
    (h : openAt p mode d = (r, d')) :
    (∀ l, r = .ok l → l.path = p ∧ l.Intact d' ls) ∧
      (d.plan = [] → (Lines.join ls).length < Disk.sizeLimit → ∃ l, r = .ok l) := by
  rw [openAt, (Disk.reopen_of_stat hstat).1] at h
  simp only at h
  cases hd : discardTornTail p d with
  | mk a d₁ =>
    obtain ⟨htree, hcounts, hcalm⟩ :=
      discardTornTail_spec hid hstat hcontent hls hrest hd
    rw [hd] at h
    cases a with
    | error e =>
      cases h
      refine ⟨fun _ hr => ?_, fun hplan hsize => ?_⟩
      · cases hr
      · obtain ⟨_, hr⟩ := hcalm hplan hsize
        cases hr
    | ok counts =>
      obtain ⟨rfl, hkept⟩ := hcounts _ rfl
      have hstat₁ : d₁.stat p = .ok (.file id) := (htree.stat p).trans hstat
      simp only [(Disk.reopen_of_stat hstat₁).2] at h
      cases h
      refine ⟨fun l hr => ?_, fun _ _ => ⟨_, rfl⟩⟩
      cases hr
      exact ⟨rfl, hstat₁, htree.length ▸ hid, hkept, hls, rfl, rfl⟩

/-- Opening a file of complete lines changes nothing, also if something is in the way
of changes. -/
theorem Intact.openAt {l : FileLog} {d : Disk} {ls : List Bytes} (h : l.Intact d ls)
    (mode : SyncMode) :
    FileLog.openAt l.path mode d = (.ok { l with mode }, d) := by
  obtain ⟨hmade, hopened⟩ := Disk.reopen_of_stat h.stat
  have hsplit := Lines.split_join_append ls [] h.ends List.not_mem_nil
  rw [List.append_nil] at hsplit
  have hdiscard : discardTornTail l.path d = (.ok (l.count, l.size), d) := by
    rw [discardTornTail, Disk.read_of_stat h.stat, h.content]
    simp only [hsplit, List.length_nil, Nat.sub_zero, h.count, h.size]
    rfl
  rw [FileLog.openAt, hmade]
  simp only [hdiscard, hopened]

end FileLog

/-! ## What a run writes -/

/-- The log is the file at the path, in which the blocks stand line by line. -/
def BlockLog.Lists (log : BlockLog) (p : Path) (d : Disk) (bs : List Block) : Prop :=
  ∃ f : FileLog, log = .file f ∧ f.path = p ∧ f.Intact d (bs.map Block.toLine)

/-- The blocks stand there line by line, and then what a refused one has left. -/
def BlockLog.ListsBefore (log : BlockLog) (p : Path) (d : Disk) (bs : List Block)
    (w : Bytes) : Prop :=
  ∃ f : FileLog, log = .file f ∧ f.path = p ∧ f.Left d (bs.map Block.toLine) w

theorem FileLog.map_block?_toLine (bs : List Block) :
    (bs.map Block.toLine).map block? = bs.map some := by
  rw [List.map_map]
  exact List.map_congr_left fun b _ => block?_toLine b

theorem FileLog.join_toLine (bs : List Block) :
    Lines.join (bs.map Block.toLine) = bs.flatMap line := by
  rw [Lines.join, List.flatMap_map]
  rfl

theorem FileLog.path_append {l l' : FileLog} {b : Block} {d d' : Disk}
    {r : Except Error Unit} (h : l.append b d = (r, l', d')) : l'.path = l.path := by
  rw [append] at h
  split at h
  · cases h
    rfl
  · split at h <;> cases h <;> rfl

namespace BlockLog.Lists

variable {log log' : BlockLog} {p : Path} {d d' : Disk} {bs : List Block} {b : Block}

theorem holds (h : log.Lists p d bs) : log.Holds d bs := by
  obtain ⟨f, rfl, _, hf⟩ := h
  exact ⟨_, hf, FileLog.map_block?_toLine bs⟩

theorem read (h : log.Lists p d bs) : d.read p = .ok (bs.flatMap FileLog.line) := by
  obtain ⟨f, _, rfl, hf⟩ := h
  rw [Disk.read_of_stat hf.stat, hf.content, FileLog.join_toLine]

theorem append_ok (h : log.Lists p d bs) (ha : log.append b d = (.ok (), log', d')) :
    log'.Lists p d' (bs ++ [b]) := by
  obtain ⟨f, rfl, rfl, hf⟩ := h
  obtain ⟨f', rfl, hl⟩ := append_file ha
  have hlines := (hf.append_ok hl).2
  rw [← List.map_singleton, ← List.map_append] at hlines
  exact ⟨f', rfl, FileLog.path_append hl, hlines⟩

theorem append_error {e : Error} (h : log.Lists p d bs) (hback : log.RollsBack b d)
    (ha : log.append b d = (.error e, log', d')) : log'.Lists p d' bs := by
  obtain ⟨f, rfl, rfl, hf⟩ := h
  obtain ⟨f', rfl, hl⟩ := append_file ha
  obtain ⟨rfl, hf'⟩ := hf.append_error hback hl
  exact ⟨f', rfl, rfl, hf'⟩

theorem listsBefore (h : log.Lists p d bs) : log.ListsBefore p d bs [] := by
  obtain ⟨f, hlog, hp, hf⟩ := h
  exact ⟨f, hlog, hp, hf.left⟩

end BlockLog.Lists

namespace BlockLog.ListsBefore

variable {log log' : BlockLog} {p : Path} {d d' : Disk} {bs : List Block}
    {b : Block} {w : Bytes}

theorem lists (h : log.ListsBefore p d bs []) : log.Lists p d bs := by
  obtain ⟨f, hlog, hp, hf⟩ := h
  exact ⟨f, hlog, hp, hf.intact⟩

theorem read (h : log.ListsBefore p d bs w) :
    d.read p = .ok (bs.flatMap FileLog.line ++ log.leftover d) := by
  obtain ⟨f, rfl, rfl, hf⟩ := h
  rw [hf.read, FileLog.join_toLine, BlockLog.leftover, hf.leftover_eq]

theorem left (h : log.ListsBefore p d bs w) : log.Left d bs w := by
  obtain ⟨f, rfl, _, hf⟩ := h
  exact ⟨_, hf, FileLog.map_block?_toLine bs⟩

theorem turned (h : log.ListsBefore p d bs w) (plan : List (Option Nat))
    (limit : Option Nat) :
    log.ListsBefore p { d with plan, limit } bs w := by
  obtain ⟨f, hlog, hp, hf⟩ := h
  exact ⟨f, hlog, hp, hf.of_sameTree ⟨rfl, rfl⟩ hf.content⟩

theorem append_error {e : Error} (h : log.ListsBefore p d bs w)
    (ha : log.append b d = (.error e, log', d')) :
    ∃ w', log'.ListsBefore p d' bs w' := by
  obtain ⟨f, rfl, rfl, hf⟩ := h
  obtain ⟨f', rfl, hl⟩ := append_file ha
  obtain ⟨rfl, w', hf', _⟩ := hf.append_error hl
  exact ⟨w', f', rfl, rfl, hf'⟩

end BlockLog.ListsBefore

/-- An attempt that is refused leaves the lines, one that is accepted adds the line
of its block. -/
theorem Follows.attempt_lists {l l' : Ledger} {d d' : Disk} {p : Path} {bs : List Block}
    {w : Bytes} {a : Attempt} {r : Except (Failure Error) Block} (h : l.Follows d bs w)
    (hlists : l.log.ListsBefore p d bs w) (hgoes : r ≠ .error .breakdown)
    (hmake : a.make l d = (r, l', d')) :
    (∀ e, r = .error (.error e) → ∃ w', l'.log.ListsBefore p d' bs w') ∧
      ∀ b, r = .ok b → w = [] → l'.log.Lists p d' (bs ++ [b]) := by
  have hturned := hlists.turned a.plan a.limit
  rcases append_cases (l := a.ledger l) h.sane hmake with ⟨_, rfl⟩ | ⟨b, hb, hcases⟩
  · exact absurd rfl hgoes
  · rcases hcases with ⟨_, rfl, rfl, rfl⟩ | ⟨_, e, log, happend, rfl, rfl⟩ |
      ⟨_, log, happend, rfl, rfl⟩
    · exact ⟨fun _ _ => ⟨w, hturned⟩, fun _ hr => by cases hr⟩
    · exact ⟨fun _ _ => hturned.append_error happend, fun _ hr => by cases hr⟩
    · refine ⟨fun _ hr => ?_, fun c hr hw => ?_⟩
      · cases hr
      · cases hr
        subst hw
        exact hturned.lists.append_ok happend

/-- After every run over a file the blocks of the ledger stand in it line by line. -/
theorem Run.lists {l l' : Ledger} {d d' : Disk} {p : Path} {bs : List Block} {w : Bytes}
    (hfollows : l.Follows d bs w) (hlists : l.log.ListsBefore p d bs w)
    (hrun : Run l d l' d') :
    ∃ added w', l'.Follows d' (bs ++ added) w' ∧
      l'.log.ListsBefore p d' (bs ++ added) w' := by
  induction hrun with
  | start => exact ⟨[], w, by rwa [List.append_nil], by rwa [List.append_nil]⟩
  | @attempt l' d' hrun a ha ih =>
    obtain ⟨added, w, hfollows, hlists⟩ := ih
    obtain ⟨hrefused, haccepted⟩ := hfollows.attempt_lists hlists ha.1 rfl
    rcases hfollows.attempt ha.1 rfl with ⟨e, w', hr, _, _, hsame, _⟩ |
      ⟨b, _, hr, _, _, _, hadded⟩
    · obtain ⟨w'', hlists'⟩ := hrefused e hr
      have hleft : w' = w'' :=
        hsame.left.leftover_eq.symm.trans hlists'.left.leftover_eq
      exact ⟨added, w', hsame, hleft ▸ hlists'⟩
    · obtain rfl : w = [] := hfollows.left.leftover_eq.symm.trans (ha.2 b hr)
      refine ⟨added ++ [b], [], ?_⟩
      rw [← List.append_assoc]
      exact ⟨(hadded rfl).2, (haccepted b hr rfl).listsBefore⟩

theorem FileLog.path_openAt {p : Path} {mode : SyncMode} {d d' : Disk} {l : FileLog}
    (h : openAt p mode d = (.ok l, d')) : l.path = p := by
  rw [FileLog.openAt] at h
  split at h
  · cases h
  · split at h
    · cases h
    · split at h <;> cases h
      rfl

theorem BlockLog.Shows.unique {log : BlockLog} {d : Disk} {bs cs : List Block}
    (h : log.Shows d bs) (h' : log.Shows d cs) : bs = cs := by
  have hlength : bs.length = cs.length := h.length.symm.trans h'.length
  have hread := h.readRange_all
  rw [hlength, h'.readRange_all] at hread
  exact (Except.ok.inj hread).symm

/-- What a run over an empty file has written are the lines of a sound chain. If
everything that was refused could be taken back, nothing else is there. -/
theorem Run.chain_of_empty {p : Path} {mode : SyncMode} {faults : Faults}
    {d₀ d d' : Disk} {log : FileLog} {l l' : Ledger} (hd₀ : d₀.WellFormed)
    (hlog : FileLog.openAt p mode d₀ = (.ok log, d)) (hempty : log.count = 0)
    (hexact : faults.extraLength = 0) (hopen : openOver (.file log) faults d = .ok l)
    (hrun : Run l d l' d') :
    ∃ bs w, l'.Follows d' bs w ∧ l'.log.ListsBefore p d' bs w ∧
      Chain.verify bs = .ok () ∧
      (CleanRun l d l' d' → w = []) := by
  have hlive : BlockLog.Live (.file log) d := .opened hd₀ hlog
  obtain ⟨bs, w, hfollows, hverify⟩ := Run.sound_of_empty hlive hempty hexact hopen hrun
  obtain ⟨hsame, before, hbefore⟩ := follows_of_openOver hlive hexact hopen
  have hnil : before = [] := by
    apply List.eq_nil_of_length_eq_zero
    rw [← hbefore.left.shows.length, hsame]
    exact hempty
  obtain ⟨ls, hls⟩ := FileLog.openAt_intact hd₀ hlog
  obtain rfl : ls = [] := List.eq_nil_of_length_eq_zero (hls.count.symm.trans hempty)
  have hlists : l.log.ListsBefore p d [] [] :=
    ⟨log, hsame, FileLog.path_openAt hlog, hls.left⟩
  have hclean : BlockLog.leftover (.file log) d = [] := hls.left.leftover_eq
  rw [hnil, hclean] at hbefore
  obtain ⟨added, w', _, hadded⟩ := Run.lists hbefore hlists hrun
  have heq : bs = [] ++ added := hfollows.left.shows.unique hadded.left.shows
  have hw : w' = w := hadded.left.leftover_eq.symm.trans hfollows.left.leftover_eq
  rw [← heq, hw] at hadded
  refine ⟨bs, w, hfollows, hadded, hverify, fun hrun => ?_⟩
  obtain ⟨_, _, hfollows'⟩ := hrun.follows hbefore
  exact hfollows.left.leftover_eq.symm.trans hfollows'.left.leftover_eq

/-! ## A file that was cut -/

/-- The lines that are whole within the first bytes of a file, and what stands after
them. -/
theorem FileLog.take_lines (n : Nat) (bs : List Block) :
    ∃ k rest, k ≤ bs.length ∧
      (∀ i, i < bs.length → (i < k ↔ ((bs.take (i + 1)).flatMap line).length ≤ n)) ∧
      (bs.flatMap line).take n = (bs.take k).flatMap line ++ rest ∧
      Lines.newline ∉ rest := by
  obtain ⟨rest, htake, hrest⟩ := Bytes.take_flatten n (bs.map line)
  have hlength : (bs.map line).length = bs.length := List.length_map _
  refine ⟨Bytes.wholeWithin n (bs.map line), rest, hlength ▸
    Bytes.wholeWithin_le _ _, ?_, ?_, ?_⟩
  · intro i hi
    rw [Bytes.lt_wholeWithin_iff (hlength ▸ hi), ← List.map_take, ← List.flatMap_def]
  · rw [List.flatMap_def, List.flatMap_def, List.map_take, htake]
  · -- The only newline of a line is its last byte, which a cut line lacks.
    rcases hrest with rfl | ⟨x, hx, ⟨more, hmore⟩, hless⟩
    · exact List.not_mem_nil
    · obtain ⟨b, _, rfl⟩ := List.mem_map.1 hx
      have hne : more ≠ [] := by
        rintro rfl
        rw [List.append_nil] at hmore
        rw [hmore] at hless
        exact Nat.lt_irrefl _ hless
      have hbegin := congrArg List.dropLast hmore
      rw [line, List.dropLast_concat, List.dropLast_append_of_ne_nil hne] at hbegin
      intro hmem
      exact b.newline_not_mem_toLine (hbegin ▸ List.mem_append_left _ hmem)

/-- A file that begins with the lines of a sound chain and goes on without a newline
is opened with that chain. -/
theorem follows_of_torn {p : Path} {e : Disk} {bs : List Block} {rest : Bytes}
    (mode : SyncMode) (he : e.WellFormed) (hplan : e.plan = [])
    (hread : e.read p = .ok (bs.flatMap FileLog.line ++ rest))
    (hrest : Lines.newline ∉ rest)
    (hfits : (bs.flatMap FileLog.line).length < Disk.sizeLimit) :
    ∃ log e' r, FileLog.openAt p mode e = (.ok log, e') ∧
      openOver (.file log) {} e' = .ok r ∧
      r.Follows e' bs [] ∧ r.log.Lists p e' bs ∧
      ∀ mode', FileLog.openAt p mode' e' = (.ok { log with mode := mode' }, e') := by
  obtain ⟨id, hstat, hcontent⟩ := Disk.stat_of_read hread
  rw [← FileLog.join_toLine] at hcontent hfits
  have hends : ∀ x ∈ bs.map Block.toLine, Lines.newline ∉ x := by
    intro x hx
    obtain ⟨b, _, rfl⟩ := List.mem_map.1 hx
    exact b.newline_not_mem_toLine
  cases hopen : FileLog.openAt p mode e with
  | mk a e' =>
    obtain ⟨hlog, hcalm⟩ :=
      FileLog.openAt_torn (he.lt_of_stat hstat) hstat hcontent hends hrest hopen
    obtain ⟨log, rfl⟩ := hcalm hplan hfits
    obtain ⟨rfl, hintact⟩ := hlog log rfl
    have hlists : BlockLog.Lists (.file log) log.path e' bs := ⟨log, rfl, rfl, hintact⟩
    have hfollows : Follows ⟨.file log, {}, Tail.ofBlocks bs, false⟩ e' bs [] :=
      ⟨hlists.listsBefore.left, rfl, rfl, rfl, rfl⟩
    exact ⟨log, e', _, rfl, hfollows.openOver rfl rfl, hfollows, hlists,
      fun mode' => hintact.openAt mode'⟩

theorem verify_take {bs : List Block} (h : Chain.verify bs = .ok ()) (k : Nat) :
    Chain.verify (bs.take k) = .ok () := by
  rw [← List.take_append_drop k bs, Chain.verify, Chain.verifyFrom_append] at h
  cases hv : Chain.verifyFrom 0 Digest.zero (bs.take k) with
  | error f =>
    rw [hv] at h
    cases h
  | ok u => exact hv

/-- Whatever is appended to the ledger from now on, its blocks make up a chain that
begins with these, and with nothing in the way a block is added. -/
def GoesOn (r : Ledger) (e : Disk) (bs : List Block) : Prop :=
  ∀ r' e', Run r e r' e' → ∃ added, r'.Agrees e' (bs ++ added) ∧
    Chain.firstDivergence (bs ++ added) = none ∧
    ∀ a : Attempt, a.Proper r' e' → a.Calm → (bs ++ added).length < UInt64.size →
      a.IsAccepted r' e' (bs ++ added)

theorem Follows.goesOn {r : Ledger} {e : Disk} {bs : List Block} {w : Bytes}
    (h : r.Follows e bs w) (hverify : Chain.verify bs = .ok ()) : r.GoesOn e bs := by
  intro r' e' hrun
  obtain ⟨added, _, hfollows, hsame⟩ := hrun.follows h
  refine ⟨added, hfollows.agrees, ?_,
    fun a ha hcalm hroom => hfollows.isAccepted_of_calm ha hcalm hroom⟩
  rw [Chain.firstDivergence_eq_none_iff, hsame, hverify]

/-- A run over an empty log file has written a chain, and nothing else if all that
was refused could be taken back. Its file is cut after any number `n` of bytes, and
bytes without a newline stand after the cut. The blocks whose lines end within the
first `n` bytes are what is left when the file is opened, and the ledger over it goes
on with them. -/
theorem cut_log_reopens_with_its_whole_lines {p : Path} {mode : SyncMode}
    {faults : Faults} {d₀ d d' : Disk} {log : FileLog} {l l' : Ledger}
    (hd₀ : d₀.WellFormed) (hlog : FileLog.openAt p mode d₀ = (.ok log, d))
    (hempty : log.count = 0) (hexact : faults.extraLength = 0)
    (hopen : openOver (.file log) faults d = .ok l) (hrun : Run l d l' d') :
    ∃ bs, l'.Agrees d' bs ∧ d'.read p =
      .ok (bs.flatMap FileLog.line ++ l'.log.leftover d') ∧
      (CleanRun l d l' d' → d'.read p = .ok (bs.flatMap FileLog.line)) ∧
      ∀ (n : Nat) (tail : Bytes) (e : Disk) (mode' : SyncMode), Lines.newline ∉ tail →
      e.WellFormed →
        e.plan = [] → e.read p = .ok ((bs.flatMap FileLog.line).take n ++ tail) →
        ((bs.flatMap FileLog.line).take n ++ tail).length < Disk.sizeLimit →
        ∃ k log' e' r, k ≤ bs.length ∧
          (∀ i, i < bs.length →
            (i < k ↔ ((bs.take (i + 1)).flatMap FileLog.line).length ≤ n)) ∧
          FileLog.openAt p mode' e = (.ok log', e') ∧
          e'.read p = .ok ((bs.take k).flatMap FileLog.line) ∧
          openOver (.file log') {} e' = .ok r ∧ r.Agrees e' (bs.take k) ∧
          Chain.firstDivergence (bs.take k) = none ∧ r.GoesOn e' (bs.take k) ∧
          ∀ mode'', FileLog.openAt p mode'' e' =
            (.ok { log' with mode := mode'' }, e') := by
  obtain ⟨bs, w, hfollows, hlists, hverify, hclean⟩ :=
    Run.chain_of_empty hd₀ hlog hempty hexact hopen hrun
  have hall : CleanRun l d l' d' → d'.read p = .ok (bs.flatMap FileLog.line) := by
    intro hrun
    obtain rfl : w = [] := hclean hrun
    exact hlists.lists.read
  refine ⟨bs, hfollows.agrees, hlists.read, hall, ?_⟩
  intro n tail e mode' htail he hplan hread hfits
  obtain ⟨k, rest, hk, hwhole, htake, hrest⟩ := FileLog.take_lines n bs
  rw [htake, List.append_assoc] at hread hfits
  have hcut : Lines.newline ∉ rest ++ tail := by
    intro hmem
    exact (List.mem_append.1 hmem).elim hrest htail
  have hshort : ((bs.take k).flatMap FileLog.line).length < Disk.sizeLimit := by
    rw [List.length_append] at hfits
    omega
  obtain ⟨log', e', r, hopened, hover, hfollows', hlists', hagain⟩ :=
    follows_of_torn mode' he hplan hread hcut hshort
  have hverify' := verify_take hverify k
  exact ⟨k, log', e', r, hk, hwhole, hopened, hlists'.read, hover, hfollows'.agrees,
    (Chain.firstDivergence_eq_none_iff _).2 hverify', hfollows'.goesOn hverify', hagain⟩

/-- One block is appended to a new file, and of its line five bytes and two others
are found later. -/
theorem cut_log_reopens_with_its_whole_lines_fiveBytes :
    ∃ (log : FileLog) (d d' : Disk) (l l' : Ledger),
      FileLog.openAt ["ledger"] .everyWrite {} = (.ok log, d) ∧
      openOver (.file log) {} d = .ok l ∧ Run l d l' d' ∧
      ∃ bs e, l'.Agrees d' bs ∧
      e.read ["ledger"] = .ok ((bs.flatMap FileLog.line).take 5 ++ [1, 2]) ∧
        ∃ k log' e' r, FileLog.openAt ["ledger"] .osDefault e = (.ok log', e') ∧
          openOver (.file log') {} e' = .ok r ∧ r.Agrees e' (bs.take k) ∧
          r.GoesOn e' (bs.take k) := by
  let file : FileLog := ⟨["ledger"], .everyWrite, 0, 0, 0⟩
  let d : Disk := { entries := [((1, ["ledger"]), .file 0)], contents := [[]] }
  have hlog : FileLog.openAt ["ledger"] .everyWrite {} = (.ok file, d) := rfl
  have hopen : openOver (.file file) {} d =
      .ok ⟨.file file, {}, Tail.empty, false⟩ := rfl
  have hrun := (Run.start (l := ⟨.file file, {}, Tail.empty, false⟩) (d := d)).attempt
    ⟨⟨5, 0⟩, Digest.zero, 1, false, [], none⟩
      (Attempt.proper_of_clean rfl (by decide) rfl)
  obtain ⟨bs, hagrees, _, _, hcut⟩ :=
    cut_log_reopens_with_its_whole_lines Disk.wellFormed_empty hlog rfl rfl hopen hrun
  let e : Disk :=
    { d with contents := [((bs.flatMap FileLog.line).take 5 ++ [1, 2]).reverse] }
  have hread : e.read ["ledger"] = .ok ((bs.flatMap FileLog.line).take 5 ++ [1, 2]) :=
    congrArg Except.ok (List.reverse_reverse _)
  have hwell : e.WellFormed := by
    intro x hx id hid
    rw [List.mem_singleton.1 hx] at hid
    cases hid
    exact Nat.zero_lt_one
  have hfits : ((bs.flatMap FileLog.line).take 5 ++ [1, 2]).length <
      Disk.sizeLimit := by
    have hseven : ((bs.flatMap FileLog.line).take 5 ++ [1, 2]).length ≤ 7 := by
      rw [List.length_append, List.length_take]
      exact Nat.add_le_add_right (Nat.min_le_left _ _) 2
    exact Nat.lt_of_le_of_lt hseven (by decide)
  obtain ⟨k, log', e', r, _, _, hopened, _, hover, hagain, _, hgoes, _⟩ :=
    hcut 5 [1, 2] e .osDefault (by decide) hwell rfl hread hfits
  exact ⟨file, d, _, _, _, hlog, hopen, hrun, bs, e, hagrees, hread, k, log', e', r,
    hopened, hover, hagain, hgoes⟩

end Chronicle.Ledger
