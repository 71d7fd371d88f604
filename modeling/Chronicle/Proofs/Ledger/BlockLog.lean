import Chronicle.Ledger.BlockLog
import Chronicle.Proofs.Ledger.Leftover

/-!
# What a block log shows

To its users a log is the list of blocks that it shows: their number, and every range
of them. A log in memory and a log in a file differ only in what can go wrong.

* `Live`: the logs that come about by opening and appending.
* `Left`: which blocks a log counts, and what refused ones have left after them.
  `Holds`: nothing is left.
* `Left.shows`: what a log counts it shows.
* `Holds.append_ok`, `Left.append_error`: an accepted block comes after the others, a
  refused one leaves them.
-/

namespace Chronicle.Ledger.BlockLog

/-- The log has these blocks and no others, and every range of them can be read. -/
structure Shows (log : BlockLog) (d : Disk) (bs : List Block) : Prop where
  length : log.length = bs.length
  readRange : ∀ start stop, start ≤ stop →
    log.readRange start stop d = .ok ((bs.take stop).drop start)

theorem Shows.readRange_all {log : BlockLog} {d : Disk} {bs : List Block}
    (h : log.Shows d bs) :
    log.readRange 0 bs.length d = .ok bs := by
  rw [h.readRange 0 bs.length (Nat.zero_le _), List.take_length, List.drop_zero]

/-- If the log cannot take the block, it can take back what it wrote of it: a block
can be read only after it was accepted. -/
def RollsBack : BlockLog → Block → Disk → Prop
  | memory _, _, _ => True
  | file l, b, d => l.RollsBack b d

/-- What refused blocks have left after the blocks that the log counts. -/
def leftover : BlockLog → Disk → Bytes
  | memory _, _ => []
  | file l, d => l.leftover d

/-- A log that was opened on some disk, or that is in memory, and then appended to in
any way, while the mishaps ahead and the limit of the disk change. Refused blocks may
not have been taken back, but none was accepted after something that was left behind. -/
inductive Live : BlockLog → Disk → Prop where
  | memory (bs : List Block) (d : Disk) : Live (.memory bs) d
  | opened {p : Path} {mode : SyncMode} {before d : Disk} {l : FileLog}
      (hbefore : before.WellFormed)
      (hopen : FileLog.openAt p mode before = (.ok l, d)) : Live (.file l) d
  | accepted {log log' : BlockLog} {d d' : Disk} {b : Block} (hlog : Live log d)
      (hclean : log.leftover d = [])
      (happend : log.append b d = (.ok (), log', d')) : Live log' d'
  | refused {log log' : BlockLog} {d d' : Disk} {b : Block} {e : Error}
      (hlog : Live log d)
      (happend : log.append b d = (.error e, log', d')) : Live log' d'
  | turned {log : BlockLog} {d : Disk} (hlog : Live log d) (plan : List (Option Nat))
      (limit : Option Nat) :
      Live log { d with plan, limit }

/-- Appending to a log in a file is appending to the file. -/
theorem append_file {l : FileLog} {log' : BlockLog} {b : Block} {d d' : Disk}
    {r : Except Error Unit} (h : (file l).append b d = (r, log', d')) :
    ∃ l', log' = file l' ∧ l.append b d = (r, l', d') := by
  rw [append] at h
  cases ha : l.append b d with
  | mk a rest =>
    obtain ⟨l', d₁⟩ := rest
    rw [ha] at h
    cases h
    exact ⟨l', rfl, rfl⟩

/-! ## What a log holds -/

/-- A file begins with the lines that are counted. -/
def Whole : BlockLog → Disk → Prop
  | memory _, _ => True
  | file l, d => ∃ ls w, l.Left d ls w

/-- Where the blocks are that the log counts, in the list or one on each line of the
file, and what is left after them. -/
def Left : BlockLog → Disk → List Block → Bytes → Prop
  | memory blocks, _, bs, w => blocks = bs ∧ w = []
  | file l, d, bs, w => ∃ ls, l.Left d ls w ∧ ls.map FileLog.block? = bs.map some

/-- Where the blocks are: in the list, or one on each line of the file, in which is
nothing else. -/
def Holds : BlockLog → Disk → List Block → Prop
  | memory blocks, _, bs => blocks = bs
  | file l, d, bs => ∃ ls, l.Intact d ls ∧ ls.map FileLog.block? = bs.map some

theorem left_nil_iff {log : BlockLog} {d : Disk} {bs : List Block} :
    log.Left d bs [] ↔ log.Holds d bs := by
  cases log with
  | memory blocks => exact and_iff_left rfl
  | file l =>
    constructor
    · rintro ⟨ls, hls, hbs⟩
      exact ⟨ls, hls.intact, hbs⟩
    · rintro ⟨ls, hls, hbs⟩
      exact ⟨ls, hls.left, hbs⟩

theorem Left.leftover_eq {log : BlockLog} {d : Disk} {bs : List Block} {w : Bytes}
    (h : log.Left d bs w) : log.leftover d = w := by
  cases log with
  | memory blocks => exact h.2.symm
  | file l =>
    obtain ⟨ls, hls, _⟩ := h
    exact hls.leftover_eq

theorem Live.whole {log : BlockLog} {d : Disk} (h : log.Live d) : log.Whole d := by
  induction h with
  | memory bs d => trivial
  | opened hbefore hopen =>
    obtain ⟨ls, hls⟩ := FileLog.openAt_intact hbefore hopen
    exact ⟨ls, [], hls.left⟩
  | @accepted log log' d d' b hlog hclean happend ih =>
    cases log with
    | memory blocks =>
      rw [append] at happend
      split at happend <;> cases happend
      trivial
    | file l =>
      obtain ⟨ls, w, hls⟩ := ih
      obtain rfl : w = [] := hls.leftover_eq.symm.trans hclean
      obtain ⟨l', rfl, ha⟩ := append_file happend
      exact ⟨_, [], (hls.intact.append_ok ha).2.left⟩
  | @refused log log' d d' b e hlog happend ih =>
    cases log with
    | memory blocks =>
      rw [append] at happend
      split at happend <;> cases happend
      trivial
    | file l =>
      obtain ⟨ls, w, hls⟩ := ih
      obtain ⟨l', rfl, ha⟩ := append_file happend
      obtain ⟨rfl, w', hls', _⟩ := hls.append_error ha
      exact ⟨ls, w', hls'⟩
  | @turned log d hlog plan limit ih =>
    cases log with
    | memory blocks => trivial
    | file l =>
      obtain ⟨ls, w, hls⟩ := ih
      exact ⟨ls, w, hls.of_sameTree ⟨rfl, rfl⟩ hls.content⟩

/-- A log that can be read from one end to the other counts what is read. -/
theorem Whole.left {log : BlockLog} {d : Disk} {bs : List Block} (h : log.Whole d)
    (hread : log.readRange 0 log.length d = .ok bs) :
    log.Left d bs (log.leftover d) := by
  cases log with
  | memory blocks =>
    rw [readRange, length, if_neg (Nat.not_lt_zero _), List.take_length, List.drop_zero]
      at hread
    exact ⟨Except.ok.inj hread, rfl⟩
  | file l =>
    obtain ⟨ls, w, hls⟩ := h
    rw [readRange, length, hls.readRange (Nat.zero_le _), hls.count, List.take_length,
      List.drop_zero] at hread
    refine ⟨ls, ?_, FileLog.blocks_eq_ok_iff.1 hread⟩
    rw [leftover, hls.leftover_eq]
    exact hls

theorem Left.shows {log : BlockLog} {d : Disk} {bs : List Block} {w : Bytes}
    (h : log.Left d bs w) : log.Shows d bs := by
  cases log with
  | memory blocks =>
    obtain ⟨rfl, _⟩ := h
    refine ⟨rfl, ?_⟩
    intro start stop hle
    rw [BlockLog.readRange, if_neg (Nat.not_lt.2 hle)]
  | file l =>
    obtain ⟨ls, hls, hbs⟩ := h
    have hlen : ls.length = bs.length := by simpa using congrArg List.length hbs
    refine ⟨hls.count.trans hlen, fun start stop hle => ?_⟩
    rw [BlockLog.readRange, hls.readRange hle, FileLog.blocks_eq_ok_iff, List.map_drop,
      List.map_take, hbs, List.map_drop, List.map_take]

theorem Holds.shows {log : BlockLog} {d : Disk} {bs : List Block}
    (h : log.Holds d bs) : log.Shows d bs :=
  (left_nil_iff.2 h).shows

theorem Left.turned {log : BlockLog} {d : Disk} {bs : List Block} {w : Bytes}
    (h : log.Left d bs w) (plan : List (Option Nat)) (limit : Option Nat) :
    log.Left { d with plan, limit } bs w := by
  cases log with
  | memory blocks => exact h
  | file l =>
    obtain ⟨ls, hls, hbs⟩ := h
    exact ⟨ls, hls.of_sameTree ⟨rfl, rfl⟩ hls.content, hbs⟩

/-! ## Appending -/

/-- An accepted block has the next index and comes after the others. -/
theorem Holds.append_ok {log log' : BlockLog} {d d' : Disk} {bs : List Block}
    {b : Block} (h : log.Holds d bs) (ha : log.append b d = (.ok (), log', d')) :
    b.index.toNat = bs.length ∧ log'.Holds d' (bs ++ [b]) := by
  cases log with
  | memory blocks =>
    cases h
    rw [append] at ha
    split at ha
    · cases ha
    · next hindex =>
      cases ha
      exact ⟨Decidable.not_not.1 hindex, rfl⟩
  | file l =>
    obtain ⟨ls, hls, hbs⟩ := h
    obtain ⟨l', rfl, hl⟩ := append_file ha
    obtain ⟨hindex, hls'⟩ := hls.append_ok hl
    have hlen : ls.length = bs.length := by simpa using congrArg List.length hbs
    refine ⟨hindex.trans hlen, ls ++ [b.toLine], hls', ?_⟩
    rw [List.map_append, List.map_append, hbs, List.map_singleton,
      FileLog.block?_toLine, List.map_singleton]

/-- A refused block leaves the log as it was. After the others it leaves at most a
beginning of its line, if nothing was left there before, and nothing if it can be
taken back. -/
theorem Left.append_error {log log' : BlockLog} {d d' : Disk} {bs : List Block}
    {w : Bytes} {b : Block} {e : Error} (h : log.Left d bs w)
    (ha : log.append b d = (.error e, log', d')) :
    log' = log ∧ ∃ w', log.Left d' bs w' ∧
      (w = [] → w' <+: FileLog.line b ∧ (log.RollsBack b d → w' = [])) := by
  cases log with
  | memory blocks =>
    rw [append] at ha
    split at ha
    · cases ha
      refine ⟨rfl, w, h, ?_⟩
      rintro rfl
      exact ⟨List.nil_prefix, fun _ => rfl⟩
    · cases ha
  | file l =>
    obtain ⟨ls, hls, hbs⟩ := h
    obtain ⟨l', rfl, hl⟩ := append_file ha
    obtain ⟨rfl, w', hls', hother, hnext, hbegin⟩ := hls.append_error hl
    refine ⟨rfl, w', ⟨ls, hls', hbs⟩, fun hw => ⟨hbegin hw, fun hback => ?_⟩⟩
    by_cases hindex : b.index.toNat = ls.length
    · exact hnext hindex hback
    · exact (hother hindex).trans hw

theorem Holds.append_error {log log' : BlockLog} {d d' : Disk} {bs : List Block}
    {b : Block} {e : Error} (h : log.Holds d bs) (hback : log.RollsBack b d)
    (ha : log.append b d = (.error e, log', d')) :
    log' = log ∧ log.Holds d' bs := by
  obtain ⟨hlog, w, hleft, hnone⟩ := (left_nil_iff.2 h).append_error ha
  obtain rfl := (hnone rfl).2 hback
  exact ⟨hlog, left_nil_iff.1 hleft⟩

/-- If part of the line of a block was left behind, an accepted one cannot be read. -/
theorem Left.append_torn {log log' : BlockLog} {d d' : Disk} {bs : List Block}
    {w : Bytes} {b c : Block} (h : log.Left d bs w) (hne : w ≠ [])
    (hw : w <+: FileLog.line c) (hpart : w ≠ FileLog.line c)
    (ha : log.append b d = (.ok (), log', d')) :
    log'.length = bs.length + 1 ∧
      log'.readRange 0 (bs.length + 1) d' =
        .error (.corruptEntry bs.length .unreadable) := by
  cases log with
  | memory blocks => exact absurd h.2 hne
  | file l =>
    obtain ⟨ls, hls, hbs⟩ := h
    obtain ⟨l', rfl, hl⟩ := append_file ha
    have hlen : ls.length = bs.length := by simpa using congrArg List.length hbs
    have hw : w <+: c.toLine := (Json.prefix_concat_cases hw).resolve_left hpart
    refine ⟨by rw [length, (hls.append_ok hl).2.1, hlen], ?_⟩
    rw [readRange, hls.readRange_torn hw hl (Nat.zero_le _), List.drop_zero,
      List.take_of_length_le (by simp [hlen]),
      FileLog.blocks_of_bad hbs (FileLog.block?_torn hw hne), Nat.zero_add]

/-- If the whole line of a block was left behind, that block is read in the place of
an accepted one. -/
theorem Left.append_whole {log log' : BlockLog} {d d' : Disk} {bs : List Block}
    {b c : Block} (h : log.Left d bs (FileLog.line c))
    (ha : log.append b d = (.ok (), log', d')) : log'.Shows d' (bs ++ [c]) := by
  cases log with
  | memory blocks => exact absurd h.2 (by simp [FileLog.line])
  | file l =>
    obtain ⟨ls, hls, hbs⟩ := h
    obtain ⟨l', rfl, hl⟩ := append_file ha
    have hlen : ls.length = bs.length := by simpa using congrArg List.length hbs
    have hmore : (ls ++ [c.toLine]).map FileLog.block? = (bs ++ [c]).map some := by
      rw [List.map_append, List.map_append, hbs, List.map_singleton,
        FileLog.block?_toLine, List.map_singleton]
    refine ⟨by rw [length, (hls.append_ok hl).2.1, hlen, List.length_append,
      List.length_singleton], ?_⟩
    intro start stop hle
    rw [readRange, hls.readRange_whole hl hle, FileLog.blocks_eq_ok_iff, List.map_drop,
      List.map_take, hmore, List.map_drop, List.map_take]

/-- With no mishap ahead and no limit the next block is accepted. -/
theorem Left.append_calm {log : BlockLog} {d : Disk} {bs : List Block} {w : Bytes}
    {b : Block} (h : log.Left d bs w) (hindex : b.index.toNat = bs.length)
    (hplan : d.plan = []) (hlimit : d.limit = none) :
    (log.append b d).1 = .ok () := by
  have hlength : b.index.toNat = log.length := hindex.trans h.shows.length.symm
  cases log with
  | memory blocks =>
    rw [length] at hlength
    rw [append, if_neg (not_not_intro hlength)]
  | file l =>
    rw [length] at hlength
    have hwrite := l.write_calm (FileLog.line b) hplan hlimit
    show (l.append b d).1 = .ok ()
    rw [FileLog.append, if_neg (not_not_intro hlength)]
    cases hw : l.write (FileLog.line b) d with
    | mk r d' =>
      rw [hw] at hwrite
      cases hwrite
      rfl

theorem rollsBack_calm (log : BlockLog) (b : Block) {d : Disk} (hplan : d.plan = [])
    (hlimit : d.limit = none) : log.RollsBack b d := by
  cases log with
  | memory blocks => trivial
  | file l =>
    intro f d' hw
    have hwrite := l.write_calm (FileLog.line b) hplan hlimit
    rw [hw] at hwrite
    cases hwrite

end Chronicle.Ledger.BlockLog
