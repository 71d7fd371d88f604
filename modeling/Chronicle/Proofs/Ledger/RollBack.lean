import Chronicle.Proofs.Ledger.Recovery

/-!
# Appends that cannot be taken back

An append to a log file that fails takes back what it wrote. That may fail too, and
then the next block is written after what was left behind.

* `Run.left`: what any number of appends and openings make of a log file.
* `Run.serves`: which blocks are read of it.
* `accepted_blocks_are_kept_while_nothing_is_left`: accepted blocks, and only those,
  are read as long as nothing is left behind; and what is read instead if something
  is.
-/

namespace Chronicle

open Text

namespace Ledger.FileLog

variable {l l' : FileLog} {d d' : Disk} {ls : List Bytes} {w : Bytes} {b : Block}

theorem take_drop_concat (ls : List Bytes) (x : Bytes) :
    ((ls ++ [x]).take (ls.length + 1)).drop ls.length = [x] := by
  rw [List.take_of_length_le (by simp), List.drop_left]

/-! ## Runs -/

/-- Appends to the log file at a path, each with mishaps and a limit of its own, and
openings of it. There were lines in the file at first; then come the blocks that were
accepted, and at last what failed appends left behind. No block is accepted after
something that was left behind, and no newline is there when the file is opened
again. -/
inductive Run (p : Path) (ls : List Bytes) :
    FileLog → Disk → List Block → Bytes → Prop where
  | opened {l : FileLog} {before d : Disk} {mode : SyncMode}
      (hbefore : before.WellFormed) (hopen : openAt p mode before = (.ok l, d))
      (hls : l.Intact d ls) : Run p ls l d [] []
  | turned {l : FileLog} {d : Disk} {bs : List Block} {w : Bytes}
      (h : Run p ls l d bs w) (plan : List (Option Nat)) (limit : Option Nat) :
      Run p ls l { d with plan, limit } bs w
  | accepted {l l' : FileLog} {d d' : Disk} {bs : List Block} {b : Block}
      (h : Run p ls l d bs []) (happend : l.append b d = (.ok (), l', d')) :
      Run p ls l' d' (bs ++ [b]) []
  | refused {l l' : FileLog} {d d' : Disk} {bs : List Block} {b : Block} {e : Error}
      {w w' : Bytes} (h : Run p ls l d bs w)
      (happend : l.append b d = (.error e, l', d'))
      (hleft : d'.content l.file = Lines.join (ls ++ bs.map Block.toLine) ++ w') :
      Run p ls l' d' bs w'
  | reopened {l l' : FileLog} {d d' : Disk} {bs : List Block} {w : Bytes}
      {mode : SyncMode} (h : Run p ls l d bs w) (hw : Lines.newline ∉ w)
      (hopen : openAt p mode d = (.ok l', d')) :
      Run p ls l' d' bs []

/-- What a run makes of the log, its file and the indices of the accepted blocks. -/
theorem Run.left {p : Path} {bs : List Block} (h : Run p ls l d bs w) :
    l.path = p ∧ l.Left d (ls ++ bs.map Block.toLine) w ∧
      ∀ i b, bs[i]? = some b → b.index.toNat = ls.length + i := by
  induction h with
  | opened hbefore hopen hls =>
    refine ⟨path_openAt hopen, ?_, fun i b hb => ?_⟩
    · rw [List.map_nil, List.append_nil]
      exact hls.left
    · simp at hb
  | turned h plan limit ih =>
    obtain ⟨hp, hleft, hindex⟩ := ih
    exact ⟨hp, hleft.of_sameTree ⟨rfl, rfl⟩ hleft.content, hindex⟩
  | @accepted l l' d d' bs b h happend ih =>
    obtain ⟨hp, hleft, hindex⟩ := ih
    obtain ⟨hnext, hintact⟩ := hleft.intact.append_ok happend
    rw [List.length_append, List.length_map] at hnext
    rw [List.append_assoc, ← List.map_singleton, ← List.map_append] at hintact
    refine ⟨(path_append happend).trans hp, hintact.left, fun i c hc => ?_⟩
    rw [List.getElem?_append] at hc
    split at hc
    · exact hindex i c hc
    · next hge =>
      rw [List.getElem?_singleton] at hc
      split at hc
      · cases hc
        rw [hnext]
        omega
      · cases hc
  | @refused l l' d d' bs b e w w' h happend hcontent ih =>
    obtain ⟨hp, hleft, hindex⟩ := ih
    obtain ⟨rfl, w'', hleft', _⟩ := hleft.append_error happend
    have hsame : w'' = w' :=
      List.append_cancel_left (hleft'.content.symm.trans hcontent)
    exact ⟨hp, hsame ▸ hleft', hindex⟩
  | reopened h hw hopen ih =>
    obtain ⟨rfl, hleft, hindex⟩ := ih
    obtain ⟨hp, hintact⟩ :=
      (openAt_torn hleft.present hleft.stat hleft.content hleft.ends hw hopen).1 _ rfl
    exact ⟨hp, hintact.left, hindex⟩

/-- Every accepted block is read under its index, and nothing is read but what is on
the lines that were there at first and on those of the accepted blocks. -/
structure Serves (l : FileLog) (d : Disk) (ls : List Bytes)
    (bs : List Block) : Prop where
  accepted : ∀ i b, bs[i]? = some b →
    b.index.toNat = ls.length + i ∧
    l.readRange b.index.toNat (b.index.toNat + 1) d = .ok [b]
  only : ∀ start stop, start ≤ stop →
    l.readRange start stop d =
      blocks start (((ls ++ bs.map Block.toLine).take stop).drop start)

theorem Run.serves {p : Path} {bs : List Block} (h : Run p ls l d bs w) :
    l.Serves d ls bs := by
  obtain ⟨_, hleft, hindex⟩ := h.left
  refine ⟨fun i b hb => ⟨hindex i b hb, ?_⟩, fun start stop hle => hleft.readRange hle⟩
  have hline : (((ls ++ bs.map Block.toLine).take (ls.length + i + 1)).drop
      (ls.length + i)) = [b.toLine] := by
    rw [List.drop_take, Nat.add_sub_cancel_left, List.drop_append,
      List.drop_eq_nil_of_le (Nat.le_add_right _ _), Nat.add_sub_cancel_left,
      List.nil_append]
    obtain ⟨hi, rfl⟩ := List.getElem?_eq_some_iff.1 hb
    rw [List.drop_eq_getElem_cons (by simpa using hi)]
    simp
  rw [hindex i b hb, hleft.readRange (Nat.le_succ _), hline, blocks, block?_toLine]
  rfl

/-- A whole line that was left behind counts when the file is opened again, and its
block is read. -/
theorem Left.openAt_whole {c : Block} (h : l.Left d ls (line c)) (mode : SyncMode) :
    ∃ l', openAt l.path mode d = (.ok l', d) ∧
      l'.readRange ls.length (ls.length + 1) d = .ok [c] := by
  have hjoin : Lines.join (ls ++ [c.toLine]) = Lines.join ls ++ line c := by
    rw [Lines.join_append, Lines.join_cons, Lines.join_nil]
    rfl
  have hintact : Intact { l with
      count := ls.length + 1
      size := (Lines.join (ls ++ [c.toLine])).length } d (ls ++ [c.toLine]) := {
    stat := h.stat
    present := h.present
    content := h.content.trans hjoin.symm
    ends := by
      intro x hx
      rcases List.mem_append.1 hx with hx | hx
      · exact h.ends x hx
      · rw [List.mem_singleton.1 hx]
        exact c.newline_not_mem_toLine
    count := by simp
    size := rfl }
  refine ⟨_, hintact.openAt mode, ?_⟩
  have hread := hintact.left.readRange (Nat.le_succ ls.length)
  rw [List.take_of_length_le (by simp), List.drop_left, blocks, block?_toLine] at hread
  exact hread

/-- After every run the accepted blocks, and no others, are read, also by whoever
opens the file again unless a newline was left behind. A refused block changes
nothing of that. What it leaves in the file is a beginning of its line, and nothing
if it can be taken back. But if it leaves something, then a block that is accepted
next is lost: its line cannot be read, or the refused block is read in its place; and
a refused block whose whole line is left is read when the file is opened again. -/
theorem accepted_blocks_are_kept_while_nothing_is_left {p : Path} {bs : List Block}
    (h : Run p ls l d bs w) :
    l.Serves d ls bs ∧
      (∀ mode, Lines.newline ∉ w →
        (Lines.join (ls ++ bs.map Block.toLine)).length < Disk.sizeLimit →
        ∃ l' d', openAt p mode { d with plan := [], limit := none } = (.ok l', d') ∧
        l'.Serves d' ls bs ∧
          Run p ls l' d' bs []) ∧
      (∀ mode c, w = line c → ∃ l', openAt p mode d = (.ok l', d) ∧
        l'.readRange (ls.length + bs.length) (ls.length + bs.length + 1) d = .ok [c]) ∧
      (∀ b plan limit e l' d', l.append b { d with plan, limit } = (.error e, l', d') →
        ∃ w', Run p ls l' d' bs w' ∧ l'.Serves d' ls bs ∧ (w = [] → w' <+: line b) ∧
          (b.index.toNat = ls.length + bs.length →
            l.RollsBack b { d with plan, limit } → w' = [])) ∧
      ∀ b plan limit l' d', l.append b { d with plan, limit } = (.ok (), l', d') →
        b.index.toNat = ls.length + bs.length ∧
          (w = [] → Run p ls l' d' (bs ++ [b]) [] ∧ l'.Serves d' ls (bs ++ [b])) ∧
          ∀ c, w <+: line c → w ≠ [] →
          l'.readRange b.index.toNat (b.index.toNat + 1) d' =
            if w = line c then .ok [c]
            else .error (.corruptEntry b.index.toNat .unreadable) := by
  obtain ⟨rfl, hleft, _⟩ := h.left
  have hlength : (ls ++ bs.map Block.toLine).length = ls.length + bs.length := by
    rw [List.length_append, List.length_map]
  refine ⟨h.serves, ?_, ?_, ?_, ?_⟩
  · intro mode hends hfits
    have hturned := h.turned [] none
    obtain ⟨_, hleft', _⟩ := hturned.left
    cases hopen : openAt l.path mode { d with plan := [], limit := none } with
    | mk r d' =>
      obtain ⟨l', rfl⟩ :=
        (openAt_torn hleft'.present hleft'.stat hleft'.content hleft'.ends hends
          hopen).2 rfl hfits
      have hagain := hturned.reopened hends hopen
      exact ⟨l', d', rfl, hagain.serves, hagain⟩
  · rintro mode c rfl
    rw [← hlength]
    exact hleft.openAt_whole mode
  · intro b plan limit e l' d' ha
    have hturned := h.turned plan limit
    obtain ⟨_, hleft', _⟩ := hturned.left
    obtain ⟨rfl, w', hw', _, hback, hbegin⟩ := hleft'.append_error ha
    have hagain := hturned.refused ha hw'.content
    exact ⟨w', hagain, hagain.serves, hbegin,
      fun hnext => hback (hnext.trans hlength.symm)⟩
  · intro b plan limit l' d' ha
    have hturned := h.turned plan limit
    obtain ⟨_, hleft', _⟩ := hturned.left
    have hindex := (hleft'.append_ok ha).1
    refine ⟨hindex.trans hlength, ?_, fun c hc hne => ?_⟩
    · rintro rfl
      have hagain := hturned.accepted ha
      exact ⟨hagain, hagain.serves⟩
    · rw [hindex]
      split
      · next hwhole =>
        subst hwhole
        rw [hleft'.readRange_whole ha (Nat.le_succ _), take_drop_concat, blocks,
          block?_toLine]
        rfl
      · next hpart =>
        have hc : w <+: c.toLine := (Json.prefix_concat_cases hc).resolve_left hpart
        rw [hleft'.readRange_torn hc ha (Nat.le_succ _), take_drop_concat, blocks,
          block?_torn hc hne]

/-- The first three bytes of a block stay in a new file; nothing is read of it, and
nothing after the file was opened again. -/
theorem accepted_blocks_are_kept_while_nothing_is_left_threeBytes :
    ∃ (l l' : FileLog) (d d' : Disk) (w : Bytes), Run ["ledger"] [] l d [] w ∧
      w.length = 3 ∧ l.Serves d [] [] ∧
      openAt ["ledger"] .osDefault { d with plan := [], limit := none } = (.ok l', d') ∧
      l'.Serves d' [] [] := by
  let b : Block := ⟨⟨0, Digest.zero, Digest.zero, ⟨5, 0⟩, true, 1⟩, Digest.zero⟩
  let l : FileLog := ⟨["ledger"], .everyWrite, 0, 0, 0⟩
  let d : Disk := { entries := [((1, ["ledger"]), .file 0)], contents := [[]] }
  have hopen : openAt ["ledger"] .everyWrite {} = (.ok l, d) := rfl
  have hintact : l.Intact d [] :=
    ⟨rfl, Nat.zero_lt_one, rfl, List.forall_mem_nil _, rfl, rfl⟩
  have hstart :=
    (Run.opened Disk.wellFormed_empty hopen hintact).turned [some 3, some 0] none
  let torn : Disk := { d with contents := [((line b).take 3).reverse] }
  have happend : l.append b { d with plan := [some 3, some 0] } =
      (.error .disk, l, torn) := rfl
  have hleft : torn.content 0 = Lines.join [] ++ (line b).take 3 :=
    List.reverse_reverse _
  have hrun := hstart.refused happend hleft
  have hends : Lines.newline ∉ (line b).take 3 := by decide
  obtain ⟨hserves, hagain, _⟩ := accepted_blocks_are_kept_while_nothing_is_left hrun
  obtain ⟨l', d', hopened, hserves', _⟩ := hagain .osDefault hends (by decide)
  exact ⟨l, l', _, d', _, hrun, rfl, hserves, hopened, hserves'⟩

/-- The first block is refused after three bytes, which are not taken back, and is
then accepted. It cannot be read. Its whole line is left behind when only forcing it
to the disk fails: then it is read although it was refused. -/
theorem accepted_block_is_lost_and_refused_one_is_read :
    ∃ (b : Block) (l l' : FileLog) (d d₁ d₂ d₃ : Disk),
      openAt ["ledger"] .everyWrite {} = (.ok l, d) ∧
      l.append b { d with plan := [some 3, some 0] } = (.error .disk, l, d₁) ∧
      l.append b d₁ = (.ok (), l', d₂) ∧ b.index = 0 ∧
      l'.readRange 0 1 d₂ = .error (.corruptEntry 0 .unreadable) ∧
      l.append b { d with plan := [none, some 0, some 0] } = (.error .disk, l, d₃) ∧
      ∃ l'', openAt ["ledger"] .everyWrite d₃ = (.ok l'', d₃) ∧
      l''.readRange 0 1 d₃ = .ok [b] := by
  let b : Block := ⟨⟨0, Digest.zero, Digest.zero, ⟨5, 0⟩, true, 1⟩, Digest.zero⟩
  let l : FileLog := ⟨["ledger"], .everyWrite, 0, 0, 0⟩
  let d : Disk := { entries := [((1, ["ledger"]), .file 0)], contents := [[]] }
  let torn : Disk := { d with contents := [((line b).take 3).reverse] }
  let full : Disk := { d with contents := [(line b).reverse] }
  have htorn : l.Left torn [] ((line b).take 3) :=
    ⟨rfl, Nat.zero_lt_one, List.reverse_reverse _, List.forall_mem_nil _, rfl, rfl⟩
  have hfull : l.Left full [] (line b) :=
    ⟨rfl, Nat.zero_lt_one, List.reverse_reverse _, List.forall_mem_nil _, rfl, rfl⟩
  obtain ⟨l'', hopen, hread⟩ := hfull.openAt_whole .everyWrite
  obtain ⟨l', d₂, hnext⟩ := append_calm (l := l) (d := torn) (b := b) rfl rfl rfl
  have hpart : (line b).take 3 <+: b.toLine := ⟨b.toLine.drop 3, rfl⟩
  have hunforced : l.append b { d with plan := [none, some 0, some 0] } =
      (.error .disk, l, full) := by
    simp [append, write, Disk.append, Disk.draw, Disk.room, Disk.extend, Disk.sync,
      Disk.truncate, l, d, full, b]
  have hlost : l'.readRange 0 1 d₂ = .error (.corruptEntry 0 .unreadable) := by
    rw [htorn.readRange_torn hpart hnext (Nat.zero_le 1), List.nil_append,
      List.take_of_length_le (Nat.le_refl 1), List.drop_zero, blocks,
      block?_torn hpart (List.cons_ne_nil _ _)]
  exact ⟨b, l, l', d, torn, d₂, full, rfl, rfl, hnext, rfl, hlost, hunforced,
    l'', hopen, hread⟩

end Ledger.FileLog

end Chronicle
