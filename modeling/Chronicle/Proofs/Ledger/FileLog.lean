import Chronicle.Ledger.FileLog
import Chronicle.Proofs.Block.Line
import Chronicle.Proofs.Disk.Files

/-!
# What a log file holds

A log file is intact if its path leads to the open file and the file holds as many
complete lines as the log counts, and nothing else. Opening makes a file intact, and
appending keeps it so as long as what a failed append wrote can be taken back.

* `openAt_intact`: a log that was just opened is intact.
* `Intact.append_ok`: what an accepted block does to the lines.
* `readRange_of_lines`: the blocks that are read are those on the lines.
-/

namespace Chronicle

open Text

namespace Text.Lines

theorem newline_not_mem_splitFrom (bs current : Bytes) (hc : newline ∉ current) :
    (∀ x ∈ (splitFrom current bs).1, newline ∉ x) ∧
      newline ∉ (splitFrom current bs).2 := by
  induction bs generalizing current with
  | nil => simp [splitFrom, hc]
  | cons b bs ih =>
    rw [splitFrom]
    split
    · obtain ⟨hlines, hrest⟩ := ih [] List.not_mem_nil
      refine ⟨?_, hrest⟩
      intro x hx
      rcases List.mem_cons.1 hx with rfl | hx
      · simpa using hc
      · exact hlines x hx
    · next hb =>
      apply ih
      intro hmem
      rcases List.mem_cons.1 hmem with h | h
      · exact hb h.symm
      · exact hc h

end Text.Lines

namespace Ledger.FileLog

/-! ## Blocks on lines -/

theorem block?_toLine (b : Block) : block? b.toLine = some b := by
  have hascii : ∀ x ∈ b.toLine, x < 0x80 := by
    intro x hx
    have hprint := List.all_eq_true.1 b.all_isPrintable_toLine x hx
    rw [isPrintable, Bool.and_eq_true] at hprint
    exact of_decide_eq_true hprint.2
  obtain ⟨s, hs⟩ := Bytes.exists_toText?_of_ascii hascii
  rw [block?, hs]
  exact b.ofLine?_toLine

theorem blocks_eq_ok_iff {n : Nat} {ls : List Bytes} {bs : List Block} :
    blocks n ls = .ok bs ↔ ls.map block? = bs.map some := by
  induction ls generalizing n bs with
  | nil => cases bs <;> simp [blocks]
  | cons x ls ih =>
    rw [blocks]
    cases hb : block? x with
    | none => cases bs <;> simp [hb]
    | some b =>
      cases hr : blocks (n + 1) ls with
      | error e =>
        -- A later line without a block leaves no list of blocks to compare with.
        have hne : ∀ cs : List Block, ls.map block? ≠ cs.map some := by
          intro cs hcs
          rw [ih.2 hcs] at hr
          cases hr
        cases bs <;> simp [hb, hne]
      | ok cs =>
        have hcs := ih.1 hr
        cases bs with
        | nil => simp
        | cons c bs =>
          simp only [List.map_cons, hb, hcs, List.cons.injEq, Option.some.injEq,
            Except.ok.injEq]
          rw [List.map_inj_right (fun _ _ => Option.some.inj)]

/-- A line that is no block is reported with its number. -/
theorem blocks_of_bad {ls : List Bytes} {bs : List Block} {x : Bytes}
    (hbs : ls.map block? = bs.map some) (hbad : block? x = none) (n : Nat)
    (rest : List Bytes) :
    blocks n (ls ++ x :: rest) =
      .error (.corruptEntry (n + bs.length) .unreadable) := by
  induction ls generalizing n bs with
  | nil =>
    have hnil : bs = [] := by simpa using hbs.symm
    rw [hnil, List.nil_append, blocks, hbad]
    rfl
  | cons y ls ih =>
    cases bs with
    | nil => cases hbs
    | cons b bs =>
      obtain ⟨hy, hrest⟩ := List.cons.inj hbs
      rw [List.cons_append, blocks, hy]
      simp only [ih hrest (n + 1), List.length_cons]
      rw [Nat.add_assoc, Nat.add_comm 1]

/-! ## Intact files -/

/-- The path of the log leads to the open file, in which are these lines and nothing
else. -/
structure Intact (l : FileLog) (d : Disk) (ls : List Bytes) : Prop where
  stat : d.stat l.path = .ok (.file l.file)
  present : l.file < d.contents.length
  content : d.content l.file = Lines.join ls
  ends : ∀ x ∈ ls, Lines.newline ∉ x
  count : l.count = ls.length
  size : l.size = (Lines.join ls).length

theorem all_join_append {ls : List Bytes} (hls : ∀ x ∈ ls, Lines.newline ∉ x)
    (w : Bytes) :
    Lines.all (Lines.join ls ++ w) = ls ++ Lines.all w := by
  induction ls with
  | nil => rfl
  | cons x ls ih =>
    have hrest := ih fun y hy => hls y (List.mem_cons_of_mem _ hy)
    rw [Lines.all] at hrest
    rw [Lines.join_cons, List.append_assoc, List.cons_append, Lines.all,
      Lines.split_line_append _ _ (hls x List.mem_cons_self), List.cons_append, ← hrest]
    simp only
    split <;> rfl

/-- What is read are the blocks on the lines that the log counts, whatever stands
after them. -/
theorem readRange_of_lines {l : FileLog} {d : Disk} {ls : List Bytes} {w : Bytes}
    (hread : d.read l.path = .ok (Lines.join ls ++ w))
    (hends : ∀ x ∈ ls, Lines.newline ∉ x) (hcount : l.count = ls.length)
    {start stop : Nat} (hle : start ≤ stop) :
    l.readRange start stop d = blocks start ((ls.take stop).drop start) := by
  rw [FileLog.readRange, if_neg (Nat.not_lt.2 hle), hcount]
  simp only
  split
  · next hempty =>
    rw [List.drop_eq_nil_of_le (by rw [List.length_take]; exact hempty)]
    rfl
  · rw [hread]
    simp only [all_join_append hends]
    have hcut : ((ls ++ Lines.all w).drop start).take (min stop ls.length - start) =
        (ls.take stop).drop start := by
      rw [List.drop_take, List.drop_append, List.take_append_of_le_length,
        List.take_eq_take_iff, List.length_drop]
      · omega
      · rw [List.length_drop]
        omega
    rw [hcut]

/-- The file with other mishaps ahead, or another limit. -/
theorem Intact.of_sameTree {l : FileLog} {d d' : Disk} {ls : List Bytes}
    (h : l.Intact d ls) (htree : Disk.SameTree d d')
    (hcontent : d'.content l.file = d.content l.file) : l.Intact d' ls where
  stat := (htree.stat l.path).trans h.stat
  present := htree.length ▸ h.present
  content := hcontent.trans h.content
  ends := h.ends
  count := h.count
  size := h.size

/-! ## Appending -/

theorem write_spec {l : FileLog} {d d' : Disk} {bs : Bytes} {r : Except Disk.Fault Unit}
    (hid : l.file < d.contents.length) (h : l.write bs d = (r, d')) :
    Disk.SameTree d d' ∧ ∃ written, d'.content l.file = d.content l.file ++ written ∧
      written <+: bs ∧
      (r = .ok () → written = bs) := by
  rw [write] at h
  cases ha : d.append l.file bs with
  | mk a d₁ =>
    obtain ⟨htree, written, hcontent, hbegin, hall⟩ := Disk.append_spec hid ha
    rw [ha] at h
    cases a with
    | error f =>
      cases h
      exact ⟨htree, written, hcontent, hbegin, fun hr => by cases hr⟩
    | ok u =>
      simp only at h
      split at h
      · obtain ⟨htree', hsame⟩ := Disk.sync_spec h
        refine ⟨htree.trans htree', written, ?_, hbegin, fun _ => hall rfl⟩
        rw [← hcontent, Disk.content, Disk.content, hsame]
      · cases h
        exact ⟨htree, written, hcontent, hbegin, fun _ => hall rfl⟩

/-- With no mishap ahead and no limit every write succeeds. -/
theorem write_calm (l : FileLog) {d : Disk} (bs : Bytes) (hplan : d.plan = [])
    (hlimit : d.limit = none) :
    (l.write bs d).1 = .ok () := by
  have happend : d.append l.file bs = (.ok (), d.extend l.file bs) := by
    simp only [Disk.append, Disk.draw, hplan, Disk.room, hlimit, if_pos,
      List.take_length]
  have hsync : (d.extend l.file bs).sync = (.ok (), d.extend l.file bs) := by
    simp only [Disk.sync, Disk.draw, Disk.extend, hplan]
  rw [write, happend]
  simp only
  split
  · rw [hsync]
  · rfl

/-- If the line of the block cannot be written, what was written of it can be taken
back. -/
def RollsBack (l : FileLog) (b : Block) (d : Disk) : Prop :=
  ∀ f d', l.write (line b) d = (.error f, d') → (d'.truncate l.file l.size).1 = .ok ()

theorem Intact.append_ok {l l' : FileLog} {d d' : Disk} {ls : List Bytes} {b : Block}
    (h : l.Intact d ls) (ha : l.append b d = (.ok (), l', d')) :
    b.index.toNat = ls.length ∧ l'.Intact d' (ls ++ [b.toLine]) := by
  rw [FileLog.append] at ha
  split at ha
  · cases ha
  · next hindex =>
    have hindex : b.index.toNat = ls.length := h.count ▸ Decidable.not_not.1 hindex
    cases hw : l.write (line b) d with
    | mk r d₁ =>
      obtain ⟨htree, written, hcontent, _, hall⟩ := write_spec h.present hw
      rw [hw] at ha
      cases r with
      | error f => cases ha
      | ok u =>
        cases ha
        have hjoin : Lines.join (ls ++ [b.toLine]) = Lines.join ls ++ line b := by
          rw [Lines.join_append, Lines.join_cons, Lines.join_nil, line]
        refine ⟨hindex, ?_⟩
        exact {
          stat := (htree.stat l.path).trans h.stat
          present := htree.length ▸ h.present
          content := by
            show d'.content l.file = _
            rw [hcontent, hall rfl, h.content, hjoin]
          ends := by
            intro x hx
            rcases List.mem_append.1 hx with hx | hx
            · exact h.ends x hx
            · rw [List.mem_singleton.1 hx]
              exact b.newline_not_mem_toLine
          count := by simp [h.count]
          size := by
            show l.size + (line b).length = _
            rw [h.size, hjoin, List.length_append] }

/-! ## Opening -/

/-- What is left after the torn tail is gone: no file at all, or one of complete
lines. -/
theorem discardTornTail_ok {p : Path} {d d' : Disk} {count size : Nat}
    (hd : d.WellFormed) (h : discardTornTail p d = (.ok (count, size), d')) :
    d'.WellFormed ∧
      ((d'.stat p = .error .notFound ∧ count = 0 ∧ size = 0) ∨
        ∃ id ls, d'.stat p = .ok (.file id) ∧ d'.content id = Lines.join ls ∧
          (∀ x ∈ ls, Lines.newline ∉ x) ∧ count = ls.length ∧
          size = (Lines.join ls).length) := by
  rw [discardTornTail] at h
  split at h
  · next hread =>
    cases h
    exact ⟨hd, .inl ⟨Disk.stat_of_read_notFound hread, rfl, rfl⟩⟩
  · cases h
  · next bs hread =>
    obtain ⟨id, hstat, rfl⟩ := Disk.stat_of_read hread
    obtain ⟨hlines, _⟩ :=
      Lines.newline_not_mem_splitFrom (d.content id) [] List.not_mem_nil
    have hjoin := Lines.join_split (d.content id)
    rw [← Lines.split] at hlines
    cases hs : Lines.split (d.content id) with
    | mk ls rest =>
      simp only [hs] at h hlines hjoin
      have hsize : (d.content id).length - rest.length = (Lines.join ls).length := by
        rw [← hjoin, List.length_append, Nat.add_sub_cancel]
      rw [hsize] at h
      split at h
      · next hempty =>
        cases h
        rw [List.isEmpty_iff.1 hempty, List.append_nil] at hjoin
        exact ⟨hd, .inr ⟨id, ls, hstat, hjoin.symm, hlines, rfl, rfl⟩⟩
      · rw [Disk.openFile_eq_ok_iff.2 hstat] at h
        simp only at h
        -- The file is cut after its last newline, and the cut is forced to the disk.
        cases ht : d.truncate id (Lines.join ls).length with
        | mk a d₁ =>
          rw [ht] at h
          cases a with
          | error f => cases h
          | ok u =>
            have hle : (Lines.join ls).length ≤ d.size id := by
              rw [← Disk.length_content, ← hjoin, List.length_append]
              exact Nat.le_add_right _ _
            obtain ⟨htree, hcut⟩ := Disk.truncate_ok (hd.lt_of_stat hstat) hle ht
            simp only at h
            cases hsync : d₁.sync with
            | mk c d₂ =>
              obtain ⟨htree', hsame⟩ := Disk.sync_spec hsync
              rw [hsync] at h
              cases c with
              | error f => cases h
              | ok u =>
                cases h
                have hboth := htree.trans htree'
                refine ⟨hd.of_sameTree hboth,
                  .inr ⟨id, ls, (hboth.stat p).trans hstat, ?_, hlines, rfl, rfl⟩⟩
                have hkeep : d'.content id = d₁.content id := by
                  rw [Disk.content, Disk.content, hsame]
                rw [hkeep, hcut, ← hjoin, List.take_left']
                rfl

/-- A log that was just opened is intact. -/
theorem openAt_intact {p : Path} {mode : SyncMode} {d d' : Disk} {l : FileLog}
    (hd : d.WellFormed) (h : openAt p mode d = (.ok l, d')) : ∃ ls, l.Intact d' ls := by
  rw [openAt] at h
  cases hm : d.makeDirectories p.parent with
  | mk a d₁ =>
    have hd₁ := hd.makeDirectories hm
    rw [hm] at h
    cases a with
    | error f => cases h
    | ok u =>
      simp only at h
      cases ht : discardTornTail p d₁ with
      | mk c d₂ =>
        rw [ht] at h
        cases c with
        | error e => cases h
        | ok counts =>
          obtain ⟨count, size⟩ := counts
          obtain ⟨hd₂, hleft⟩ := discardTornTail_ok hd₁ ht
          simp only at h
          cases ho : d₂.openOrCreate p with
          | mk r d₃ =>
            rw [ho] at h
            cases r with
            | error f => cases h
            | ok file =>
              cases h
              obtain ⟨hd₃, hstat, hold⟩ := Disk.openOrCreate_ok hd₂ ho
              have hpresent := hd₃.lt_of_stat hstat
              -- A file that was there has the lines that were counted; a new one has
              -- none, and none were.
              rcases hold with ⟨hstat₂, rfl⟩ | ⟨hnone, hempty⟩
              · rcases hleft with ⟨hnone, _, _⟩ |
                  ⟨id, ls, hid, hcontent, hends, hcount, hsize⟩
                · rw [hnone] at hstat₂
                  cases hstat₂
                · rw [hid] at hstat₂
                  cases hstat₂
                  exact ⟨ls, hstat, hpresent, hcontent, hends, hcount, hsize⟩
              · rcases hleft with ⟨_, hcount, hsize⟩ | ⟨id, ls, hid, _⟩
                · exact ⟨[], hstat, hpresent, hempty, List.forall_mem_nil _,
                    hcount, hsize⟩
                · rw [hid] at hnone
                  cases hnone

end Ledger.FileLog

end Chronicle
