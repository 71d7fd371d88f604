import Chronicle.Proofs.Disk.Reopen
import Chronicle.Proofs.Json.Torn
import Chronicle.Proofs.Ledger.FileLog

/-!
# What refused appends leave in a log file

An append to a log file that fails takes back what it wrote. That may fail too, and
the log does not remember it: the next block is written after what was left behind.

* `block?_torn`: part of a line and a line after it are no line.
* `Left`: complete lines, and after them what failed appends left behind.
* `Left.append_error`: what a refused append leaves.
* `Left.readRange_torn`, `Left.readRange_whole`: what is read if a block is accepted
  after something that was left.
-/

namespace Chronicle

open Text

/-! ## Lines that break off -/

theorem Digest.isPlainText_toHex (d : Digest) : Json.IsPlainText d.toHex := by
  have key : ∀ n : Fin 16, (Json.escapeByte (Hex.digit n.val)).all Json.isPlain =
      true := by decide
  have hdigits : ∀ bs : Bytes,
      ((Hex.encode bs).flatMap Json.escapeByte).all Json.isPlain = true := by
    intro bs
    induction bs with
    | nil => rfl
    | cons b bs ih =>
      have hb : b.toNat < 256 := b.toNat_lt
      have hhigh := key ⟨b.toNat / 16, by omega⟩
      have hlow := key ⟨b.toNat % 16, by omega⟩
      show ((Hex.digit (b.toNat / 16) :: Hex.digit (b.toNat % 16) ::
        Hex.encode bs).flatMap Json.escapeByte).all Json.isPlain = true
      simp only [List.flatMap_cons, List.all_append, hhigh, hlow, ih, Bool.and_self]
  rw [Json.IsPlainText, toHex, Hex.ofText_toText]
  exact hdigits _

namespace Block

theorem tears_toJson (b : Block) : Json.Tears b.toJson := by
  have hnames : ∀ name ∈ ["index", "prev_hash", "payload_hash", "timestamp",
      "unix_ms", "logical", "succeeded", "ack_count", "hash"],
      Json.IsPlainText name := by
    unfold Json.IsPlainText
    decide
  have hdigest : ∀ d : Digest, Json.Tears d.toJson :=
    fun d => .string d.isPlainText_toHex
  have hplain := b.plain_toJson
  simp only [toJson, Json.Plain, Json.PlainMembers] at hplain
  simp only [List.forall_mem_cons] at hnames
  have hstamp : Json.Tears b.stamp.toJson := by
    have hparts : b.stamp.toJson.Plain := hplain.2.2.2.1
    simp only [Timestamp.toJson, Json.Plain, Json.PlainMembers] at hparts
    apply Json.Tears.object
    simp [Json.TearsMember, Json.Plain, hnames, hparts, Json.Tears.natural]
  apply Json.Tears.object
  simp [Json.TearsMember, Json.Plain, hnames, hplain, hdigest, hstamp,
    Json.Tears.natural, Json.Tears.bool]

/-- The first name begins with a letter. -/
theorem opening_toLine (b : Block) : Json.Opening b.toLine where
  begins := ⟨0x69, _, rfl, by decide⟩
  reads := by
    intro fuel hfuel
    have hread :=
      Json.value_compact fuel b.plain_toJson (show Json.Stops [] from trivial) hfuel
    rw [List.append_nil] at hread
    exact ⟨_, hread⟩

end Block

namespace Ledger.FileLog

/-- Part of a line, or all of it but the newline, and another line after it are no
line of a block. -/
theorem block?_torn {b c : Block} {w : Bytes} (hw : w <+: c.toLine) (hne : w ≠ []) :
    block? (w ++ b.toLine) = none := by
  rw [block?]
  split
  · rw [Block.ofLine?, Json.parse?_torn c.tears_toJson b.opening_toLine hw hne]
    rfl
  · rfl

/-! ## Files with something left behind -/

/-- The path of the log leads to the open file. In it are the lines that the log
counts, and after them what failed appends left behind. -/
structure Left (l : FileLog) (d : Disk) (ls : List Bytes) (w : Bytes) : Prop where
  stat : d.stat l.path = .ok (.file l.file)
  present : l.file < d.contents.length
  content : d.content l.file = Lines.join ls ++ w
  ends : ∀ x ∈ ls, Lines.newline ∉ x
  count : l.count = ls.length
  size : l.size = (Lines.join ls).length

variable {l l' : FileLog} {d d' : Disk} {ls : List Bytes} {w : Bytes} {b : Block}

theorem Intact.left (h : l.Intact d ls) : l.Left d ls [] where
  stat := h.stat
  present := h.present
  content := by rw [h.content, List.append_nil]
  ends := h.ends
  count := h.count
  size := h.size

theorem Left.intact (h : l.Left d ls []) : l.Intact d ls where
  stat := h.stat
  present := h.present
  content := by rw [h.content, List.append_nil]
  ends := h.ends
  count := h.count
  size := h.size

theorem Left.of_sameTree {w' : Bytes} (h : l.Left d ls w) (htree : Disk.SameTree d d')
    (hcontent : d'.content l.file = Lines.join ls ++ w') : l.Left d' ls w' where
  stat := (htree.stat l.path).trans h.stat
  present := htree.length ▸ h.present
  content := hcontent
  ends := h.ends
  count := h.count
  size := h.size

theorem Left.read (h : l.Left d ls w) : d.read l.path = .ok (Lines.join ls ++ w) := by
  rw [Disk.read_of_stat h.stat, h.content]

/-- Nothing that was left behind is read: only lines that are counted are. -/
theorem Left.readRange (h : l.Left d ls w) {start stop : Nat} (hle : start ≤ stop) :
    l.readRange start stop d = blocks start ((ls.take stop).drop start) :=
  readRange_of_lines h.read h.ends h.count hle

/-- What stands in the file after the lines that the log counts. -/
def leftover (l : FileLog) (d : Disk) : Bytes := (d.content l.file).drop l.size

theorem Left.leftover_eq (h : l.Left d ls w) : l.leftover d = w := by
  rw [leftover, h.content, h.size, List.drop_left]

/-! ## Appending -/

/-- An accepted block is written after what was left behind. -/
theorem Left.append_ok (h : l.Left d ls w) (ha : l.append b d = (.ok (), l', d')) :
    b.index.toNat = ls.length ∧ l'.count = ls.length + 1 ∧
      d'.read l'.path = .ok (Lines.join ls ++ (w ++ line b)) := by
  rw [FileLog.append] at ha
  split at ha
  · cases ha
  · next hindex =>
    have hindex : b.index.toNat = ls.length := h.count ▸ Decidable.not_not.1 hindex
    cases hw : l.write (line b) d with
    | mk r d₁ =>
      obtain ⟨htree, written, hcontent, _, hall⟩ := write_spec h.present hw
      rw [hw] at ha
      cases r with
      | error f => cases ha
      | ok u =>
        cases ha
        refine ⟨hindex, by rw [h.count], ?_⟩
        have hstat : d'.stat l.path = .ok (.file l.file) :=
          (htree.stat l.path).trans h.stat
        show d'.read l.path = _
        rw [Disk.read_of_stat hstat, hcontent, hall rfl, h.content, List.append_assoc]

/-- A refused block leaves the log as it was. What stands after the lines is what
stood there, if the block was not the next one, and else nothing, if it can be taken
back. -/
theorem Left.append_error {e : Error} (h : l.Left d ls w)
    (ha : l.append b d = (.error e, l', d')) :
    l' = l ∧ ∃ w', l.Left d' ls w' ∧ (b.index.toNat ≠ ls.length → w' = w) ∧
      (b.index.toNat = ls.length → l.RollsBack b d → w' = []) ∧
      (w = [] → w' <+: line b) := by
  rw [FileLog.append] at ha
  split at ha
  · next hindex =>
    cases ha
    refine ⟨rfl, w, h, fun _ => rfl, fun hnext => ?_, fun hw => hw ▸ List.nil_prefix⟩
    exact absurd (hnext.trans h.count.symm) hindex
  · next hindex =>
    have hnext : ¬b.index.toNat ≠ ls.length := fun hne => hindex (h.count ▸ hne)
    cases hw : l.write (line b) d with
    | mk r d₁ =>
      obtain ⟨htree, written, hcontent, hbegin, _⟩ := write_spec h.present hw
      rw [h.content, List.append_assoc] at hcontent
      rw [hw] at ha
      cases r with
      | ok u => cases ha
      | error f =>
        cases ht : d₁.truncate l.file l.size with
        | mk c d₂ =>
          simp only [ht] at ha
          cases ha
          cases c with
          | ok u =>
            -- The file is cut after its complete lines, whatever stood there before.
            have hsize : l.size ≤ d₁.size l.file := by
              rw [← Disk.length_content, hcontent, h.size, List.length_append]
              exact Nat.le_add_right _ _
            obtain ⟨htree', hcut⟩ :=
              Disk.truncate_ok (htree.length ▸ h.present) hsize ht
            rw [hcontent, h.size, List.take_left] at hcut
            refine ⟨rfl, [], h.of_sameTree (htree.trans htree') ?_,
              fun hne => absurd hne hnext, fun _ _ => rfl, fun _ => List.nil_prefix⟩
            rw [hcut, List.append_nil]
          | error g =>
            obtain ⟨htree', hsame⟩ := Disk.truncate_error ht
            refine ⟨rfl, w ++ written, h.of_sameTree (htree.trans htree') ?_,
              fun hne => absurd hne hnext, fun _ hback => ?_, fun hnil => ?_⟩
            · rw [Disk.content, hsame]
              exact hcontent
            · have hdone := hback f d₁ hw
              rw [ht] at hdone
              cases hdone
            · rw [hnil]
              exact hbegin

/-- Where nothing was left, a refused block leaves nothing if it can be taken back. -/
theorem Intact.append_error {e : Error} (h : l.Intact d ls) (hback : l.RollsBack b d)
    (ha : l.append b d = (.error e, l', d')) : l' = l ∧ l.Intact d' ls := by
  obtain ⟨rfl, w, hleft, hother, hnext, _⟩ := h.left.append_error ha
  have hnone : w = [] := by
    by_cases hindex : b.index.toNat = ls.length
    · exact hnext hindex hback
    · exact hother hindex
  exact ⟨rfl, (hnone ▸ hleft).intact⟩

theorem append_calm (hindex : b.index.toNat = l.count) (hplan : d.plan = [])
    (hlimit : d.limit = none) :
    ∃ l' d', l.append b d = (.ok (), l', d') := by
  have hwrite := l.write_calm (line b) hplan hlimit
  rw [append, if_neg (not_not_intro hindex)]
  cases hw : l.write (line b) d with
  | mk r d' =>
    rw [hw] at hwrite
    cases hwrite
    exact ⟨_, _, rfl⟩

/-! ## What is read after a block was accepted -/

/-- If part of a line was left behind, it stands on one line with the accepted block. -/
theorem Left.readRange_torn {c : Block} (h : l.Left d ls w) (hw : w <+: c.toLine)
    (ha : l.append b d = (.ok (), l', d')) {start stop : Nat} (hle : start ≤ stop) :
    l'.readRange start stop d' =
      blocks start (((ls ++ [w ++ b.toLine]).take stop).drop start) := by
  obtain ⟨_, hcount, hread⟩ := h.append_ok ha
  have hends : ∀ x ∈ ls ++ [w ++ b.toLine], Lines.newline ∉ x := by
    intro x hx
    rcases List.mem_append.1 hx with hx | hx
    · exact h.ends x hx
    · rw [List.mem_singleton.1 hx]
      intro hmem
      rcases List.mem_append.1 hmem with hmem | hmem
      · exact c.newline_not_mem_toLine (hw.subset hmem)
      · exact b.newline_not_mem_toLine hmem
  refine readRange_of_lines (w := []) ?_ hends
    (by rw [hcount, List.length_append, List.length_singleton]) hle
  rw [hread]
  simp only [Lines.join_append, Lines.join_cons, Lines.join_nil, line,
    List.append_assoc, List.append_nil]

/-- If a whole line was left behind, its block is counted in the place of the
accepted one. -/
theorem Left.readRange_whole {c : Block} (h : l.Left d ls (line c))
    (ha : l.append b d = (.ok (), l', d')) {start stop : Nat} (hle : start ≤ stop) :
    l'.readRange start stop d' =
      blocks start (((ls ++ [c.toLine]).take stop).drop start) := by
  obtain ⟨_, hcount, hread⟩ := h.append_ok ha
  have hends : ∀ x ∈ ls ++ [c.toLine], Lines.newline ∉ x := by
    intro x hx
    rcases List.mem_append.1 hx with hx | hx
    · exact h.ends x hx
    · rw [List.mem_singleton.1 hx]
      exact c.newline_not_mem_toLine
  refine readRange_of_lines (w := line b) ?_ hends
    (by rw [hcount, List.length_append, List.length_singleton]) hle
  rw [hread]
  simp only [Lines.join_append, Lines.join_cons, Lines.join_nil, line,
    List.append_assoc]

end Ledger.FileLog

end Chronicle
