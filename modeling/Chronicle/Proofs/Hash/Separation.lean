import Chronicle.Node
import Chronicle.Proofs.Binary.SelfDelimiting
import Chronicle.Proofs.Block.Message

/-!
# Hashed messages are told apart

A message is a tag, a colon and the parts one after the other, without their lengths.
It can still be cut up in one way only. The tags have no colon, so the first colon
ends the tag; of the parts all but the last have a fixed length; and the last part of
a node, the binary form of a record, tells records apart.

* `Domain.message_inj`: a message determines the tag and what follows it.
* `Node.parts_inj`: what is hashed of a node determines the record and the
  predecessor.
* `hash_inputs_are_told_apart`: what is hashed for blocks, keys and nodes is all
  different, within each kind and across the kinds, so that equal hashes of different
  inputs are a collision of the hash function.
-/

namespace Chronicle

/-- Two byte strings that end at the first mark behind them are found again. -/
theorem Bytes.eq_of_append_mark {mark : UInt8} {s t x y : Bytes} (hs : mark ∉ s)
    (ht : mark ∉ t) (h : s ++ mark :: x = t ++ mark :: y) : s = t ∧ x = y := by
  induction s generalizing t with
  | nil =>
    cases t with
    | nil => exact ⟨rfl, (List.cons.inj h).2⟩
    | cons b t =>
      have hmark : mark = b := (List.cons.inj h).1
      exact absurd (hmark ▸ List.mem_cons_self) ht
  | cons a s ih =>
    cases t with
    | nil =>
      have hmark : a = mark := (List.cons.inj h).1
      exact absurd (hmark ▸ List.mem_cons_self) hs
    | cons b t =>
      obtain ⟨hhead, hrest⟩ := List.cons.inj h
      have hs' : mark ∉ s := fun hin => hs (List.mem_cons_of_mem _ hin)
      have ht' : mark ∉ t := fun hin => ht (List.mem_cons_of_mem _ hin)
      obtain ⟨htail, hafter⟩ := ih hs' ht' hrest
      rw [hhead, htail]
      exact ⟨rfl, hafter⟩

namespace Hash

/-- The byte between the tag and the parts. -/
def colon : UInt8 := 0x3A

/-- The tag ends at the first colon of a message. -/
def Domain.Marked (d : Domain) : Prop := colon ∉ Bytes.ofText d.tag

instance (d : Domain) : Decidable d.Marked :=
  inferInstanceAs (Decidable (colon ∉ Bytes.ofText d.tag))

theorem Domain.message_eq (d : Domain) (parts : List Bytes) :
    d.message parts = Bytes.ofText d.tag ++ colon :: parts.flatten := by
  rw [message, List.append_assoc]
  rfl

theorem Domain.message_inj {d e : Domain} {ps qs : List Bytes} (hd : d.Marked)
    (he : e.Marked) (h : d.message ps = e.message qs) :
    d = e ∧ ps.flatten = qs.flatten := by
  rw [message_eq, message_eq] at h
  obtain ⟨htag, hparts⟩ := Bytes.eq_of_append_mark hd he h
  cases d
  cases e
  have htags := Bytes.ofText_inj htag
  simp only at htags
  rw [htags]
  exact ⟨rfl, hparts⟩

/-! ## What is hashed -/

/-- What is hashed under the three tags. -/
inductive Input where
  /-- The fields of a block. -/
  | block (fields : BlockFields)
  /-- The key of a record. -/
  | key (key : String)
  /-- A record after the node with the given hash. -/
  | node (record : Record) (prev : Digest)
deriving DecidableEq

namespace Input

/-- The tag. -/
def domain : Input → Domain
  | block _ => .block
  | key _ => .key
  | node _ _ => .node

/-- The parts behind the tag. -/
def parts : Input → List Bytes
  | block fields => fields.parts
  | key k => [Bytes.ofText k]
  | node record prev => Node.parts record prev

/-- The message. -/
def message (i : Input) : Bytes := i.domain.message i.parts

/-- The hash under which the input is known. -/
def digest : Input → Digest
  | block fields => fields.digest
  | key k => Domain.key.hash (Bytes.ofText k)
  | node record prev => Node.digest record prev

/-- The lengths that the message tells have room in their eight bytes, as the length
of anything in memory has. -/
def Sized : Input → Prop
  | node record _ => record.Sized
  | block _ | key _ => True

theorem digest_eq (i : Input) : i.digest = Blake3.hash i.message := by
  cases i <;> rfl

theorem marked_domain (i : Input) : i.domain.Marked := by
  have hall : Domain.block.Marked ∧ Domain.key.Marked ∧ Domain.node.Marked := by decide
  cases i with
  | block fields => exact hall.1
  | key k => exact hall.2.1
  | node record prev => exact hall.2.2

end Input

end Hash

theorem Node.parts_inj {r s : Record} {p q : Digest} (hr : r.Sized) (hs : s.Sized)
    (h : (parts r p).flatten = (parts s q).flatten) : r = s ∧ p = q := by
  simp only [parts, List.flatten_cons, List.flatten_nil, List.append_nil] at h
  obtain ⟨hprev, hrecord⟩ := List.append_inj h (by simp)
  exact ⟨Record.selfDelimiting.injective r s hr hs hrecord, Digest.bytes_inj hprev⟩

namespace Hash.Input

/-- The tag of a message says of what kind the input is, and the rest says which one
of the kind. -/
theorem message_inj {a b : Input} (ha : a.Sized) (hb : b.Sized)
    (h : a.message = b.message) : a = b := by
  obtain ⟨hdomain, hparts⟩ := Domain.message_inj a.marked_domain b.marked_domain h
  -- Equal messages have one tag, so only inputs of one kind are left to compare.
  obtain ⟨hblockKey, hblockNode, hkeyNode⟩ :
    Domain.block ≠ Domain.key ∧ Domain.block ≠ Domain.node ∧
    Domain.key ≠ Domain.node := by decide
  cases a with
  | block f =>
    cases b with
    | block g => rw [BlockFields.message_inj (f := f) (g := g) h]
    | key l => exact absurd hdomain hblockKey
    | node s q => exact absurd hdomain hblockNode
  | key k =>
    cases b with
    | block g => exact absurd hdomain hblockKey.symm
    | key l =>
      have htext : Bytes.ofText k = Bytes.ofText l := by simpa [parts] using hparts
      rw [Bytes.ofText_inj htext]
    | node s q => exact absurd hdomain hkeyNode
  | node r p =>
    cases b with
    | block g => exact absurd hdomain hblockNode.symm
    | key l => exact absurd hdomain hkeyNode.symm
    | node s q =>
      obtain ⟨hrecord, hprev⟩ := Node.parts_inj ha hb hparts
      rw [hrecord, hprev]

end Hash.Input

/-- Different inputs have different messages, whatever their kinds. Different inputs
with one hash are therefore two messages that collide. -/
theorem Hash.hash_inputs_are_told_apart {a b : Input} (ha : a.Sized) (hb : b.Sized) :
    (a.message = b.message ↔ a = b) ∧ a.digest = Blake3.hash a.message ∧
      (a ≠ b → a.digest = b.digest →
        a.message ≠ b.message ∧ Blake3.hash a.message = Blake3.hash b.message) := by
  refine ⟨⟨Input.message_inj ha hb, fun h => by rw [h]⟩, a.digest_eq, ?_⟩
  intro hne hdigest
  rw [a.digest_eq, b.digest_eq] at hdigest
  exact ⟨fun h => hne (Input.message_inj ha hb h), hdigest⟩

/-- Records whose type and key make up the same text are hashed as different
messages. -/
theorem Hash.hash_inputs_are_told_apart_movedLetter :
    let a := Input.node ⟨"a", "bc", [], Digest.zero, Timestamp.zero⟩ Digest.zero
    let b := Input.node ⟨"ab", "c", [], Digest.zero, Timestamp.zero⟩ Digest.zero
    a.Sized ∧ b.Sized ∧ a.message ≠ b.message := by
  intro a b
  have ha : a.Sized := ⟨by decide, by decide, by decide⟩
  have hb : b.Sized := ⟨by decide, by decide, by decide⟩
  have hne : a ≠ b := by decide
  exact ⟨ha, hb, fun h => hne ((hash_inputs_are_told_apart ha hb).1.1 h)⟩

end Chronicle
