import Chronicle.Node
import Chronicle.Proofs.Text.Ascii

/-!
# Reading binary forms back

A reader takes a value off the front of its written form and leaves the rest. Readers
one after the other read written forms one after the other, so records and nodes are
read back field by field. The only numbers that can be too great for their bytes are
the lengths of texts and byte strings.

* `Reads.bind`: readers in sequence.
* `Record.reads_reader`, `Node.reads_reader`: what was written is read.
-/

namespace Chronicle

namespace Binary

variable {α β : Type}

/-- The reader takes the value off the front of the written form and leaves what
follows. -/
def Reads (reader : Reader α) (written : Bytes) (a : α) : Prop :=
  ∀ rest, reader (written ++ rest) = .ok (a, rest)

theorem Reads.bind {x : Reader α} {f : α → Reader β} {w v : Bytes} {a : α} {b : β}
    (hx : Reads x w a) (hf : Reads (f a) v b) : Reads (x >>= f) (w ++ v) b := by
  intro rest
  show (x (w ++ v ++ rest) >>= fun p => f p.1 p.2) = _
  rw [List.append_assoc, hx]
  exact hf rest

/-- A reader that has nothing left to take may still look at what it has. -/
theorem Reads.check {x : Reader α} {f : α → Reader β} {w : Bytes} {a : α} {b : β}
    (hx : Reads x w a) (hf : f a = pure b) : Reads (x >>= f) w b := by
  intro rest
  show (x (w ++ rest) >>= fun p => f p.1 p.2) = _
  rw [hx]
  show f a rest = _
  rw [hf]
  rfl

theorem Reads.map {x : Reader α} {w : Bytes} {a : α} (hx : Reads x w a) (f : α → β) :
    Reads (x >>= fun a => pure (f a)) w (f a) := hx.check rfl

theorem Reads.run_append {x : Reader α} {w : Bytes} {a : α} (hx : Reads x w a)
    (more : Bytes) :
    x.run' (w ++ more) = .ok a := by
  show (·.1) <$> x (w ++ more) = _
  rw [hx more]
  rfl

theorem Reads.run {x : Reader α} {w : Bytes} {a : α} (hx : Reads x w a) :
    x.run' w = .ok a := by
  have h := hx.run_append []
  rwa [List.append_nil] at h

/-! ## Fields -/

theorem reads_take {bs : Bytes} {n : Nat} (h : bs.length = n) (fault : Fault) :
    Reads (take n fault) bs bs := by
  intro rest
  subst h
  rw [take, List.take_left, List.drop_left, if_pos rfl]

theorem reads_tag (b : UInt8) (fault : Fault) : Reads (take 1 fault) [b] [b] :=
  reads_take List.length_singleton fault

theorem reads_uint64 (n : UInt64) : Reads uint64 (Bytes.ofUInt64 n) n := by
  have h := (reads_take (Bytes.length_ofUInt64 n) .endOfInput).map fun bs =>
    UInt64.ofNat (Bytes.ofLittleEndian bs)
  have hn : Bytes.ofLittleEndian (Bytes.ofUInt64 n) = n.toNat :=
    Bytes.ofLittleEndian_littleEndian 8 _ n.toNat_lt
  rwa [hn, UInt64.ofNat_toNat] at h

theorem reads_uint32 (n : UInt32) : Reads uint32 (Bytes.ofUInt32 n) n := by
  have h := (reads_take (Bytes.length_ofUInt32 n) .endOfInput).map fun bs =>
    UInt32.ofNat (Bytes.ofLittleEndian bs)
  have hn : Bytes.ofLittleEndian (Bytes.ofUInt32 n) = n.toNat :=
    Bytes.ofLittleEndian_littleEndian 4 _ n.toNat_lt
  rwa [hn, UInt32.ofNat_toNat] at h

/-- A length that has room in eight bytes is read as it is. -/
theorem toNat_length {bs : Bytes} (h : bs.length < UInt64.size) :
    bs.length = (UInt64.ofNat bs.length).toNat :=
  (UInt64.toNat_ofNat_of_lt' h).symm

theorem reads_bytes {bs : Bytes} (h : bs.length < UInt64.size) :
    Reads bytes (ofBytes bs) bs :=
  (reads_uint64 _).bind (reads_take (toNat_length h) _)

theorem reads_text {s : String} (h : (Bytes.ofText s).length < UInt64.size) :
    Reads text (ofText s) s := by
  refine (reads_uint64 _).bind ((reads_take (toNat_length h) .cutText).check ?_)
  simp only [Text.Utf8.decode_ofText]

theorem length_toHex (d : Digest) : (Bytes.ofText d.toHex).length = 64 := by
  rw [Digest.toHex, Text.Hex.ofText_toText, Text.Hex.length_encode, d.size_eq]

theorem reads_digest (d : Digest) : Reads digest (ofDigest d) d := by
  have htext : Reads text (ofText d.toHex) d.toHex :=
    reads_text (by rw [length_toHex]; decide)
  refine htext.check ?_
  simp only [Digest.ofHex_toHex]

theorem reads_timestamp (t : Timestamp) : Reads timestamp t.bytes t :=
  (reads_uint64 t.unixMs).bind ((reads_uint32 t.logical).map _)

@[simp] theorem length_ofBytes (bs : Bytes) : (ofBytes bs).length = 8 + bs.length := by
  rw [ofBytes, List.length_append, Bytes.length_ofUInt64]

@[simp] theorem length_ofText (s : String) :
    (ofText s).length = 8 + (Bytes.ofText s).length :=
  length_ofBytes _

@[simp] theorem length_ofDigest (d : Digest) : (ofDigest d).length = 72 := by
  rw [ofDigest, length_ofText, length_toHex]

end Binary

open Binary

/-! ## Records and nodes -/

theorem Record.length_toBinary (r : Record) :
    r.toBinary.length = (Bytes.ofText r.kind).length + (Bytes.ofText r.key).length +
      r.value.length + 108 := by
  simp only [toBinary, List.length_append, length_ofText, length_ofBytes,
    length_ofDigest, Timestamp.length_bytes]
  omega

/-- The lengths that the form of the record tells have room in their eight bytes, as
the length of anything in memory has. -/
structure Record.Sized (r : Record) : Prop where
  kind : (Bytes.ofText r.kind).length < UInt64.size
  key : (Bytes.ofText r.key).length < UInt64.size
  value : r.value.length < UInt64.size

theorem Record.reads_of_sized {r : Record} (h : r.Sized) :
    Reads reader r.toBinary r := by
  rw [toBinary, List.append_assoc, List.append_assoc, List.append_assoc]
  exact (reads_text h.kind).bind ((reads_text h.key).bind ((reads_bytes h.value).bind
    ((reads_digest _).bind ((reads_timestamp _).map _))))

theorem Record.sized_of_length {r : Record}
    (h : r.toBinary.length < UInt64.size) : r.Sized := by
  rw [length_toBinary] at h
  exact ⟨by omega, by omega, by omega⟩

theorem Record.reads_reader {r : Record} (h : r.toBinary.length < UInt64.size) :
    Reads reader r.toBinary r :=
  reads_of_sized (sized_of_length h)

theorem Record.ofBinary_toBinary {r : Record} (h : r.toBinary.length < UInt64.size) :
    Record.ofBinary r.toBinary = .ok r := (reads_reader h).run

theorem Node.length_toBinary (n : Node) :
    n.toBinary.length = n.record.toBinary.length + 144 := by
  simp only [toBinary, List.length_append, length_ofDigest]

theorem Node.reads_of_sized {n : Node} (h : n.record.Sized) :
    Reads reader n.toBinary n := by
  rw [toBinary, List.append_assoc]
  exact (Record.reads_of_sized h).bind ((reads_digest _).bind ((reads_digest _).map _))

theorem Node.reads_reader {n : Node} (h : n.toBinary.length < UInt64.size) :
    Reads reader n.toBinary n := by
  rw [length_toBinary] at h
  exact reads_of_sized (Record.sized_of_length (by omega))

theorem Node.ofBinary_toBinary {n : Node} (h : n.toBinary.length < UInt64.size) :
    Node.ofBinary n.toBinary = .ok n := (reads_reader h).run

end Chronicle
