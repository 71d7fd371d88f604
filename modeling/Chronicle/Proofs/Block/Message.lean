import Chronicle.Block

/-!
# What the hash of a block covers

The parts of a hashed message have fixed lengths, so the message can be cut up again
and every field is read off it. Two blocks with the same hash therefore agree in all
fields, or their messages are two byte strings that collide under the hash function.

* `BlockFields.message_inj`: the message determines the fields.
* `BlockFields.Collide.messages`: fields that differ and hash alike are a collision
  of the hash function.
-/

namespace Chronicle

namespace Bytes

/-- As far as `w` bytes go, a number is determined by its form. -/
theorem littleEndian_inj {w m n : Nat} (hm : m < capacity w) (hn : n < capacity w)
    (h : littleEndian w m = littleEndian w n) : m = n := by
  have hread := congrArg ofLittleEndian h
  rw [ofLittleEndian_littleEndian w m hm, ofLittleEndian_littleEndian w n hn] at hread
  exact hread

theorem ofUInt64_inj {m n : UInt64} (h : ofUInt64 m = ofUInt64 n) : m = n := by
  have hc : capacity 8 = 2 ^ 64 := rfl
  apply UInt64.toNat_inj.1
  exact littleEndian_inj (hc ▸ m.toNat_lt) (hc ▸ n.toNat_lt) h

theorem ofUInt32_inj {m n : UInt32} (h : ofUInt32 m = ofUInt32 n) : m = n := by
  have hc : capacity 4 = 2 ^ 32 := rfl
  apply UInt32.toNat_inj.1
  exact littleEndian_inj (hc ▸ m.toNat_lt) (hc ▸ n.toNat_lt) h

end Bytes

namespace Digest

@[simp] theorem length_bytes (d : Digest) : d.bytes.length = 32 := d.size_eq

theorem bytes_inj {a b : Digest} (h : a.bytes = b.bytes) : a = b := by
  cases a
  cases b
  subst h
  rfl

end Digest

namespace Timestamp

theorem bytes_inj {a b : Timestamp} (h : a.bytes = b.bytes) : a = b := by
  obtain ⟨hms, hlogical⟩ := List.append_inj h (by simp)
  cases a
  cases b
  simp only at hms hlogical
  rw [Bytes.ofUInt64_inj hms, Bytes.ofUInt32_inj hlogical]

end Timestamp

namespace BlockFields

/-- The byte for success or failure says which of them it is. -/
private theorem flag_inj {a b : Bool}
    (h : (if a then (1 : UInt8) else 0) = if b then 1 else 0) : a = b := by
  cases a <;> cases b <;> simp at h ⊢

/-- The message determines the fields. -/
theorem message_inj {f g : BlockFields} (h : f.message = g.message) : f = g := by
  -- Cut the parts off one by one: each has the same length on both sides.
  have hparts : f.parts.flatten = g.parts.flatten := List.append_cancel_left h
  simp only [parts, List.flatten_cons, List.flatten_nil, List.append_nil] at hparts
  obtain ⟨hindex, hparts⟩ := List.append_inj hparts (by simp)
  obtain ⟨hprev, hparts⟩ := List.append_inj hparts (by simp)
  obtain ⟨hpayload, hparts⟩ := List.append_inj hparts (by simp)
  obtain ⟨hstamp, hparts⟩ := List.append_inj hparts (by simp)
  obtain ⟨hflag, hacks⟩ := List.append_inj hparts (by simp)
  have hsucceeded : f.succeeded = g.succeeded := flag_inj (List.cons.inj hflag).1
  cases f
  cases g
  simp only at hindex hprev hpayload hstamp hsucceeded hacks
  rw [Bytes.ofUInt64_inj hindex, Digest.bytes_inj hprev, Digest.bytes_inj hpayload,
    Timestamp.bytes_inj hstamp, hsucceeded, Bytes.ofUInt32_inj hacks]

/-- The fields differ and have the same hash. -/
def Collide (f g : BlockFields) : Prop := f ≠ g ∧ f.digest = g.digest

instance (f g : BlockFields) : Decidable (Collide f g) :=
  inferInstanceAs (Decidable (f ≠ g ∧ f.digest = g.digest))

/-- Fields that collide show two different messages with one hash. -/
theorem Collide.messages {f g : BlockFields} (h : Collide f g) :
    f.message ≠ g.message ∧ Hash.Blake3.hash f.message = Hash.Blake3.hash g.message :=
  ⟨fun hm => h.1 (message_inj hm), h.2⟩

end BlockFields

end Chronicle
