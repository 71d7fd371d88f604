/-!
# Byte strings

`Bytes` is what hashes, frames, files and records are made of. Fixed-width numbers
are written least significant byte first.

* `littleEndian w n` is the `w`-byte form of `n`, and `ofLittleEndian` reads such a
  form back: `ofLittleEndian_littleEndian` says that they agree below `capacity w`.
* `ofText` is the UTF-8 form of a text; `ofText_inj` says that a text is determined
  by it.
-/

namespace Chronicle

/-- A finite sequence of bytes. -/
abbrev Bytes := List UInt8

namespace Bytes

/-! ## Numbers -/

/-- The `w` low bytes of `n`, least significant first. -/
def littleEndian : Nat → Nat → Bytes
  | 0, _ => []
  | w + 1, n => UInt8.ofNat n :: littleEndian w (n / 256)

/-- The number whose bytes are given, least significant first. -/
def ofLittleEndian : Bytes → Nat
  | [] => 0
  | b :: bs => b.toNat + 256 * ofLittleEndian bs

/-- How many numbers `w` bytes can tell apart. -/
def capacity : Nat → Nat
  | 0 => 1
  | w + 1 => 256 * capacity w

@[simp] theorem length_littleEndian (w n : Nat) : (littleEndian w n).length = w := by
  induction w generalizing n with
  | zero => rfl
  | succ w ih => simp [littleEndian, ih]

theorem ofLittleEndian_lt (bs : Bytes) : ofLittleEndian bs < capacity bs.length := by
  induction bs with
  | nil => exact Nat.zero_lt_one
  | cons b bs ih =>
    have hb : b.toNat < 256 := b.toNat_lt
    rw [ofLittleEndian, List.length_cons, capacity]
    omega

/-- Reading the `w`-byte form gives the number back, as far as `w` bytes can hold it. -/
theorem ofLittleEndian_littleEndian (w n : Nat) (h : n < capacity w) :
    ofLittleEndian (littleEndian w n) = n := by
  induction w generalizing n with
  | zero =>
    have hn : n = 0 := Nat.lt_one_iff.1 h
    subst hn
    rfl
  | succ w ih =>
    have hs : n / 256 < capacity w := by
      rw [capacity] at h
      omega
    rw [littleEndian, ofLittleEndian, ih _ hs, UInt8.toNat_ofNat']
    omega

/-- A 64-bit word in eight bytes. -/
def ofUInt64 (n : UInt64) : Bytes := littleEndian 8 n.toNat

/-- A 32-bit word in four bytes. -/
def ofUInt32 (n : UInt32) : Bytes := littleEndian 4 n.toNat

@[simp] theorem length_ofUInt64 (n : UInt64) : (ofUInt64 n).length = 8 :=
  length_littleEndian 8 _

@[simp] theorem length_ofUInt32 (n : UInt32) : (ofUInt32 n).length = 4 :=
  length_littleEndian 4 _

/-! ## Texts -/

/-- The UTF-8 form of a text. -/
def ofText (s : String) : Bytes := s.toUTF8.data.toList

/-- The text with the given UTF-8 form, if there is one. -/
def toText? (bs : Bytes) : Option String := String.fromUTF8? ⟨bs.toArray⟩

@[simp] theorem toText?_ofText (s : String) : toText? (ofText s) = some s := by
  have h : (⟨(ofText s).toArray⟩ : ByteArray) = s.toByteArray := by
    simp [ofText]
  rw [toText?, h, String.fromUTF8?, dif_pos s.isValidUTF8]
  rfl

theorem ofText_inj {s t : String} (h : ofText s = ofText t) : s = t := by
  have := congrArg toText? h
  simpa using this

end Bytes

end Chronicle
