import Chronicle.Bytes
import Chronicle.Text.Quoted

/-!
# Hexadecimal text

Two digits a byte, high half first. Writing uses lower case; reading takes either case.

* `decode_encode`: reading the digits of a byte string gives it back.
* `length_encode`: there are twice as many digits as bytes.
-/

namespace Chronicle.Text.Hex

/-- Why a text is no hexadecimal form of bytes. -/
inductive Fault where
  /-- The number of digits is odd. -/
  | oddLength
  /-- The byte at the position is no digit, and every byte before it is one. -/
  | badDigit (byte : UInt8) (position : Nat)
deriving DecidableEq, Repr

namespace Fault

/-- The fault in words; a byte is shown as the character with its number. -/
def message : Fault → String
  | oddLength => "Odd number of digits"
  | badDigit b i =>
    s!"Invalid character {quotedChar (Char.ofNat b.toNat)} at position {i}"

end Fault

/-- The ASCII digit for a number below 16. -/
def digit (n : Nat) : UInt8 := UInt8.ofNat (if n < 10 then 0x30 + n else 0x57 + n)

/-- The number that an ASCII digit stands for. -/
def digitValue? (b : UInt8) : Option Nat :=
  if 0x30 ≤ b && b ≤ 0x39 then some (b.toNat - 0x30)
  else if 0x61 ≤ b && b ≤ 0x66 then some (b.toNat - 0x57)
  else if 0x41 ≤ b && b ≤ 0x46 then some (b.toNat - 0x37)
  else none

/-- The digits of a byte string, as ASCII. -/
def encode (bs : Bytes) : Bytes :=
  bs.flatMap fun b => [digit (b.toNat / 16), digit (b.toNat % 16)]

/-- The digits of a byte string, as text. -/
def toText (bs : Bytes) : String :=
  String.ofList ((encode bs).map fun b => Char.ofNat b.toNat)

/-- The bytes that pairs of digits stand for; the first digit has the given position. -/
def pairs (position : Nat) : Bytes → Except Fault Bytes
  | a :: b :: rest =>
    match digitValue? a with
    | none => .error (.badDigit a position)
    | some hi =>
      match digitValue? b with
      | none => .error (.badDigit b (position + 1))
      | some lo =>
        match pairs (position + 2) rest with
        | .ok bs => .ok (UInt8.ofNat (16 * hi + lo) :: bs)
        | .error f => .error f
  | _ => .ok []

/-- The bytes that a hexadecimal form stands for. -/
def decode (s : Bytes) : Except Fault Bytes :=
  if s.length % 2 = 1 then .error .oddLength else pairs 0 s

/-- The bytes that a hexadecimal text stands for. -/
def ofText (s : String) : Except Fault Bytes := decode (Bytes.ofText s)

theorem digitValue?_digit {n : Nat} (h : n < 16) : digitValue? (digit n) = some n := by
  have key : ∀ m : Fin 16, digitValue? (digit m.val) = some m.val := by decide
  exact key ⟨n, h⟩

@[simp] theorem length_encode (bs : Bytes) : (encode bs).length = 2 * bs.length := by
  induction bs with
  | nil => rfl
  | cons b bs ih =>
    simp only [encode, List.flatMap_cons, List.length_append, List.length_cons,
      List.length_nil] at *
    omega

theorem pairs_encode (position : Nat) (bs : Bytes) :
    pairs position (encode bs) = .ok bs := by
  induction bs generalizing position with
  | nil => rfl
  | cons b bs ih =>
    have hb : b.toNat < 256 := b.toNat_lt
    have hv : UInt8.ofNat (16 * (b.toNat / 16) + b.toNat % 16) = b := by
      rw [Nat.div_add_mod, UInt8.ofNat_toNat]
    show pairs position (digit (b.toNat / 16) :: digit (b.toNat % 16) :: encode bs) = _
    rw [pairs, digitValue?_digit (by omega)]
    simp only [digitValue?_digit (show b.toNat % 16 < 16 by omega), ih, hv]

theorem decode_encode (bs : Bytes) : decode (encode bs) = .ok bs := by
  simp [decode, pairs_encode]

end Chronicle.Text.Hex
