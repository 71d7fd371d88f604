import Chronicle.Bytes

/-!
# UTF-8 with located faults

`decode` reads a byte string as text. When it is not well-formed UTF-8 the fault says
where the first ill-formed sequence starts and how much of it can be told to be
wrong.

* `decode_ofText`: decoding undoes encoding.
-/

namespace Chronicle.Text.Utf8

/-- Why a byte string is not text. -/
inductive Fault where
  /-- The `length` bytes from `start` on begin no character. -/
  | invalid (length start : Nat)
  /-- The bytes from `start` on begin a character that the end of the input cuts off. -/
  | incomplete (start : Nat)
deriving DecidableEq, Repr

namespace Fault

/-- The fault in words. -/
def message : Fault → String
  | invalid n i => s!"invalid utf-8 sequence of {n} bytes from index {i}"
  | incomplete i => s!"incomplete utf-8 byte sequence from index {i}"

end Fault

/-- A byte that continues a sequence. -/
def isContinuation (b : UInt8) : Bool := 0x80 ≤ b && b ≤ 0xBF

/-- The bytes that may follow the first byte of a sequence of three or four: the
limits keep out overlong forms, surrogates and numbers past the last character. -/
def isSecond (first second : UInt8) : Bool :=
  if first == 0xE0 then 0xA0 ≤ second && second ≤ 0xBF
  else if first == 0xED then 0x80 ≤ second && second ≤ 0x9F
  else if first == 0xF0 then 0x90 ≤ second && second ≤ 0xBF
  else if first == 0xF4 then 0x80 ≤ second && second ≤ 0x8F
  else isContinuation second

/-- The length of the sequence that a first byte announces, 0 for a byte that starts
none. -/
def sequenceLength (first : UInt8) : Nat :=
  if first < 0x80 then 1
  else if 0xC2 ≤ first && first ≤ 0xDF then 2
  else if 0xE0 ≤ first && first ≤ 0xEF then 3
  else if 0xF0 ≤ first && first ≤ 0xF4 then 4
  else 0

/-- The first fault in the bytes, which start at position `pos`. -/
def fault? (pos : Nat) : Bytes → Option Fault
  | [] => none
  | a :: rest =>
    match sequenceLength a, rest with
    | 1, rest => fault? (pos + 1) rest
    | 2, [] => some (.incomplete pos)
    | 2, b :: rest =>
      if isContinuation b then fault? (pos + 2) rest else some (.invalid 1 pos)
    | 3, [] => some (.incomplete pos)
    | 3, [b] => some (if isSecond a b then .incomplete pos else .invalid 1 pos)
    | 3, b :: c :: rest =>
      if !isSecond a b then some (.invalid 1 pos)
      else if isContinuation c then fault? (pos + 3) rest else some (.invalid 2 pos)
    | 4, [] => some (.incomplete pos)
    | 4, [b] => some (if isSecond a b then .incomplete pos else .invalid 1 pos)
    | 4, [b, c] =>
      some (if !isSecond a b then .invalid 1 pos
        else if isContinuation c then .incomplete pos else .invalid 2 pos)
    | 4, b :: c :: d :: rest =>
      if !isSecond a b then some (.invalid 1 pos)
      else if !isContinuation c then some (.invalid 2 pos)
      else if isContinuation d then fault? (pos + 4) rest else some (.invalid 3 pos)
    | _, _ => some (.invalid 1 pos)

/-- The text with the given UTF-8 form, or the first fault. -/
def decode (bs : Bytes) : Except Fault String :=
  match Bytes.toText? bs with
  | some s => .ok s
  | none => .error ((fault? 0 bs).getD (.incomplete 0))

@[simp] theorem decode_ofText (s : String) : decode (Bytes.ofText s) = .ok s := by
  simp [decode]

end Chronicle.Text.Utf8
