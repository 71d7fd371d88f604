import Chronicle.Bytes

/-!
# The parts of compressed data

Zstandard data are parts one after the other. A part is a frame, that is a header and
blocks, or a number of bytes to skip. A block holds bytes as they are, or one byte
and a count; other blocks are not read. Frames of the last edition before the format
was settled are read, too.

* `number?_littleEndian`: a number is read back as it was written.
-/

namespace Chronicle.Compressed

/-- The next `n` bytes as a number, and what follows. -/
def number? (n : Nat) (s : Bytes) : Option (Nat × Bytes) :=
  if (s.take n).length = n then some (Bytes.ofLittleEndian (s.take n), s.drop n)
  else none

theorem number?_littleEndian (w n : Nat) (rest : Bytes) (h : n < Bytes.capacity w) :
    number? w (Bytes.littleEndian w n ++ rest) = some (n, rest) := by
  have hl : (Bytes.littleEndian w n).length = w := Bytes.length_littleEndian w n
  rw [number?, List.take_left' hl, List.drop_left' hl, if_pos hl,
    Bytes.ofLittleEndian_littleEndian w n h]

/-! ## Blocks -/

/-- A block. -/
structure Block where
  /-- What it holds. -/
  content : Bytes
  /-- The number of bytes that follow its header. -/
  body : Nat
deriving DecidableEq

/-- A block that holds the next `size` bytes as they are, and what follows. -/
def stored? (size : Nat) (s : Bytes) : Option (Block × Bytes) :=
  if (s.take size).length = size then some (⟨s.take size, size⟩, s.drop size) else none

/-- A block that holds the next byte `size` times, and what follows. -/
def repeated? (size : Nat) (s : Bytes) : Option (Block × Bytes) :=
  s.head?.map fun b => (⟨List.replicate size b, 1⟩, s.tail)

/-- The blocks of a frame and what follows the last one; the fuel bounds their
number. -/
def blocks? : Nat → Bytes → Option (List Block × Bytes)
  | 0, _ => none
  | fuel + 1, s => do
    let (head, s) ← number? 3 s
    let (b, s) ← match head / 2 % 4 with
      | 0 => stored? (head / 8) s
      | 1 => repeated? (head / 8) s
      | _ => none
    if head % 2 = 1 then return ([b], s)
    let (bs, s) ← blocks? fuel s
    return (b :: bs, s)

/-- The blocks of a frame of the early edition, whether a mark ends them, and what
follows; the fuel bounds their number. The size of a block stands with its most
significant byte first, and an empty block ends the frame, too. -/
def earlyBlocks? : Nat → Bytes → Option (List Block × Bool × Bytes)
  | fuel + 1, a :: b :: c :: s => do
    let size := a.toNat % 8 * 65536 + b.toNat * 256 + c.toNat
    if a.toNat / 64 = 3 then return ([], true, s)
    if a.toNat / 64 = 1 ∧ size = 0 then return ([], false, s)
    let (x, s) ← match a.toNat / 64 with
      | 1 => stored? size s
      | 2 => repeated? size s
      | _ => none
    let (xs, marked, s) ← earlyBlocks? fuel s
    return (x :: xs, marked, s)
  | _, _ => none

/-! ## Headers -/

/-- What the header of a frame says. -/
structure Header where
  /-- The greatest distance that the frame looks back; for a single segment its size. -/
  window : Nat
  /-- The number of bytes in the frame, if one is declared. -/
  size : Option Nat
  /-- A checksum follows the blocks. -/
  isChecked : Bool
  /-- The number of bytes that the header takes. -/
  span : Nat
deriving DecidableEq

/-- The window that a frame declares, 0 for one that is a single segment, and what
follows. -/
def window? (single : Bool) (s : Bytes) : Option (Nat × Bytes) := do
  if single then return (0, s)
  let (descriptor, s) ← number? 1 s
  let base := 1 <<< (10 + descriptor / 8)
  if 21 < descriptor / 8 then none else return (base + base / 8 * (descriptor % 8), s)

/-- The number of bytes of the declared size. -/
def sizeWidth (descriptor : Nat) (single : Bool) : Nat :=
  match descriptor / 64 with
  | 0 => if single then 1 else 0
  | k => 1 <<< k

/-- A header after the magic number. The greatest size stands for none. Frames that
need a dictionary or set the reserved bit are refused. -/
def header? (s : Bytes) : Option (Header × Bytes) := do
  let (descriptor, s) ← number? 1 s
  let single := descriptor / 32 % 2 == 1
  if descriptor / 8 % 2 = 1 then none
  let (window, s) ← window? single s
  let dictionaryWidth := (1 <<< (descriptor % 4)) / 2
  let (dictionary, s) ← number? dictionaryWidth s
  if dictionary ≠ 0 then none
  let width := sizeWidth descriptor single
  let (size, s) ← number? width s
  let size := if width = 2 then size + 256 else size
  return ({ window := if single then size else window
            size := if width = 0 ∨ size + 1 = UInt64.size then none else some size
            isChecked := descriptor / 4 % 2 == 1
            span := (if single then 5 else 6) + dictionaryWidth + width }, s)

/-! ## Parts -/

/-- The number that a frame begins with. -/
def magic : Nat := 0xFD2FB528

/-- The number that a frame of the early edition begins with. -/
def earlyMagic : Nat := 0xFD2FB527

/-- What the number that a part to skip begins with has above its last four bits. -/
def skipMagic : Nat := 0x184D2A5

/-- A part of compressed data. -/
inductive Part where
  /-- A frame. -/
  | frame (header : Header) (blocks : List Block)
  /-- A frame of the early edition. -/
  | early (header : Header) (blocks : List Block)
  /-- Some bytes to skip. -/
  | skip (size : Nat)
deriving DecidableEq

/-- The number of bytes that the part takes. -/
def Part.span : Part → Nat
  | frame header blocks => blocks.foldl (fun n b => n + 3 + b.body) header.span
  | early header blocks => blocks.foldl (fun n b => n + 3 + b.body) (header.span + 3)
  | skip size => 8 + size

/-- The part at the front of a byte string, and what follows it; the fuel bounds the
number of blocks. Checksums are not read. -/
def part? (fuel : Nat) (s : Bytes) : Option (Part × Bytes) := do
  let (m, s) ← number? 4 s
  if m = magic then
    let (header, s) ← header? s
    let (blocks, s) ← blocks? fuel s
    if header.isChecked then none else return (.frame header blocks, s)
  else if m = earlyMagic then
    let (header, s) ← header? s
    let (blocks, marked, s) ← earlyBlocks? fuel s
    if header.isChecked && marked then none else return (.early header blocks, s)
  else if m / 16 = skipMagic then
    let (size, s) ← number? 4 s
    if (s.take size).length < size then none else return (.skip size, s.drop size)
  else none

/-- The parts of a byte string, at least one; the fuel bounds their number. -/
def parts? : Nat → Bytes → Option (List Part)
  | 0, _ => none
  | fuel + 1, s => do
    let (p, rest) ← part? fuel s
    if rest.isEmpty then return [p]
    let ps ← parts? fuel rest
    return p :: ps

end Chronicle.Compressed
