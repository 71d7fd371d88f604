import Chronicle.Compressed.Part
import Chronicle.Compression

/-!
# Compressed data

The compression that programs run with: `encode` stores everything as it is, in one
frame that declares no size.

Data are decoded in portions of a fixed size. A small frame that lies within one
portion must hold as many bytes as it declares. Every other frame passes through a
buffer that is made as large as its header asks for and is kept for the parts after
it.

* `decode?_encode`: decoding undoes encoding.
-/

namespace Chronicle.Compressed

/-- The greatest number of bytes in a block. -/
def blockLimit : Nat := 1 <<< 17

/-! ## Encoding -/

/-- Blocks that hold the bytes as they are; the fuel bounds their number. -/
def storedBlocks : Nat → Bytes → Bytes
  | 0, _ => []
  | fuel + 1, bs =>
    let rest := bs.drop blockLimit
    let last := if rest.isEmpty then 1 else 0
    Bytes.littleEndian 3 ((bs.take blockLimit).length * 8 + last) ++
      (bs.take blockLimit ++ (if rest.isEmpty then [] else storedBlocks fuel rest))

/-- The header of a frame that declares no size and a window of one block. -/
def plainHeader : Bytes := [0x00, 0x38]

/-- One frame with the bytes as they are. -/
def encode (bs : Bytes) : Bytes :=
  Bytes.littleEndian 4 magic ++ (plainHeader ++ storedBlocks (bs.length + 1) bs)

/-! ## Decoding -/

/-- Compressed data come in portions of this size: a block with its header. -/
def portion : Nat := blockLimit + 3

/-- The greatest window that is accepted. -/
def windowLimit : Nat := (1 <<< 27) + 1

/-- The smallest window that is made. -/
def leastWindow : Nat := 1 <<< 10

/-- A frame that declares no more bytes than this may be decoded at once. -/
def atOnceLimit : Nat := 1 <<< 13

/-- What blocks hold. -/
def contents (blocks : List Block) : Bytes := blocks.flatMap Block.content

/-- The greatest number of bytes in a block of the frame. -/
def Header.pieceLimit (h : Header) : Nat := min h.window blockLimit

/-- The sizes of the buffers through which frames pass, for what is read and for what
is decoded. -/
structure Buffers where
  input : Nat := 0
  output : Nat := 0
deriving DecidableEq

/-- The buffers for a part with a window and blocks of at most `piece` bytes that
declares a size or none. New ones are made if one is too small. A buffer that cannot
hold all that is declared holds the window, two blocks and some spare bytes. -/
def Buffers.fit (b : Buffers) (window piece : Nat) (size : Option Nat) : Buffers :=
  let ring := window + 2 * min (min window blockLimit) piece + 64
  let fresh : Buffers := ⟨max piece 4, (size.map (min · ring)).getD ring⟩
  if b.input < fresh.input ∨ b.output < fresh.output then fresh else b

/-- The block may pass through the buffers of a frame. -/
def passes (h : Header) (b : Block) : Bool :=
  b.content.length ≤ h.pieceLimit && b.body ≤ h.pieceLimit

/-- A frame that is declared to fit in the output buffer does, and one whose last
block takes some bytes has the size that it declares. -/
def admits (h : Header) (blocks : List Block) (output : Nat) : Bool :=
  h.size.all fun size => (output < size || (contents blocks).length ≤ output) &&
    (blocks.getLast?.all (·.body = 0) || (contents blocks).length = size)

/-- What a part at a position of the data holds, and the buffers after it. -/
def Part.content? (position : Nat) (b : Buffers) : Part → Option (Bytes × Buffers)
  | skip size => some ([], b.fit leastWindow 0 (some size))
  | early _ blocks => some (contents blocks, b)
  | p@(frame h blocks) =>
    if h.size.any (· ≤ atOnceLimit) && position % portion + p.span ≤ portion then
      if h.size = some (contents blocks).length then some (contents blocks, b) else none
    else
      let window := max h.window leastWindow
      let b := b.fit window h.pieceLimit h.size
      if window ≤ windowLimit ∧ blocks.all (passes h) ∧ admits h blocks b.output then
        some (contents blocks, b)
      else none

/-- What parts hold, the first of them being at a position. -/
def contents? (position : Nat) (b : Buffers) : List Part → Option Bytes
  | [] => some []
  | p :: ps => do
    let (content, b) ← p.content? position b
    let more ← contents? (position + p.span) b ps
    return content ++ more

/-- The content of compressed data: at least one part, and nothing after the last. -/
def decode? (s : Bytes) : Option Bytes :=
  (parts? (s.length + 1) s).bind (contents? 0 {})

/-! ## Decoding undoes encoding -/

/-- What the header of `encode` says. -/
def plain : Header := ⟨blockLimit, none, false, 6⟩

theorem blocks?_stored (fuel : Nat) (bs rest : Bytes) (last : Bool)
    (h : bs.length ≤ blockLimit) :
    blocks? (fuel + 1) (Bytes.littleEndian 3 (bs.length * 8 + if last then 1 else 0) ++
        (bs ++ rest)) =
      if last then some ([⟨bs, bs.length⟩], rest)
      else (blocks? fuel rest).map fun (more, s) => (⟨bs, bs.length⟩ :: more, s) := by
  have hb : blockLimit = 131072 := rfl
  have hc : Bytes.capacity 3 = 16777216 := rfl
  have hlast : (if last then 1 else 0) < 2 := by cases last <;> decide
  have hsize : (bs.length * 8 + if last then 1 else 0) / 8 = bs.length := by omega
  have hkind : (bs.length * 8 + if last then 1 else 0) / 2 % 4 = 0 := by omega
  have hend : (bs.length * 8 + if last then 1 else 0) % 2 = if last then 1 else 0 := by
    omega
  have hstored : stored? bs.length (bs ++ rest) = some (⟨bs, bs.length⟩, rest) := by
    rw [stored?, List.take_left, List.drop_left, if_pos rfl]
  rw [blocks?, number?_littleEndian 3 _ _ (by omega)]
  simp only [hsize, hkind, hend, hstored, Option.bind_eq_bind, Option.bind_some]
  cases last with
  | true => rfl
  | false => cases blocks? fuel rest <;> rfl

theorem blocks?_storedBlocks (fuel room : Nat) (bs : Bytes) (hf : bs.length < fuel)
    (hr : bs.length < room) :
    ∃ blocks, blocks? room (storedBlocks fuel bs) = some (blocks, []) ∧
      contents blocks = bs ∧
      blocks.all (passes plain) = true := by
  induction fuel generalizing bs room with
  | zero => omega
  | succ fuel ih =>
    obtain ⟨room, rfl⟩ : ∃ r, room = r + 1 := ⟨room - 1, by omega⟩
    have ht : (bs.take blockLimit).length ≤ blockLimit := List.length_take_le _ _
    have hpass : passes plain ⟨bs.take blockLimit, (bs.take blockLimit).length⟩ =
        true := by
      simp [passes, Header.pieceLimit, plain, Nat.min_le_left]
    have hpos : 0 < blockLimit := by decide
    rw [storedBlocks]
    by_cases hrest : (bs.drop blockLimit).isEmpty
    · have hall : bs.take blockLimit = bs :=
        List.take_of_length_le (by simpa using hrest)
      have hread := blocks?_stored room (bs.take blockLimit) [] true ht
      simp only [hrest, if_true] at hread ⊢
      exact ⟨_, hread, by simp [contents, hall], by simpa using hpass⟩
    · have hlen : blockLimit < bs.length := by simpa using hrest
      have hread := blocks?_stored room (bs.take blockLimit)
        (storedBlocks fuel (bs.drop blockLimit)) false ht
      obtain ⟨blocks, hb, hc, ha⟩ := ih room (bs.drop blockLimit)
        (by rw [List.length_drop]; omega) (by rw [List.length_drop]; omega)
      simp only [hrest, if_false, Bool.false_eq_true, hb, Option.map_some] at hread ⊢
      refine ⟨_, hread, ?_, ?_⟩
      · rw [contents, List.flatMap_cons, ← contents, hc, List.take_append_drop]
      · rw [List.all_cons, hpass, ha]
        rfl

theorem length_le_storedBlocks (fuel : Nat) (bs : Bytes) (hf : bs.length < fuel) :
    bs.length ≤ (storedBlocks fuel bs).length := by
  induction fuel generalizing bs with
  | zero => omega
  | succ fuel ih =>
    rw [storedBlocks]
    have hpos : 0 < blockLimit := by decide
    by_cases hrest : (bs.drop blockLimit).isEmpty
    · have hall : bs.take blockLimit = bs :=
        List.take_of_length_le (by simpa using hrest)
      rw [hall, List.length_append, List.length_append]
      omega
    · have hlen : blockLimit < bs.length := by simpa using hrest
      have := ih (bs.drop blockLimit) (by rw [List.length_drop]; omega)
      simp only [hrest, List.length_append, List.length_take] at this ⊢
      rw [List.length_drop] at this
      simp only [Bool.false_eq_true, if_false, Nat.min_eq_left (Nat.le_of_lt hlen)]
      omega

theorem header?_plainHeader (rest : Bytes) :
    header? (plainHeader ++ rest) = some (plain, rest) := by
  have h1 : number? 1 (plainHeader ++ rest) = some (0, 0x38 :: rest) := rfl
  have h2 : window? false (0x38 :: rest) = some (blockLimit, rest) := by
    have hnumber : number? 1 (0x38 :: rest) = some (56, rest) := rfl
    rw [window?, hnumber]
    rfl
  have h3 : number? 0 rest = some (0, rest) := rfl
  simp [header?, h1, h2, h3, sizeWidth, plain]

theorem decode?_encode (bs : Bytes) : decode? (encode bs) = some bs := by
  have hlen : bs.length < (encode bs).length := by
    have := length_le_storedBlocks (bs.length + 1) bs (Nat.lt_succ_self _)
    simp only [encode, plainHeader, List.length_append, Bytes.length_littleEndian,
      List.length_cons, List.length_nil]
    omega
  obtain ⟨blocks, hblocks, hcontents, hpasses⟩ :=
    blocks?_storedBlocks (bs.length + 1) (encode bs).length bs
    (Nat.lt_succ_self _) hlen
  have hpart : part? (encode bs).length (encode bs) =
      some (.frame plain blocks, []) := by
    generalize (encode bs).length = fuel at hblocks
    rw [part?, encode, number?_littleEndian 4 magic _ (by decide)]
    simp [header?_plainHeader, hblocks, plain]
  have hwindow : max plain.window leastWindow ≤ windowLimit := by decide
  have hsize : plain.size = none := rfl
  have hcontent : Part.content? 0 {} (.frame plain blocks) =
      some (bs, Buffers.fit {} (max plain.window leastWindow)
        plain.pieceLimit none) := by
    simp only [Part.content?, hsize, Option.any_none, Bool.false_and,
      Bool.false_eq_true, if_false, admits, Option.all_none, and_true, hcontents]
    rw [if_pos ⟨hwindow, hpasses⟩]
  simp [decode?, parts?, hpart, contents?, hcontent]

instance : Compression :=
  ⟨encode, decode?, decode?_encode, fun _ => List.cons_ne_nil _ _⟩

end Chronicle.Compressed
