import Chronicle.Digest

/-!
# The BLAKE3 hash function

The unkeyed hash with 32 bytes of output. The input is cut into chunks of 1024 bytes
and each chunk into blocks of 64; neighbouring subtrees are joined in pairs, level by
level, an odd last one going up unchanged, until one is left.
-/

namespace Chronicle.Hash.Blake3

/-- Eight words that carry the state from one block to the next. -/
abbrev Chain := Vector UInt32 8

/-- The sixteen words of a block, or of the state while it is mixed. -/
abbrev Words := Vector UInt32 16

/-- The state before the first block. -/
def initial : Chain :=
  #v[0x6A09E667, 0xBB67AE85, 0x3C6EF372, 0xA54FF53A, 0x510E527F, 0x9B05688C,
    0x1F83D9AB, 0x5BE0CD19]

/-- Marks the first block of a chunk. -/
def chunkStart : UInt32 := 1
/-- Marks the last block of a chunk. -/
def chunkEnd : UInt32 := 2
/-- Marks a block that joins two subtrees. -/
def parentFlag : UInt32 := 4
/-- Marks the last compression of all. -/
def rootFlag : UInt32 := 8

/-- A word turned right by `n` bits. -/
@[inline] def rotate (w n : UInt32) : UInt32 := (w >>> n) ||| (w <<< (32 - n))

/-- One quarter of a round: four words of the state take in two words of the block. -/
@[inline] def mix (s : Words) (a b c d : Fin 16) (x y : UInt32) : Words :=
  let wa := s[a] + s[b] + x
  let wd := rotate (s[d] ^^^ wa) 16
  let wc := s[c] + wd
  let wb := rotate (s[b] ^^^ wc) 12
  let wa := wa + wb + y
  let wd := rotate (wd ^^^ wa) 8
  let wc := wc + wd
  let wb := rotate (wb ^^^ wc) 7
  (((s.set a wa).set b wb).set c wc).set d wd

/-- One round: the columns of the state, then its diagonals. -/
def round (s m : Words) : Words :=
  let s := mix s 0 4 8 12 m[0] m[1]
  let s := mix s 1 5 9 13 m[2] m[3]
  let s := mix s 2 6 10 14 m[4] m[5]
  let s := mix s 3 7 11 15 m[6] m[7]
  let s := mix s 0 5 10 15 m[8] m[9]
  let s := mix s 1 6 11 12 m[10] m[11]
  let s := mix s 2 7 8 13 m[12] m[13]
  mix s 3 4 9 14 m[14] m[15]

/-- The order in which the next round takes the words of the block. -/
def permute (m : Words) : Words :=
  #v[m[2], m[6], m[3], m[10], m[7], m[0], m[4], m[13], m[1], m[11], m[12], m[5], m[9],
    m[14], m[15], m[8]]

/-- `n` rounds, the block permuted between them. -/
def rounds : Nat → Words → Words → Words
  | 0, s, _ => s
  | n + 1, s, m => rounds n (round s m) (permute m)

/-- One compression. -/
def compress (cv : Chain) (m : Words) (counter : UInt64)
    (length flags : UInt32) : Chain :=
  let s : Words :=
    #v[cv[0], cv[1], cv[2], cv[3], cv[4], cv[5], cv[6], cv[7], initial[0], initial[1],
      initial[2], initial[3],
      counter.toUInt32, (counter >>> 32).toUInt32, length, flags]
  let s := rounds 7 s m
  #v[s[0] ^^^ s[8], s[1] ^^^ s[9], s[2] ^^^ s[10], s[3] ^^^ s[11], s[4] ^^^ s[12],
    s[5] ^^^ s[13], s[6] ^^^ s[14], s[7] ^^^ s[15]]

/-- A compression that is still to be made: the last one of a chunk or subtree,
before it is known whether it is the last one of all. -/
structure Pending where
  /-- The state so far. -/
  chain : Chain
  /-- The block. -/
  block : Words
  /-- The number of the chunk. -/
  counter : UInt64
  /-- The number of bytes in the block. -/
  length : UInt32
  /-- The marks of the block. -/
  flags : UInt32

namespace Pending

/-- The state after the compression, with further marks. -/
def finish (p : Pending) (marks : UInt32) : Chain :=
  compress p.chain p.block p.counter p.length (p.flags ||| marks)

end Pending

/-- The words of a block; missing bytes count as zero. -/
def wordsOf (bs : Bytes) : Words :=
  let a := bs.toArray
  Vector.ofFn fun i : Fin 16 =>
    let byte (k : Nat) : UInt32 := (a.getD (4 * i.val + k) 0).toUInt32
    byte 0 ||| (byte 1 <<< 8) ||| (byte 2 <<< 16) ||| (byte 3 <<< 24)

/-- A byte string cut into pieces of `size` bytes, the last one possibly shorter, and
one empty piece for no bytes. The fuel is an upper bound for the number of cuts. -/
def pieces (size : Nat) : Nat → Bytes → List Bytes
  | 0, bs => [bs]
  | fuel + 1, bs =>
    match bs.drop size with
    | [] => [bs]
    | rest => bs.take size :: pieces size fuel rest

/-- The blocks of a chunk from one on: all but the last are compressed. -/
def blocks (cv : Chain) (counter : UInt64) (flags : UInt32) : List Bytes → Pending
  | [] => ⟨cv, wordsOf [], counter, 0, flags ||| chunkEnd⟩
  | [b] => ⟨cv, wordsOf b, counter, UInt32.ofNat b.length, flags ||| chunkEnd⟩
  | b :: rest =>
    blocks (compress cv (wordsOf b) counter (UInt32.ofNat b.length) flags)
      counter 0 rest

/-- A chunk, up to its last compression. -/
def chunk (counter : UInt64) (bs : Bytes) : Pending :=
  blocks initial counter chunkStart (pieces 64 16 bs)

/-- Chunks with their numbers. -/
def chunks (counter : UInt64) : List Bytes → List Pending
  | [] => []
  | c :: rest => chunk counter c :: chunks (counter + 1) rest

/-- The join of two neighbouring subtrees. -/
def join (left right : Pending) : Pending :=
  ⟨initial, (left.finish 0 ++ right.finish 0).cast (by decide), 0, 64, parentFlag⟩

/-- Neighbours joined in pairs. -/
def level : List Pending → List Pending
  | a :: b :: rest => join a b :: level rest
  | rest => rest

/-- One level after the other until one subtree is left; the fuel bounds the number
of levels. -/
def collapse : Nat → List Pending → Pending
  | 0, ps => ps.headD (chunk 0 [])
  | fuel + 1, ps =>
    match ps with
    | [] => chunk 0 []
    | [p] => p
    | ps => collapse fuel (level ps)

/-- The bytes of the eight words of a state. -/
def chainBytes (cv : Chain) : Bytes := cv.toList.flatMap Bytes.ofUInt32

theorem length_chainBytes (cv : Chain) : (chainBytes cv).length = 32 := by
  have key : ∀ ws : List UInt32, (ws.flatMap Bytes.ofUInt32).length =
      4 * ws.length := by
    intro ws
    induction ws with
    | nil => rfl
    | cons w ws ih =>
      rw [List.flatMap_cons, List.length_append, Bytes.length_ofUInt32, ih,
        List.length_cons]
      omega
  rw [chainBytes, key, Vector.length_toList]

/-- The hash of a byte string. -/
def hash (bs : Bytes) : Digest :=
  let parts := pieces 1024 (bs.length / 1024 + 1) bs
  ⟨chainBytes ((collapse parts.length (chunks 0 parts)).finish rootFlag),
    length_chainBytes _⟩

end Chronicle.Hash.Blake3
