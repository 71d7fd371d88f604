import Chronicle.Chain
import Chronicle.Failure
import Chronicle.Ledger.BlockLog

/-!
# Ledgers

A ledger appends to a log one block for each attempt to store a value, and keeps at
hand what the next block needs: its index, the hash of the block before, and when
that was made. A block that the log refuses leaves the ledger as it was.

Somebody who breaks down while holding the tail of the ledger poisons it: from then
on nobody gets at the tail. That happens when the last timestamp is the greatest one
and the clock is not ahead of it.

* `Tail.ofBlocks_append`: the tail of a longer log from the tail of a shorter one.
-/

namespace Chronicle

namespace Ledger

/-- What the next block needs to know, and a count. -/
structure Tail where
  /-- The number of blocks. -/
  nextIndex : Nat
  /-- The stored hash of the last block, the zero digest if there is none. -/
  head : Digest
  /-- When the last block was made. -/
  lastStamp : Timestamp
  /-- How many blocks record a success. -/
  succeeded : Nat
deriving DecidableEq

namespace Tail

/-- The tail of an empty log. -/
def empty : Tail := ⟨0, Digest.zero, Timestamp.zero, 0⟩

/-- The tail with one more block. -/
def push (t : Tail) (b : Block) : Tail :=
  ⟨t.nextIndex + 1, b.hash, b.stamp, t.succeeded + if b.succeeded then 1 else 0⟩

/-- The tail that a list of blocks determines. -/
def ofBlocks (bs : List Block) : Tail :=
  match bs.getLast? with
  | none => empty
  | some last => ⟨bs.length, last.hash, last.stamp, bs.countP (·.succeeded)⟩

theorem nextIndex_ofBlocks (bs : List Block) : (ofBlocks bs).nextIndex = bs.length := by
  unfold ofBlocks
  split
  · next h => simp [List.getLast?_eq_none_iff.1 h, empty]
  · rfl

theorem succeeded_ofBlocks (bs : List Block) :
    (ofBlocks bs).succeeded = bs.countP (·.succeeded) := by
  unfold ofBlocks
  split
  · next h => simp [List.getLast?_eq_none_iff.1 h, empty]
  · rfl

theorem ofBlocks_append (bs : List Block) (b : Block) :
    ofBlocks (bs ++ [b]) = (ofBlocks bs).push b := by
  have h : ofBlocks (bs ++ [b]) =
      ⟨bs.length + 1, b.hash, b.stamp,
        bs.countP (·.succeeded) + if b.succeeded then 1 else 0⟩ := by
    simp [ofBlocks, List.countP_append, List.countP_cons]
  rw [h, push, nextIndex_ofBlocks, succeeded_ofBlocks]

end Tail

/-- Switches with which the log below a ledger can be cut off from it (`RefusingLog`,
and a log that miscounts). -/
structure Faults where
  /-- Appends are refused. -/
  append : Bool := false
  /-- Reads are refused. -/
  read : Bool := false
  /-- Flushes are refused. -/
  flush : Bool := false
  /-- What is added to the length that the log reports. -/
  extraLength : Int := 0
deriving DecidableEq, Repr

/-- What verification found (`VerifyReport`). -/
structure Verdict where
  /-- The first block that is wrong or missing. -/
  first : Option Nat
  /-- How many blocks there should be. -/
  checked : Nat
deriving DecidableEq, Repr

/-- Every block is there and right. -/
def Verdict.ok (v : Verdict) : Bool := v.first.isNone

/-- The error of a log that is cut off. -/
def detached : Error := .unavailable "disk detached"

end Ledger

/-- A ledger (`IntegrityLedger`). -/
structure Ledger where
  /-- Where the blocks are. -/
  log : Ledger.BlockLog
  /-- How the log is cut off. -/
  faults : Ledger.Faults
  /-- What the next block needs to know. -/
  tail : Ledger.Tail
  /-- Somebody broke down while holding the tail (a poisoned lock). -/
  poisoned : Bool
deriving DecidableEq

namespace Ledger

/-! ## The log as the ledger sees it -/

/-- The length that the log reports. -/
def reportedLength (log : BlockLog) (faults : Faults) : Nat :=
  ((log.length : Int) + faults.extraLength).toNat

/-- The blocks that the log reads. -/
def readLog (log : BlockLog) (faults : Faults) (start stop : Nat) (d : Disk) :
    Except Error (List Block) :=
  if faults.read then .error detached else log.readRange start stop d

/-- A ledger over a log that may hold blocks (`open`). The blocks are not verified. -/
def openOver (log : BlockLog) (faults : Faults) (d : Disk) : Except Error Ledger :=
  let length := reportedLength log faults
  match readLog log faults 0 length d with
  | .error e => .error e
  | .ok bs =>
    if bs.length ≠ length then
      .error (.corruptEntry bs.length (.missing length bs.length))
    else .ok ⟨log, faults, Tail.ofBlocks bs, false⟩

/-- An empty ledger in memory. -/
def inMemory : Ledger := ⟨.memory [], {}, Tail.empty, false⟩

/-! ## Appending -/

/-- The next block, `none` if no timestamp is left. -/
def nextBlock? (t : Tail) (now : Timestamp) (payload : Digest)
    (acks : UInt32) : Option Block :=
  (Timestamp.nextAfter now t.lastStamp).map fun stamp =>
    Block.sealed (UInt64.ofNat t.nextIndex) t.head payload stamp acks

/-- Appends a block (`append_block`). A caller for whom success means anything else
than an acknowledgement breaks down before it touches the ledger; one who finds no
timestamp left breaks down while holding the tail. -/
def append (l : Ledger) (now : Timestamp) (payload : Digest) (succeeded : Bool)
    (acks : UInt32) (d : Disk) :
    Except (Failure Error) Block × Ledger × Disk :=
  if succeeded ≠ decide (1 ≤ acks) then (.error .breakdown, l, d)
  else if l.poisoned then (.error (.error .poisoned), l, d)
  else
    match nextBlock? l.tail now payload acks with
    | none => (.error .breakdown, { l with poisoned := true }, d)
    | some b =>
      if l.faults.append then (.error (.error detached), l, d)
      else
        match l.log.append b d with
        | (.error e, log, d) => (.error (.error e), { l with log }, d)
        | (.ok (), log, d) => (.ok b, { l with log, tail := l.tail.push b }, d)

/-! ## Looking -/

/-- The tail, if nobody broke down while holding it. -/
def tail? (l : Ledger) : Except Error Tail :=
  if l.poisoned then .error .poisoned else .ok l.tail

/-- The number of blocks. -/
def length (l : Ledger) : Except Error Nat := l.tail?.map (·.nextIndex)

/-- The hash of the last block (`head_hash`). -/
def head (l : Ledger) : Except Error Digest := l.tail?.map (·.head)

/-- The number of blocks that record a success (`succeeded_count`). -/
def succeeded (l : Ledger) : Except Error Nat := l.tail?.map (·.succeeded)

/-- The first fault of the blocks that could be read of `length` ones. -/
def judge (length : Nat) (bs : List Block) : Verdict :=
  match Chain.firstDivergence bs with
  | some i => ⟨some i, length⟩
  | none => ⟨if bs.length < length then some bs.length else none, length⟩

/-- Verifies the blocks up to the present length (`verify_chain`). -/
def verify (l : Ledger) (d : Disk) : Except Error Verdict :=
  match l.tail? with
  | .error e => .error e
  | .ok t =>
    match readLog l.log l.faults 0 t.nextIndex d with
    | .error (.corruptEntry index _) => .ok ⟨some index, t.nextIndex⟩
    | .error e => .error e
    | .ok bs => .ok (judge t.nextIndex bs)

/-- The block with an index. -/
def block? (l : Ledger) (index : Nat) (d : Disk) : Except Error (Option Block) :=
  match l.tail? with
  | .error e => .error e
  | .ok t =>
    if t.nextIndex ≤ index then .ok none
    else (readLog l.log l.faults index (index + 1) d).map List.getLast?

/-- The blocks from `start` up to `stop`, as far as there are any. -/
def blocks (l : Ledger) (start stop : Nat) (d : Disk) : Except Error (List Block) :=
  match l.tail? with
  | .error e => .error e
  | .ok t =>
    let stop := min stop t.nextIndex
    readLog l.log l.faults (min start stop) stop d

/-- Forces the blocks to where they are kept. -/
def flush (l : Ledger) (d : Disk) : Except Error Unit × Disk :=
  if l.faults.flush then (.error detached, d) else l.log.flush d

/-- A ledger as descriptions show it. -/
def describe (l : Ledger) : String :=
  let length := match l.length with
    | .ok n => s!"Some({n})"
    | .error _ => "None"
  "IntegrityLedger \x7b len: " ++ length ++ " \x7d"

end Ledger

end Chronicle
