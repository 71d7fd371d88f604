import Chronicle.Ledger.FileLog

/-!
# Block logs

Where the blocks of a ledger are kept: in memory or in a file. Both take a block only
if its index is the number of blocks that they hold.
-/

namespace Chronicle.Ledger

/-- A log of blocks. -/
inductive BlockLog where
  /-- Blocks in memory (`InMemoryBlockLog`). -/
  | memory (blocks : List Block)
  /-- Blocks in a file (`FileBlockLog`). -/
  | file (log : FileLog)
deriving DecidableEq

namespace BlockLog

/-- The number of blocks. -/
def length : BlockLog → Nat
  | memory blocks => blocks.length
  | file log => log.count

/-- Appends the next block. -/
def append (l : BlockLog) (b : Block) (d : Disk) :
    Except Error Unit × BlockLog × Disk :=
  match l with
  | memory blocks =>
    if b.index.toNat ≠ blocks.length then
      (.error (.outOfOrder blocks.length b.index.toNat), l, d)
    else (.ok (), memory (blocks ++ [b]), d)
  | file log =>
    let (r, log, d) := log.append b d
    (r, file log, d)

/-- The blocks from `start` up to `stop`, as far as there are any (`read_range`). -/
def readRange (l : BlockLog) (start stop : Nat) (d : Disk) :
    Except Error (List Block) :=
  match l with
  | memory blocks =>
    if stop < start then .error (.invalidRange start stop)
    else .ok ((blocks.take stop).drop start)
  | file log => log.readRange start stop d

/-- The last block. -/
def last (l : BlockLog) (d : Disk) : Except Error (Option Block) :=
  if l.length = 0 then .ok none
  else (l.readRange (l.length - 1) l.length d).map List.getLast?

/-- Forces the blocks to where they are kept. -/
def flush (l : BlockLog) (d : Disk) : Except Error Unit × Disk :=
  match l with
  | memory _ => (.ok (), d)
  | file log => log.flush d

/-- Appends blocks one after the other, up to the first that is refused. -/
def appendAll (l : BlockLog) (bs : List Block) (d : Disk) :
    Except Error Unit × BlockLog × Disk :=
  match bs with
  | [] => (.ok (), l, d)
  | b :: bs =>
    match l.append b d with
    | (.ok (), l, d) => appendAll l bs d
    | r => r

end BlockLog

end Chronicle.Ledger
