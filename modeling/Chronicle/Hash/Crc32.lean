import Chronicle.Bytes

/-!
# The CRC-32 checksum

The reflected checksum with the polynomial `0xEDB88320`: the register starts with all
bits set, takes in one byte after the other from its low end, and is complemented at
the end.
-/

namespace Chronicle.Hash.Crc32

/-- The register after one bit has left it at the low end. -/
def bitStep (r : UInt32) : UInt32 :=
  if r &&& 1 = 1 then (r >>> 1) ^^^ 0xEDB88320 else r >>> 1

/-- The register after `n` bits. -/
def bitSteps : Nat → UInt32 → UInt32
  | 0, r => r
  | n + 1, r => bitSteps n (bitStep r)

/-- The register after one byte. -/
def byteStep (r : UInt32) (b : UInt8) : UInt32 := bitSteps 8 (r ^^^ b.toUInt32)

/-- The register after a byte string. -/
def run (r : UInt32) (bs : Bytes) : UInt32 := bs.foldl byteStep r

/-- The checksum of a byte string. -/
def checksum (bs : Bytes) : UInt32 := run 0xFFFFFFFF bs ^^^ 0xFFFFFFFF

theorem run_append (r : UInt32) (as bs : Bytes) :
    run r (as ++ bs) = run (run r as) bs :=
  List.foldl_append

end Chronicle.Hash.Crc32
