import Chronicle.Bytes

/-!
# Compression

How an archive compresses the payloads of its frames is left open. All that it relies
on is that decompressing undoes compressing, and that nothing is compressed to
nothing.
-/

namespace Chronicle

/-- A way to compress byte strings: a pair such as `encode_all` and `decode_all` of a
compression library. -/
class Compression where
  /-- The compressed form. -/
  encode : Bytes → Bytes
  /-- What a compressed form stands for; `none` if the bytes are no such form. -/
  decode? : Bytes → Option Bytes
  decode?_encode : ∀ bs, decode? (encode bs) = some bs
  /-- A compressed form begins with a mark of its own, so it is never empty. -/
  encode_ne_nil : ∀ bs, encode bs ≠ []

end Chronicle
