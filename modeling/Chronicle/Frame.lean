import Chronicle.Hash.Crc32
import Chronicle.Text.Hex

/-!
# Frames

A frame is a payload behind its length and its checksum, four bytes each. Frames one
after the other make up a journal, which is read from its beginning: `tiles` are the
complete frames, up to the first place where none begins, and of those the intact
ones are served.

* `decode_encode`: decoding a frame gives its payload, whatever follows the frame.
* `tiles_bytes`, `tiles_encode`: a frame with a non-empty payload is the first tile
  of any journal that begins with it.
-/

namespace Chronicle.Frame

/-- The number of bytes before the payload (`HEADER_SIZE`). -/
def headerSize : Nat := 8

/-- Payloads have fewer bytes than this. -/
def payloadLimit : Nat := UInt32.size

/-- Why bytes do not begin with an intact frame. -/
inductive Fault where
  /-- There are fewer bytes than a header has. -/
  | shortHeader (found : Nat)
  /-- Fewer bytes follow the header than it declares. -/
  | shortPayload (declared found : Nat)
  /-- The checksum of the payload is not the one in the header. -/
  | checksum (expected computed : UInt32)
deriving DecidableEq, Repr

/-- A word as eight hexadecimal digits. -/
def hexWord (w : UInt32) : String := Text.Hex.toText (Bytes.ofUInt32 w).reverse

namespace Fault

/-- The fault in words. -/
def message : Fault → String
  | shortHeader found => s!"frame header truncated at {found} bytes"
  | shortPayload declared found =>
    s!"frame declares {declared} bytes but only {found} follow"
  | checksum expected computed =>
    s!"CRC mismatch: expected {hexWord expected}, computed {hexWord computed}"

end Fault

/-- The frame of a payload. -/
def encode (payload : Bytes) : Bytes :=
  Bytes.littleEndian 4 payload.length ++
    Bytes.ofUInt32 (Hash.Crc32.checksum payload) ++ payload

/-- The frame of a payload, if the payload is not too long for one (`encode`). -/
def encode? (payload : Bytes) : Option Bytes :=
  if payload.length < payloadLimit then some (encode payload) else none

/-- The length and the checksum that a header declares, and what follows it
(`read_header`). -/
def header? : Bytes → Option (Nat × UInt32 × Bytes)
  | a :: b :: c :: d :: e :: f :: g :: h :: rest =>
    some (Bytes.ofLittleEndian [a, b, c, d],
      UInt32.ofNat (Bytes.ofLittleEndian [e, f, g, h]), rest)
  | _ => none

/-- The payload of the frame at the front of a byte string. -/
def decode (s : Bytes) : Except Fault Bytes :=
  match header? s with
  | none => .error (.shortHeader s.length)
  | some (length, crc, rest) =>
    let payload := rest.take length
    if payload.length < length then .error (.shortPayload length rest.length)
    else
      let computed := Hash.Crc32.checksum payload
      if computed = crc then .ok payload else .error (.checksum crc computed)

/-! ## Journals -/

/-- A complete frame of a journal (`ScannedFrame`). -/
structure Tile where
  /-- Where it begins. -/
  offset : Nat
  /-- The checksum in its header. -/
  crc : UInt32
  /-- Its payload. -/
  payload : Bytes
deriving DecidableEq

namespace Tile

/-- Where the frame ends. -/
def stop (t : Tile) : Nat := t.offset + headerSize + t.payload.length

/-- The checksum is that of the payload. -/
def isIntact (t : Tile) : Bool := Hash.Crc32.checksum t.payload == t.crc

/-- The bytes of the frame. -/
def bytes (t : Tile) : Bytes :=
  Bytes.littleEndian 4 t.payload.length ++ Bytes.ofUInt32 t.crc ++ t.payload

end Tile

theorem length_of_header? {s rest : Bytes} {length : Nat} {crc : UInt32}
    (h : header? s = some (length, crc, rest)) :
    s.length = headerSize + rest.length := by
  unfold header? at h
  split at h
  · simp only [Option.some.injEq, Prod.mk.injEq] at h
    obtain ⟨_, _, rfl⟩ := h
    simp [headerSize]
    omega
  · cases h

/-- The complete frames of a journal whose first byte stands at `offset`, up to the
first place where the header is cut off, declares nothing, or declares more than
there is. -/
def tiles (offset : Nat) (s : Bytes) : List Tile :=
  match _h : header? s with
  | none => []
  | some (length, crc, rest) =>
    let payload := rest.take length
    if length = 0 ∨ payload.length < length then []
    else ⟨offset, crc, payload⟩ :: tiles (offset + headerSize + length)
      (rest.drop length)
termination_by s.length
decreasing_by
  have := length_of_header? _h
  simp only [List.length_drop, headerSize] at *
  omega

/-- The number of bytes that frames take. -/
def coveredLength : List Tile → Nat
  | [] => 0
  | t :: ts => headerSize + t.payload.length + coveredLength ts

/-- The intact ones of some frames, each with the number of bytes that frames take up
to its end and the number of damaged frames before it, where `covered` bytes and
`skipped` damaged frames come before all of them. -/
def served (covered skipped : Nat) : List Tile → List (Tile × Nat × Nat)
  | [] => []
  | t :: ts =>
    let covered := covered + headerSize + t.payload.length
    if t.isIntact then (t, covered, skipped) :: served covered skipped ts
    else served covered (skipped + 1) ts

/-- What reading a journal gives (`FrameScanner`). -/
structure Scan where
  /-- Its complete frames. -/
  tiles : List Tile
deriving DecidableEq

namespace Scan

/-- The frames that are served. -/
def intact (s : Scan) : List Tile := s.tiles.filter Tile.isIntact

/-- The number of complete frames whose checksum is wrong. -/
def skipped (s : Scan) : Nat := s.tiles.countP fun t => !t.isIntact

/-- The number of bytes that complete frames take (`valid_len`). -/
def validLength (s : Scan) : Nat := coveredLength s.tiles

/-- The frames that are served, each with `validLength` and `skipped` as they stand
after it. -/
def progress (s : Scan) : List (Tile × Nat × Nat) := served 0 0 s.tiles

end Scan

/-- Reads a journal from its beginning. -/
def scan (s : Bytes) : Scan := ⟨tiles 0 s⟩

theorem map_fst_served (covered skipped : Nat) (ts : List Tile) :
    (served covered skipped ts).map (·.1) = ts.filter Tile.isIntact := by
  induction ts generalizing covered skipped with
  | nil => rfl
  | cons t ts ih =>
    rw [served, List.filter_cons]
    split <;> simp [ih]

/-- Nothing but the intact frames is served, and all of them are. -/
theorem Scan.map_fst_progress (s : Scan) : s.progress.map (·.1) = s.intact :=
  map_fst_served 0 0 s.tiles

/-! ## Frames are found where they begin -/

theorem Tile.header?_bytes {t : Tile} (h : t.payload.length < payloadLimit)
    (rest : Bytes) :
    header? (t.bytes ++ rest) = some (t.payload.length, t.crc, t.payload ++ rest) := by
  have hl : Bytes.ofLittleEndian (Bytes.littleEndian 4 t.payload.length) =
      t.payload.length :=
    Bytes.ofLittleEndian_littleEndian 4 _ h
  have hc : Bytes.ofLittleEndian (Bytes.littleEndian 4 t.crc.toNat) = t.crc.toNat :=
    Bytes.ofLittleEndian_littleEndian 4 _ t.crc.toNat_lt
  simp only [Bytes.littleEndian] at hl hc
  simp only [bytes, Bytes.ofUInt32, Bytes.littleEndian, List.cons_append,
    List.nil_append, header?, hl, hc, UInt32.ofNat_toNat]

/-- A complete frame is found where it begins, and the frames behind it where it
ends. -/
theorem tiles_bytes {t : Tile} (h : t.payload.length < payloadLimit)
    (hne : t.payload ≠ []) (rest : Bytes) :
    tiles t.offset (t.bytes ++ rest) = t :: tiles t.stop rest := by
  have hpos : t.payload.length ≠ 0 := by simpa using hne
  rw [tiles]
  split
  · next hh => rw [Tile.header?_bytes h] at hh; cases hh
  · next hh =>
    rw [Tile.header?_bytes h] at hh
    simp only [Option.some.injEq, Prod.mk.injEq] at hh
    obtain ⟨rfl, rfl, rfl⟩ := hh
    simp [hpos, Tile.stop]

theorem header?_encode (payload rest : Bytes) (h : payload.length < payloadLimit) :
    header? (encode payload ++ rest) =
      some (payload.length, Hash.Crc32.checksum payload, payload ++ rest) :=
  Tile.header?_bytes (t := ⟨0, Hash.Crc32.checksum payload, payload⟩) h rest

theorem decode_encode (payload rest : Bytes) (h : payload.length < payloadLimit) :
    decode (encode payload ++ rest) = .ok payload := by
  rw [decode, header?_encode payload rest h]
  simp

theorem tiles_encode (offset : Nat) (payload rest : Bytes)
    (h : payload.length < payloadLimit) (hne : payload ≠ []) :
    tiles offset (encode payload ++ rest) =
      ⟨offset, Hash.Crc32.checksum payload, payload⟩ ::
        tiles (offset + headerSize + payload.length) rest :=
  tiles_bytes (t := ⟨offset, Hash.Crc32.checksum payload, payload⟩) h hne rest

end Chronicle.Frame
