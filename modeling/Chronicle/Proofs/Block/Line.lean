import Chronicle.Json.Forms
import Chronicle.Proofs.Json.RoundTrip
import Chronicle.Text.Lines

/-!
# The line of a block

A block is written on one line of printable ASCII characters, from which it is read
back.

* `Block.ofLine?_toLine`: the line of a block stands for that block.
* `Block.newline_not_mem_toLine`: there is no line break in it.
-/

namespace Chronicle

namespace Text

/-- A printable ASCII character. -/
def isPrintable (b : UInt8) : Bool := 0x20 ≤ b && b < 0x80

theorem isPrintable_of_isDigit {d : UInt8} (h : Decimal.isDigit d = true) :
    isPrintable d = true := by
  simp only [Decimal.isDigit, isPrintable, Bool.and_eq_true, decide_eq_true_eq] at h ⊢
  exact ⟨UInt8.le_trans (by decide) h.1, UInt8.lt_of_le_of_lt h.2 (by decide)⟩

theorem all_isPrintable_render (n : Nat) : (Decimal.render n).all isPrintable = true :=
  List.all_eq_true.2 fun _ hd =>
    isPrintable_of_isDigit (Decimal.isDigit_of_mem_render hd)

end Text

namespace Digest

/-- Hexadecimal digits are written as they are. -/
theorem all_isPrintable_renderText (d : Digest) :
    (Json.renderText d.toHex).all Text.isPrintable = true := by
  have key : ∀ n : Fin 16, (Json.escapeByte (Text.Hex.digit n.val)).all
      Text.isPrintable = true := by
    decide
  have hdigits : ∀ bs : Bytes,
      ((Text.Hex.encode bs).flatMap Json.escapeByte).all Text.isPrintable = true := by
    intro bs
    induction bs with
    | nil => rfl
    | cons b bs ih =>
      have hb : b.toNat < 256 := b.toNat_lt
      have hhigh := key ⟨b.toNat / 16, by omega⟩
      have hlow := key ⟨b.toNat % 16, by omega⟩
      show ((Text.Hex.digit (b.toNat / 16) :: Text.Hex.digit (b.toNat % 16) ::
        Text.Hex.encode bs).flatMap Json.escapeByte).all Text.isPrintable = true
      simp only [List.flatMap_cons, List.all_append, hhigh, hlow, ih, Bool.and_self]
  rw [Json.renderText, toHex, Text.Hex.ofText_toText]
  simp only [List.cons_append, List.all_cons, List.all_append, hdigits]
  rfl

theorem plain_toJson (d : Digest) : d.toJson.Plain := trivial

theorem ofJson?_toJson (d : Digest) : ofJson? d.toJson = some d := by
  simp only [ofJson?, toJson, Json.string?, Option.bind_eq_bind,
    Option.bind_some, ofHex_toHex]

end Digest

namespace Json

theorem uint64?_natural (n : UInt64) : uint64? (natural n.toNat) = some n := by
  rw [uint64?, natural?, if_pos n.toNat_lt_size]
  simp only [Option.map_some, UInt64.ofNat_toNat]

theorem uint32?_natural (n : UInt32) : uint32? (natural n.toNat) = some n := by
  rw [uint32?, natural?, if_pos n.toNat_lt_size]
  simp only [Option.map_some, UInt32.ofNat_toNat]

/-- An object is printable on one line if its names and values are. -/
theorem all_isPrintable_object {ms : List (String × Json)}
    (h : ∀ m ∈ ms, (renderText m.1).all Text.isPrintable = true ∧
      (render .compact m.2).all Text.isPrintable = true) :
    (render .compact (object ms)).all Text.isPrintable = true := by
  have hmembers : ∀ first, (renderMembers .compact first ms).all Text.isPrintable =
      true := by
    induction ms with
    | nil => decide
    | cons m ms ih =>
      obtain ⟨name, v⟩ := m
      obtain ⟨hname, hv⟩ := h (name, v) List.mem_cons_self
      have hrest := ih (fun m hm => h m (List.mem_cons_of_mem _ hm)) false
      have hcolon : Layout.compact.colon.all Text.isPrintable = true := by decide
      intro first
      have hcomma : (if first then [] else [0x2C] : Bytes).all Text.isPrintable =
          true := by
        cases first <;> decide
      show (_ ++ [] ++ _ ++ _ ++ render .compact v ++
        renderMembers .compact false ms).all Text.isPrintable = true
      rw [List.append_nil, List.all_append, List.all_append, List.all_append,
        List.all_append, hcomma, hname, hcolon, hv, hrest]
      rfl
  rw [render, List.all_cons, hmembers]
  rfl

end Json

namespace Timestamp

theorem plain_toJson (t : Timestamp) : t.toJson.Plain := by
  apply Json.plain_object
  simp [Json.plain_uint64, Json.plain_uint32]

theorem ofJson?_toJson (t : Timestamp) : ofJson? t.toJson = some t := by
  have hfields : t.toJson.fields? ["unix_ms", "logical"] =
      some [some (.natural t.unixMs.toNat), some (.natural t.logical.toNat)] := rfl
  simp only [ofJson?, hfields, Option.bind_eq_bind, Option.bind_some,
    Json.uint64?_natural, Json.uint32?_natural]
  rfl

end Timestamp

namespace Block

theorem plain_toJson (b : Block) : b.toJson.Plain := by
  apply Json.plain_object
  simp [Digest.plain_toJson, Timestamp.plain_toJson, Json.plain_uint64,
    Json.plain_uint32, Json.plain_bool]

theorem ofJson?_toJson (b : Block) : ofJson? b.toJson = some b := by
  have hfields : b.toJson.fields?
      ["index", "prev_hash", "payload_hash", "timestamp", "succeeded",
      "ack_count", "hash"] =
      some [some (.natural b.index.toNat), some b.prev.toJson, some b.payload.toJson,
        some b.stamp.toJson, some (.bool b.succeeded), some (.natural b.acks.toNat),
        some b.hash.toJson] := rfl
  simp only [ofJson?, hfields, Option.bind_eq_bind, Option.bind_some,
    Json.uint64?_natural, Json.uint32?_natural, Digest.ofJson?_toJson,
    Timestamp.ofJson?_toJson, Json.bool?]
  rfl

/-- The line of a block stands for that block. -/
theorem ofLine?_toLine (b : Block) : ofLine? b.toLine = some b := by
  rw [ofLine?, toLine, Json.compact, Json.parse?_render .compact (plain_toJson b)]
  exact ofJson?_toJson b

/-- There are only printable characters on the line of a block. -/
theorem all_isPrintable_toLine (b : Block) : b.toLine.all Text.isPrintable = true := by
  have hnames : ∀ name ∈ ["index", "prev_hash", "payload_hash", "timestamp",
      "unix_ms", "logical",
      "succeeded", "ack_count", "hash"],
      (Json.renderText name).all Text.isPrintable = true := by
    decide
  have hnumber : ∀ n, (Json.render .compact (.natural n)).all Text.isPrintable = true :=
    Text.all_isPrintable_render
  have hdigest : ∀ d : Digest,
      (Json.render .compact d.toJson).all Text.isPrintable = true :=
    Digest.all_isPrintable_renderText
  have hflag : ∀ t : Bool, (Json.render .compact (.bool t)).all Text.isPrintable =
      true := by
    intro t
    cases t <;> rfl
  have hstamp : (Json.render .compact b.stamp.toJson).all Text.isPrintable = true := by
    apply Json.all_isPrintable_object
    simp only [List.forall_mem_cons] at hnames ⊢
    simp [hnames, hnumber]
  apply Json.all_isPrintable_object
  simp only [List.forall_mem_cons] at hnames ⊢
  simp [hnames, hnumber, hdigest, hflag, hstamp]

theorem newline_not_mem_toLine (b : Block) : Text.Lines.newline ∉ b.toLine := by
  intro hmem
  exact absurd (List.all_eq_true.1 b.all_isPrintable_toLine _ hmem) (by decide)

end Block

end Chronicle
