import Chronicle.Digest

/-!
# ASCII text

A byte below 128 is the whole UTF-8 form of the character with its number, so bytes
of that kind are always text, and the text has as many bytes as characters.

* `Bytes.ofText_ascii`: the text whose characters are given by ASCII bytes has these
  bytes.
* `Digest.ofHex_toHex`: a digest is read back from its digits.
-/

namespace Chronicle

namespace Bytes

theorem ofText_ofList (cs : List Char) :
    ofText (String.ofList cs) = cs.flatMap String.utf8EncodeChar := by
  simp [ofText, List.utf8Encode]

/-- An ASCII character is written as the one byte that is its number. -/
theorem encodeChar_ascii {b : UInt8} (h : b < 0x80) :
    String.utf8EncodeChar (Char.ofNat b.toNat) = [b] := by
  have key : ∀ n : Fin 128, String.utf8EncodeChar (Char.ofNat n.val) =
      [UInt8.ofNat n.val] := by
    decide
  have hb : b.toNat < 128 := h
  simpa using key ⟨b.toNat, hb⟩

theorem ofText_ascii {bs : Bytes} (h : ∀ b ∈ bs, b < 0x80) :
    ofText (String.ofList (bs.map fun b => Char.ofNat b.toNat)) = bs := by
  rw [ofText_ofList]
  induction bs with
  | nil => rfl
  | cons b bs ih =>
    rw [List.map_cons, List.flatMap_cons, encodeChar_ascii (h b List.mem_cons_self),
      ih fun c hc => h c (List.mem_cons_of_mem _ hc)]
    rfl

/-- A text of ASCII characters has one byte for each. -/
theorem ofText_ofList_ascii {cs : List Char} (h : ∀ c ∈ cs, c.toNat < 128) :
    ofText (String.ofList cs) = cs.map fun c => UInt8.ofNat c.toNat := by
  have hnat : ∀ c ∈ cs, (UInt8.ofNat c.toNat).toNat = c.toNat := by
    intro c hc
    have := h c hc
    rw [UInt8.toNat_ofNat']
    omega
  have hback : (cs.map fun c => UInt8.ofNat c.toNat).map (fun b => Char.ofNat b.toNat) =
      cs := by
    rw [List.map_map]
    conv => rhs; rw [← List.map_id cs]
    refine List.map_congr_left fun c hc => ?_
    rw [Function.comp, hnat c hc, Char.ofNat_toNat, id]
  have hsmall : ∀ b ∈ cs.map fun c => UInt8.ofNat c.toNat, b < 0x80 := by
    intro b hb
    obtain ⟨c, hc, rfl⟩ := List.mem_map.1 hb
    rw [UInt8.lt_iff_toNat_lt, hnat c hc]
    exact h c hc
  conv => lhs; rw [← hback]
  exact ofText_ascii hsmall

theorem length_ofText (s : String) : (ofText s).length = s.utf8ByteSize := by
  simp [ofText]

theorem exists_toText?_of_ascii {bs : Bytes} (h : ∀ b ∈ bs, b < 0x80) :
    ∃ s, toText? bs = some s := by
  refine ⟨String.ofList (bs.map fun b => Char.ofNat b.toNat), ?_⟩
  have hread := toText?_ofText (String.ofList (bs.map fun b => Char.ofNat b.toNat))
  rw [ofText_ascii h] at hread
  exact hread

end Bytes

namespace Text.Hex

theorem digit_lt {n : Nat} (h : n < 16) : digit n < 0x80 := by
  have key : ∀ m : Fin 16, digit m.val < 0x80 := by decide
  exact key ⟨n, h⟩

theorem encode_ascii (bs : Bytes) : ∀ b ∈ encode bs, b < 0x80 := by
  intro b hb
  obtain ⟨c, _, hc⟩ := List.mem_flatMap.1 hb
  have hc' : c.toNat < 256 := c.toNat_lt
  rcases List.mem_cons.1 hc with rfl | hc
  · exact digit_lt (by omega)
  · rw [List.mem_singleton.1 hc]
    exact digit_lt (by omega)

/-- The text of hexadecimal digits is the digits, byte for byte. -/
theorem ofText_toText (bs : Bytes) : Bytes.ofText (toText bs) = encode bs :=
  Bytes.ofText_ascii (encode_ascii bs)

end Text.Hex

namespace Digest

theorem ofHex_toHex (d : Digest) : ofHex d.toHex = .ok d := by
  have hread : Text.Hex.ofText d.toHex = .ok d.bytes := by
    rw [Text.Hex.ofText, toHex, Text.Hex.ofText_toText, Text.Hex.decode_encode]
  rw [ofHex, hread]
  simp only [d.size_eq, dite_true]

end Digest

end Chronicle
