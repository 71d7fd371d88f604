import Chronicle.Medium.Document
import Chronicle.Proofs.Block.Line

/-!
# Documents are read back

* `Record.ofDocument_toDocument`: the document of a record stands for that record.
-/

namespace Chronicle.Record

theorem ofText_toText_hex (bs : Bytes) :
    Text.Hex.ofText (Text.Hex.toText bs) = .ok bs := by
  rw [Text.Hex.ofText, Text.Hex.ofText_toText, Text.Hex.decode_encode]

theorem documentParts?_toDocument (r : Record) :
    documentParts? r.toDocument =
      some (r.kind, r.key, Text.Hex.toText r.value, r.signature, r.stamp) := by
  have hplain : Json.Plain (.object [("type", .string r.kind), ("key", .string r.key),
      ("value", .string (Text.Hex.toText r.value)), ("signature", r.signature.toJson),
      ("timestamp", r.stamp.toJson)]) := by
    apply Json.plain_object
    simp [Json.plain_string, Digest.plain_toJson, Timestamp.plain_toJson]
  have hfields : Json.fields? documentFields
      (.object [("type", .string r.kind), ("key", .string r.key),
      ("value", .string (Text.Hex.toText r.value)), ("signature", r.signature.toJson),
      ("timestamp", r.stamp.toJson)]) =
      some [some (.string r.kind), some (.string r.key),
        some (.string (Text.Hex.toText r.value)),
        some r.signature.toJson, some r.stamp.toJson] := rfl
  rw [documentParts?, toDocument, Json.pretty, Json.parse?_render _ hplain]
  simp only [Option.bind_eq_bind, Option.bind_some, hfields, Json.string?,
    Digest.ofJson?_toJson, Timestamp.ofJson?_toJson]
  rfl

/-- The document of a record stands for that record, wherever it is found. -/
theorem ofDocument_toDocument (path : String) (r : Record) :
    ofDocument path r.toDocument = .ok r := by
  rw [ofDocument, documentParts?_toDocument]
  simp only [ofText_toText_hex]

end Chronicle.Record
