import Chronicle.Config
import Chronicle.Proofs.Toml.Document

/-!
# Configurations survive being written

A configuration is written as six lines and a header. They are read back as
statements, which define a table with the fields of the configuration, and from that
table the configuration is read.

* `run_statementsOf`: the table that the lines define.
* `ofTable?_tableOf`: the configuration that is read from the table.
* `written_configuration_is_read_back`: reading undoes writing.
-/

namespace Chronicle.Config

open Toml

/-- The statements that the text of a configuration spells. -/
def statementsOf (c : Config) : List Statement :=
  [.assignment [] "data_dir" (.string c.dataDir),
    .assignment [] "backend_timeout_ms" (.integer c.timeoutMs.toNat),
    .assignment [] "max_parallel_writes" (.integer c.maxParallel.toNat),
    .assignment [] "backends" (.array ((c.backends.map Medium.Kind.name).map .string)),
    .header [] "ledger",
    .assignment [] "file_name" (.string c.ledger.fileName),
    .assignment [] "sync_mode" (.string c.ledger.syncMode.name)]

/-- The table that the statements define. -/
def tableOf (c : Config) : List (String × Toml) :=
  [("data_dir", .string c.dataDir), ("backend_timeout_ms", .integer c.timeoutMs.toNat),
    ("max_parallel_writes", .integer c.maxParallel.toNat),
    ("backends", .array ((c.backends.map Medium.Kind.name).map .string)),
    ("ledger", .table [("file_name", .string c.ledger.fileName),
      ("sync_mode", .string c.ledger.syncMode.name)])]

theorem run_statementsOf (c : Config) : Document.run c.statementsOf = some c.tableOf :=
  rfl

/-! ## Reading the table -/

theorem tomlUInt64?_toNat (n : UInt64) : tomlUInt64? (.integer n.toNat) = some n := by
  rw [tomlUInt64?, if_pos (Int.natCast_nonneg _), Int.toNat_natCast, UInt64.ofNat_toNat]

theorem tomlKinds?_names (ks : List Medium.Kind) :
    tomlKinds? (.array ((ks.map Medium.Kind.name).map .string)) = some ks := by
  rw [tomlKinds?]
  induction ks with
  | nil => rfl
  | cons k ks ih =>
    have hk : (tomlChoice? (.string k.name)).bind Medium.Kind.ofName? = some k :=
      Medium.Kind.ofName?_name k
    rw [List.map_cons, List.map_cons, List.mapM_cons, hk, ih]
    rfl

theorem ledgerOfToml?_fields (l : LedgerConfig) :
    ledgerOfToml? (.table [("file_name", .string l.fileName),
        ("sync_mode", .string l.syncMode.name)]) = some l := by
  have hmode : (tomlChoice? (.string l.syncMode.name)).bind SyncMode.ofName? =
      some l.syncMode :=
    SyncMode.ofName?_name l.syncMode
  show (do return (⟨← some l.fileName,
    ← (tomlChoice? (.string l.syncMode.name)).bind SyncMode.ofName?⟩ : LedgerConfig)) =
      some l
  rw [hmode]
  rfl

theorem ofTable?_tableOf (c : Config) : ofTable? c.tableOf = some c := by
  show (do return (⟨← some c.dataDir, ← tomlUInt64? (.integer c.timeoutMs.toNat),
    ← tomlUInt64? (.integer c.maxParallel.toNat),
    ← tomlKinds? (.array ((c.backends.map Medium.Kind.name).map .string)),
    ← ledgerOfToml? (.table [("file_name", .string c.ledger.fileName),
      ("sync_mode", .string c.ledger.syncMode.name)])⟩ : Config)) = some c
  rw [tomlUInt64?_toNat, tomlUInt64?_toNat, tomlKinds?_names, ledgerOfToml?_fields]
  rfl

/-! ## Writing and reading -/

theorem toToml_eq_ok {c : Config} {text : String} (h : c.toToml = .ok text) :
    c.timeoutMs.toNat < integerLimit ∧ c.maxParallel.toNat < integerLimit ∧
      text = String.ofList (renderLine "data_dir" (renderText c.dataDir) ++
        renderLine "backend_timeout_ms" (Nat.toDigits 10 c.timeoutMs.toNat) ++
        renderLine "max_parallel_writes" (Nat.toDigits 10 c.maxParallel.toNat) ++
        renderLine "backends" (renderTexts (c.backends.map Medium.Kind.name)) ++
        ['\n'] ++ "[ledger]".toList ++ ['\n'] ++
        renderLine "file_name" (renderText c.ledger.fileName) ++
        renderLine "sync_mode" (renderText c.ledger.syncMode.name)) := by
  rw [toToml] at h
  split at h
  · cases h
  · next hlimit =>
    split at h
    · cases h
    · simp only [Bool.or_eq_true, decide_eq_true_eq, not_or, Nat.not_le] at hlimit
      exact ⟨hlimit.1, hlimit.2, (Except.ok.inj h).symm⟩

/-- The text of a configuration spells its statements. -/
theorem parse?_of_toToml {c : Config} {text : String} (h : c.toToml = .ok text) :
    Toml.parse? text = Document.run c.statementsOf := by
  obtain ⟨htimeout, hparallel, rfl⟩ := toToml_eq_ok h
  have hheader : ['\n'] ++ "[ledger]".toList ++ ['\n'] =
      '\n' :: '[' :: ("ledger".toList ++ [']', '\n']) := by
    simp
  have hname : BareKey "data_dir" := bareKey_of_all rfl rfl
  have hspells : Spells _ c.statementsOf :=
    (spells_line hname (denotes_text c.dataDir)).append <|
    (spells_line (bareKey_of_all rfl rfl) (denotes_number htimeout)).append <|
    (spells_line (bareKey_of_all rfl rfl) (denotes_number hparallel)).append <|
    (spells_line (bareKey_of_all rfl rfl) (denotes_texts _)).append <|
    (spells_header (bareKey_of_all rfl rfl)).append <|
    (spells_line (bareKey_of_all rfl rfl) (denotes_text c.ledger.fileName)).append
      (spells_line (bareKey_of_all rfl rfl) (denotes_text c.ledger.syncMode.name))
  rw [← parse?_of_spells hspells (head?_line_ne hname rfl), ← hheader]
  simp only [List.append_assoc]

/-- A good configuration that can be written is read back from its text. -/
theorem written_configuration_is_read_back (c : Config) (text : String)
    (hvalid : c.validate = .ok ()) (hwritten : c.toToml = .ok text) :
    ofToml text = .ok c := by
  rw [ofToml, parse?_of_toToml hwritten, run_statementsOf, Option.bind_some,
    ofTable?_tableOf]
  simp only [hvalid]

/-- A directory with a backslash, a line feed, three double quotes and a NUL, and a
file with quotes of both kinds, the last of them before the closing ones. -/
def quotedConfig : Config :=
  { dataDir := "a\\b\n\"\"\"it's\x00", backends := [.archive],
    ledger := { fileName := "it's \"l\"" } }

/-- Its text: the directory has an opening line end, and every third quote and the
NUL are escaped. -/
def quotedText : String :=
  "data_dir = \"\"\"\na\\\\b\n\"\"\\\"it's\\u0000\"\"\"\n" ++
  "backend_timeout_ms = 2000\nmax_parallel_writes = 8\nbackends = [\"archive\"]\n" ++
  "\n[ledger]\nfile_name = \"\"\"it's \"l\"\"\"\"\nsync_mode = \"every_write\"\n"

theorem written_configuration_is_read_back_quoted :
    quotedConfig.validate = .ok () ∧ quotedConfig.toToml = .ok quotedText ∧
      ofToml quotedText = .ok quotedConfig := by
  have hvalid : quotedConfig.validate = .ok () := rfl
  have hwritten : quotedConfig.toToml = .ok quotedText := by
    rw [toToml, if_neg (by decide +kernel), if_neg (by decide +kernel)]
    exact congrArg Except.ok (by decide +kernel)
  exact ⟨hvalid, hwritten, written_configuration_is_read_back _ _ hvalid hwritten⟩

end Chronicle.Config
