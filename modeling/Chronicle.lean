import Chronicle.Assoc
import Chronicle.Binary
import Chronicle.Block
import Chronicle.Bytes
import Chronicle.Chain
import Chronicle.Compressed
import Chronicle.Compressed.Part
import Chronicle.Compression
import Chronicle.Config
import Chronicle.Digest
import Chronicle.Disk.Atomic
import Chronicle.Disk.Basic
import Chronicle.Disk.Edit
import Chronicle.Disk.Path
import Chronicle.Failure
import Chronicle.Frame
import Chronicle.Hash.Blake3
import Chronicle.Hash.Crc32
import Chronicle.Hash.Domain
import Chronicle.Json.Basic
import Chronicle.Json.Forms
import Chronicle.Json.Reader
import Chronicle.Json.Shape
import Chronicle.Ledger.Basic
import Chronicle.Ledger.BlockLog
import Chronicle.Ledger.Error
import Chronicle.Ledger.FileLog
import Chronicle.Ledger.SyncMode
import Chronicle.Medium.Adapter
import Chronicle.Medium.Archive
import Chronicle.Medium.Basic
import Chronicle.Medium.Document
import Chronicle.Medium.Error
import Chronicle.Medium.Files
import Chronicle.Medium.Kind
import Chronicle.Medium.Lineage
import Chronicle.Medium.Memory
import Chronicle.Medium.Rehearsal
import Chronicle.Medium.Structured
import Chronicle.NameMap
import Chronicle.Node
import Chronicle.Proofs.Block.Message
import Chronicle.Proofs.Chain.Commitment
import Chronicle.Proofs.Chain.Attribution
import Chronicle.Proofs.Chain.Extension
import Chronicle.Proofs.Json.RoundTrip
import Chronicle.Proofs.Json.Token
import Chronicle.Proofs.Text.Ascii
import Chronicle.Raster
import Chronicle.Raster.Record
import Chronicle.Record
import Chronicle.Signature
import Chronicle.Store.Basic
import Chronicle.Store.Error
import Chronicle.Store.Member
import Chronicle.Store.Report
import Chronicle.Store.Setup
import Chronicle.Table.Basic
import Chronicle.Table.Engine
import Chronicle.Table.File
import Chronicle.Table.Number
import Chronicle.Text.Blank
import Chronicle.Text.Decimal
import Chronicle.Text.Hex
import Chronicle.Text.Hidden
import Chronicle.Text.Lines
import Chronicle.Text.Quoted
import Chronicle.Text.Utf8
import Chronicle.Timestamp
import Chronicle.Toml.Basic
import Chronicle.Toml.Printer
import Chronicle.Toml.Reader
import Chronicle.Proofs.Block.Line
import Chronicle.Proofs.Disk.Files
import Chronicle.Proofs.Ledger.Leftover
import Chronicle.Proofs.Ledger.BlockLog
import Chronicle.Proofs.Ledger.Run
import Chronicle.Proofs.Ledger.Stamps
import Chronicle.Proofs.Ledger.Detection
import Chronicle.Proofs.Store.Recall
import Chronicle.Proofs.NameMap
import Chronicle.Proofs.Store.Attempt
import Chronicle.Proofs.Store.Setup
import Chronicle.Proofs.Store.Accounting
import Chronicle.Proofs.Store.Interleaving
import Chronicle.Proofs.Binary.RoundTrip
import Chronicle.Proofs.Disk.Reopen
import Chronicle.Proofs.Frame.Journal
import Chronicle.Proofs.Table.Engine
import Chronicle.Proofs.Table.File
import Chronicle.Proofs.Medium.Archive
import Chronicle.Proofs.Medium.Lineage
import Chronicle.Proofs.Medium.Structured
import Chronicle.Proofs.Medium.AppendOnly
import Chronicle.Proofs.Medium.InFrames
import Chronicle.Proofs.Medium.Crash
import Chronicle.Proofs.Text.Padded
import Chronicle.Proofs.Disk.Atomic
import Chronicle.Proofs.Disk.Within
import Chronicle.Proofs.Medium.Document
import Chronicle.Proofs.Medium.FileName
import Chronicle.Proofs.Raster.RoundTrip
import Chronicle.Proofs.Medium.Ground
import Chronicle.Proofs.Medium.Files
import Chronicle.Proofs.Medium.NewestWins
import Chronicle.Proofs.Binary.Cut
import Chronicle.Proofs.Ledger.Recovery
import Chronicle.Proofs.Json.Torn
import Chronicle.Proofs.Ledger.RollBack
import Chronicle.Proofs.Ledger.Reading
import Chronicle.Proofs.Ledger.Alongside
import Chronicle.Proofs.Medium.Neighbours
import Chronicle.Proofs.Ledger.Reopen
import Chronicle.Proofs.Store.Reopen
import Chronicle.Proofs.Ledger.Interchange
import Chronicle.Proofs.Medium.History
import Chronicle.Proofs.Store.Provenance
import Chronicle.Proofs.Store.Isolation
import Chronicle.Proofs.Frame.Scan
import Chronicle.Proofs.Hash.Crc32
import Chronicle.Proofs.Frame.Damage
import Chronicle.Proofs.Raster.Damage
import Chronicle.Proofs.Medium.Recovery
import Chronicle.Proofs.Medium.OneByte
import Chronicle.Proofs.Medium.ForeignLinks
import Chronicle.Proofs.Raster.Lossless
import Chronicle.Proofs.Medium.FileCourse
import Chronicle.Proofs.Medium.FreshNames
import Chronicle.Proofs.Medium.StoppedWrite
import Chronicle.Proofs.Binary.SelfDelimiting
import Chronicle.Proofs.Json.Lossless
import Chronicle.Proofs.Hash.Separation
import Chronicle.Proofs.Raster.Root
import Chronicle.Proofs.Text.HexGrammar
import Chronicle.Proofs.Raster.Geometry
import Chronicle.Proofs.Toml.Text
import Chronicle.Proofs.Toml.Value
import Chronicle.Proofs.Toml.Document
import Chronicle.Proofs.Config
