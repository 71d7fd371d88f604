import Chronicle.Binary
import Chronicle.Frame
import Chronicle.Raster

/-!
# What can go wrong on a medium

Every cause has a constructor of its own, and `message` is the one place where causes
become words.
-/

namespace Chronicle.Medium

/-- Why stored data cannot be served (`Corrupt`). -/
inductive Corruption where
  /-- The file at the path is no document. -/
  | document (path : String)
  /-- The value of the document of a key is no hexadecimal text. -/
  | documentValue (key : String) (fault : Text.Hex.Fault)
  /-- The bytes do not begin with an intact frame. -/
  | frame (fault : Frame.Fault)
  /-- The payload is no compressed data. -/
  | compression
  /-- The payload is no record. -/
  | record (fault : Binary.Fault)
  /-- The frame found for a key holds a record of another key. -/
  | otherKey (asked found : String)
  /-- The file is no grey map. -/
  | greyMap (fault : Raster.Fault)
  /-- The raster holds no record. -/
  | rasterRecord (fault : Binary.Fault)
  /-- The node that the history of a key leads to is not there. -/
  | missingNode (key : String) (hash : Digest)
  /-- The node that the history of a key leads to has not the hash under which it is
  stored. -/
  | falseNode (key : String) (hash : Digest)
  /-- The signature column of a key holds no digest. -/
  | signatureColumn (key : String) (error : Digest.ParseError)
  /-- The timestamp columns of a key hold numbers that no timestamp has. -/
  | timestampColumns (key : String) (unixMs logical : Int)
  /-- A cause that somebody else gives. -/
  | stated (reason : String)
deriving DecidableEq

namespace Corruption

/-- The cause in words. -/
def message : Corruption → String
  | document path => path
  | documentValue key fault => s!"document value for {key}: {fault.message}"
  | frame fault => fault.message
  | compression => "decompression failed: not a sequence of complete frames"
  | record fault => s!"record decode failed: {fault.message}"
  | otherKey asked found => s!"index points {asked} at a frame for {found}"
  | greyMap fault => s!"glyph: {fault.message}"
  | rasterRecord fault => s!"glyph: {fault.message}"
  | missingNode key hash => s!"{key}: dangling link to node {hash.short}"
  | falseNode key hash => s!"{key}: node {hash.short} fails its self-hash"
  | signatureColumn key error => s!"signature column for {key}: {error.message}"
  | timestampColumns key unixMs logical =>
    s!"timestamp columns for {key} out of range: {unixMs}.{logical}"
  | stated reason => reason

end Corruption

/-- Why a medium cannot be used now (`Unavailable`). -/
inductive Outage where
  /-- The segment file ends with part of a frame that could not be taken back. -/
  | partialFrame (path : String)
  /-- The journal ends with part of a node that could not be taken back. -/
  | partialNode
  /-- The medium did not finish flushing in time. -/
  | flushTimedOut
  /-- The medium broke down while flushing. -/
  | flushBroke
  /-- A cause that somebody else gives. -/
  | stated (reason : String)
deriving DecidableEq

namespace Outage

/-- The cause in words. -/
def message : Outage → String
  | partialFrame path => s!"{path} holds a partial frame; reopen to recover"
  | partialNode => "journal holds a partial node; reopen to recover"
  | flushTimedOut => "flush timed out"
  | flushBroke => "flush panicked"
  | stated reason => reason

end Outage

/-- Why a record cannot be written down at all (`Serialization`). -/
inductive Unwritable where
  /-- The payload is too long for a frame. -/
  | longPayload (length : Nat)
  /-- The timestamp does not fit the columns of the table. -/
  | lateTimestamp (stamp : Timestamp)
  /-- A cause that somebody else gives. -/
  | stated (reason : String)
deriving DecidableEq

namespace Unwritable

/-- The cause in words. -/
def message : Unwritable → String
  | longPayload length => s!"payload of {length} bytes is too large to frame"
  | lateTimestamp stamp => s!"timestamp {stamp.toText} out of range"
  | stated reason => reason

end Unwritable

/-- An error of a medium (`BackendError`). -/
inductive Error where
  /-- A file could not be read or written (`Io`). -/
  | disk
  /-- The record cannot be written down. -/
  | unwritable (cause : Unwritable)
  /-- The table could not be read or written (`Sqlite`). -/
  | table
  /-- What is stored cannot be served. -/
  | corrupt (cause : Corruption)
  /-- The medium cannot be used now. -/
  | unavailable (cause : Outage)
  /-- Somebody broke down while holding the medium (`LockPoisoned`). -/
  | poisoned
deriving DecidableEq

namespace Error

/-- The error in words. -/
def message : Error → String
  | disk => "I/O error"
  | unwritable cause => s!"serialization error: {cause.message}"
  | table => "sqlite error"
  | corrupt cause => s!"corrupt data: {cause.message}"
  | unavailable cause => s!"backend unavailable: {cause.message}"
  | poisoned => "backend lock poisoned"

end Error

end Chronicle.Medium
