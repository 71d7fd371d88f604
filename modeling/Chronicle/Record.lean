import Chronicle.Digest
import Chronicle.Timestamp
import Chronicle.Text.Blank

/-!
# Records

What the store keeps: a value under a key, with the type it was given, the signature
of the value and the time at which it was taken in.
-/

namespace Chronicle

/-- A stored value with what is known about it (`MemoryRecord`). -/
structure Record where
  /-- The type that the caller gave. -/
  kind : String
  /-- The key under which the value is found. -/
  key : String
  /-- The value. -/
  value : Bytes
  /-- The signature of the value. -/
  signature : Digest
  /-- When the record was taken in. -/
  stamp : Timestamp
deriving DecidableEq, Inhabited

namespace Record

/-- Why a key or a type is refused (`TypeError`). -/
inductive Invalid where
  /-- The key is empty. -/
  | emptyKey
  /-- The key has more bytes than `keyLimit`. -/
  | longKey (length : Nat)
  /-- The type is blank. -/
  | blankKind
deriving DecidableEq, Repr

/-- The greatest number of bytes in a key (`MAX_KEY_LEN`). -/
def keyLimit : Nat := 1024

namespace Invalid

/-- The reason in words. -/
def message : Invalid → String
  | emptyKey => "invalid key: key is empty"
  | longKey n => s!"invalid key: key is {n} bytes, limit is {keyLimit}"
  | blankKind => "invalid record type: record type is empty"

end Invalid

/-- A key has between 1 and `keyLimit` bytes (`validate_key`). -/
def checkKey (key : String) : Except Invalid Unit :=
  if key.isEmpty then .error .emptyKey
  else if key.utf8ByteSize > keyLimit then .error (.longKey key.utf8ByteSize)
  else .ok ()

/-- A type has a character that is not blank (`validate_kind`). -/
def checkKind (kind : String) : Except Invalid Unit :=
  if Text.allBlank kind then .error .blankKind else .ok ()

end Record

end Chronicle
