import Chronicle.Hash.Blake3
import Chronicle.Record

/-!
# Signatures

The signature of a value is the hash of the value followed by a fixed suffix. A
record is genuine when its signature is that of its value.
-/

namespace Chronicle

/-- What is hashed after the value (`SIGNATURE_SALT`). -/
def signatureSuffix : Bytes := Bytes.ofText "mnemo/record-signature/v1"

/-- The signature of a value (`signature`). -/
def signatureOf (value : Bytes) : Digest := Hash.Blake3.hash (value ++ signatureSuffix)

namespace Record

/-- A record of the value with its signature (`signed_record`). -/
def sign (kind key : String) (value : Bytes) (stamp : Timestamp) : Record :=
  ⟨kind, key, value, signatureOf value, stamp⟩

/-- The signature is that of the value (`verify_signature`). -/
def verify (r : Record) : Bool := signatureOf r.value == r.signature

@[simp] theorem verify_sign (kind key : String) (value : Bytes) (stamp : Timestamp) :
    (sign kind key value stamp).verify = true := by
  simp [sign, verify]

end Record

end Chronicle
