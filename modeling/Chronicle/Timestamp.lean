import Chronicle.Bytes

/-!
# Timestamps

A timestamp is a clock reading in milliseconds and a count that tells apart what the
clock does not.

* `lt_of_nextAfter`: the timestamp taken after another one is later than it, whatever
  the clock says.
-/

namespace Chronicle

/-- A clock reading in milliseconds since 1970 and a count of the events at that
reading. -/
structure Timestamp where
  /-- Milliseconds since the beginning of 1970. -/
  unixMs : UInt64
  /-- The count. -/
  logical : UInt32
deriving DecidableEq, Repr

namespace Timestamp

/-- The earliest timestamp. -/
def zero : Timestamp := ⟨0, 0⟩

instance : Inhabited Timestamp := ⟨zero⟩

/-- Timestamps are ordered by clock reading, then by count. -/
protected def lt (a b : Timestamp) : Prop :=
  a.unixMs < b.unixMs ∨ (a.unixMs = b.unixMs ∧ a.logical < b.logical)

instance : LT Timestamp := ⟨Timestamp.lt⟩

instance (a b : Timestamp) : Decidable (a < b) :=
  inferInstanceAs
    (Decidable (a.unixMs < b.unixMs ∨ (a.unixMs = b.unixMs ∧ a.logical < b.logical)))

theorem lt_iff_toNat {a b : Timestamp} :
    a < b ↔ a.unixMs.toNat < b.unixMs.toNat ∨
      (a.unixMs.toNat = b.unixMs.toNat ∧ a.logical.toNat < b.logical.toNat) := by
  rw [UInt64.toNat_inj]
  exact Iff.rfl

theorem eq_iff_toNat {a b : Timestamp} :
    a = b ↔ a.unixMs.toNat = b.unixMs.toNat ∧ a.logical.toNat = b.logical.toNat := by
  rw [UInt64.toNat_inj, UInt32.toNat_inj]
  cases a
  cases b
  rw [mk.injEq]

/-- The timestamp of a clock reading; a clock before 1970 reads as zero (`now`). -/
def ofClock (ms : Int) : Timestamp := ⟨UInt64.ofNat ms.toNat, 0⟩

/-- The timestamp that directly follows another one, none after the last. -/
def succ? (t : Timestamp) : Option Timestamp :=
  if t.logical.toNat + 1 < UInt32.size then some { t with logical := t.logical + 1 }
  else if t.unixMs.toNat + 1 < UInt64.size then some ⟨t.unixMs + 1, 0⟩
  else none

/-- The timestamp for an event after `previous` when the clock reads `now`: the
reading if it is ahead, otherwise the direct successor of `previous` (`next_after`). -/
def nextAfter (now previous : Timestamp) : Option Timestamp :=
  if previous < now then some now else previous.succ?

theorem lt_of_succ? {t u : Timestamp} (h : t.succ? = some u) : t < u := by
  unfold succ? at h
  split at h
  · next hl =>
    cases h
    refine Or.inr ⟨rfl, ?_⟩
    rw [UInt32.lt_iff_toNat_lt]
    show t.logical.toNat < (t.logical + 1).toNat
    rw [UInt32.toNat_add]
    have h1 : (1 : UInt32).toNat = 1 := rfl
    rw [UInt32.size] at hl
    omega
  · split at h
    · next hm =>
      cases h
      refine Or.inl ?_
      rw [UInt64.lt_iff_toNat_lt]
      show t.unixMs.toNat < (t.unixMs + 1).toNat
      rw [UInt64.toNat_add]
      have h1 : (1 : UInt64).toNat = 1 := rfl
      rw [UInt64.size] at hm
      omega
    · cases h

theorem lt_of_nextAfter {now previous t : Timestamp}
    (h : nextAfter now previous = some t) : previous < t := by
  unfold nextAfter at h
  split at h
  · cases h
    assumption
  · exact lt_of_succ? h

theorem succ?_of_nextAfter {now previous : Timestamp}
    (h : nextAfter now previous = none) : previous.succ? = none := by
  unfold nextAfter at h
  split at h
  · cases h
  · exact h

/-- The twelve bytes of a timestamp: reading, then count, each least significant byte
first (`to_le_bytes`). -/
def bytes (t : Timestamp) : Bytes := Bytes.ofUInt64 t.unixMs ++ Bytes.ofUInt32 t.logical

@[simp] theorem length_bytes (t : Timestamp) : t.bytes.length = 12 := by simp [bytes]

/-- A timestamp as texts show it. -/
def toText (t : Timestamp) : String := s!"{t.unixMs}.{t.logical}"

/-- A timestamp as descriptions show it. -/
def describe (t : Timestamp) : String := s!"Timestamp({t.unixMs}ms.{t.logical})"

end Timestamp

end Chronicle
