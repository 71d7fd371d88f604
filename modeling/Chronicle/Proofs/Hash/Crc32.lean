import Chronicle.Hash.Crc32

/-!
# What the checksum tells apart

No bit is lost on the way through the register: from the register after a byte string
and the byte string, the register before is determined. Up to four bytes in a row
enter the register as one word, so that different ones leave different registers
behind, and whatever follows cannot make them equal again.

* `bitStep_inj`: a step of the register can be taken back.
* `run_of_word`: bytes whose number is that of a word enter the register as that
  word.
* `checksum_ne`: a change within four bytes in a row changes the checksum.
-/

namespace Chronicle.Bytes

theorem capacity_le {m n : Nat} (h : m ≤ n) : capacity m ≤ capacity n := by
  induction h with
  | refl => exact Nat.le_refl _
  | step _ ih =>
    rw [capacity]
    omega

theorem ofLittleEndian_inj {as bs : Bytes} (hlength : as.length = bs.length)
    (h : ofLittleEndian as = ofLittleEndian bs) : as = bs := by
  induction as generalizing bs with
  | nil => exact (List.length_eq_zero_iff.1 hlength.symm).symm
  | cons a as ih =>
    cases bs with
    | nil => cases hlength
    | cons b bs =>
      have ha := a.toNat_lt
      have hb := b.toNat_lt
      rw [ofLittleEndian, ofLittleEndian] at h
      have hfirst : a = b := UInt8.toNat_inj.1 (by omega)
      rw [hfirst, ih (Nat.succ.inj hlength) (by omega)]

end Chronicle.Bytes

namespace Chronicle.Hash.Crc32

/-! ## The register -/

theorem low_bit (r : UInt32) : r &&& 1 = 1 ↔ r.toBitVec.getLsbD 0 = true := by
  rw [← UInt32.toBitVec_inj, UInt32.toBitVec_and,
    show (1 : UInt32).toBitVec = 1#32 from rfl, BitVec.and_one_eq_setWidth_ofBool_getLsbD]
  cases r.toBitVec.getLsbD 0 <;> simp <;> decide

theorem toBitVec_bitStep (r : UInt32) :
    (bitStep r).toBitVec = r.toBitVec >>> 1 ^^^
      (if r.toBitVec.getLsbD 0 then 0xEDB88320#32 else 0#32) := by
  unfold bitStep
  by_cases h : r &&& 1 = 1
  · rw [if_pos h, if_pos ((low_bit r).1 h)]
    rfl
  · rw [if_neg h, if_neg (fun hlow => h ((low_bit r).2 hlow)), BitVec.xor_zero]
    rfl

/-- A step can be taken back: the highest bit after it is the lowest bit before it,
and the other bits are moved by one place. -/
theorem bitStep_inj {r s : UInt32} (h : bitStep r = bitStep s) : r = s := by
  have hbits := congrArg UInt32.toBitVec h
  rw [toBitVec_bitStep, toBitVec_bitStep] at hbits
  have hlow : r.toBitVec.getLsbD 0 = s.toBitVec.getLsbD 0 := by
    have htop := congrArg (BitVec.getLsbD · 31) hbits
    simp only [BitVec.getLsbD_xor, BitVec.getLsbD_ushiftRight] at htop
    revert htop
    cases r.toBitVec.getLsbD 0 <;> cases s.toBitVec.getLsbD 0 <;> simp
  rw [hlow] at hbits
  have hrest := (BitVec.xor_left_inj _).1 hbits
  apply UInt32.toBitVec_inj.1
  apply BitVec.eq_of_getLsbD_eq
  intro i _
  cases i with
  | zero => exact hlow
  | succ i =>
    have hbit := congrArg (BitVec.getLsbD · i) hrest
    simpa [BitVec.getLsbD_ushiftRight, Nat.add_comm] using hbit

theorem bitSteps_inj {n : Nat} {r s : UInt32}
    (h : bitSteps n r = bitSteps n s) : r = s := by
  induction n generalizing r s with
  | zero => exact h
  | succ n ih => exact bitStep_inj (ih h)

theorem bitSteps_add (m n : Nat) (r : UInt32) :
    bitSteps (m + n) r = bitSteps n (bitSteps m r) := by
  induction m generalizing r with
  | zero => rw [Nat.zero_add, bitSteps]
  | succ m ih => rw [Nat.succ_add, bitSteps, ih, bitSteps]

/-- The register before a byte string is determined by the one after it. -/
theorem run_inj {r s : UInt32} {bs : Bytes} (h : run r bs = run s bs) : r = s := by
  induction bs generalizing r s with
  | nil => exact h
  | cons b bs ih =>
    have hbyte : byteStep r b = byteStep s b := ih h
    exact (UInt32.xor_left_inj _).1 (bitSteps_inj hbyte)

/-! ## Words -/

/-- Bits that do not stand at the low end are moved by one place. -/
theorem bitStep_xor {u v : UInt32} (h : u.toNat = 2 * v.toNat) (r : UInt32) :
    bitStep (r ^^^ u) = bitStep r ^^^ v := by
  have hlow : u.toBitVec.getLsbD 0 = false := by
    rw [BitVec.getLsbD, UInt32.toNat_toBitVec, h, Nat.testBit_zero]
    simp
  have hshift : u.toBitVec >>> 1 = v.toBitVec := by
    apply BitVec.eq_of_toNat_eq
    rw [BitVec.toNat_ushiftRight, UInt32.toNat_toBitVec, UInt32.toNat_toBitVec, h,
      Nat.shiftRight_succ, Nat.shiftRight_zero]
    omega
  apply UInt32.toBitVec_inj.1
  rw [UInt32.toBitVec_xor, toBitVec_bitStep, toBitVec_bitStep, UInt32.toBitVec_xor,
    BitVec.ushiftRight_xor_distrib, hshift, BitVec.getLsbD_xor, hlow, Bool.xor_false,
    BitVec.xor_assoc, BitVec.xor_assoc, BitVec.xor_comm v.toBitVec]

/-- Bits that do not reach the low end within `n` steps are moved by `n` places. -/
theorem bitSteps_xor {u v : UInt32} {n : Nat} (h : u.toNat = v.toNat <<< n)
    (r : UInt32) :
    bitSteps n (r ^^^ u) = bitSteps n r ^^^ v := by
  induction n generalizing r u with
  | zero =>
    rw [UInt32.toNat_inj.1 h]
    rfl
  | succ n ih =>
    rw [Nat.shiftLeft_succ] at h
    have hhalf : (UInt32.ofNat (v.toNat <<< n)).toNat = v.toNat <<< n := by
      have hlt := u.toNat_lt
      exact UInt32.toNat_ofNat_of_lt' (by rw [UInt32.size]; omega)
    rw [bitSteps, bitSteps, bitStep_xor (by rw [hhalf, h]), ih hhalf]

theorem xor_eq_add {b : UInt8} {u w : UInt32} {n : Nat} (hu : u.toNat = 256 * n)
    (hw : w.toNat = b.toNat + 256 * n) : b.toUInt32 ^^^ u = w := by
  apply UInt32.toNat_inj.1
  rw [UInt32.toNat_xor, UInt8.toNat_toUInt32, hu, hw]
  apply Nat.eq_of_testBit_eq
  intro i
  rw [Nat.testBit_xor, Nat.add_comm, show 256 = 2 ^ 8 from rfl,
    Nat.testBit_two_pow_mul_add _ b.toNat_lt, Nat.testBit_two_pow_mul]
  by_cases hi : i < 8
  · simp [hi, Nat.not_le.2 hi]
  · have hhigh : b.toNat.testBit i = false :=
      Nat.testBit_lt_two_pow (Nat.lt_of_lt_of_le b.toNat_lt
        (Nat.pow_le_pow_right (by decide) (Nat.not_lt.1 hi)))
    simp [hi, hhigh, Nat.not_lt.1 hi]

/-- Bytes whose number is that of a word enter the register as that word. -/
theorem run_of_word {bs : Bytes} {w : UInt32} (hw : w.toNat = Bytes.ofLittleEndian bs)
    (r : UInt32) :
    run r bs = bitSteps (8 * bs.length) (r ^^^ w) := by
  induction bs generalizing r w with
  | nil =>
    have hzero : w = 0 := UInt32.toNat_inj.1 hw
    rw [hzero, UInt32.xor_zero]
    rfl
  | cons b bs ih =>
    rw [Bytes.ofLittleEndian] at hw
    have hlt := w.toNat_lt
    -- The bytes after the first one are a word of their own, which the first one
    -- moves by its eight bits.
    have hrest : (UInt32.ofNat (Bytes.ofLittleEndian bs)).toNat =
        Bytes.ofLittleEndian bs :=
      UInt32.toNat_ofNat_of_lt' (by rw [UInt32.size]; omega)
    have hmoved : (UInt32.ofNat (256 * Bytes.ofLittleEndian bs)).toNat =
        256 * Bytes.ofLittleEndian bs :=
      UInt32.toNat_ofNat_of_lt' (by rw [UInt32.size]; omega)
    have hplaces : (UInt32.ofNat (256 * Bytes.ofLittleEndian bs)).toNat =
        (UInt32.ofNat (Bytes.ofLittleEndian bs)).toNat <<< 8 := by
      rw [hmoved, hrest, Nat.shiftLeft_eq]
      omega
    calc run r (b :: bs)
        = run (byteStep r b) bs := rfl
      _ = bitSteps (8 * bs.length)
        (bitSteps 8 (r ^^^ b.toUInt32) ^^^ UInt32.ofNat (Bytes.ofLittleEndian bs)) :=
        ih hrest _
      _ = bitSteps (8 * bs.length) (bitSteps 8 (r ^^^ w)) := by
        rw [← bitSteps_xor hplaces, UInt32.xor_assoc, xor_eq_add hmoved hw]
      _ = bitSteps (8 * (b :: bs).length) (r ^^^ w) := by
        rw [← bitSteps_add, List.length_cons, Nat.mul_succ, Nat.add_comm]

theorem run_inj_of_short {as bs : Bytes} (hlength : as.length = bs.length)
    (hshort : bs.length ≤ 4) {r : UInt32} (h : run r as = run r bs) : as = bs := by
  have hword : ∀ cs : Bytes, cs.length ≤ 4 →
      (UInt32.ofNat (Bytes.ofLittleEndian cs)).toNat = Bytes.ofLittleEndian cs := by
    intro cs hcs
    exact UInt32.toNat_ofNat_of_lt'
      (Nat.lt_of_lt_of_le (Bytes.ofLittleEndian_lt cs) (Bytes.capacity_le hcs))
  have has := hword as (hlength ▸ hshort)
  have hbs := hword bs hshort
  rw [run_of_word has, run_of_word hbs, hlength] at h
  have hwords := (UInt32.xor_right_inj _).1 (bitSteps_inj h)
  apply Bytes.ofLittleEndian_inj hlength
  rw [← has, ← hbs, hwords]

/-- A change within four bytes in a row changes the checksum, whatever stands before
and behind them. -/
theorem checksum_ne {as bs : Bytes} (hlength : as.length = bs.length)
    (hshort : bs.length ≤ 4) (hne : as ≠ bs) (before after : Bytes) :
    checksum (before ++ as ++ after) ≠ checksum (before ++ bs ++ after) := by
  intro h
  have hruns := (UInt32.xor_left_inj _).1 h
  rw [run_append, run_append, run_append, run_append] at hruns
  exact hne (run_inj_of_short hlength hshort (run_inj hruns))

end Chronicle.Hash.Crc32
