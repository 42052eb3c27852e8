import LapRing.Capacity

/-!
# Slots and laps

A sequence names a slot and a lap around the ring. The slot is the sequence
modulo the number of slots; the lap is the quotient, cut to a 32-bit word. Both
rules hold for negative sequences, with the quotient rounded down.
-/
namespace LapRing.Capacity

theorem toNat_mask (cap : Capacity) : cap.mask.toUInt64.toNat = cap.slots - 1 := by
  have hle := cap.slots_le
  have hpos := cap.slots_pos
  have word : cap.mask.toUInt64 = UInt64.ofNat cap.slots - 1 := rfl
  rw [word, UInt64.toNat_sub_of_le]
  · simp
    omega
  · simp [UInt64.le_iff_toNat_le]
    omega

theorem toNat_and_mask (cap : Capacity) (s : Int64) :
    (s &&& cap.mask).toUInt64.toNat = s.toUInt64.toNat % cap.slots := by
  have word : (s &&& cap.mask).toUInt64 = s.toUInt64 &&& cap.mask.toUInt64 := rfl
  rw [word, UInt64.toNat_and, toNat_mask, slots, Nat.one_shiftLeft]
  exact Nat.and_two_pow_sub_one_eq_mod _ _

/-- The slot of a sequence, its low bits. -/
def slot (cap : Capacity) (s : Int64) : Fin cap.slots :=
  ⟨(s &&& cap.mask).toUInt64.toNat, by
    rw [toNat_and_mask]
    exact Nat.mod_lt _ cap.slots_pos⟩

/-- The lap of a sequence, its high bits. -/
def lap (cap : Capacity) (s : Int64) : Int32 :=
  (s >>> Int64.ofNat cap.shift).toInt32

theorem toNat_emod_slots (cap : Capacity) (s : Int64) :
    ((s.toUInt64.toNat % cap.slots : Nat) : Int) = s.toInt % cap.slots := by
  have unsigned : (s.toUInt64.toNat : Int) = s.toInt % (2 ^ 64 : Nat) := by
    have bits : s.toUInt64.toNat = s.toBitVec.toNat := rfl
    rw [bits, ← Int64.toInt_toBitVec, BitVec.toInt_eq_toNat_bmod, Int.bmod_emod,
      Int.emod_eq_of_lt] <;> omega
  rw [Int.natCast_emod, unsigned, Int.emod_emod_of_dvd]
  have whole := Nat.pow_dvd_pow 2 (Nat.le_trans cap.shift_le (by decide : 30 ≤ 64))
  rw [← Nat.one_shiftLeft] at whole
  exact Int.natCast_dvd_natCast.mpr whole

theorem slot_eq (cap : Capacity) (s : Int64) :
    ((cap.slot s).val : Int) = s.toInt % cap.slots := by
  simp only [slot, toNat_and_mask]
  exact toNat_emod_slots cap s

theorem shift_amount (n : Nat) (h : n ≤ 30) :
    (Int64.ofNat n).toBitVec.smod 64 = BitVec.ofNat 64 n := by
  have bits : (Int64.ofNat n).toBitVec = BitVec.ofNat 64 n := rfl
  have value : (BitVec.ofNat 64 n).toInt = n := by
    rw [BitVec.toInt_eq_toNat_bmod, BitVec.toNat_ofNat]
    rw [Int.bmod_eq_of_le] <;> omega
  have width : (64 : BitVec 64).toInt = 64 := rfl
  rw [bits]
  apply BitVec.eq_of_toInt_eq
  rw [BitVec.toInt_smod, value, width, Int.fmod_eq_emod_of_nonneg _ (by decide)]
  omega

theorem toInt_lap (cap : Capacity) (s : Int64) :
    (cap.lap s).toInt = (s.toInt / cap.slots).bmod Int32.size := by
  have hle := cap.shift_le
  have shifted : (s >>> Int64.ofNat cap.shift).toInt = s.toInt >>> cap.shift := by
    rw [← Int64.toInt_toBitVec, Int64.toBitVec_shiftRight, shift_amount _ hle,
      BitVec.sshiftRight_eq', BitVec.toInt_sshiftRight]
    simp
    rw [Nat.mod_eq_of_lt (by omega)]
  simp only [lap]
  rw [Int64.toInt_toInt32, shifted, Int.shiftRight_eq_div_pow, slots, Nat.one_shiftLeft]

end LapRing.Capacity
