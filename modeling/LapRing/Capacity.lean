import LapRing.Refusal

/-!
# Capacities

A ring has a power of two of slots, at most `2 ^ 30`, so that the slot of a
sequence and the lap it belongs to are its low and its high bits.
-/
namespace LapRing

structure Capacity where
  shift : Nat
  shift_le : shift ≤ 30 := by decide
deriving DecidableEq

namespace Capacity

/-- The number of slots. -/
def slots (cap : Capacity) : Nat := 1 <<< cap.shift

/-- The number of slots as a distance between sequences. -/
def span (cap : Capacity) : Int64 := Int64.ofNat cap.slots

/-- The number of slots as an unsigned word. -/
def word (cap : Capacity) : UInt64 := UInt64.ofNat cap.slots

def mask (cap : Capacity) : Int64 := cap.span - 1

/-- The largest number of slots. -/
def maximum : UInt64 := 1073741824

/-- The capacity of `size` slots. That it is no power of two is found first. -/
def ofWord (size : UInt64) : Except Refusal Capacity :=
  let shift := size.toNat.log2
  if 1 <<< shift ≠ size.toNat then .error (.notPowerOfTwo size)
  else if h : shift ≤ 30 then .ok ⟨shift, h⟩
  else .error (.capacityTooLarge size maximum)

/-- The size of a claim as a distance between sequences: from one slot to all. -/
def checkClaim (cap : Capacity) (requested : UInt64) : Except Refusal Int64 :=
  if requested = 0 ∨ cap.word < requested then .error (.invalidClaim requested cap.word)
  else .ok requested.toInt64

theorem slots_pos (cap : Capacity) : 0 < cap.slots := by
  rw [slots, Nat.one_shiftLeft]
  exact Nat.two_pow_pos cap.shift

theorem slots_le (cap : Capacity) : cap.slots ≤ 1073741824 := by
  rw [slots, Nat.one_shiftLeft]
  exact Nat.pow_le_pow_right (by decide : 0 < 2) cap.shift_le

theorem toNat_word (cap : Capacity) : cap.word.toNat = cap.slots := by
  have := cap.slots_le
  simp [word]
  omega

theorem toInt_span (cap : Capacity) : cap.span.toInt = cap.slots := by
  have := cap.slots_le
  simp only [span]
  rw [Int64.toInt_ofNat_of_lt]
  omega

end Capacity

end LapRing
