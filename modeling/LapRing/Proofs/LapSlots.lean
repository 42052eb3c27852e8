import LapRing.Proofs.SequenceWords

/-!
# Slots and flags along the sequences

Within one lap every sequence has a slot of its own, and a sequence never shows
the lap of the one before it in the same slot. So a flag tells exactly one
sequence of any lap apart from the others, and the frontier of a window is its
last sequence before the first one whose flag does not show.
-/
namespace LapRing

namespace Capacity

theorem slot_eq_iff (cap : Capacity) (s t : Int64) :
    cap.slot s = cap.slot t ↔ s.toInt % cap.slots = t.toInt % cap.slots := by
  have hs := cap.slot_eq s
  have ht := cap.slot_eq t
  rw [Fin.ext_iff]
  omega

/-- Sequences less than a lap apart are equal if they agree modulo the lap. -/
theorem eq_of_emod_eq (cap : Capacity) {s t : ℤ} (h : s % cap.slots = t % cap.slots)
    (lo : s - t < cap.slots) (hi : t - s < cap.slots) : s = t := by
  have hdvd : (cap.slots : ℤ) ∣ s - t :=
    Int.dvd_of_emod_eq_zero (Int.emod_eq_emod_iff_emod_sub_eq_zero.mp h)
  obtain ⟨k, hk⟩ := hdvd
  have hzero : k = 0 := by
    by_contra hne
    rcases Int.lt_or_gt_of_ne hne with hneg | hgt
    · have : (cap.slots : ℤ) * k ≤ cap.slots * (-1) :=
        Int.mul_le_mul_of_nonneg_left (by omega) (by omega)
      omega
    · have : (cap.slots : ℤ) * 1 ≤ cap.slots * k :=
        Int.mul_le_mul_of_nonneg_left (by omega) (by omega)
      omega
  rw [hzero] at hk
  omega

/-- Different sequences less than a lap apart have different slots. -/
theorem slot_ne (cap : Capacity) {s t : Int64} (hne : s ≠ t)
    (lo : s.toInt - t.toInt < cap.slots) (hi : t.toInt - s.toInt < cap.slots) :
    cap.slot s ≠ cap.slot t := by
  intro h
  have he := cap.eq_of_emod_eq ((cap.slot_eq_iff s t).mp h) lo hi
  exact hne (Int64.toInt_inj.mp he)

theorem toInt_ofInt_emod (cap : Capacity) (t : ℤ) :
    (Int64.ofInt t).toInt % cap.slots = t % cap.slots := by
  have hdvd : (cap.slots : ℤ) ∣ (2 ^ 64 : ℕ) := by
    have whole := Nat.pow_dvd_pow 2 (Nat.le_trans cap.shift_le (by decide : 30 ≤ 64))
    rw [← Nat.one_shiftLeft] at whole
    exact Int.natCast_dvd_natCast.mpr whole
  rw [Int64.toInt_ofInt, ← Int.emod_emod_of_dvd _ hdvd, show Int64.size = 2 ^ 64 from rfl,
    Int.bmod_emod, Int.emod_emod_of_dvd _ hdvd]

theorem lap_eq_iff (cap : Capacity) (s t : Int64) :
    cap.lap s = cap.lap t ↔
      (s.toInt / cap.slots) % 4294967296 = (t.toInt / cap.slots) % 4294967296 := by
  have hs := cap.toInt_lap s
  have ht := cap.toInt_lap t
  rw [← Int32.toInt_inj, hs, ht, Int.bmod_eq_bmod_iff_bmod_sub_eq_zero]
  simp only [show Int32.size = 4294967296 from rfl]
  constructor
  · intro h
    have := Int.dvd_of_bmod_eq_zero h
    omega
  · intro h
    exact Int.bmod_eq_zero_of_dvd (by omega)

/-- Sequences have the same slot and the same lap exactly if they agree modulo `2 ^ 32` laps. -/
theorem place_eq_iff (cap : Capacity) (s t : Int64) :
    cap.slot s = cap.slot t ∧ cap.lap s = cap.lap t ↔
      s.toInt % (cap.slots * 4294967296) = t.toInt % (cap.slots * 4294967296) := by
  have hpos := cap.one_le_slots
  have hs := Int.mul_ediv_add_emod s.toInt cap.slots
  have ht := Int.mul_ediv_add_emod t.toInt cap.slots
  have hdiff : s.toInt % cap.slots = t.toInt % cap.slots →
      s.toInt - t.toInt = cap.slots * (s.toInt / cap.slots - t.toInt / cap.slots) := by
    intro h
    rw [Int.mul_sub]
    omega
  rw [slot_eq_iff, lap_eq_iff, Int.emod_eq_emod_iff_emod_sub_eq_zero (n := _ * _),
    ← Int.dvd_iff_emod_eq_zero]
  constructor
  · rintro ⟨hslot, hlap⟩
    rw [hdiff hslot]
    exact Int.mul_dvd_mul_left _ (by omega)
  · intro hall
    have hslot : s.toInt % cap.slots = t.toInt % cap.slots :=
      Int.emod_eq_emod_iff_emod_sub_eq_zero.mpr
        (Int.emod_eq_zero_of_dvd (Int.dvd_trans (Int.dvd_mul_right _ _) hall))
    rw [hdiff hslot] at hall
    have hlaps := Int.dvd_of_mul_dvd_mul_left (by omega) hall
    exact ⟨hslot, by omega⟩

/-- A sequence and the one a lap before it never have the same lap. -/
theorem lap_ne_before (cap : Capacity) {s t : Int64} (h : t.toInt = s.toInt - cap.slots) :
    cap.lap s ≠ cap.lap t := by
  have hpos := cap.one_le_slots
  have hdiv : t.toInt / cap.slots = s.toInt / cap.slots - 1 := by
    rw [h, show s.toInt - cap.slots = s.toInt + (-1) * cap.slots by omega,
      Int.add_mul_ediv_right _ _ (by omega)]
    omega
  rw [ne_eq, lap_eq_iff, hdiv]
  omega

end Capacity

namespace Slots
open Capacity
variable {cap : Capacity} {α : Type}

/-- The content of the slot of an integer sequence. -/
def peek (slots : Slots cap α) (t : ℤ) : α := slots.read (.ofInt t)

theorem peek_toInt (slots : Slots cap α) (s : Int64) : slots.peek s.toInt = slots.read s := by
  rw [Slots.peek, Int64.ofInt_toInt]

theorem peek_congr (slots : Slots cap α) {t u : ℤ} (h : t % cap.slots = u % cap.slots) :
    slots.peek t = slots.peek u := by
  have hslot : cap.slot (.ofInt t) = cap.slot (.ofInt u) := by
    rw [slot_eq_iff, cap.toInt_ofInt_emod, cap.toInt_ofInt_emod, h]
  simp only [Slots.peek, read, hslot]

/-- A sequence shares its slot with the one a lap before it. -/
theorem peek_sub_slots (slots : Slots cap α) (t : ℤ) : slots.peek (t - cap.slots) = slots.peek t :=
  slots.peek_congr (by rw [Int.sub_emod_right])

@[simp] theorem peek_fill (x : α) (t : ℤ) : (fill cap x).peek t = x := by
  simp [Slots.peek]

theorem peek_write (slots : Slots cap α) (s : Int64) (x : α) (t : ℤ) :
    (slots.write s x).peek t = if s.toInt % cap.slots = t % cap.slots then x else slots.peek t := by
  simp only [Slots.peek, read_write, cap.slot_eq_iff, cap.toInt_ofInt_emod]

/-- A write is seen at its own sequence only, as far as one lap goes. -/
theorem peek_write_near (slots : Slots cap α) (s : Int64) (x : α) {t : ℤ}
    (lo : s.toInt - t < cap.slots) (hi : t - s.toInt < cap.slots) :
    (slots.write s x).peek t = if t = s.toInt then x else slots.peek t := by
  rw [peek_write]
  by_cases h : t = s.toInt
  · rw [if_pos h, if_pos (by rw [h])]
  · rw [if_neg h, if_neg fun he => h (cap.eq_of_emod_eq he lo hi).symm]

end Slots

end LapRing
