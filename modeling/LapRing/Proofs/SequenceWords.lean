import LapRing.Poll
import Mathlib.Algebra.Order.Ring.Int
import Mathlib.Data.Int.ConditionallyCompleteOrder
import Mathlib.Data.List.Nodup
import Mathlib.Order.ConditionallyCompleteLattice.Basic
import Mathlib.Tactic.Common

/-!
# Sequences as integers

A ring computes with words, and its positions are reasoned about as integers.
The two agree as long as sums and differences stay within the words, which is
what every bound in the later modules is for. A window of words is a run of
consecutive integers.
-/
namespace LapRing

namespace Checked
variable {W : Type}

theorem toInt_add {a b : Int64} (lo : -2 ^ 63 ≤ a.toInt + b.toInt)
    (hi : a.toInt + b.toInt < 2 ^ 63) : (a + b).toInt = a.toInt + b.toInt := by
  rw [Int64.toInt_add]
  exact Int.bmod_eq_of_le (by omega) (by omega)

theorem toInt_sub {a b : Int64} (lo : -2 ^ 63 ≤ a.toInt - b.toInt)
    (hi : a.toInt - b.toInt < 2 ^ 63) : (a - b).toInt = a.toInt - b.toInt := by
  rw [Int64.toInt_sub]
  exact Int.bmod_eq_of_le (by omega) (by omega)

@[simp] theorem toInt_one : (1 : Int64).toInt = 1 := rfl

@[simp] theorem toInt_neg_one : (-1 : Int64).toInt = -1 := rfl

theorem toInt_succ {a : Int64} (hi : a.toInt + 1 < 2 ^ 63) : (a + 1).toInt = a.toInt + 1 := by
  have lo := a.le_toInt
  have hone := toInt_one
  rw [toInt_add (by omega) (by omega), hone]

theorem toInt_pred {a : Int64} (lo : -2 ^ 63 ≤ a.toInt - 1) : (a - 1).toInt = a.toInt - 1 := by
  have hi := a.toInt_lt
  have hone := toInt_one
  rw [toInt_sub (by omega) (by omega), hone]

/-- A word that is no less than zero is the unsigned word of its value. -/
theorem toUInt64_max_zero {a : Int64} {n : ℕ} (hn : a.toInt = n) :
    (max a 0).toUInt64 = UInt64.ofNat n := by
  have hi := a.toInt_lt
  have ha : a = Int64.ofNat n := by rw [← Int64.toInt_inj, hn, Int64.toInt_ofNat_of_lt (by omega)]
  have hmax : max a 0 = a := by
    change (if a ≤ 0 then 0 else a) = a
    split
    · rename_i hle
      rw [Int64.le_iff_toInt_le, hn, Int64.toInt_zero] at hle
      rw [← Int64.toInt_inj, hn, Int64.toInt_zero]
      omega
    · rfl
  rw [hmax, ha, Int64.toUInt64_ofNat']

theorem word_exact {value : ℤ} (lo : -2 ^ 63 ≤ value) (hi : value < 2 ^ 63) (fault : Fault) :
    (word value fault : Act W Int64) = pure (.ofInt value) := by
  rw [word, Int64.toInt_ofInt_of_le lo hi]
  exact if_pos rfl

/-- A value that no word has is a fault. -/
theorem word_inexact {value : ℤ} (h : value < -2 ^ 63 ∨ 2 ^ 63 ≤ value) (fault : Fault) :
    (word value fault : Act W Int64) = throw (.fault fault) := by
  have hlo := (Int64.ofInt value).le_toInt
  have hhi := (Int64.ofInt value).toInt_lt
  exact if_neg fun he => by omega

theorem add_exact {a b : Int64} (lo : -2 ^ 63 ≤ a.toInt + b.toInt)
    (hi : a.toInt + b.toInt < 2 ^ 63) : (add a b : Act W Int64) = pure (a + b) :=
  add_eq (toInt_add lo hi)

theorem sub_exact {a b : Int64} (lo : -2 ^ 63 ≤ a.toInt - b.toInt)
    (hi : a.toInt - b.toInt < 2 ^ 63) : (sub a b : Act W Int64) = pure (a - b) :=
  sub_eq (toInt_sub lo hi)

end Checked

namespace Capacity

/-- Two slots, so that sequences two apart share one. -/
def two : Capacity := ⟨1, by decide⟩

theorem one_le_slots (cap : Capacity) : (1 : ℤ) ≤ cap.slots := by
  have := cap.slots_pos
  omega

theorem slots_le_int (cap : Capacity) : (cap.slots : ℤ) ≤ 1073741824 := by
  have := cap.slots_le
  omega

/-- A claim is admitted for every size from one to all slots, as that distance. -/
theorem checkClaim_ok (cap : Capacity) {n : UInt64} (pos : 1 ≤ n.toNat)
    (le : n.toNat ≤ cap.slots) :
    cap.checkClaim n = .ok n.toInt64 := by
  have hword := cap.toNat_word
  have hzero : n ≠ 0 := by
    rintro rfl
    exact absurd pos (by decide)
  have hle : ¬ cap.word < n := by
    rw [UInt64.lt_iff_toNat_lt]
    omega
  rw [checkClaim, if_neg (by simp only [hzero, hle, or_self, not_false_eq_true])]

theorem checkClaim_one (cap : Capacity) : cap.checkClaim 1 = .ok (1 : Int64) :=
  cap.checkClaim_ok (n := 1) (by decide) cap.slots_pos

/-- A claim above the capacity is refused. -/
theorem checkClaim_error (cap : Capacity) {n : UInt64} (h : cap.slots < n.toNat) :
    cap.checkClaim n = .error (.invalidClaim n cap.word) := by
  have hword := cap.toNat_word
  have hlt : cap.word < n := by
    rw [UInt64.lt_iff_toNat_lt]
    omega
  rw [checkClaim, if_pos (Or.inr hlt)]

/-- The words up to a capacity are their own distances. -/
theorem toInt_toInt64 (cap : Capacity) {n : UInt64} (le : n.toNat ≤ cap.slots) :
    n.toInt64.toInt = n.toNat := by
  have hle := cap.slots_le
  have hnat : n.toInt64 = Int64.ofNat n.toNat := by
    rw [← UInt64.toInt64_ofNat', UInt64.ofNat_toNat]
  rw [hnat, Int64.toInt_ofNat_of_lt (by omega)]

/-- An admitted claim is the distance of its size. -/
theorem of_checkClaim {cap : Capacity} {requested : UInt64} {n : Int64}
    (h : cap.checkClaim requested = .ok n) :
    n = requested.toInt64 ∧ 1 ≤ requested.toNat ∧ requested.toNat ≤ cap.slots := by
  have hword := cap.toNat_word
  rw [checkClaim] at h
  split at h
  · simp at h
  · rename_i hfit
    obtain ⟨hzero, hle⟩ := not_or.mp hfit
    rw [UInt64.lt_iff_toNat_lt] at hle
    have hne : requested.toNat ≠ 0 := fun he => hzero (UInt64.toNat_inj.mp he)
    exact ⟨(Except.ok.inj h).symm, by omega, by omega⟩

theorem toInt_of_checkClaim {cap : Capacity} {requested : UInt64} {n : Int64}
    (h : cap.checkClaim requested = .ok n) : 1 ≤ n.toInt ∧ n.toInt ≤ cap.slots := by
  obtain ⟨rfl, hpos, hle⟩ := of_checkClaim h
  have hn := cap.toInt_toInt64 hle
  omega

/-- A batch is cut to one lap. -/
theorem toInt_batch (cap : Capacity) (batch : UInt64) :
    (min batch cap.word).toInt64.toInt = min batch.toNat cap.slots := by
  have hword := cap.toNat_word
  have hmin : (min batch cap.word).toNat = min batch.toNat cap.slots := by
    rw [UInt64.toNat_min, hword]
  rw [toInt_toInt64 cap (by rw [hmin]; exact Nat.min_le_right _ _), hmin]

theorem toInt_batch_bounds (cap : Capacity) {batch : UInt64} (hb : batch ≠ 0) :
    1 ≤ (min batch cap.word).toInt64.toInt ∧ (min batch cap.word).toInt64.toInt ≤ cap.slots := by
  have hpos := cap.slots_pos
  have hone : batch.toNat ≠ 0 := fun he => hb (UInt64.toNat_inj.mp he)
  rw [toInt_batch]
  omega

end Capacity

/-- The `count` integers from `first` on. -/
def consecutive (first : ℤ) (count : ℕ) : List ℤ := (List.range count).map fun k : ℕ => first + k

theorem consecutive_append (first : ℤ) (m n : ℕ) :
    consecutive first m ++ consecutive (first + m) n = consecutive first (m + n) := by
  simp only [consecutive, List.range_add, List.map_append, List.map_map]
  congr 1
  apply List.map_congr_left
  intro k _
  simp only [Function.comp_apply]
  omega

theorem last_of_consecutive {first t : ℤ} {count : ℕ}
    (h : (consecutive first count).getLast? = some t) : t = first + count - 1 := by
  cases count with
  | zero => simp [consecutive] at h
  | succ n =>
    rw [← consecutive_append, List.getLast?_append] at h
    have hlast : first + n = t := by simpa [consecutive] using h
    omega

namespace Window

theorem size_eq (w : Window) : w.size = (w.last.toInt - w.first.toInt + 1).toNat := rfl

/-- The sequences of a window, as integers, are consecutive. -/
theorem map_toInt_sequences (w : Window) :
    w.sequences.map Int64.toInt = (List.range w.size).map fun k : ℕ => w.first.toInt + k := by
  have hfirst := w.first.le_toInt
  have hlast := w.last.toInt_lt
  simp only [sequences, List.map_map]
  apply List.map_congr_left
  intro k hk
  rw [List.mem_range, size_eq] at hk
  simp only [Function.comp_apply]
  rw [Int64.toInt_add, Int64.toInt_ofNat', show Int64.size = 2 ^ 64 from rfl, Int.add_bmod_bmod]
  exact Int.bmod_eq_of_le (by omega) (by omega)

theorem map_toInt_take (win : Window) (k : ℕ) :
    (win.sequences.take k).map Int64.toInt = consecutive win.first.toInt (min k win.size) := by
  rw [List.map_take, win.map_toInt_sequences, ← List.map_take, List.take_range]
  rfl

@[simp] theorem sequences_self (s : Int64) : (Window.mk s s).sequences = [s] := by
  simp [sequences, size, List.range_succ]

@[simp] theorem length_sequences (w : Window) : w.sequences.length = w.size := by
  simp [sequences]

theorem mem_sequences {w : Window} {s : Int64} :
    s ∈ w.sequences ↔ w.first.toInt ≤ s.toInt ∧ s.toInt ≤ w.last.toInt := by
  have hmem : s ∈ w.sequences ↔ s.toInt ∈ w.sequences.map Int64.toInt := by
    simp [Int64.toInt_inj]
  rw [hmem, map_toInt_sequences]
  simp only [List.mem_map, List.mem_range, size_eq]
  constructor
  · rintro ⟨k, hk, hs⟩
    omega
  · rintro ⟨lo, hi⟩
    exact ⟨(s.toInt - w.first.toInt).toNat, by omega, by omega⟩

theorem toInt_getElem_sequences (w : Window) {k : ℕ} (hk : k < w.sequences.length) :
    w.sequences[k].toInt = w.first.toInt + k := by
  have hmap := w.map_toInt_sequences
  have hk' : k < (w.sequences.map Int64.toInt).length := by simpa using hk
  have hget : (w.sequences.map Int64.toInt)[k] = w.first.toInt + k := by
    simp only [hmap, List.getElem_map, List.getElem_range]
  simpa using hget

theorem toInt_of_getElem? {w : Window} {k : ℕ} {s : Int64} (h : w.sequences[k]? = some s) :
    k < w.size ∧ s.toInt = w.first.toInt + k := by
  obtain ⟨hk, rfl⟩ := List.getElem?_eq_some_iff.mp h
  exact ⟨w.length_sequences ▸ hk, w.toInt_getElem_sequences hk⟩

theorem nodup_sequences (w : Window) : (w.sequences.map Int64.toInt).Nodup := by
  rw [map_toInt_sequences]
  refine List.nodup_range.map ?_
  intro i j (hij : w.first.toInt + i = w.first.toInt + j)
  exact Int.ofNat_inj.mp (by omega)

/-- What is left of a window after its first `k` sequences. -/
theorem mem_drop_sequences {w : Window} {k : ℕ} {t : ℤ} :
    t ∈ (w.sequences.drop k).map Int64.toInt ↔ w.first.toInt + k ≤ t ∧ t ≤ w.last.toInt := by
  have hsize := w.size_eq
  rw [List.map_drop, List.mem_drop_iff_getElem]
  simp only [List.getElem_map, toInt_getElem_sequences, List.length_map, length_sequences]
  constructor
  · rintro ⟨j, hj, rfl⟩
    omega
  · rintro ⟨lo, hi⟩
    exact ⟨(t - w.first.toInt - k).toNat, by omega, by omega⟩

end Window

end LapRing
