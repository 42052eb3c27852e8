import LapRing.Proofs.FlagFrontier
import LapRing.Proofs.RunningActions
import Mathlib.Algebra.Order.Group.Abs
import Mathlib.Algebra.Order.Group.Int
import Mathlib.Data.List.Induction

/-!
# What flags tell of their history

Flags are marked one sequence or one range at a time. A flag carries the lap of the last
sequence that was marked in its slot, as far as 32 bits can hold it, and nothing of the
sequences before that. A scan of them finds the first gap of a window, wherever in the words the
window lies.
-/
namespace LapRing

/-- A call that marks sequences published. -/
inductive Marking
  | one (s : Int64)
  | range (low high : Int64)

/-- The sequences that a call marks, in order. -/
def Marking.sequences : Marking → List Int64
  | .one s => [s]
  | .range low high => (Window.mk low high).sequences

namespace LapFlags
variable {cap : Capacity}

def apply (flags : LapFlags cap) : Marking → LapFlags cap
  | .one s => flags.mark s
  | .range low high => flags.markRange low high

/-- The flags after calls that were made one after the other. -/
def applyAll (flags : LapFlags cap) (history : List Marking) : LapFlags cap :=
  history.foldl apply flags

/-- The last sequence marked in the slot of `s`. -/
def lastMark (cap : Capacity) (history : List Marking) (s : Int64) : Option Int64 :=
  ((history.flatMap Marking.sequences).filter fun t =>
    t.toInt % cap.slots = s.toInt % cap.slots).getLast?

theorem slot_of_lastMark {history : List Marking} {s t : Int64}
    (h : lastMark cap history s = some t) : cap.slot t = cap.slot s := by
  have hmem := List.mem_of_getLast? h
  rw [cap.slot_eq_iff]
  simpa using (List.mem_filter.mp hmem).2

theorem markFrom_eq_foldl (flags : LapFlags cap) (s : Int64) (count : ℕ) :
    flags.markFrom s count =
      ((List.range count).map fun k => s + Int64.ofNat k).foldl mark flags := by
  induction count generalizing flags s with
  | zero => rfl
  | succ count ih =>
    have hnext : ∀ k, s + Int64.ofNat (k + 1) = s + 1 + Int64.ofNat k := by
      intro k
      rw [Int64.ofNat_add, Int64.add_comm (.ofNat k), ← Int64.add_assoc]
      rfl
    rw [markFrom, ih, List.range_succ_eq_map, List.map_cons, List.foldl_cons, List.map_map]
    simp only [Function.comp_def, Nat.succ_eq_add_one, hnext]
    rw [show s + Int64.ofNat 0 = s from Int64.add_zero s]

/-- A call marks its sequences one by one. -/
theorem apply_eq_foldl (flags : LapFlags cap) (call : Marking) :
    flags.apply call = call.sequences.foldl mark flags := by
  cases call with
  | one s => rfl
  | range low high => exact flags.markFrom_eq_foldl low _

theorem applyAll_eq_foldl (flags : LapFlags cap) (history : List Marking) :
    flags.applyAll history = (history.flatMap Marking.sequences).foldl mark flags := by
  rw [applyAll, List.foldl_flatMap, funext₂ apply_eq_foldl]

/-- A slot holds the lap of the last sequence marked in it. -/
theorem read_foldl_mark (flags : LapFlags cap) (marks : List Int64) (s : Int64) :
    (marks.foldl mark flags).laps.read s =
      match (marks.filter fun t => t.toInt % cap.slots = s.toInt % cap.slots).getLast? with
      | some t => cap.lap t
      | none => flags.laps.read s := by
  induction marks using List.reverseRecOn with
  | nil => rfl
  | append_singleton marks t ih =>
    rw [List.foldl_append, List.filter_append, List.getLast?_append]
    change ((marks.foldl mark flags).laps.write t (cap.lap t)).read s = _
    simp only [Slots.read_write, cap.slot_eq_iff, ih]
    by_cases h : t.toInt % cap.slots = s.toInt % cap.slots
    · simp [h]
    · simp [h]

theorem mark_comm (flags : LapFlags cap) {t u : Int64}
    (h : t.toInt % cap.slots ≠ u.toInt % cap.slots) :
    (flags.mark t).mark u = (flags.mark u).mark t := by
  have hslot : (cap.slot t).val ≠ (cap.slot u).val := fun he =>
    h ((cap.slot_eq_iff t u).mp (Fin.ext he))
  simp only [mark, Slots.write, Vector.set_comm _ _ hslot]

/-- Fresh flags show the lap before the first, and all that are cut to the same 32 bits. -/
theorem isAvailable_new_iff (s : Int64) :
    (new cap).isAvailable s = true ↔ s.toInt / cap.slots % 2 ^ 32 = -1 % 2 ^ 32 := by
  have hlap := cap.toInt_lap s
  rw [Int.bmod_def, show Int32.size = 4294967296 from rfl] at hlap
  rw [isAvailable_new, ← Int32.toInt_inj, hlap, show (-1 : Int32).toInt = -1 from rfl]
  split <;> omega

/-- After any history a flag shows the last sequence marked in its slot. -/
theorem isAvailable_applyAll (cap : Capacity) (history : List Marking) (s : Int64) :
    ((new cap).applyAll history).isAvailable s = true ↔
      (∃ t, lastMark cap history s = some t ∧
        t.toInt % (cap.slots * 2 ^ 32) = s.toInt % (cap.slots * 2 ^ 32)) ∨
      lastMark cap history s = none ∧ s.toInt / cap.slots % 2 ^ 32 = -1 % 2 ^ 32 := by
  have hread := read_foldl_mark (new cap) (history.flatMap Marking.sequences) s
  rw [← applyAll_eq_foldl] at hread
  change _ = match lastMark cap history s with
    | some t => cap.lap t
    | none => (new cap).laps.read s at hread
  have hshows : ((new cap).applyAll history).isAvailable s = true ↔
      ((new cap).applyAll history).laps.read s = cap.lap s := decide_eq_true_iff
  rw [hshows]
  cases hlast : lastMark cap history s with
  | none =>
    simp only [hlast] at hread
    have hfresh : (new cap).isAvailable s = true ↔ (new cap).laps.read s = cap.lap s :=
      decide_eq_true_iff
    rw [hread, ← hfresh]
    simpa using isAvailable_new_iff s
  | some t =>
    simp only [hlast] at hread
    rw [hread]
    simpa [slot_of_lastMark hlast] using cap.place_eq_iff t s

/-- A sequence is published exactly if the last one marked in its slot agrees with it modulo
`2 ^ 32` laps, or if none was marked and it is of the lap that fresh flags show. So within
that distance the flags tell the last one marked, and marks in different slots may be made in
any order. -/
theorem available_iff_last_mark (cap : Capacity) (history : List Marking) (s : Int64) :
    let flags := (new cap).applyAll history
    (flags.isAvailable s = true ↔
      (∃ t, lastMark cap history s = some t ∧
        t.toInt % (cap.slots * 2 ^ 32) = s.toInt % (cap.slots * 2 ^ 32)) ∨
      lastMark cap history s = none ∧ s.toInt / cap.slots % 2 ^ 32 = -1 % 2 ^ 32) ∧
    (∀ t, lastMark cap history s = some t → |s.toInt - t.toInt| < cap.slots * 2 ^ 32 →
      (flags.isAvailable s = true ↔ s = t)) ∧
    ∀ t u : Int64, t.toInt % cap.slots ≠ u.toInt % cap.slots →
      (flags.mark t).mark u = (flags.mark u).mark t := by
  have hshown := isAvailable_applyAll cap history s
  refine ⟨hshown, fun t ht hnear => ?_, fun t u h => mark_comm _ h⟩
  rw [hshown, ht]
  constructor
  · rintro (⟨u, hu, hsame⟩ | ⟨hnone, -⟩)
    · obtain rfl := Option.some.inj hu
      have hdvd := Int.dvd_of_emod_eq_zero (Int.emod_eq_emod_iff_emod_sub_eq_zero.mp hsame.symm)
      have hzero := Int.eq_zero_of_abs_lt_dvd hdvd hnear
      exact Int64.toInt_inj.mp (by omega)
    · simp at hnone
  · rintro rfl
    exact .inl ⟨s, rfl, rfl⟩

/-- Of two slots, one is marked a round of laps after the sequence that shares its flag. A range
of three laps leaves only its last one published. -/
theorem available_iff_last_mark_round :
    let history : List Marking := [.range (-3) 2, .one 8589934593]
    let flags := (new Capacity.two).applyAll history
    lastMark Capacity.two history 1 = some 8589934593 ∧ flags.isAvailable 1 = true ∧
      lastMark Capacity.two history 0 = some 2 ∧
      |(0 : Int64).toInt - (2 : Int64).toInt| < Capacity.two.slots * 2 ^ 32 ∧
      flags.isAvailable 0 = false := by
  intro history flags
  have hone : lastMark Capacity.two history 1 = some 8589934593 := by decide
  have hzero : lastMark Capacity.two history 0 = some 2 := by decide
  have hnear : |(0 : Int64).toInt - (2 : Int64).toInt| < Capacity.two.slots * 2 ^ 32 := by decide
  have hshown := (available_iff_last_mark Capacity.two history 1).1.mpr (.inl ⟨_, hone, by decide⟩)
  have hpassed := (available_iff_last_mark Capacity.two history 0).2.1 2 hzero hnear
  exact ⟨hone, hshown, hzero, hnear, Bool.eq_false_iff.mpr fun h =>
    absurd (hpassed.mp h) (by decide)⟩

section Scanning
variable (flags : LapFlags cap) (low high : Int64) {gap : ℤ}
  (hgap : gap = low.toInt + flags.streak low (high.toInt - low.toInt + 1).toNat)
include hgap

/-- What a scan says of a window: all before the gap is published, and the gap is not, unless
it lies beyond the window. -/
theorem scanned : low.toInt ≤ gap ∧ gap - 1 ≤ max high.toInt (low.toInt - 1) ∧
    gap ≤ low.toInt + cap.slots ∧
    (∀ s : Int64, low.toInt ≤ s.toInt → s.toInt < gap → flags.isAvailable s = true) ∧
    (gap ≤ high.toInt → ∃ s : Int64, s.toInt = gap ∧ flags.isAvailable s = false) := by
  have hleast := low.le_toInt
  have hlow := low.toInt_lt
  have hhigh := high.toInt_lt
  have hle := flags.streak_le low (high.toInt - low.toInt + 1).toNat
  have hslots := flags.streak_le_slots low (high.toInt - low.toInt + 1).toNat (by omega)
  refine ⟨by omega, by omega, by omega, fun s hlo hhi => ?_, fun hin => ?_⟩
  · rw [isAvailable_iff]
    exact flags.shows_of_streak low (high.toInt - low.toInt + 1).toNat (by omega) hlo (by omega)
  · have hword : (Int64.ofInt gap).toInt = gap := Int64.toInt_ofInt_of_le (by omega) (by omega)
    have hnot := flags.not_shows_streak low (high.toInt - low.toInt + 1).toNat (by omega) (by omega)
    rw [← hgap, ← hword, ← isAvailable_iff] at hnot
    exact ⟨.ofInt gap, hword, Bool.eq_false_iff.mpr hnot⟩

/-- The sequence before the gap is no word exactly if the window begins with a gap at the least. -/
theorem gap_eq_least : gap = -2 ^ 63 ↔ low = Int64.minValue ∧ flags.isAvailable low = false := by
  obtain ⟨hlo, -, -, hshown, hgapped⟩ := flags.scanned low high hgap
  have hlow := low.le_toInt
  have hhigh := high.le_toInt
  have hleast : Int64.minValue.toInt = -2 ^ 63 := rfl
  rw [← Int64.toInt_inj, hleast]
  constructor
  · intro h
    obtain ⟨s, hs, hclosed⟩ := hgapped (by omega)
    obtain rfl : s = low := Int64.toInt_inj.mp (by omega)
    exact ⟨by omega, hclosed⟩
  · rintro ⟨hmin, hclosed⟩
    by_contra hne
    rw [hshown low (le_refl _) (by omega)] at hclosed
    simp at hclosed

/-- The gap is no word exactly if the window is published as a whole and ends at the greatest. -/
theorem gap_eq_beyond : gap = 2 ^ 63 ↔ high = Int64.maxValue ∧ low ≤ high ∧
    ∀ t : Int64, low ≤ t → t ≤ high → flags.isAvailable t = true := by
  obtain ⟨hlo, hhi, -, hshown, hgapped⟩ := flags.scanned low high hgap
  have hlow := low.toInt_lt
  have hhigh := high.toInt_lt
  have hgreatest : Int64.maxValue.toInt = 2 ^ 63 - 1 := rfl
  simp only [← Int64.toInt_inj, hgreatest, Int64.le_iff_toInt_le]
  constructor
  · intro h
    refine ⟨by omega, by omega, fun t ht _ => hshown t ht ?_⟩
    have := t.toInt_lt
    omega
  · rintro ⟨hmax, hle, hall⟩
    by_contra hne
    obtain ⟨s, hs, hclosed⟩ := hgapped (by omega)
    rw [hall s (by omega) (by omega)] at hclosed
    simp at hclosed

end Scanning

/-- Whatever the flags are, a window of any width is scanned without changing anything. The
frontier is the last sequence before the first gap, and no more than a lap is ever reported.
Only at the ends of the words is there none. -/
theorem frontier_exact {W : Type} (flags : LapFlags cap) (low high : Int64) (w : W) :
    (flags.frontier low high w = .error (.fault .subOverflow) w ↔
      low = Int64.minValue ∧ flags.isAvailable low = false) ∧
    (flags.frontier low high w = .error (.fault .addOverflow) w ↔
      high = Int64.maxValue ∧ low ≤ high ∧
        ∀ t : Int64, low ≤ t → t ≤ high → flags.isAvailable t = true) ∧
    (flags.frontier low high w = .error (.fault .subOverflow) w ∨
      flags.frontier low high w = .error (.fault .addOverflow) w ∨
      ∃ h : Int64, flags.frontier low high w = .ok h w ∧
        h.toInt ≤ low.toInt + cap.slots - 1 ∧
        IsGreatest {t : ℤ | low.toInt - 1 ≤ t ∧ t ≤ max high.toInt (low.toInt - 1) ∧
          ∀ s : Int64, low.toInt ≤ s.toInt → s.toInt ≤ t → flags.isAvailable s = true}
            h.toInt) := by
  obtain ⟨gap, hgap⟩ :
    ∃ gap, gap = low.toInt + flags.streak low (high.toInt - low.toInt + 1).toNat :=
    ⟨_, rfl⟩
  obtain ⟨hlo, hhi, hlap, hshown, hgapped⟩ := flags.scanned low high hgap
  rw [← flags.gap_eq_least low high hgap, ← flags.gap_eq_beyond low high hgap,
    flags.frontier_eq low high hgap]
  by_cases hmax : gap = 2 ^ 63
  · simp [hmax]
  by_cases hmin : gap = -2 ^ 63
  · simp [hmin]
  have hlow := low.le_toInt
  have hhigh := high.toInt_lt
  have hlow' := low.toInt_lt
  have hlast : (Int64.ofInt (gap - 1)).toInt = gap - 1 :=
    Int64.toInt_ofInt_of_le (by omega) (by omega)
  rw [if_neg hmax, if_neg hmin]
  refine ⟨iff_of_false (by simp) hmin, iff_of_false (by simp) hmax,
    .inr (.inr ⟨_, rfl, by omega, ?_⟩)⟩
  rw [hlast]
  have hprefix : ∀ s : Int64, low.toInt ≤ s.toInt → s.toInt ≤ gap - 1 →
      flags.isAvailable s = true := fun s hs hs' => hshown s hs (by omega)
  refine ⟨⟨by omega, hhi, hprefix⟩, ?_⟩
  rintro t ⟨-, ht, hall⟩
  by_contra hlt
  have hin : gap ≤ high.toInt := by
    clear hgapped
    omega
  obtain ⟨s, hs, hclosed⟩ := hgapped hin
  have hlow_s : low.toInt ≤ s.toInt := by omega
  have hs_t : s.toInt ≤ t := by omega
  rw [hall s hlow_s hs_t] at hclosed
  simp at hclosed

end LapFlags

end LapRing
