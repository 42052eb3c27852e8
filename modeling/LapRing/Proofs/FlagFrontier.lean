import LapRing.Proofs.LapSlots

/-!
# The frontier of the flags

Marking a run of sequences that lie within one lap changes what the flags show
at these sequences and nowhere else in the lap. The frontier of a window stops
right before the first sequence whose flag does not show.
-/
namespace LapRing.LapFlags
variable {cap : Capacity} {W : Type}

/-- The flag of the slot of `t` carries the lap of `t`. -/
def Shows (flags : LapFlags cap) (t : ℤ) : Prop := flags.laps.peek t = cap.lap (.ofInt t)

theorem isAvailable_iff (flags : LapFlags cap) (s : Int64) :
    flags.isAvailable s = true ↔ flags.Shows s.toInt := by
  simp [isAvailable, Shows, Slots.peek_toInt]

theorem peek_markFrom (b : ℤ) (flags : LapFlags cap) (s : Int64) (count : ℕ)
    (lo : b < s.toInt) (hi : s.toInt + count ≤ b + cap.slots + 1)
    (word : s.toInt + count < 2 ^ 63) {t : ℤ} (ht : b < t) (ht' : t ≤ b + cap.slots) :
    (flags.markFrom s count).laps.peek t =
      if s.toInt ≤ t ∧ t < s.toInt + count then cap.lap (.ofInt t) else flags.laps.peek t := by
  induction count generalizing flags s with
  | zero => rw [if_neg (by omega), markFrom]
  | succ count ih =>
    rw [markFrom]
    by_cases hzero : count = 0
    · subst hzero
      rw [markFrom, mark, Slots.peek_write_near _ _ _ (by omega) (by omega)]
      by_cases h : t = s.toInt
      · rw [if_pos h, if_pos (by omega), h, Int64.ofInt_toInt]
      · rw [if_neg h, if_neg (by omega)]
    · have hnext : (s + 1).toInt = s.toInt + 1 := Checked.toInt_succ (by omega)
      rw [ih (flags.mark s) (s + 1) (by omega) (by omega) (by omega), hnext, mark,
        Slots.peek_write_near _ _ _ (by omega) (by omega)]
      by_cases h : t = s.toInt
      · rw [if_neg (by omega), if_pos h, if_pos (by omega), h, Int64.ofInt_toInt]
      · rw [if_neg h]
        by_cases hin : s.toInt + 1 ≤ t ∧ t < s.toInt + 1 + count
        · rw [if_pos hin, if_pos (by omega)]
        · rw [if_neg hin, if_neg (by omega)]

/-- What a range of marks within one lap shows in that lap. -/
theorem peek_markRange (b : ℤ) (flags : LapFlags cap) (low high : Int64)
    (lo : b < low.toInt) (hi : high.toInt ≤ b + cap.slots) (le : low.toInt ≤ high.toInt)
    (word : high.toInt + 1 < 2 ^ 63) {t : ℤ} (ht : b < t) (ht' : t ≤ b + cap.slots) :
    (flags.markRange low high).laps.peek t =
      if low.toInt ≤ t ∧ t ≤ high.toInt then cap.lap (.ofInt t) else flags.laps.peek t := by
  have hcount : ((high.toInt - low.toInt + 1).toNat : ℤ) = high.toInt - low.toInt + 1 := by omega
  rw [markRange, peek_markFrom b _ _ _ lo (by omega) (by omega) ht ht', hcount]
  by_cases h : low.toInt ≤ t ∧ t ≤ high.toInt
  · rw [if_pos h, if_pos (by omega)]
  · rw [if_neg h, if_neg (by omega)]

theorem shows_of_streak (flags : LapFlags cap) (s : Int64) (count : ℕ)
    (word : s.toInt + count ≤ 2 ^ 63) {t : ℤ} (lo : s.toInt ≤ t)
    (hi : t < s.toInt + flags.streak s count) : flags.Shows t := by
  induction count generalizing s with
  | zero => simp only [streak] at hi; omega
  | succ count ih =>
    simp only [streak] at hi
    split at hi
    · rename_i havail
      by_cases h : t = s.toInt
      · rw [h]
        exact (flags.isAvailable_iff s).mp havail
      · by_cases hzero : count = 0
        · subst hzero
          simp only [streak] at hi
          omega
        · have hnext : (s + 1).toInt = s.toInt + 1 := Checked.toInt_succ (by omega)
          exact ih (s + 1) (by omega) (by omega) (by omega)
    · omega

theorem not_shows_streak (flags : LapFlags cap) (s : Int64) (count : ℕ)
    (word : s.toInt + count ≤ 2 ^ 63) (short : flags.streak s count < count) :
    ¬ flags.Shows (s.toInt + flags.streak s count) := by
  induction count generalizing s with
  | zero => omega
  | succ count ih =>
    simp only [streak] at short ⊢
    split at short
    · rename_i havail
      have hnext : (s + 1).toInt = s.toInt + 1 := Checked.toInt_succ (by omega)
      have h := ih (s + 1) (by omega) (by omega)
      rw [if_pos havail]
      rw [hnext] at h
      convert h using 2
      omega
    · rename_i havail
      rw [if_neg havail]
      intro h
      apply havail
      rw [isAvailable_iff]
      simpa using h

/-- Published sequences without a gap are no more than a lap: one lap on, the flag of the
first would have to show two laps. -/
theorem streak_le_slots (flags : LapFlags cap) (s : Int64) (count : ℕ)
    (word : s.toInt + count ≤ 2 ^ 63) : flags.streak s count ≤ cap.slots := by
  by_contra hlong
  have hle := flags.streak_le s count
  have hlo := s.le_toInt
  have hfirst : flags.Shows s.toInt :=
    flags.shows_of_streak s count word (le_refl _) (by omega)
  have hnext : flags.Shows (s.toInt + cap.slots) :=
    flags.shows_of_streak s count word (by omega) (by omega)
  have hlap : cap.lap (.ofInt (s.toInt + cap.slots)) ≠ cap.lap (.ofInt s.toInt) := by
    apply cap.lap_ne_before
    rw [Int64.ofInt_toInt, Int64.toInt_ofInt_of_le (by omega) (by omega)]
    omega
  rw [Shows, ← Slots.peek_sub_slots, Int.add_sub_cancel] at hnext
  exact hlap (hnext.symm.trans hfirst)

/-- The frontier is the sequence before the first gap, if both of them are words. -/
theorem frontier_eq (flags : LapFlags cap) (low high : Int64) {gap : ℤ}
    (hgap : gap = low.toInt + flags.streak low (high.toInt - low.toInt + 1).toNat) :
    (flags.frontier low high : Act W Int64) =
      if gap = 2 ^ 63 then throw (.fault .addOverflow)
      else if gap = -2 ^ 63 then throw (.fault .subOverflow)
      else pure (.ofInt (gap - 1)) := by
  have hlo := low.le_toInt
  have hhi := high.toInt_lt
  have hlow := low.toInt_lt
  have hle := flags.streak_le low (high.toInt - low.toInt + 1).toNat
  have hone := Checked.toInt_one
  rw [frontier, ← hgap]
  by_cases hmax : gap = 2 ^ 63
  · rw [if_pos hmax, Checked.word_inexact (.inr (by omega))]
    rfl
  · have hword : (Int64.ofInt gap).toInt = gap := Int64.toInt_ofInt_of_le (by omega) (by omega)
    rw [if_neg hmax, Checked.word_exact (by omega) (by omega), pure_bind, Checked.sub, hword, hone]
    by_cases hmin : gap = -2 ^ 63
    · rw [if_pos hmin, Checked.word_inexact (.inl (by omega))]
    · rw [if_neg hmin, Checked.word_exact (by omega) (by omega)]

/-- The frontier of a window is found, and nothing before it is a gap, while the
sequence after it is one unless the window ends there. -/
theorem frontier_spec (flags : LapFlags cap) (low high : Int64) (lo : -2 ^ 63 < low.toInt)
    (hi : high.toInt + 1 < 2 ^ 63) (le : low.toInt ≤ high.toInt + 1) :
    ∃ h : Int64, (flags.frontier low high : Act W Int64) = pure h ∧
      low.toInt - 1 ≤ h.toInt ∧ h.toInt ≤ high.toInt ∧
      (∀ t, low.toInt ≤ t → t ≤ h.toInt → flags.Shows t) ∧
      (h.toInt < high.toInt → ¬ flags.Shows (h.toInt + 1)) := by
  have hle := flags.streak_le low (high.toInt - low.toInt + 1).toNat
  obtain ⟨gap, hgap⟩ :
    ∃ gap, gap = low.toInt + flags.streak low (high.toInt - low.toInt + 1).toNat :=
    ⟨_, rfl⟩
  have hlast : (Int64.ofInt (gap - 1)).toInt = gap - 1 :=
    Int64.toInt_ofInt_of_le (by omega) (by omega)
  refine ⟨.ofInt (gap - 1), ?_, by omega, by omega, ?_, ?_⟩
  · rw [flags.frontier_eq low high hgap, if_neg (by omega), if_neg (by omega)]
  · intro t hlow hhigh
    exact flags.shows_of_streak low (high.toInt - low.toInt + 1).toNat (by omega) hlow (by omega)
  · intro hlt
    rw [hlast, Int.sub_add_cancel, hgap]
    exact flags.not_shows_streak low (high.toInt - low.toInt + 1).toNat (by omega) (by omega)

end LapRing.LapFlags
