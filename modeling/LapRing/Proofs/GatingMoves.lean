import LapRing.Proofs.SequenceWords
import LapRing.Sequencer.Handoff
import Mathlib.Logic.Relation
import Mathlib.Order.CompletePartialOrder
import Mathlib.Order.Interval.Set.Basic

/-!
# Moves of gating in any order

The ranges of the moves that are still pending cover what lies between gating and
the end, without overlap. So one of them begins at gating and can be made, and
what is left covers the rest. No order of attempts can leave a move behind.
-/
namespace LapRing.Sequencer
variable {cap : Capacity} {s s' : Sequencer cap} {m : Move} {moves rest pending : List Move}
  {lo hi : Int64}

/-- The sequences that a move takes gating over. -/
def Move.range (m : Move) : Set ℤ := Set.Ioc m.observed.toInt m.target.toInt

/-- The ranges of the moves cover the sequences after `lo` up to `hi`, each once. -/
structure Partition (moves : List Move) (lo hi : Int64) : Prop where
  le : lo.toInt ≤ hi.toInt
  apart : moves.Pairwise fun m m' => Disjoint m.range m'.range
  union : ∀ t, t ∈ Set.Ioc lo.toInt hi.toInt ↔ ∃ m ∈ moves, t ∈ m.range

namespace Partition

theorem perm (h : Partition moves lo hi) (order : moves.Perm rest) : Partition rest lo hi := by
  refine ⟨h.le, ?_, ?_⟩
  · exact (order.pairwise_iff fun hd => hd.symm).mp h.apart
  · intro t
    rw [h.union t]
    simp only [order.mem_iff]

/-- Some move begins where the moves begin. -/
theorem exists_first (h : Partition moves lo hi) (lt : lo.toInt < hi.toInt) :
    ∃ m ∈ moves, m.observed = lo ∧ m.observed.toInt < m.target.toInt := by
  obtain ⟨m, hm, hlo, hhi⟩ := (h.union (lo.toInt + 1)).mp ⟨by omega, by omega⟩
  obtain ⟨hafter, -⟩ := (h.union (m.observed.toInt + 1)).mpr ⟨m, hm, by omega, by omega⟩
  exact ⟨m, hm, Int64.toInt_inj.mp (by omega), by omega⟩

/-- The moves that are left after the first cover what is left. -/
theorem pass (h : Partition (m :: rest) lo hi) (first : m.observed = lo)
    (proper : m.observed.toInt < m.target.toInt) : Partition rest m.target hi := by
  subst first
  have hend : m.target.toInt ∈ Set.Ioc m.observed.toInt hi.toInt :=
    (h.union _).mpr ⟨m, List.mem_cons_self, proper, le_refl _⟩
  obtain ⟨hapart, hrest⟩ := List.pairwise_cons.mp h.apart
  refine ⟨hend.2, hrest, fun t => ?_⟩
  constructor
  · rintro ⟨ht, ht'⟩
    obtain ⟨m', hm', hin⟩ := (h.union t).mp ⟨by omega, ht'⟩
    rcases List.mem_cons.mp hm' with rfl | hm'
    · have := hin.2
      omega
    · exact ⟨m', hm', hin⟩
  · rintro ⟨m', hm', hin⟩
    obtain ⟨ht, ht'⟩ := (h.union t).mpr ⟨m', List.mem_cons_of_mem m hm', hin⟩
    refine ⟨?_, ht'⟩
    by_contra hle
    exact Set.disjoint_left.mp (hapart m' hm') ⟨ht, by omega⟩ hin

/-- A move of nothing may be left out. -/
theorem skip (h : Partition (m :: rest) lo hi) (empty : m.target.toInt ≤ m.observed.toInt) :
    Partition rest lo hi := by
  refine ⟨h.le, (List.pairwise_cons.mp h.apart).2, fun t => ?_⟩
  rw [h.union t]
  constructor
  · rintro ⟨m', hm', hin⟩
    rcases List.mem_cons.mp hm' with rfl | hm'
    · have := hin.1
      have := hin.2
      omega
    · exact ⟨m', hm', hin⟩
  · rintro ⟨m', hm', hin⟩
    exact ⟨m', List.mem_cons_of_mem m hm', hin⟩

theorem eq_of_nil (h : Partition [] lo hi) : lo = hi := by
  have hle := h.le
  by_contra hne
  obtain ⟨m, hm, -⟩ := h.exists_first (lt_of_le_of_ne hle fun he => hne (Int64.toInt_inj.mp he))
  simp at hm

end Partition

theorem advanceGating_eq (target observed : Int64) (s : Sequencer cap) :
    s.advanceGating target observed =
      if target ≤ observed then (true, s)
      else if s.gating = observed then (true, s.withGating target) else (false, s) := by
  unfold advanceGating Cell.compareAndSet
  by_cases hempty : target ≤ observed
  · simp only [if_pos hempty]
  · by_cases hfirst : s.gating = observed
    · simp only [if_neg hempty, if_pos hfirst]
    · simp only [if_neg hempty, if_neg hfirst]
      rfl

/-- An attempt succeeds if the move is one of nothing, or if gating is where it begins. -/
theorem advanceGating_fst (s : Sequencer cap) (target observed : Int64) :
    (s.advanceGating target observed).1 = true ↔
      target.toInt ≤ observed.toInt ∨ s.gating = observed := by
  rw [advanceGating_eq, ← Int64.le_iff_toInt_le]
  split
  · simp [*]
  · split <;> simp [*]

theorem advanceGating_early {target observed : Int64}
    (hs : s.advanceGating target observed = (false, s')) : s' = s := by
  rw [advanceGating_eq] at hs
  split at hs
  · simp at hs
  · split at hs <;> simp_all

/-- A move that is made leaves the others with the rest. -/
theorem Partition.made (h : Partition (m :: rest) s.gating hi)
    (hs : s.advanceGating m.target m.observed = (true, s')) :
    Partition rest s'.gating hi ∧ s' = s.withGating s'.gating := by
  rw [advanceGating_eq] at hs
  by_cases hempty : m.target ≤ m.observed
  · rw [if_pos hempty] at hs
    obtain rfl : s = s' := by simpa using hs
    exact ⟨h.skip (Int64.le_iff_toInt_le.mp hempty), rfl⟩
  · rw [if_neg hempty] at hs
    rw [Int64.le_iff_toInt_le] at hempty
    by_cases hfirst : s.gating = m.observed
    · rw [if_pos hfirst] at hs
      obtain rfl : s.withGating m.target = s' := by simpa using hs
      exact ⟨h.pass hfirst.symm (by omega), rfl⟩
    · simp [hfirst] at hs

/-- As long as moves are pending, one of them can be made. -/
theorem Partition.exists_ready (h : Partition moves s.gating hi) (left : moves ≠ []) :
    ∃ m ∈ moves, (s.advanceGating m.target m.observed).1 = true := by
  simp only [advanceGating_fst]
  rcases h.le.lt_or_eq with hlt | heq
  · obtain ⟨m, hm, hfirst, -⟩ := h.exists_first hlt
    exact ⟨m, hm, Or.inr hfirst.symm⟩
  · -- nothing is left to cover, so what is pending are moves of nothing
    obtain ⟨m, hm⟩ := List.exists_mem_of_ne_nil moves left
    refine ⟨m, hm, Or.inl ?_⟩
    by_contra hproper
    obtain ⟨hlo, hhi⟩ := (h.union m.target.toInt).mpr ⟨m, hm, by omega, le_refl _⟩
    omega

/-- One attempt at a pending move, which stays pending if its turn has not come. -/
inductive Attempt : List Move × Sequencer cap → List Move × Sequencer cap → Prop
  | made {before after : List Move} {m : Move} {s s' : Sequencer cap} :
      s.advanceGating m.target m.observed = (true, s') →
      Attempt (before ++ m :: after, s) (before ++ after, s')
  | early {before after : List Move} {m : Move} {s s' : Sequencer cap} :
      s.advanceGating m.target m.observed = (false, s') →
      Attempt (before ++ m :: after, s) (before ++ m :: after, s')

theorem Partition.attempt {c c' : List Move × Sequencer cap} (h : Partition c.1 c.2.gating hi)
    (hc : Attempt c c') : Partition c'.1 c'.2.gating hi ∧ c'.2 = c.2.withGating c'.2.gating := by
  cases hc with
  | made hs => exact (h.perm List.perm_middle).made hs
  | early hs =>
    obtain rfl := advanceGating_early hs
    exact ⟨h, rfl⟩

/-- Attempts in any order keep covering what is left. -/
theorem Partition.attempts (h : Partition moves s.gating hi)
    (hrun : Relation.ReflTransGen Attempt (moves, s) (pending, s')) :
    Partition pending s'.gating hi ∧ s' = s.withGating s'.gating := by
  suffices ∀ c, Relation.ReflTransGen Attempt (moves, s) c →
      Partition c.1 c.2.gating hi ∧ c.2 = s.withGating c.2.gating from this _ hrun
  intro c hc
  induction hc with
  | refl => exact ⟨h, rfl⟩
  | tail _ hstep ih =>
    obtain ⟨hleft, heq⟩ := ih.1.attempt hstep
    refine ⟨hleft, ?_⟩
    rw [heq, ih.2]
    rfl

theorem attempt_cons (m : Move) (moves : List Move) (s : Sequencer cap) :
    attempt (m :: moves) s =
      match s.advanceGating m.target m.observed with
      | (true, s') => attempt moves s'
      | (false, s') => (m :: (attempt moves s').1, (attempt moves s').2) := by
  rw [attempt]
  cases s.advanceGating m.target m.observed with
  | mk moved s' => cases moved <;> rfl

/-- A round over the moves attempts each of them. -/
theorem attempt_attempts (before moves : List Move) (s : Sequencer cap) :
    Relation.ReflTransGen Attempt (before ++ moves, s)
      (before ++ (attempt moves s).1, (attempt moves s).2) := by
  induction moves generalizing before s with
  | nil => exact .refl
  | cons m moves ih =>
    rw [attempt_cons]
    split
    · rename_i s' hs
      exact .head (.made hs) (ih before s')
    · rename_i s' hs
      have hrest := ih (before ++ [m]) s'
      simp only [List.append_assoc, List.singleton_append] at hrest
      exact .head (.early hs) hrest

theorem length_attempt_le (moves : List Move) (s : Sequencer cap) :
    (attempt moves s).1.length ≤ moves.length := by
  induction moves generalizing s with
  | nil => exact le_refl _
  | cons m moves ih =>
    rw [attempt_cons]
    split
    · exact (ih _).trans (Nat.le_succ _)
    · exact Nat.succ_le_succ (ih _)

/-- A round makes at least one move if one can be made. -/
theorem length_attempt_lt
    (ready : ∃ m ∈ moves, (s.advanceGating m.target m.observed).1 = true) :
    (attempt moves s).1.length < moves.length := by
  induction moves with
  | nil => simp at ready
  | cons m moves ih =>
    rw [attempt_cons]
    split
    · exact Nat.lt_succ_of_le (length_attempt_le moves _)
    · rename_i s' hs
      obtain rfl := advanceGating_early hs
      obtain ⟨m', hm', hready⟩ := ready
      apply Nat.succ_lt_succ
      apply ih
      rcases List.mem_cons.mp hm' with rfl | hm'
      · simp [hs] at hready
      · exact ⟨m', hm', hready⟩

theorem attemptRounds_eq (h : Partition moves s.gating hi) {rounds : Nat}
    (enough : moves.length ≤ rounds) : attemptRounds rounds moves s = ([], s.withGating hi) := by
  induction rounds generalizing moves s with
  | zero =>
    obtain rfl := List.length_eq_zero_iff.mp (Nat.le_zero.mp enough)
    obtain rfl := h.eq_of_nil
    rfl
  | succ rounds ih =>
    obtain ⟨hleft, hs⟩ := h.attempts (attempt_attempts [] moves s)
    have hfewer : (attempt moves s).1.length ≤ rounds := by
      rcases eq_or_ne moves [] with rfl | hsome
      · exact Nat.zero_le _
      · have := length_attempt_lt (h.exists_ready hsome)
        omega
    change attemptRounds rounds (attempt moves s).1 (attempt moves s).2 = _
    have hgating : (attempt moves s).2.withGating hi = s.withGating hi := by
      rw [hs]
      rfl
    exact (ih hleft hfewer).trans (by rw [hgating])

/-- Moves that cover what lies between gating and `hi` are all made, whatever
order they are attempted in, and take gating to `hi`. -/
theorem settle_eq (h : Partition moves s.gating hi) :
    settle moves s = ([], s.withGating hi) :=
  attemptRounds_eq h (le_refl _)

end LapRing.Sequencer
