import LapRing.Proofs.FlagFrontier
import Mathlib.Data.Set.Basic

/-!
# Sequencers in good standing

Which sequences are published is a matter of what was done; what a sequencer
keeps of it is a cursor or flags. A sequencer is in good standing with a set of
published sequences if its records tell that set for the lap after gating, and
its positions are in order. Sequences below zero count as published, so that the
fresh flags, which show the lap before the first, are records like any other.
-/
namespace LapRing.Sequencer
variable {cap : Capacity}

section Fields

theorem shared_or_single (s : Sequencer cap) : s.producer = .multi ∨ s.producer = .single := by
  obtain ⟨_, _, _ | _, _⟩ := s <;> simp [producer]

@[simp] theorem gating_withClaimed (s : Sequencer cap) (high : Int64) :
    (s.withClaimed high).gating = s.gating := by
  obtain ⟨_, _, _ | _, _⟩ := s <;> rfl

@[simp] theorem claimed_withClaimed (s : Sequencer cap) (high : Int64) :
    (s.withClaimed high).claimed = high := by
  obtain ⟨_, _, _ | _, _⟩ := s <;> rfl

@[simp] theorem cached_withClaimed (s : Sequencer cap) (high : Int64) :
    (s.withClaimed high).cached = s.cached := by
  obtain ⟨_, _, _ | _, _⟩ := s <;> rfl

@[simp] theorem producer_withClaimed (s : Sequencer cap) (high : Int64) :
    (s.withClaimed high).producer = s.producer := by
  obtain ⟨_, _, _ | _, _⟩ := s <;> rfl

@[simp] theorem tally_withClaimed (s : Sequencer cap) (high : Int64) :
    (s.withClaimed high).tally = s.tally := by
  obtain ⟨_, _, _ | _, _⟩ := s <;> rfl

@[simp] theorem cursor_withCached (s : Sequencer cap) (seen : Int64) :
    (s.withCached seen).cursor = s.cursor := by
  obtain ⟨_, _, _ | _, _⟩ := s <;> rfl

@[simp] theorem gating_withCached (s : Sequencer cap) (seen : Int64) :
    (s.withCached seen).gating = s.gating := by
  obtain ⟨_, _, _ | _, _⟩ := s <;> rfl

@[simp] theorem claimed_withCached (s : Sequencer cap) (seen : Int64) :
    (s.withCached seen).claimed = s.claimed := by
  obtain ⟨_, _, _ | _, _⟩ := s <;> rfl

@[simp] theorem cached_withCached (s : Sequencer cap) (seen : Int64) :
    (s.withCached seen).cached = seen := by
  obtain ⟨_, _, _ | _, _⟩ := s <;> rfl

@[simp] theorem producer_withCached (s : Sequencer cap) (seen : Int64) :
    (s.withCached seen).producer = s.producer := by
  obtain ⟨_, _, _ | _, _⟩ := s <;> rfl

@[simp] theorem tally_withCached (s : Sequencer cap) (seen : Int64) :
    (s.withCached seen).tally = s.tally := by
  obtain ⟨_, _, _ | _, _⟩ := s <;> rfl

@[simp] theorem gating_withGating (s : Sequencer cap) (g : Int64) :
    (s.withGating g).gating = g := rfl

@[simp] theorem cursor_withGating (s : Sequencer cap) (g : Int64) :
    (s.withGating g).cursor = s.cursor := rfl

@[simp] theorem claims_withGating (s : Sequencer cap) (g : Int64) :
    (s.withGating g).claims = s.claims := rfl

@[simp] theorem claimed_withGating (s : Sequencer cap) (g : Int64) :
    (s.withGating g).claimed = s.claimed := rfl

@[simp] theorem cached_withGating (s : Sequencer cap) (g : Int64) :
    (s.withGating g).cached = s.cached := rfl

@[simp] theorem producer_withGating (s : Sequencer cap) (g : Int64) :
    (s.withGating g).producer = s.producer := rfl

@[simp] theorem tally_withGating (s : Sequencer cap) (g : Int64) :
    (s.withGating g).tally = s.tally := rfl

@[simp] theorem gating_count (s : Sequencer cap) (f : Tally → Tally) :
    (s.count f).gating = s.gating := rfl

@[simp] theorem cursor_count (s : Sequencer cap) (f : Tally → Tally) :
    (s.count f).cursor = s.cursor := rfl

@[simp] theorem claims_count (s : Sequencer cap) (f : Tally → Tally) :
    (s.count f).claims = s.claims := rfl

@[simp] theorem claimed_count (s : Sequencer cap) (f : Tally → Tally) :
    (s.count f).claimed = s.claimed := rfl

@[simp] theorem cached_count (s : Sequencer cap) (f : Tally → Tally) :
    (s.count f).cached = s.cached := rfl

@[simp] theorem producer_count (s : Sequencer cap) (f : Tally → Tally) :
    (s.count f).producer = s.producer := rfl

end Fields

/-- What the cursor or the flags tell of the published sequences. A flag that
does not show a sequence still shows the one a lap before it. -/
def Records (s : Sequencer cap) (published : Set ℤ) : Prop :=
  match s.claims with
  | .single .. => ∀ t, t ∈ published ↔ t ≤ s.cursor.toInt
  | .shared _ flags => ∀ t, s.gating.toInt < t → t ≤ s.gating.toInt + cap.slots →
      (t ∈ published → flags.Shows t) ∧
      (t ∉ published → flags.laps.peek t = cap.lap (.ofInt (t - cap.slots)))

structure Standing (s : Sequencer cap) (published : Set ℤ) : Prop where
  started : -1 ≤ s.cached.toInt
  cached_le : s.cached.toInt ≤ s.gating.toInt
  released : ∀ t ≤ s.gating.toInt, t ∈ published
  near : ∀ t ∈ published, t ≤ s.gating.toInt + cap.slots
  claimed : ∀ t ∈ published, t ≤ s.claimed.toInt
  room : s.claimed.toInt + cap.slots < 2 ^ 63
  records : s.Records published

theorem standing_new (cap : Capacity) (producer : Multiplicity) (metrics : Bool) :
    (new cap producer metrics).Standing {t | t ≤ -1} := by
  have hle := cap.slots_le_int
  have hclaimed : (new cap producer metrics).claimed.toInt = -1 := by cases producer <;> rfl
  have hcached : (new cap producer metrics).cached.toInt = -1 := by cases producer <;> rfl
  have hgating : (new cap producer metrics).gating.toInt = -1 := by cases producer <;> rfl
  refine ⟨by omega, by omega, ?_, ?_, ?_, by omega, ?_⟩
  · intro t ht
    exact ht.trans_eq hgating
  · intro t (ht : t ≤ -1)
    omega
  · intro t (ht : t ≤ -1)
    omega
  · cases producer with
    | single => exact fun t => Iff.rfl
    | multi =>
      intro t ht ht'
      rw [hgating] at ht ht'
      refine ⟨fun (h : t ≤ -1) => by omega, fun _ => ?_⟩
      have hfresh : (LapFlags.new cap).laps.peek t = -1 := by simp [LapFlags.new]
      have hdiv : (t - cap.slots) / cap.slots = -1 := by
        rw [show t - cap.slots = t + (-1) * cap.slots by omega,
          Int.add_mul_ediv_right _ _ (by omega), Int.ediv_eq_zero_of_lt (by omega) (by omega)]
        rfl
      rw [hfresh, ← Int32.toInt_inj, cap.toInt_lap,
        Int64.toInt_ofInt_of_le (by omega) (by omega), hdiv]
      rfl

namespace Standing
variable {s : Sequencer cap} {published : Set ℤ}

theorem gating_mem (h : s.Standing published) : s.gating.toInt ∈ published :=
  h.released _ (le_refl _)

theorem gating_le (h : s.Standing published) : s.gating.toInt ≤ s.claimed.toInt :=
  h.claimed _ h.gating_mem

theorem start_le (h : s.Standing published) : -1 ≤ s.gating.toInt :=
  h.started.trans h.cached_le

theorem lt_of_not_mem (h : s.Standing published) {t : ℤ} (ht : t ∉ published) :
    s.gating.toInt < t := by
  by_contra hle
  exact ht (h.released t (by omega))

/-- A producer may remember any value that gating has had. -/
theorem withCached (h : s.Standing published) {seen : Int64} (lo : -1 ≤ seen.toInt)
    (hi : seen.toInt ≤ s.gating.toInt) : (s.withCached seen).Standing published := by
  refine ⟨by simpa, by simpa, by simpa using h.released, by simpa using h.near,
    by simpa using h.claimed, by simpa using h.room, ?_⟩
  have hr := h.records
  obtain ⟨_, _, _ | _, _⟩ := s <;> exact hr

/-- Claims may be added while the words last. -/
theorem withClaimed (h : s.Standing published) {high : Int64}
    (lo : s.claimed.toInt ≤ high.toInt) (hi : high.toInt + cap.slots < 2 ^ 63) :
    (s.withClaimed high).Standing published := by
  refine ⟨by simpa using h.started, by simpa using h.cached_le, by simpa using h.released,
    by simpa using h.near, ?_, by simpa using hi, ?_⟩
  · intro t ht
    have := h.claimed t ht
    simp only [claimed_withClaimed]
    omega
  · have hr := h.records
    obtain ⟨_, _, _ | _, _⟩ := s <;> exact hr

theorem count (h : s.Standing published) (f : Tally → Tally) :
    (s.count f).Standing published :=
  ⟨h.started, h.cached_le, h.released, h.near, h.claimed, h.room, h.records⟩

/-- Gating may move on over published sequences. -/
theorem withGating (h : s.Standing published) {g : Int64} (lo : s.gating.toInt ≤ g.toInt)
    (hg : ∀ t ≤ g.toInt, t ∈ published) : (s.withGating g).Standing published := by
  have hcached := h.cached_le
  refine ⟨h.started, by simp only [cached_withGating, gating_withGating]; omega, hg, ?_,
    h.claimed, h.room, ?_⟩
  · intro t ht
    have := h.near t ht
    simp only [gating_withGating]
    omega
  · have hr := h.records
    obtain ⟨cursor, gating, _ | ⟨_, flags⟩, _⟩ := s
    · exact hr
    · intro t ht ht'
      simp only [gating_withGating, Records] at ht ht' hr lo
      by_cases hlap : t ≤ gating.toInt + cap.slots
      · exact hr t (by omega) hlap
      · -- beyond the old lap the flag still shows the sequence released a lap before
        have hfar := h.near g.toInt (hg _ (le_refl _))
        simp only at hfar
        have hbefore : t - cap.slots ∈ published := hg _ (by omega)
        have hold := (hr (t - cap.slots) (by omega) (by omega)).1 hbefore
        rw [LapFlags.Shows, Slots.peek_sub_slots] at hold
        refine ⟨fun hmem => ?_, fun _ => hold⟩
        have := h.near t hmem
        simp only at this
        omega

end Standing

end LapRing.Sequencer
