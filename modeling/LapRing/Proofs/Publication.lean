import LapRing.Proofs.RunningActions
import LapRing.Proofs.SequencerStanding

/-!
# Publishing and reading

Publishing a run of claimed sequences adds them to the published ones. A window
reaches from a position to the last sequence before the first one that is not
published, as far as its limit allows: nothing else stops it, and no flag of an
earlier lap lets it pass.
-/
namespace LapRing.Sequencer
variable {cap : Capacity} {W : Type}

/-- The sequencer after the sequences from `low` to `high` were published. -/
def afterPublish (low high : Int64) (s : Sequencer cap) : Sequencer cap :=
  let marked := match s.claims with
    | .single .. => { s with cursor := high }
    | .shared .. => s.mapFlags (·.markRange low high)
  marked.count (.published (high - low + 1).toUInt64)

section AfterPublish
variable (low high : Int64) (s : Sequencer cap)

@[simp] theorem gating_afterPublish : (s.afterPublish low high).gating = s.gating := by
  obtain ⟨_, _, _ | _, _⟩ := s <;> rfl

@[simp] theorem claimed_afterPublish : (s.afterPublish low high).claimed = s.claimed := by
  obtain ⟨_, _, _ | _, _⟩ := s <;> rfl

@[simp] theorem cached_afterPublish : (s.afterPublish low high).cached = s.cached := by
  obtain ⟨_, _, _ | _, _⟩ := s <;> rfl

@[simp] theorem producer_afterPublish : (s.afterPublish low high).producer = s.producer := by
  obtain ⟨_, _, _ | _, _⟩ := s <;> rfl

theorem cursor_afterPublish_single (h : s.producer = .single) :
    (s.afterPublish low high).cursor = high := by
  obtain ⟨_, _, _ | _, _⟩ := s
  · rfl
  · contradiction

theorem cursor_afterPublish_shared (h : s.producer = .multi) :
    (s.afterPublish low high).cursor = s.cursor := by
  obtain ⟨_, _, _ | _, _⟩ := s
  · contradiction
  · rfl

end AfterPublish

theorem count_none (s : Sequencer cap) (f : Tally → Tally) (h : s.tally = none) :
    s.count f = s := by
  obtain ⟨_, _, _, _⟩ := s
  simp_all [count]

/-- The cursor of a single producer does not go back. -/
def Forward (s : Sequencer cap) (high : Int64) : Prop :=
  s.producer = .single → s.cursor.toInt ≤ high.toInt

theorem markRange_self (flags : LapFlags cap) (s : Int64) : flags.markRange s s = flags.mark s := by
  simp [LapFlags.markRange, LapFlags.markFrom]

theorem advanceCursor_eq {s : Sequencer cap} {high : Int64} (h : s.cursor.toInt ≤ high.toInt) :
    advanceCursor high s = .ok () { s with cursor := high } := by
  have hle : ¬ high < s.cursor := by
    rw [Int64.lt_iff_toInt_lt]
    omega
  simp only [advanceCursor, Act.get_bind, hle, if_false, Act.set_apply]

theorem publish_eq {s : Sequencer cap} {t : Int64} (h : s.Forward t) :
    publish t s = .ok () (s.afterPublish t t) := by
  have hsize : (t - t + 1).toUInt64 = 1 := by
    rw [Int64.sub_self]
    rfl
  obtain ⟨cursor, gating, claims, tally⟩ := s
  cases claims with
  | single claimed cached =>
    simp only [publish, afterPublish, Act.get_bind, producer, hsize]
    rw [Act.bind_ok (advanceCursor_eq (h rfl))]
    rfl
  | shared cached flags =>
    simp only [publish, afterPublish, Act.get_bind, producer, Act.modify_bind, hsize, mapFlags,
      markRange_self]
    rfl

/-- The count after a range was published, if counts are kept. -/
theorem countRange_eq (s : Sequencer cap) {low high : Int64} (lo : 0 ≤ low.toInt)
    (le : low.toInt ≤ high.toInt) (word : high.toInt + 1 < 2 ^ 63) :
    (do
      if (← get).tally.isSome then
        let size ← Checked.add (← Checked.sub high low) 1
        modify (·.count (.published size.toUInt64)) : Act (Sequencer cap) Unit) s =
      .ok () (s.count (.published (high - low + 1).toUInt64)) := by
  have hdiff : (high - low).toInt = high.toInt - low.toInt :=
    Checked.toInt_sub (by omega) (by omega)
  have hone := Checked.toInt_one
  by_cases htally : s.tally.isSome
  · rw [Act.get_bind, if_pos htally, Checked.sub_exact (by omega) (by omega), pure_bind,
      Checked.add_exact (by omega) (by omega), pure_bind]
    rfl
  · have hnone : s.tally = none := by simpa using htally
    rw [Act.get_bind, if_neg htally, s.count_none _ hnone]
    rfl

theorem publishRange_eq {s : Sequencer cap} {low high : Int64} (h : s.Forward high)
    (lo : 0 ≤ low.toInt) (le : low.toInt ≤ high.toInt) (word : high.toInt + 1 < 2 ^ 63) :
    publishRange low high s = .ok () (s.afterPublish low high) := by
  obtain ⟨cursor, gating, claims, tally⟩ := s
  cases claims with
  | single claimed cached =>
    simp only [publishRange, Act.get_bind, producer]
    rw [Act.bind_ok (advanceCursor_eq (h rfl))]
    exact countRange_eq _ lo le word
  | shared cached flags =>
    rw [publishRange, Act.get_bind]
    simp only [producer]
    rw [Act.modify_bind]
    exact countRange_eq _ lo le word

namespace Standing
variable {s : Sequencer cap} {published : Set ℤ}

/-- Publishing claimed sequences within a lap of gating adds them to the
published ones. A single producer publishes in claim order. -/
theorem afterPublish (h : s.Standing published) (low high : Int64)
    (le : low.toInt ≤ high.toInt) (fresh : s.gating.toInt < low.toInt)
    (near : high.toInt ≤ s.gating.toInt + cap.slots) (claimed : high.toInt ≤ s.claimed.toInt)
    (order : s.producer = .single → low.toInt = s.cursor.toInt + 1) :
    (s.afterPublish low high).Standing ({t | low.toInt ≤ t ∧ t ≤ high.toInt} ∪ published) := by
  refine ⟨by simpa using h.started, by simpa using h.cached_le, ?_, ?_, ?_,
    by simpa using h.room, ?_⟩
  · intro t ht
    exact Or.inr (h.released t (by simpa using ht))
  · rintro t (⟨_, ht⟩ | ht)
    · simp only [gating_afterPublish]
      omega
    · simpa using h.near t ht
  · rintro t (⟨_, ht⟩ | ht)
    · simp only [claimed_afterPublish]
      omega
    · simpa using h.claimed t ht
  · have hr := h.records
    have hroom := h.room
    obtain ⟨cursor, gating, ⟨_, _⟩ | ⟨_, flags⟩, tally⟩ := s
    · intro t
      have hmem := hr t
      have hlow := order rfl
      simp only at hmem hlow
      change (low.toInt ≤ t ∧ t ≤ high.toInt) ∨ t ∈ published ↔ t ≤ high.toInt
      rw [hmem]
      omega
    · intro t ht ht'
      simp only [gating_afterPublish] at ht ht' fresh near claimed hroom
      have hold := hr t ht ht'
      have hpeek := flags.peek_markRange gating.toInt low high fresh near le
        (by simp only [Sequencer.claimed] at claimed hroom; omega) ht ht'
      change (t ∈ {t | low.toInt ≤ t ∧ t ≤ high.toInt} ∪ published →
        (flags.markRange low high).Shows t) ∧
        (t ∉ {t | low.toInt ≤ t ∧ t ≤ high.toInt} ∪ published →
          (flags.markRange low high).laps.peek t = cap.lap (.ofInt (t - cap.slots)))
      rw [LapFlags.Shows, hpeek]
      by_cases hin : low.toInt ≤ t ∧ t ≤ high.toInt
      · rw [if_pos hin]
        exact ⟨fun _ => rfl, fun hnot => absurd (Or.inl hin) hnot⟩
      · rw [if_neg hin]
        refine ⟨fun hmem => ?_, fun hnot => hold.2 fun hmem => hnot (Or.inr hmem)⟩
        exact hold.1 (hmem.resolve_left hin)

/-- The flags show exactly the published sequences, up to one lap after a
position up to which all are published. -/
theorem shows_iff {cached : Int64} {flags : LapFlags cap} (h : s.Standing published)
    (hs : s.claims = .shared cached flags) {t : ℤ} (lo : s.gating.toInt < t)
    (hi : ∀ u ≤ t - cap.slots, u ∈ published) (word : t < 2 ^ 63) :
    flags.Shows t ↔ t ∈ published := by
  have hr := h.records
  have hle := cap.slots_le_int
  have hstart := h.start_le
  simp only [Records, hs] at hr
  have hlap : ∀ u : ℤ, s.gating.toInt < u → u < 2 ^ 63 →
      cap.lap (.ofInt u) ≠ cap.lap (.ofInt (u - cap.slots)) := by
    intro u hu hu'
    apply cap.lap_ne_before
    rw [Int64.toInt_ofInt_of_le (by omega) (by omega),
      Int64.toInt_ofInt_of_le (by omega) (by omega)]
  by_cases hnear : t ≤ s.gating.toInt + cap.slots
  · refine ⟨fun hshow => ?_, (hr t lo hnear).1⟩
    by_contra hnot
    exact hlap t lo word (hshow.symm.trans ((hr t lo hnear).2 hnot))
  · have hbefore := hi (t - cap.slots) (le_refl _)
    have hold := (hr _ (by omega) (by have := h.near _ hbefore; omega)).1 hbefore
    rw [LapFlags.Shows, Slots.peek_sub_slots] at hold
    refine ⟨fun hshow => absurd (hshow.symm.trans hold) (hlap t lo word), fun hmem => ?_⟩
    have := h.near t hmem
    omega

/-- A released sequence whose flag does not show it was published again, a lap later. -/
theorem lapped_of_not_shows {cached : Int64} {flags : LapFlags cap} (h : s.Standing published)
    (hs : s.claims = .shared cached flags) {t : ℤ} (released : t ≤ s.gating.toInt)
    (hnot : ¬ flags.Shows t) : t + cap.slots ∈ published := by
  have hr := h.records
  simp only [Records, hs] at hr
  by_contra hmem
  have hfar : s.gating.toInt < t + cap.slots := h.lt_of_not_mem hmem
  have hold := (hr (t + cap.slots) hfar (by omega)).2 hmem
  rw [← Slots.peek_sub_slots, Int.add_sub_cancel] at hold
  exact hnot hold

end Standing

end LapRing.Sequencer
