import LapRing.Proofs.Claiming
import LapRing.Proofs.WindowOpening

/-!
# Sequencers between calls

When every call has finished, all claimed sequences are published and the
cursor of either kind of producer is the last of them. A call that claims and
publishes moves it by its size, and a poll moves gating towards it by as much as
its batch admits.
-/
namespace LapRing.Sequencer
variable {cap : Capacity}

/-- The next claim begins after the cursor, as it always does with shared producers,
and with a sole one that has published its claims. -/
structure Level (s : Sequencer cap) (published : Set ℤ) : Prop where
  standing : s.Standing published
  claimed : s.claimed = s.cursor

/-- The window of the sequences that a claim of `n` gets. -/
def nextWindow (s : Sequencer cap) (n : Int64) : Window := ⟨s.cursor + n - (n - 1), s.cursor + n⟩

theorem nextWindow_one (s : Sequencer cap) :
    nextWindow s 1 = ⟨s.cursor + 1, s.cursor + 1⟩ := by
  simp [nextWindow]

/-- Admitting a claim takes no sole producer past what it may publish. -/
theorem forward_admitted {s : Sequencer cap} (n : Int64) {high : Int64}
    (le : s.cursor.toInt ≤ high.toInt) : (s.admitted n).Forward high := by
  intro hsingle
  rw [producer_admitted] at hsingle
  rw [cursor_admitted hsingle]
  exact le

/-- Publishing a claim that began after the cursor moves the cursor over it. -/
theorem cursor_published {s : Sequencer cap} (h : s.claimed = s.cursor) (n : Int64) :
    ((s.admitted n).afterPublish (nextWindow s n).first (nextWindow s n).last).cursor =
      s.cursor + n := by
  rcases (s.admitted n).shared_or_single with hkind | hkind
  · rw [cursor_afterPublish_shared _ _ _ hkind, cursor_of_shared hkind, claimed_admitted, h]
  · rw [cursor_afterPublish_single _ _ _ hkind]
    rfl

theorem claimed_published {s : Sequencer cap} (h : s.claimed = s.cursor) (n : Int64) :
    ((s.admitted n).afterPublish (nextWindow s n).first (nextWindow s n).last).claimed =
      s.cursor + n := by
  rw [claimed_afterPublish, claimed_admitted, h]

namespace Level
variable {s : Sequencer cap} {published : Set ℤ}

theorem gating_le (h : s.Level published) : s.gating.toInt ≤ s.cursor.toInt := by
  have := h.standing.gating_le
  rwa [h.claimed] at this

theorem start_le (h : s.Level published) : -1 ≤ s.gating.toInt := h.standing.start_le

theorem room (h : s.Level published) : s.cursor.toInt + cap.slots < 2 ^ 63 := by
  have := h.standing.room
  rwa [h.claimed] at this

theorem toInt_last (h : s.Level published) {n : Int64} (pos : 1 ≤ n.toInt)
    (word : s.cursor.toInt + n.toInt < 2 ^ 63) :
    (nextWindow s n).last.toInt = s.cursor.toInt + n.toInt := by
  have := h.start_le
  have := h.gating_le
  exact Checked.toInt_add (by omega) (by omega)

theorem toInt_first (h : s.Level published) {n : Int64} (pos : 1 ≤ n.toInt)
    (word : s.cursor.toInt + n.toInt < 2 ^ 63) :
    (nextWindow s n).first.toInt = s.cursor.toInt + 1 := by
  have := h.start_le
  have := h.gating_le
  have hlast : (s.cursor + n).toInt = s.cursor.toInt + n.toInt := h.toInt_last pos word
  have hsize : (n - 1).toInt = n.toInt - 1 := Checked.toInt_pred (by omega)
  change (s.cursor + n - (n - 1)).toInt = _
  rw [Checked.toInt_sub (by omega) (by omega)]
  omega

/-- A claim that fits, published at once, is published after all others. -/
theorem admitted_published (h : s.Level published) {n : Int64} (pos : 1 ≤ n.toInt)
    (fits : s.cursor.toInt + n.toInt ≤ s.gating.toInt + cap.slots)
    (room : s.cursor.toInt + n.toInt + cap.slots < 2 ^ 63) :
    ((s.admitted n).afterPublish (nextWindow s n).first (nextWindow s n).last).Level
      ({t | (nextWindow s n).first.toInt ≤ t ∧ t ≤ (nextWindow s n).last.toInt} ∪ published) := by
  have hfirst := h.toInt_first pos (by omega)
  have hlast := h.toInt_last pos (by omega)
  have hgating := h.gating_le
  have hadmitted := h.standing.admitted pos (by rw [h.claimed]; exact room)
  have hclaimed : (s.admitted n).claimed = (nextWindow s n).last := by
    rw [claimed_admitted, h.claimed]
    rfl
  have horder : (s.admitted n).producer = .single →
      (nextWindow s n).first.toInt = (s.admitted n).cursor.toInt + 1 := by
    intro hsingle
    rw [producer_admitted] at hsingle
    rw [cursor_admitted hsingle]
    exact hfirst
  constructor
  · exact hadmitted.afterPublish (nextWindow s n).first (nextWindow s n).last
      (by omega) (by rw [gating_admitted]; omega) (by rw [gating_admitted]; omega)
      (by rw [hclaimed]) horder
  · rw [claimed_published h.claimed, cursor_published h.claimed]

end Level

/-- All claimed sequences are published. -/
abbrev Settled (s : Sequencer cap) : Prop := s.Level {t | t ≤ s.cursor.toInt}

theorem settled_new (cap : Capacity) (producer : Multiplicity) (metrics : Bool) :
    (new cap producer metrics).Settled := by
  have h := standing_new cap producer metrics
  have hcursor : (new cap producer metrics).cursor.toInt = -1 := rfl
  exact ⟨by rw [hcursor]; exact h, by cases producer <;> rfl⟩

namespace Settled
variable {s : Sequencer cap}

theorem le_gating (h : s.Settled) : s.cursor.toInt ≤ s.gating.toInt + cap.slots :=
  h.standing.near _ (le_refl s.cursor.toInt)

theorem count (h : s.Settled) (f : Tally → Tally) : (s.count f).Settled :=
  ⟨h.standing.count f, h.claimed⟩

theorem withCached (h : s.Settled) : (s.withCached s.gating).Settled := by
  refine ⟨?_, by rw [claimed_withCached, cursor_withCached, h.claimed]⟩
  rw [cursor_withCached]
  exact h.standing.withCached h.start_le (le_refl _)

/-- A claim that fits, published at once, leaves all settled. -/
theorem admitted_published (h : s.Settled) {n : Int64} (pos : 1 ≤ n.toInt)
    (fits : s.cursor.toInt + n.toInt ≤ s.gating.toInt + cap.slots)
    (room : s.cursor.toInt + n.toInt + cap.slots < 2 ^ 63) :
    ((s.admitted n).afterPublish (nextWindow s n).first (nextWindow s n).last).Settled ∧
      ((s.admitted n).afterPublish (nextWindow s n).first (nextWindow s n).last).cursor =
        s.cursor + n := by
  have hfirst := h.toInt_first pos (by omega)
  have hlast := h.toInt_last pos (by omega)
  have hcursor := cursor_published h.claimed n
  have hall : {t : ℤ | (nextWindow s n).first.toInt ≤ t ∧ t ≤ (nextWindow s n).last.toInt} ∪
      {t | t ≤ s.cursor.toInt} = {t | t ≤ (s.cursor + n).toInt} := by
    ext t
    change (_ ∧ _) ∨ t ≤ _ ↔ t ≤ (nextWindow s n).last.toInt
    omega
  refine ⟨?_, hcursor⟩
  rw [Settled, hcursor, ← hall]
  exact Level.admitted_published h pos fits room

/-- With all published, the greatest run ends at the limit or at the cursor. -/
theorem greatest_run (h : s.Settled) {limit last : ℤ} (lo : s.gating.toInt ≤ limit)
    (hlast : IsGreatest (publishedRuns {t | t ≤ s.cursor.toInt} s.gating.toInt limit) last) :
    last = min s.cursor.toInt limit := by
  have hgating := h.gating_le
  have hmin : IsGreatest (publishedRuns {t | t ≤ s.cursor.toInt} s.gating.toInt limit)
      (min s.cursor.toInt limit) := by
    refine isGreatest_publishedRuns (by omega) (by omega) ?_ ?_
    · intro t _ ht
      exact ht.trans (min_le_left _ _)
    · intro hlt (hmem : min s.cursor.toInt limit + 1 ≤ s.cursor.toInt)
      omega
  exact hlast.unique hmin

theorem afterRelease (h : s.Settled) {win : Window} (lo : s.gating.toInt ≤ win.last.toInt)
    (hi : win.last.toInt ≤ s.cursor.toInt) : (Poller.afterRelease win s).Settled := by
  have hstanding := h.standing.withGating (g := win.last) lo fun t ht => ht.trans hi
  exact ⟨hstanding.count _, h.claimed⟩

end Settled

end LapRing.Sequencer
