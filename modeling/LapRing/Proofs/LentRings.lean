import LapRing.Proofs.SettledSequencer
import LapRing.Ring

/-!
# Rings in a world

A ring is used from a world that also holds what its callers own. A claim that
fits, a publication and a window change the ring in that world and nothing else,
so what they do is said once for every world a ring may be a part of.
-/
namespace LapRing.Ring
open Sequencer
variable {cap : Capacity} {W σ : Type}

def withSequencer (s : Sequencer cap) (r : Ring cap σ) : Ring cap σ := { r with sequencer := s }

/-- The ring after the sequences of a window were published. -/
def afterPublish (win : Window) (r : Ring cap σ) : Ring cap σ :=
  { r with
    sequencer := r.sequencer.afterPublish win.first win.last
    coordinator := r.coordinator.wakeup }

variable {here : Part W (Ring cap σ)} {w : W} {published : Set ℤ}

/-- A claimed window is published and the consumers are woken. -/
theorem publish_eq (hhere : here.Lawful) (win : Window)
    (forward : (here.split w).1.sequencer.Forward win.last) (lo : 0 ≤ win.first.toInt)
    (le : win.first.toInt ≤ win.last.toInt) (word : win.last.toInt + 1 < 2 ^ 63) :
    publish here win w =
      .ok () (here.join ((here.split w).1.afterPublish win) (here.split w).2) := by
  have hrun : (if win.first = win.last then Sequencer.publish win.last
      else Sequencer.publishRange win.first win.last) (here.split w).1.sequencer =
      .ok () ((here.split w).1.sequencer.afterPublish win.first win.last) := by
    by_cases hone : win.first = win.last
    · rw [if_pos hone, hone]
      exact Sequencer.publish_eq forward
    · rw [if_neg hone]
      exact Sequencer.publishRange_eq forward lo le word
  have hlift : sequencerPart.lift (if win.first = win.last then Sequencer.publish win.last
      else Sequencer.publishRange win.first win.last) (here.split w).1 =
      .ok () ((here.split w).1.withSequencer
        ((here.split w).1.sequencer.afterPublish win.first win.last)) :=
    Part.lift_ok hrun
  rw [publish, Act.bind_ok (Part.lift_ok hlift), Part.update_apply, hhere.split_join,
    hhere.join_join]
  rfl

/-- A claim that fits is admitted at once. -/
theorem claim_eq (hhere : here.Lawful) (h : (here.split w).1.sequencer.Level published) {n : Int64}
    (pos : 1 ≤ n.toInt)
    (fits : (here.split w).1.sequencer.cursor.toInt + n.toInt ≤
      (here.split w).1.sequencer.gating.toInt + cap.slots)
    (room : (here.split w).1.sequencer.cursor.toInt + n.toInt + 1 < 2 ^ 63)
    (pauses : List (Pause W)) :
    Sequencer.claim (here.within sequencerPart) pauses n w =
      .ok ((here.split w).1.sequencer.cursor + n)
        (here.join ((here.split w).1.withSequencer ((here.split w).1.sequencer.admitted n))
          (here.split w).2) := by
  have hstart := h.start_le.trans h.standing.gating_le
  rw [← h.claimed] at fits room ⊢
  exact Sequencer.claim_eq (hhere.within lawful_sequencerPart) hstart pos room fits pauses

/-- A claim of several slots that fits gets the next ones. -/
theorem claimMany_eq (hhere : here.Lawful) (h : (here.split w).1.sequencer.Level published)
    {n : UInt64} (pos : 1 ≤ n.toNat) (le : n.toNat ≤ cap.slots)
    (fits : (here.split w).1.sequencer.cursor.toInt + n.toNat ≤
      (here.split w).1.sequencer.gating.toInt + cap.slots)
    (room : (here.split w).1.sequencer.cursor.toInt + n.toNat + 1 < 2 ^ 63)
    (pauses : List (Pause W)) :
    claimMany here pauses n w =
      .ok (.ok (nextWindow (here.split w).1.sequencer n.toInt64))
        (here.join
          ((here.split w).1.withSequencer ((here.split w).1.sequencer.admitted n.toInt64))
          (here.split w).2) := by
  have hstart := h.start_le
  have hgating := h.gating_le
  have hone := Checked.toInt_one
  have hn : n.toInt64.toInt = n.toNat := cap.toInt_toInt64 le
  have hlast : ((here.split w).1.sequencer.cursor + n.toInt64).toInt =
      (here.split w).1.sequencer.cursor.toInt + n.toInt64.toInt :=
    h.toInt_last (by omega) (by omega)
  have hless : (n.toInt64 - 1).toInt = n.toInt64.toInt - 1 := Checked.toInt_pred (by omega)
  have hnext : Sequencer.next (here.within sequencerPart) pauses n w =
      .ok (.ok ((here.split w).1.sequencer.cursor + n.toInt64)) (here.join
        ((here.split w).1.withSequencer ((here.split w).1.sequencer.admitted n.toInt64))
        (here.split w).2) := by
    simp only [Sequencer.next, cap.checkClaim_ok pos le]
    exact Act.bind_ok (claim_eq hhere h (by omega) (by omega) (by omega) pauses)
  rw [claimMany, Act.bind_ok hnext]
  simp only
  rw [Checked.sub_exact (by omega) (by omega), pure_bind,
    Checked.sub_exact (by omega) (by omega), pure_bind]
  rfl

/-- A claim above the capacity is refused before anything is done. -/
theorem claimMany_tooLong {n : UInt64} (long : cap.slots < n.toNat) (pauses : List (Pause W)) :
    claimMany here pauses n w = .ok (.error (.invalidClaim n cap.word)) w := by
  have hnext : Sequencer.next (here.within sequencerPart) pauses n w =
      .ok (.error (.invalidClaim n cap.word)) w := by
    simp only [Sequencer.next, cap.checkClaim_error long]
    rfl
  rw [claimMany, Act.bind_ok hnext]
  rfl

/-- How many sequences a poll of `batch` finds when all claims are published. -/
def ahead (batch : UInt64) (r : Ring cap σ) : ℕ :=
  min batch.toNat (r.sequencer.cursor.toInt - r.sequencer.gating.toInt).toNat

/-- A poll opens a window on the published sequences that its batch admits. -/
theorem openWindow_eq (hhere : here.Lawful) (h : (here.split w).1.sequencer.Settled)
    (hp : (here.split w).1.poller.position (here.split w).1.sequencer =
      (here.split w).1.sequencer.gating) {batch : UInt64} (hb : batch ≠ 0) :
    ∃ last : Int64,
      last.toInt = (here.split w).1.sequencer.gating.toInt + (here.split w).1.ahead batch ∧
      Poller.openWindow (here.within sequencerPart) (here.within pollerPart) batch w =
        match Poller.windowTo (here.split w).1.sequencer.gating last with
        | none => .ok none (here.join
            ((here.split w).1.withSequencer ((here.split w).1.sequencer.count .idle))
            (here.split w).2)
        | some win => .ok (some win) (here.join
            { (here.split w).1 with poller := (here.split w).1.poller.claim win }
            (here.split w).2) := by
  have hgating := h.gating_le
  have hlap := h.le_gating
  obtain ⟨last, hgreatest, hopen⟩ := Poller.openWindow_eq (w := w)
    (hhere.within lawful_sequencerPart) (hhere.within lawful_pollerPart) h.standing hp (le_refl _)
    h.standing.released hb
  refine ⟨last, ?_, hopen⟩
  have hlast := h.greatest_run (by omega) hgreatest
  rw [hlast, ahead]
  omega

/-- A window whose turn it is is released in the ring. -/
theorem release_eq (hhere : here.Lawful) {win : Window}
    (turn : win.first.toInt = (here.split w).1.sequencer.gating.toInt + 1)
    (le : win.first.toInt ≤ win.last.toInt)
    (small : win.last.toInt - win.first.toInt + 1 < 2 ^ 63) :
    Poller.release (here.within sequencerPart) (here.within pollerPart) win w =
      .ok () (here.join ((here.split w).1.withSequencer
        (Poller.afterRelease win (here.split w).1.sequencer)) (here.split w).2) :=
  Poller.release_eq (hhere.within lawful_sequencerPart) (hhere.within lawful_pollerPart)
    turn le small

end LapRing.Ring
