import LapRing.Proofs.Receiving
import LapRing.Proofs.Refusals

/-!
# Sends that can be put off

A send writes the slots after the cursor, publishes them and wakes consumers. Taking a
value out touches a slot before the cursor, and a release moves gating. So a send that has
room without them comes to the same after them as before, but for the value of gating that
producers remember.
-/
namespace LapRing

namespace Sequencer
variable {cap : Capacity} {s : Sequencer cap} {published : Set ℤ}

/-- The sequencer after a claim of `n` that need not wait was published. -/
def sent (n : Int64) (s : Sequencer cap) : Sequencer cap :=
  (s.admitted n).afterPublish (nextWindow s n).first (nextWindow s n).last

@[simp] theorem gating_sent (n : Int64) (s : Sequencer cap) : (s.sent n).gating = s.gating := by
  simp [sent]

/-- What is remembered aside, a send looks at the last sequence claimed and at the cursor. -/
theorem withCached_sent (n seen : Int64) (s : Sequencer cap) :
    (s.sent n).withCached seen = ((s.withClaimed (s.claimed + n)).afterPublish
      (nextWindow s n).first (nextWindow s n).last).withCached seen := by
  unfold sent admitted
  dsimp only
  split
  · rfl
  · obtain ⟨_, _, _ | _, _⟩ := s <;> rfl

theorem sent_withCached (n before seen : Int64) (s : Sequencer cap) :
    ((s.withCached before).sent n).withCached seen = (s.sent n).withCached seen := by
  rw [withCached_sent, withCached_sent]
  obtain ⟨_, _, _ | _, _⟩ := s <;> rfl

/-- A window may be released before a send as well as after it. -/
theorem sent_afterRelease (n seen : Int64) (win : Window) (s : Sequencer cap) :
    ((Poller.afterRelease win s).sent n).withCached seen =
      (Poller.afterRelease win (s.sent n)).withCached seen := by
  have hrelease : ∀ s : Sequencer cap, (Poller.afterRelease win s).withCached seen =
      Poller.afterRelease win (s.withCached seen) := by
    intro s
    obtain ⟨_, _, _ | _, _⟩ := s <;> rfl
  rw [hrelease, withCached_sent, withCached_sent]
  obtain ⟨_, _, _ | _, tally⟩ := s <;> cases tally <;> rfl

namespace Level

/-- A send that fits moves the cursor by its size, and takes back nothing that was published. -/
theorem sent (h : s.Level published) {n : Int64} (pos : 1 ≤ n.toInt)
    (fits : s.cursor.toInt + n.toInt ≤ s.gating.toInt + cap.slots)
    (room : s.cursor.toInt + n.toInt + cap.slots < 2 ^ 63) :
    (s.sent n).cursor.toInt = s.cursor.toInt + n.toInt ∧
      ∃ published', published ⊆ published' ∧ (s.sent n).Level published' := by
  constructor
  · rw [show (s.sent n).cursor = s.cursor + n from cursor_published h.claimed n]
    exact h.toInt_last pos (by omega)
  · exact ⟨_, Set.subset_union_right, h.admitted_published pos fits room⟩

/-- Any value of gating up to now may be remembered. -/
theorem withCached (h : s.Level published) {seen : Int64} (lo : -1 ≤ seen.toInt)
    (hi : seen.toInt ≤ s.gating.toInt) : (s.withCached seen).Level published :=
  ⟨h.standing.withCached lo hi, by rw [claimed_withCached, cursor_withCached, h.claimed]⟩

theorem remember (h : s.Level published) {seen : Int64} (past : seen = s.cached ∨ seen = s.gating) :
    (s.withCached seen).Level published := by
  have hstarted := h.standing.started
  have hcached := h.standing.cached_le
  rcases past with rfl | rfl
  · exact h.withCached hstarted hcached
  · exact h.withCached (hstarted.trans hcached) (le_refl _)

theorem afterRelease (h : s.Level published) {win : Window} (lo : s.gating.toInt ≤ win.last.toInt)
    (read : ∀ t ≤ win.last.toInt, t ∈ published) : (Poller.afterRelease win s).Level published :=
  ⟨(h.standing.withGating lo read).count _, h.claimed⟩

end Level

end Sequencer

theorem Slots.write_comm {cap : Capacity} {σ : Type} (slots : Slots cap σ) {s t : Int64}
    (hne : cap.slot s ≠ cap.slot t) (x y : σ) :
    (slots.write s x).write t y = (slots.write t y).write s x := by
  have hval : (cap.slot s).val ≠ (cap.slot t).val := fun he => hne (Fin.ext he)
  simp only [write]
  rw [Vector.set_comm _ _ hval]

namespace Channel
variable {cap : Capacity} {α : Type}

/-- The same channel with another value of gating to remember. -/
def withCached (seen : Int64) (c : Channel cap α) : Channel cap α :=
  c.withSequencer (c.ring.sequencer.withCached seen)

/-- Nothing but what producers remember of gating tells the two channels apart. -/
def Alike (c c' : Channel cap α) : Prop := c.withCached (-1) = c'.withCached (-1)

theorem Alike.trans {c c' c'' : Channel cap α} (h : c.Alike c') (h' : c'.Alike c'') : c.Alike c'' :=
  Eq.trans h h'

@[simp] theorem withCached_withCached (a b : Int64) (c : Channel cap α) :
    (c.withCached a).withCached b = c.withCached b := by
  simp [withCached, withSequencer]

theorem alike_withCached (seen : Int64) (c : Channel cap α) : (c.withCached seen).Alike c :=
  c.withCached_withCached seen (-1)

theorem Alike.eq_withCached {c c' : Channel cap α} (h : c.Alike c') :
    c' = c.withCached c'.ring.sequencer.cached := by
  have hsame : c'.withCached c'.ring.sequencer.cached = c' := by
    simp [withCached, withSequencer]
  have hagain := congrArg (withCached c'.ring.sequencer.cached) h
  rw [withCached_withCached, withCached_withCached, hsame] at hagain
  exact hagain.symm

/-- What can be seen of a channel is alike in both. -/
theorem Alike.views {c c' : Channel cap α} (h : c.Alike c') :
    c.ring.slots = c'.ring.slots ∧ c.ring.sequencer.cursor = c'.ring.sequencer.cursor ∧
      c.ring.sequencer.gating = c'.ring.sequencer.gating ∧ c.discarded = c'.discarded := by
  rw [h.eq_withCached]
  simp [withCached, withSequencer]

theorem Alike.poller {c c' : Channel cap α} (h : c.Alike c') : c.ring.poller = c'.ring.poller := by
  rw [h.eq_withCached]
  rfl

/-! ## Emptying, releasing and sending -/

/-- The channel without what is in one slot. -/
def empty (s : Int64) (c : Channel cap α) : Channel cap α :=
  c.withSlots (c.ring.slots.write s none)

def released (win : Window) (c : Channel cap α) : Channel cap α :=
  c.withSequencer (Poller.afterRelease win c.ring.sequencer)

theorem alike_empty {c c' : Channel cap α} (h : c.Alike c') (s : Int64) :
    (c.empty s).Alike (c'.empty s) := by
  rw [h.eq_withCached]
  exact (alike_withCached c'.ring.sequencer.cached (c.empty s)).symm

theorem alike_released {c c' : Channel cap α} (h : c.Alike c') (win : Window) :
    (c.released win).Alike (c'.released win) := by
  rw [h.eq_withCached]
  unfold Alike released withCached withSequencer
  obtain ⟨⟨_, ⟨_, _, _ | _, _⟩, _, _, _, _, _⟩, _⟩ := c <;> rfl

def woken (c : Channel cap α) : Channel cap α :=
  { c with ring := { c.ring with coordinator := c.ring.coordinator.wakeup } }

theorem refillAll_withSequencer (ss : List Int64) (xs : List (Option α)) (s : Sequencer cap)
    (c : Channel cap α) :
    (c.withSequencer s).refillAll ss xs = (c.refillAll ss xs).withSequencer s := by
  have hrefill : ∀ (t : Int64) (x : Option α) (c : Channel cap α),
      (c.withSequencer s).refill t x = (c.refill t x).withSequencer s := by
    intro t x c
    unfold refill
    change Channel.discard (c.ring.slots.read t) _ = _
    cases c.ring.slots.read t <;> rfl
  induction ss generalizing xs c with
  | nil => rfl
  | cons t ss ih =>
    cases xs with
    | nil => rfl
    | cons x xs => rw [refillAll, hrefill, ih, refillAll]

/-- A send fills slots, moves the sequencer on and wakes. -/
theorem afterSend_def (n : Int64) (entries : List (Option α)) (c : Channel cap α) :
    c.afterSend n entries =
      ((c.refillAll (Sequencer.nextWindow c.ring.sequencer n).sequences entries).withSequencer
        (c.ring.sequencer.sent n)).woken := by
  unfold afterSend
  dsimp only
  rw [refillAll_withSequencer]
  rfl

theorem sequencer_afterSend (n : Int64) (entries : List (Option α)) (c : Channel cap α) :
    (c.afterSend n entries).ring.sequencer = c.ring.sequencer.sent n := by
  rw [afterSend_def]
  rfl

theorem poller_afterSend (n : Int64) (entries : List (Option α)) (c : Channel cap α) :
    (c.afterSend n entries).ring.poller = c.ring.poller := by
  rw [ring_afterSend]
  rfl

/-- Sends do not see what is remembered. -/
theorem alike_afterSend {c c' : Channel cap α} (h : c.Alike c') (n : Int64)
    (entries : List (Option α)) : (c.afterSend n entries).Alike (c'.afterSend n entries) := by
  rw [h.eq_withCached]
  set seen := c'.ring.sequencer.cached
  have hwindow : Sequencer.nextWindow (c.withCached seen).ring.sequencer n =
      Sequencer.nextWindow c.ring.sequencer n := by
    simp [Sequencer.nextWindow, withCached, withSequencer]
  have hsent := Sequencer.sent_withCached n seen (-1) c.ring.sequencer
  rw [afterSend_def, afterSend_def, hwindow]
  unfold withCached at *
  rw [refillAll_withSequencer]
  unfold Alike withCached woken withSequencer
  simp only
  rw [← hsent]

/-- A send before a release is alike to one after it. -/
theorem released_afterSend (win : Window) (n : Int64) (entries : List (Option α))
    (c : Channel cap α) :
    ((c.afterSend n entries).released win).Alike ((c.released win).afterSend n entries) := by
  have hsent := Sequencer.sent_afterRelease n (-1) win c.ring.sequencer
  rw [afterSend_def, afterSend_def]
  unfold released
  rw [refillAll_withSequencer]
  unfold Alike withCached woken withSequencer
  simp only
  have hwindow : Sequencer.nextWindow (Poller.afterRelease win c.ring.sequencer) n =
      Sequencer.nextWindow c.ring.sequencer n := rfl
  rw [hwindow, hsent]

/-- Slots that are filled keep out of the way of one that is emptied. -/
theorem empty_refillAll {ss : List Int64} {s : Int64} (hne : ∀ t ∈ ss, cap.slot s ≠ cap.slot t)
    (xs : List (Option α)) (c : Channel cap α) :
    (c.refillAll ss xs).empty s = (c.empty s).refillAll ss xs := by
  induction ss generalizing xs c with
  | nil => rfl
  | cons t ss ih =>
    cases xs with
    | nil => rfl
    | cons x xs =>
      have hst := hne t List.mem_cons_self
      have hread : (c.ring.slots.write s none).read t = c.ring.slots.read t := by
        rw [Slots.read_write, if_neg hst]
      have hone : (c.refill t x).empty s = (c.empty s).refill t x := by
        unfold refill empty
        simp only [slots_withSlots, withSlots_withSlots, hread, ring_discard]
        rw [Slots.write_comm _ hst]
        cases c.ring.slots.read t <;> rfl
      rw [refillAll, ih (fun u hu => hne u (List.mem_cons_of_mem _ hu)), hone, refillAll]

theorem empty_afterSend {n : Int64} {s : Int64} {c : Channel cap α}
    (hne : ∀ t ∈ (Sequencer.nextWindow c.ring.sequencer n).sequences, cap.slot s ≠ cap.slot t)
    (entries : List (Option α)) :
    (c.afterSend n entries).empty s = (c.empty s).afterSend n entries := by
  rw [afterSend_def, afterSend_def]
  have hempty := empty_refillAll hne entries c
  change ((((c.refillAll _ entries).empty s).withSequencer (c.ring.sequencer.sent n)).woken) = _
  rw [hempty]
  rfl

/-- A send writes no slot but its own. -/
theorem read_afterSend {n : Int64} {s : Int64} {c : Channel cap α}
    (hne : ∀ t ∈ (Sequencer.nextWindow c.ring.sequencer n).sequences, cap.slot s ≠ cap.slot t)
    (entries : List (Option α)) :
    (c.afterSend n entries).ring.slots.read s = c.ring.slots.read s := by
  rw [ring_afterSend, ← Slots.peek_toInt, ← Slots.peek_toInt]
  refine Slots.peek_writeAll_other _ _ _ fun t ht he => hne t ht ?_
  exact (cap.slot_eq_iff s t).mpr he.symm

end Channel

end LapRing
