import LapRing.Proofs.IgnoringActions
import LapRing.Ring

/-!
# Notes beside a world

Callers may note something beside their world, such as the values that they see. A ring of
the world is then reached from beside it, and all that is done to it there comes to the same
and leaves the notes alone. So an action whose callers take notes comes to what it comes to
without them.
-/
namespace LapRing

namespace Act
variable {L W α β : Type}

theorem outer_pure (v : α) : (outer (pure v) : Act (L × W) α) = pure v := rfl

theorem outer_throw (h : Halt) : (outer (throw h) : Act (L × W) α) = throw h := rfl

theorem outer_bind (x : Act W α) (f : α → Act W β) :
    (outer (x >>= f) : Act (L × W) β) = outer x >>= fun v => outer (f v) :=
  Part.lift_bind Part.lawful_second x f

theorem outer_ite (c : Prop) [Decidable c] (x y : Act W α) :
    (outer (if c then x else y) : Act (L × W) α) = if c then outer x else outer y :=
  apply_ite outer c x y

theorem of_outer_ok {x : Act W α} {l : L} {w : W} {v : α} {p : L × W}
    (h : outer x (l, w) = .ok v p) : ∃ w', x w = .ok v w' ∧ p = (l, w') :=
  Part.of_lift_ok h

/-- The world's own actions come to the same, whatever is noted beside it. -/
theorem follows_outer (x : Act W α) : Follows Prod.snd (outer x : Act (L × W) α) x := by
  rintro ⟨l, w⟩
  exact (congrArg (fun r => (r.1, r.2.2)) (Part.outcome_lift (p := Part.second) x (l, w))).symm

/-- Taking a note does nothing to the world. -/
theorem follows_note (f : L → L) :
    Follows Prod.snd (Part.first.update f : Act (L × W) Unit) (pure ()) := fun _ => rfl

/-- An action that takes notes ends as it does without them. -/
theorem Follows.noted {x : Act (L × W) α} {y : Act W α} (h : Follows Prod.snd x y)
    {w w' : W} {v : α} (hy : y w = .ok v w') (l : L) : ∃ l', x (l, w) = .ok v (l', w') := by
  have hrun := h (l, w)
  rw [outcome_ok hy] at hrun
  cases hx : x (l, w) with
  | ok u p =>
    rw [outcome_ok hx] at hrun
    obtain ⟨hv, rfl⟩ := Prod.mk.inj hrun
    obtain rfl := Except.ok.inj hv
    exact ⟨p.1, rfl⟩
  | error e p =>
    rw [outcome_error hx] at hrun
    simp at hrun

end Act

/-- A pause of a world that has something beside it. -/
def Pause.beside {L W : Type} (pause : Pause W) : Pause (L × W) :=
  fun wait => Act.outer (pause wait)

namespace Part
variable {L W S T : Type}

/-- `q` is the component `p` of the world, reached from beside it. -/
structure Overlies (q : Part (L × W) S) (p : Part W S) : Prop where
  lift : ∀ {α : Type} (act : Act S α), q.lift act = Act.outer (p.lift act)

theorem overlies_beside (p : Part W S) : (p.beside : Part (L × W) S).Overlies p :=
  ⟨fun act => lift_within second p act⟩

theorem Overlies.within {q : Part (L × W) S} {p : Part W S} (h : q.Overlies p) (r : Part S T) :
    (q.within r).Overlies (p.within r) := by
  constructor
  intro α act
  rw [lift_within, lift_within, h.lift]

theorem Overlies.follows_lift {q : Part (L × W) S} {p : Part W S} (h : q.Overlies p) {α : Type}
    (act : Act S α) : Act.Follows Prod.snd (q.lift act) (p.lift act) := by
  rw [h.lift]
  exact Act.follows_outer _

end Part

namespace Checked
variable {L W : Type}

theorem outer_word (value : ℤ) (fault : Fault) :
    (Act.outer (word value fault) : Act (L × W) Int64) = word value fault :=
  Act.outer_ite _ _ _

theorem outer_add (a b : Int64) : (Act.outer (add a b) : Act (L × W) Int64) = add a b :=
  outer_word _ _

theorem outer_sub (a b : Int64) : (Act.outer (sub a b) : Act (L × W) Int64) = sub a b :=
  outer_word _ _

end Checked

namespace Sequencer
variable {cap : Capacity} {L W : Type} {seq : Part W (Sequencer cap)}
  {seq' : Part (L × W) (Sequencer cap)}

theorem outer_highestPublished (s : Sequencer cap) (first available : Int64) :
    (Act.outer (s.highestPublished first available) : Act (L × W) Int64) =
      s.highestPublished first available := by
  unfold highestPublished LapFlags.frontier
  split
  · rfl
  · rw [Act.outer_bind, Checked.outer_word]
    exact congrArg _ (funext fun _ => Checked.outer_sub _ _)

variable (h : seq'.Overlies seq)
include h

theorem awaitGating_beside (wrapPoint : Int64) (pauses : List (Pause W)) :
    awaitGating seq' wrapPoint (pauses.map Pause.beside) =
      Act.outer (awaitGating seq wrapPoint pauses) := by
  induction pauses with
  | nil =>
    simp only [List.map_nil, awaitGating, Part.read, Part.update, h.lift, Act.outer_bind,
      Act.outer_ite, Act.outer_pure, Act.outer_throw]
  | cons pause pauses ih =>
    simp only [List.map_cons, awaitGating, Part.read, Part.update, h.lift, Act.outer_bind,
      Act.outer_ite, Act.outer_pure, ih]
    rfl

theorem claim_beside (pauses : List (Pause W)) (n : Int64) :
    claim seq' (pauses.map Pause.beside) n = Act.outer (claim seq pauses n) := by
  simp only [claim, Part.read, Part.update, h.lift, awaitGating_beside h, Act.outer_bind,
    Act.outer_ite]

theorem next_beside (pauses : List (Pause W)) (n : UInt64) :
    next seq' (pauses.map Pause.beside) n = Act.outer (next seq pauses n) := by
  unfold next
  split
  · rfl
  · rw [claim_beside h, Act.outer_bind]
    rfl

end Sequencer

namespace Poller
variable {cap : Capacity} {L W : Type}

theorem outer_window (s : Sequencer cap) (position batch : Int64) :
    (Act.outer (window s position batch) : Act (L × W) (Option Window)) =
      window s position batch := by
  simp only [window, Act.outer_bind, Act.outer_ite, Act.outer_pure, Act.outer_throw,
    Checked.outer_add, Checked.outer_sub, Sequencer.outer_highestPublished]

variable {seq : Part W (Sequencer cap)} {seq' : Part (L × W) (Sequencer cap)}
  {poller : Part W Poller} {poller' : Part (L × W) Poller} (hseq : seq'.Overlies seq)
  (hpoller : poller'.Overlies poller)
include hseq hpoller

theorem openWindow_beside (batch : UInt64) :
    openWindow seq' poller' batch = Act.outer (openWindow seq poller batch) := by
  simp only [openWindow, Part.read, Part.update, hseq.lift, hpoller.lift, Act.outer_bind,
    Act.outer_ite, Act.outer_pure, outer_window]
  split
  · rfl
  · refine congrArg _ (funext fun s => congrArg _ (funext fun p => congrArg _ ?_))
    refine funext fun found => ?_
    cases found with
    | none => rw [Act.outer_bind, Act.outer_pure]
    | some win => simp only [Act.outer_bind, Act.outer_ite, Act.outer_pure, Act.outer_throw]

theorem release_beside (win : Window) :
    release seq' poller' win = Act.outer (release seq poller win) := by
  simp only [release, Part.read, Part.update, Part.write, hseq.lift, hpoller.lift, Act.outer_bind]
  refine congrArg _ (funext fun p => ?_)
  cases p <;> simp only [Act.outer_bind, Act.outer_ite, Act.outer_pure, Act.outer_throw,
    Checked.outer_add, Checked.outer_sub]

theorem follows_poll {α : Type} (batch : UInt64) {drain : Window → Act W α}
    {drain' : Window → Act (L × W) α} (h : ∀ win, Act.Follows Prod.snd (drain' win) (drain win)) :
    Act.Follows Prod.snd (poll seq' poller' batch drain') (poll seq poller batch drain) := by
  unfold poll
  rw [openWindow_beside hseq hpoller]
  refine (Act.follows_outer _).bind fun found => ?_
  cases found with
  | none => exact Act.follows_pure _
  | some win =>
    simp only [release_beside hseq hpoller]
    exact ((h win).closing (Act.follows_outer _)).bind fun _ => Act.follows_pure _

end Poller

namespace Ring
variable {cap : Capacity} {L W σ : Type} {here : Part W (Ring cap σ)}
  {here' : Part (L × W) (Ring cap σ)} (h : here'.Overlies here)
include h

theorem claimMany_beside (pauses : List (Pause W)) (n : UInt64) :
    claimMany here' (pauses.map Pause.beside) n = Act.outer (claimMany here pauses n) := by
  simp only [claimMany, Sequencer.next_beside (h.within sequencerPart), Act.outer_bind]
  refine congrArg _ (funext fun answer => ?_)
  cases answer with
  | error refusal => rfl
  | ok high => simp only [Act.outer_bind, Act.outer_pure, Checked.outer_sub]

theorem publish_beside (win : Window) : publish here' win = Act.outer (publish here win) := by
  simp only [publish, Part.update, h.lift, Act.outer_bind]

theorem follows_untilWork {α : Type} {attempt : Act W (Option α)}
    {attempt' : Act (L × W) (Option α)}
    (hattempt : Act.Follows Prod.snd attempt' attempt) (others : List (Act W Unit)) :
    Act.Follows Prod.snd (untilWork here' attempt' (others.map Act.outer))
      (untilWork here attempt others) := by
  induction others with
  | nil =>
    refine hattempt.bind fun found => ?_
    cases found with
    | none => exact Act.follows_throw _
    | some x => exact Act.follows_pure x
  | cons other others ih =>
    refine hattempt.bind fun found => ?_
    cases found with
    | none =>
      exact (Act.follows_outer other).bind fun _ => (h.follows_lift _).bind fun _ => ih
    | some x => exact Act.follows_pure x

end Ring

end LapRing
