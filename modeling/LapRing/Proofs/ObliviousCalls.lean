import LapRing.Proofs.SideHolders
import LapRing.Proofs.EventArray
import LapRing.Proofs.ForgottenGating

/-!
# Calls that overlook memory

Polls and publications read no memory, whatever their callbacks do with what they
are given. So the calls of a ring and of a channel come to the same whatever their
producers remember, except that a claim has to remember something gating was.
-/
namespace LapRing

namespace Poller
open Sequencer (recalling)
variable {cap : Capacity} {W α : Type} (c : Int64)

theorem position_withCached (p : Poller) (s : Sequencer cap) :
    p.position (s.withCached c) = p.position s := by
  simp only [position, Sequencer.gating_withCached]

theorem window_withCached (s : Sequencer cap) (position batch : Int64) :
    (window (s.withCached c) position batch : Act W (Option Window)) =
      window s position batch := by
  unfold window
  simp only [Sequencer.cursor_withCached, Sequencer.highestPublished_withCached]

theorem ignores_window (g : W → W) (s : Sequencer cap) (position batch : Int64) :
    Act.Ignores g (window s position batch) := by
  unfold window
  refine (Checked.ignores_add g _ _).bind fun first => ?_
  refine (Checked.ignores_add g _ _).bind fun limit => ?_
  dsimp only
  split
  · exact Act.ignores_pure _
  · refine (Sequencer.ignores_highestPublished g s _ _).bind fun highest => ?_
    refine (Checked.ignores_sub g _ _).bind fun low => ?_
    split
    · exact Act.ignores_throw _
    · split <;> exact Act.ignores_pure _

variable {seq : Part W (Sequencer cap)} {poller : Part W Poller} (hseq : seq.Lawful)
  (apart : seq.Apart poller)
include hseq apart

theorem ignores_openWindow (batch : UInt64) :
    Act.Ignores (recalling seq c) (openWindow seq poller batch) := by
  unfold openWindow
  split
  · exact Act.ignores_pure _
  · apply Part.follows_read_bind hseq
    intro s
    refine (apart.ignores_lift _ get).bind fun p => ?_
    rw [position_withCached, window_withCached, Sequencer.gating_withCached]
    refine (ignores_window _ s _ _).bind fun found => ?_
    cases found with
    | none =>
      refine (Part.ignores_update hseq fun s => ?_).bind fun _ => Act.ignores_pure _
      exact Sequencer.count_withCached c s _
    | some win =>
      dsimp only
      split
      · exact Act.ignores_throw _
      · exact (apart.ignores_lift _ _).bind fun _ => Act.ignores_pure _

theorem ignores_release (win : Window) :
    Act.Ignores (recalling seq c) (release seq poller win) := by
  have hcount : Act.Ignores (recalling seq c) (do
      if (← seq.read).tally.isSome then
        let size ← Checked.add (← Checked.sub win.last win.first) 1
        seq.update (·.count (.consumed size.toUInt64)) : Act W Unit) := by
    apply Part.follows_read_bind hseq
    intro s
    rw [Sequencer.tally_withCached]
    split
    · refine (Checked.ignores_sub _ _ _).bind fun _ => ?_
      refine (Checked.ignores_add _ _ _).bind fun _ => Part.ignores_update hseq fun s => ?_
      exact Sequencer.count_withCached c s _
    · exact Act.ignores_pure _
  unfold release
  refine (apart.ignores_lift _ get).bind fun p => ?_
  cases p with
  | sole =>
    refine (Part.ignores_update hseq fun s => ?_).bind fun _ => hcount
    exact Sequencer.withGating_withCached c s _
  | competing claimed =>
    apply Part.follows_read_bind hseq
    intro s
    refine (Checked.ignores_sub _ _ _).bind fun before => ?_
    rw [Sequencer.advanceGating_withCached]
    dsimp only
    split
    · exact (Part.follows_write hseq _).bind fun _ => hcount
    · exact Act.ignores_throw _

theorem ignores_poll (batch : UInt64) {drain : Window → Act W α}
    (hdrain : ∀ win, Act.Ignores (recalling seq c) (drain win)) :
    Act.Ignores (recalling seq c) (poll seq poller batch drain) := by
  unfold poll
  refine (ignores_openWindow c hseq apart batch).bind fun found => ?_
  cases found with
  | none => exact Act.ignores_pure _
  | some win =>
    exact ((hdrain win).closing (ignores_release c hseq apart win)).bind fun _ => Act.ignores_pure _

end Poller

namespace Ring
open Sequencer (recalling Oblivious)
variable {cap : Capacity} {W σ α : Type} (c : Int64)

theorem apart_pollerPart : (sequencerPart : Part (Ring cap σ) _).Apart pollerPart :=
  ⟨fun _ _ => rfl, fun _ _ _ => rfl⟩

theorem apart_slotsPart : (sequencerPart : Part (Ring cap σ) _).Apart slotsPart :=
  ⟨fun _ _ => rfl, fun _ _ _ => rfl⟩

theorem apart_coordinatorPart : (sequencerPart : Part (Ring cap σ) _).Apart coordinatorPart :=
  ⟨fun _ _ => rfl, fun _ _ _ => rfl⟩

section Handles
variable (f : Sequencer cap → Sequencer cap)

/-- Whether a handle is given away is no matter of the sequencer. -/
theorem ignores_acquire {act : Act (Ring cap σ) (Except Refusal Unit)} {refusal : Refusal}
    {grants : Ring cap σ → Bool} {granted : Ring cap σ → Ring cap σ}
    (hact : ∀ r, act r = if grants r then .ok (.ok ()) (granted r) else .ok (.error refusal) r)
    (same : ∀ r, grants (sequencerPart.alter f r) = grants r)
    (kept : ∀ r, granted (sequencerPart.alter f r) = sequencerPart.alter f (granted r)) :
    Act.Ignores (sequencerPart.alter f) act := by
  intro r
  have hrun := hact r
  have hrun' := hact (sequencerPart.alter f r)
  rw [same, kept] at hrun'
  split at hrun
  · rename_i hadmitted
    rw [if_pos hadmitted] at hrun'
    rw [Act.outcome_ok hrun, Act.outcome_ok hrun']
  · rename_i hadmitted
    rw [if_neg hadmitted] at hrun'
    rw [Act.outcome_ok hrun, Act.outcome_ok hrun']

theorem ignores_acquireProducer :
    Act.Ignores (sequencerPart.alter f) (acquireProducer : Act (Ring cap σ) _) :=
  ignores_acquire f acquireProducer_eq (fun _ => rfl) fun _ => rfl

theorem ignores_acquireConsumer :
    Act.Ignores (sequencerPart.alter f) (acquireConsumer : Act (Ring cap σ) _) :=
  ignores_acquire f acquireConsumer_eq (fun _ => rfl) fun _ => rfl

end Handles

theorem recalling_within (here : Part W (Ring cap σ)) :
    recalling (here.within sequencerPart) c =
      here.alter (sequencerPart.alter (·.withCached c)) := rfl

variable {here : Part W (Ring cap σ)} (hhere : here.Lawful)
include hhere

theorem ignores_publish (win : Window) :
    Act.Ignores (recalling (here.within sequencerPart) c) (publish here win) := by
  unfold publish
  rw [recalling_within]
  refine Act.Follows.bind (Part.follows_lift hhere (Part.follows_lift lawful_sequencerPart ?_))
    fun _ => Part.ignores_update hhere fun _ => rfl
  split
  · exact Sequencer.ignores_publish c _
  · exact Sequencer.ignores_publishRange c _ _

theorem ignores_poll (batch : UInt64) {drain : Window → Act W α}
    (hdrain : ∀ win, Act.Ignores (recalling (here.within sequencerPart) c) (drain win)) :
    Act.Ignores (recalling (here.within sequencerPart) c) (poll here batch drain) :=
  Poller.ignores_poll c (hhere.within lawful_sequencerPart) (apart_pollerPart.within hhere) batch
    hdrain

theorem ignores_countFailure :
    Act.Ignores (recalling (here.within sequencerPart) c) (countFailure here) := by
  rw [recalling_within]
  refine Part.ignores_update hhere fun r => ?_
  change withSequencer ((r.sequencer.withCached c).count .failed) r =
    withSequencer ((r.sequencer.count .failed).withCached c) r
  rw [Sequencer.count_withCached]

/-! ### Claims -/

theorem oblivious_claimMany {w : W}
    (mindful : ((here.within sequencerPart).split w).1.Mindful) (n : UInt64) :
    Oblivious (here.within sequencerPart) (claimMany here [] n) w := by
  unfold claimMany
  refine (Sequencer.oblivious_next (hhere.within lawful_sequencerPart) n mindful).bind
    fun answer c => ?_
  cases answer with
  | error refusal => exact Act.ignores_pure _
  | ok high =>
    refine (Checked.ignores_sub _ _ _).bind fun less => ?_
    exact (Checked.ignores_sub _ _ _).bind fun low => Act.ignores_pure _

end Ring

namespace Channel
open Sequencer (recalling Oblivious)
variable {cap : Capacity} {W α : Type} (c : Int64)

theorem ignores_exchange (f : Sequencer cap → Sequencer cap) (s : Int64) (content : Option α) :
    Act.Ignores (ringPart.alter (Ring.sequencerPart.alter f)) (exchange s content) :=
  Part.follows_lift lawful_ringPart (Ring.apart_slotsPart.ignores_lift f _)

theorem discard_alter (f : Ring cap (Option α) → Ring cap (Option α)) (value : Option α)
    (ch : Channel cap α) :
    discard value (ringPart.alter f ch) = ringPart.alter f (discard value ch) := by
  cases value <;> rfl

theorem ignores_vacate (f : Sequencer cap → Sequencer cap) (s : Int64) :
    Act.Ignores (ringPart.alter (Ring.sequencerPart.alter f))
      (vacate s : Act (Channel cap α) Unit) := by
  unfold vacate
  refine (ignores_exchange f s none).bind fun left => Act.ignores_modify fun ch => ?_
  exact discard_alter _ left ch

section Calls
variable {here : Part W (Channel cap α)} (hhere : here.Lawful)

/-- The sequencer of the channel of a world. -/
abbrev seqOf (here : Part W (Channel cap α)) : Part W (Sequencer cap) :=
  (here.within ringPart).within Ring.sequencerPart

theorem recalling_seqOf (here : Part W (Channel cap α)) :
    recalling (seqOf here) c =
      here.alter (ringPart.alter (Ring.sequencerPart.alter (·.withCached c))) := rfl

include hhere

theorem lawful_seqOf : (seqOf here).Lawful :=
  (hhere.within lawful_ringPart).within Ring.lawful_sequencerPart

theorem ignores_lift_exchange (s : Int64) (content : Option α) :
    Act.Ignores (recalling (seqOf here) c) (here.lift (exchange s content)) := by
  rw [recalling_seqOf]
  exact Part.follows_lift hhere (ignores_exchange _ s content)

theorem ignores_discard (value : Option α) :
    Act.Ignores (recalling (seqOf here) c) (here.update (discard value)) := by
  rw [recalling_seqOf]
  exact Part.ignores_update hhere fun ch => discard_alter _ value ch

theorem ignores_publish (win : Window) :
    Act.Ignores (recalling (seqOf here) c) (Ring.publish (here.within ringPart) win) :=
  Ring.ignores_publish c (hhere.within lawful_ringPart) win

/-! ### Sending -/

theorem ignores_store (s : Int64) (value : α) :
    Act.Ignores (recalling (seqOf here) c) (store here s value) := by
  unfold store
  refine (ignores_lift_exchange c hhere s (some value)).bind fun stale => ?_
  exact (ignores_publish c hhere ⟨s, s⟩).closing (ignores_discard c hhere stale)

theorem oblivious_push {w : W} (mindful : ((seqOf here).split w).1.Mindful) (value : α) :
    Oblivious (seqOf here) (push here [] value) w := by
  unfold push
  have hclaim := Sequencer.oblivious_claim (lawful_seqOf hhere) (n := 1) (by decide) mindful
  exact hclaim.bind fun s c => ignores_store c hhere s value

theorem oblivious_tryPush {w : W} (mindful : ((seqOf here).split w).1.Mindful) (value : α) :
    Oblivious (seqOf here) (tryPush here value) w := by
  unfold tryPush
  rw [← Part.lift_within ringPart, ← Part.lift_within here]
  have hclaim : Oblivious (seqOf here) ((seqOf here).lift (Sequencer.tryClaim 1)) w :=
    Sequencer.oblivious_tryClaim (lawful_seqOf hhere) mindful.cached_le 1
  refine hclaim.bind fun claimed c => ?_
  cases claimed with
  | none => exact Act.ignores_pure _
  | some s => exact (ignores_store c hhere s value).bind fun _ => Act.ignores_pure _

section Feeds
variable {feed : Feed W α} (hfeed : ∀ k, Act.Ignores (recalling (seqOf here) c) (feed.next k))
include hfeed

theorem ignores_fillOne (k : ℕ) (s : Int64) :
    Act.Ignores (recalling (seqOf here) c) (fillOne here feed k s) := by
  unfold fillOne
  refine (hfeed k).bind fun item => ?_
  cases item with
  | none => exact Act.ignores_pure _
  | some value =>
    refine (ignores_lift_exchange c hhere s (some value)).bind fun stale => ?_
    refine Act.Follows.bind ?_ fun _ => Act.ignores_pure _
    exact (Checked.ignores_add _ _ _).closing (ignores_discard c hhere stale)

theorem ignores_fill (k : ℕ) (ss : List Int64) :
    Act.Ignores (recalling (seqOf here) c) (fill here feed k ss) := by
  induction ss generalizing k with
  | nil => exact Act.ignores_pure _
  | cons s ss ih =>
    have hvacate : Act.Ignores (recalling (seqOf here) c)
        ((s :: ss).forM fun t => here.lift (vacate t)) := by
      refine Act.ignores_forM (fun t => ?_) (s :: ss)
      rw [recalling_seqOf]
      exact Part.follows_lift hhere (ignores_vacate _ t)
    unfold fill
    refine ((ignores_fillOne c hhere hfeed k s).onHalt hvacate).bind fun more => ?_
    cases more with
    | true => exact ih (k + 1)
    | false => exact hvacate

end Feeds

theorem oblivious_pushBatch {w : W} (mindful : ((seqOf here).split w).1.Mindful) {feed : Feed W α}
    (hfeed : ∀ c k, Act.Ignores (recalling (seqOf here) c) (feed.next k)) :
    Oblivious (seqOf here) (pushBatch here [] feed) w := by
  unfold pushBatch
  split
  · exact Sequencer.oblivious_of_ignores (fun c => Act.ignores_pure _) w
  · have hclaim : Oblivious (seqOf here) (Ring.claimMany (here.within ringPart) [] feed.length) w :=
      Ring.oblivious_claimMany (hhere.within lawful_ringPart) mindful feed.length
    refine hclaim.bind fun answer c => ?_
    cases answer with
    | error refusal => exact Act.ignores_pure _
    | ok win =>
      refine Act.Follows.bind ?_ fun _ => Act.ignores_pure _
      exact (ignores_fill c hhere (hfeed c) 0 _).closing (ignores_publish c hhere win)

/-! ### Receiving -/

theorem ignores_receiveCount (batch : UInt64) {f : α → Int64 → Act W Unit}
    (hf : ∀ value s, Act.Ignores (recalling (seqOf here) c) (f value s)) :
    Act.Ignores (recalling (seqOf here) c) (receiveCount here batch f) := by
  refine Ring.ignores_poll c (hhere.within lawful_ringPart) batch fun win => ?_
  refine Act.ignores_foldlM (fun received s => ?_) win.sequences 0
  refine (ignores_lift_exchange c hhere s none).bind fun content => ?_
  cases content with
  | none => exact Act.ignores_pure _
  | some value => exact (hf value s).bind fun _ => Act.ignores_pure _

theorem ignores_receive (batch : UInt64) {f : α → Act W Unit}
    (hf : ∀ value, Act.Ignores (recalling (seqOf here) c) (f value)) :
    Act.Ignores (recalling (seqOf here) c) (receive here batch f) := by
  unfold receive
  exact (ignores_receiveCount c hhere batch fun value _ => hf value).bind fun _ =>
    Act.ignores_pure _

theorem ignores_blockingReceive (batch : UInt64) {f : α → Act W Unit}
    (hf : ∀ value, Act.Ignores (recalling (seqOf here) c) (f value)) :
    Act.Ignores (recalling (seqOf here) c) (blockingReceive here [] batch f) := by
  unfold blockingReceive Ring.untilWork
  refine (ignores_receiveCount c hhere batch fun value _ => hf value).bind fun received => ?_
  cases received with
  | none => exact Act.ignores_throw _
  | some n => exact Act.ignores_pure _

theorem ignores_pollHandler (context : String) (batch : UInt64) {handler : Handler α W}
    (onEvent : ∀ s,
      Act.Ignores (Prod.map id (recalling (seqOf here) c)) (handler.onEvent context s))
    (onError : ∀ s error,
      Act.Ignores (Prod.map id (recalling (seqOf here) c)) (handler.onError context s error)) :
    Act.Ignores (recalling (seqOf here) c) (pollHandler here context batch handler) := by
  unfold pollHandler
  refine Act.Follows.bind (ignores_receiveCount c hhere batch fun value s => ?_) fun _ =>
    Act.ignores_pure _
  refine Act.Follows.owning ((onEvent s).bind fun result => ?_) value
  cases result with
  | ok _ => exact Act.ignores_pure _
  | error error =>
    exact (Ring.ignores_countFailure c (hhere.within lawful_ringPart)).outer.bind fun _ =>
      onError s error

end Calls

end Channel

end LapRing
