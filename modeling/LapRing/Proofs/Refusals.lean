import LapRing.Proofs.StoppedWorkers
import LapRing.Proofs.UnnoticedCache

/-!
# Refusals go unnoticed

A refusal leaves a ring, its handles and its workers exactly as they were, with one
exception: an attempt that finds a ring full makes producers remember gating. Nobody
can tell. Whatever is done afterwards, call by call or one piece of a call after the
other, comes to the same as if the refused call had not been made.
-/
namespace LapRing

theorem Act.ignores_across {W L R α : Type} {f : R → R} (act : Act (W × L) α) :
    Ignores (Prod.map id (Prod.map f id)) (act.across : Act (W × (R × L)) α) := by
  rintro ⟨x, r, l⟩
  have hrun := across_eq act x r l
  have hrun' := across_eq act x (f r) l
  cases hact : act (x, l) with
  | ok v w =>
    rw [hact] at hrun hrun'
    rw [outcome_ok hrun]
    exact outcome_ok hrun'
  | error e w =>
    rw [hact] at hrun hrun'
    rw [outcome_error hrun]
    exact outcome_error hrun'

namespace Ring
variable {cap : Capacity} {σ : Type}

/-- A request for a handle that is turned down takes nothing. -/
theorem stays_acquire {act : Act (Ring cap σ) (Except Refusal Unit)} {refusal : Refusal}
    {grants : Ring cap σ → Bool} {granted : Ring cap σ → Ring cap σ}
    (hact : ∀ r, act r = if grants r then .ok (.ok ()) (granted r) else .ok (.error refusal) r)
    (answer : Refusal) : Act.Stays (.error answer) act := by
  intro r r' h
  rw [hact] at h
  split at h
  · simp at h
  · exact (EStateM.Result.ok.inj h).2.symm

/-- A batch that cannot be claimed is not begun. -/
theorem stays_claiming {W : Type} {here : Part W (Ring cap σ)} (pauses : List (Pause W))
    (n m : UInt64) (body : Window → Act W Unit) (refusal : Refusal) :
    Act.Stays (.error refusal) (do
      match ← claimMany here pauses n with
      | .error refusal => return .error refusal
      | .ok win =>
        body win
        return .ok m : Act W (Except Refusal UInt64)) := by
  intro w w' h
  obtain ⟨answer, v, hclaim, hrest⟩ := Act.of_bind_ok h
  cases answer with
  | ok win =>
    obtain ⟨_, _, -, hpure⟩ := Act.of_bind_ok hrest
    simp at hpure
  | error refusal =>
    obtain ⟨-, rfl⟩ := EStateM.Result.ok.inj hrest
    exact claimMany_refused hclaim

end Ring

namespace Channel
open Sequencer (recalling Oblivious oblivious_of_ignores oblivious_reply)
variable {cap : Capacity} {α L : Type}

/-- One call on a channel, or a piece of one, between which others may act. -/
inductive Access (α L : Type)
  | call (c : Call α L)
  | blockingReceive (batch : UInt64) (f : α → Act L Unit)
  | pollHandler (context : String) (batch : UInt64) (handler : Handler α L)
  | piece (a : Sequencer.Access Unit)
  | exchange (s : Int64) (content : Option α)
  | discard (value : Option α)
  | publish (win : Window)
  /-- A consumer waits once. -/
  | wait
  | countFailure
  | length
  /-- A caller acts on what it owns, as its callbacks do. -/
  | own (act : Act L Unit)

inductive Reply (α : Type)
  | done
  | answer (a : Answer α)
  | received (count : ℕ)
  | piece (reply : Sequencer.Reply)
  | content (content : Option α)
  | length (n : UInt64)

inductive Reply.Refused : Reply α → Prop
  | taken (refusal : Refusal) : Refused (.answer (.opened (.error refusal)))
  | full (value : α) : Refused (.answer (.tried (.error value)))
  | batch (refusal : Refusal) : Refused (.answer (.batch (.error refusal)))
  | piece {reply : Sequencer.Reply} : reply.Refused → Refused (.piece reply)

def Access.serve : Access α L → Act (Channel cap α × L) (Reply α)
  | .call c => do return .answer (← Channel.serve [] c)
  | .blockingReceive batch f => do
    return .received (← Channel.blockingReceive here [] batch fun value => Act.outer (f value))
  | .pollHandler context batch handler => do
    return .answer (.received (← Channel.pollHandler here context batch handler.across))
  | .piece a => do return .piece (← a.serve hereSequencer fun _ => herePoller)
  | .exchange s content => do return .content (← here.lift (Channel.exchange s content))
  | .discard value => do
    here.update (Channel.discard value)
    return .done
  | .publish win => do
    Ring.publish hereRing win
    return .done
  | .wait => do
    here.lift (ringPart.lift (Ring.coordinatorPart.lift Coordinator.consumerWait))
    return .done
  | .countFailure => do
    Ring.countFailure hereRing
    return .done
  | .length => do
    let c ← here.read
    return .length (← c.length)
  | .own act => do
    Act.outer act
    return .done

section Ignoring
variable (c : Int64)

theorem ignores_outer {β : Type} (act : Act L β) :
    Act.Ignores (recalling (hereSequencer : Part (Channel cap α × L) _) c) (Act.outer act) := by
  have apart : (hereSequencer : Part (Channel cap α × L) _).Apart Part.second :=
    ⟨fun _ _ => rfl, fun _ _ _ => rfl⟩
  exact apart.ignores_lift _ act

theorem ignores_acrossHere {β : Type} (act : Act (α × L) β) :
    Act.Ignores (Prod.map id (recalling (hereSequencer : Part (Channel cap α × L) _) c))
      (Act.across act) := by
  have hrecall : recalling (hereSequencer : Part (Channel cap α × L) _) c =
      Prod.map (ringPart.alter (Ring.sequencerPart.alter (·.withCached c))) id := rfl
  rw [hrecall]
  exact Act.ignores_across act

theorem ignores_lift_ring {β : Type} {act : Act (Ring cap (Option α)) β}
    (h : ∀ f, Act.Ignores (Ring.sequencerPart.alter f) act) :
    Act.Ignores (recalling (hereSequencer : Part (Channel cap α × L) _) c)
      (here.lift (ringPart.lift act)) := by
  rw [recalling_seqOf]
  exact Part.follows_lift Part.lawful_first (Part.follows_lift lawful_ringPart (h _))

theorem ignores_length :
    Act.Ignores (recalling (hereSequencer : Part (Channel cap α × L) _) c)
      (do
        let ch ← here.read
        return .length (← ch.length) : Act (Channel cap α × L) (Reply α)) := by
  rw [recalling_seqOf]
  apply Part.follows_read_bind Part.lawful_first
  intro ch
  have hsame : (ringPart.alter (Ring.sequencerPart.alter (·.withCached c)) ch).length =
      (ch.length : Act (Channel cap α × L) UInt64) := by
    change (do
      let ahead ← Checked.sub (ch.ring.sequencer.withCached c).cursor
        (ch.ring.sequencer.withCached c).gating
      return (max ahead 0).toUInt64) = _
    rw [Sequencer.cursor_withCached, Sequencer.gating_withCached]
    rfl
  rw [hsame]
  exact ((Checked.ignores_sub _ _ _).bind fun _ => Act.ignores_pure _).bind fun _ =>
    Act.ignores_pure _

end Ignoring

theorem stays_pushBatch {W : Type} {here : Part W (Channel cap α)} (pauses : List (Pause W))
    (feed : Feed W α) (refusal : Refusal) :
    Act.Stays (.error refusal) (pushBatch here pauses feed) := by
  unfold pushBatch
  split
  · exact fun _ _ h => by simp at h
  · exact Ring.stays_claiming pauses _ _ _ refusal

section Serving
variable {w w' : Channel cap α × L} (mindful : (hereSequencer.split w).1.Mindful)
include mindful

/-- A value is handed back after gating was looked at. -/
theorem tryPush_full {value value' : α} (h : tryPush here value w = .ok (.error value') w') :
    w' = recalling hereSequencer (hereSequencer.split w).1.gating w := by
  unfold tryPush at h
  rw [← Part.lift_within ringPart, ← Part.lift_within here] at h
  obtain ⟨claimed, v, hclaim, hrest⟩ := Act.of_bind_ok h
  cases claimed with
  | some s =>
    obtain ⟨_, _, -, hpure⟩ := Act.of_bind_ok hrest
    simp at hpure
  | none =>
    obtain ⟨-, rfl⟩ := EStateM.Result.ok.inj hrest
    obtain ⟨s, hrun, rfl⟩ := Part.of_lift_ok (p := hereSequencer) hclaim
    rw [Sequencer.tryClaim_none mindful.cached_le hrun]
    rfl

theorem oblivious_call (call : Call α L) : Oblivious hereSequencer (Channel.serve [] call) w := by
  cases call with
  | openProducer =>
    exact oblivious_reply (fun c => ignores_lift_ring c Ring.ignores_acquireProducer) _ w
  | openConsumer =>
    exact oblivious_reply (fun c => ignores_lift_ring c Ring.ignores_acquireConsumer) _ w
  | dropProducer | dropConsumer =>
    refine oblivious_reply (fun c => ignores_lift_ring c fun _ => ?_) _ w
    exact Act.ignores_modify fun _ => rfl
  | tryPush value => exact (oblivious_tryPush Part.lawful_first mindful value).reply _
  | push value => exact (oblivious_push Part.lawful_first mindful value).reply _
  | pushBatch feed =>
    have hfeed : ∀ c k, Act.Ignores (recalling (hereSequencer : Part (Channel cap α × L) _) c)
        (Act.outer (feed.next k)) := fun c k => ignores_outer c _
    exact (oblivious_pushBatch Part.lawful_first mindful hfeed).reply _
  | receive batch f =>
    exact oblivious_reply (fun c => ignores_receive c Part.lawful_first batch fun value =>
      ignores_outer c (f value)) _ w

theorem refused_call {call : Call α L} {answer : Answer α}
    (h : Channel.serve [] call w = .ok answer w') (refused : (Reply.answer answer).Refused) :
    ∃ c ≤ (hereSequencer.split w).1.gating, w' = recalling hereSequencer c w := by
  have hsame : w' = w → ∃ c ≤ (hereSequencer.split w).1.gating, w' = recalling hereSequencer c w :=
    fun he =>
      ⟨_, mindful.cached_le, he.trans (Sequencer.recalling_cached lawful_hereSequencer w).symm⟩
  have hnot : ¬ Act.Yields (fun answer => ¬ (Reply.answer answer).Refused)
      (Channel.serve [] call : Act (Channel cap α × L) _) := fun hyields => hyields h refused
  cases call with
  | openProducer =>
    obtain ⟨result, hopen, rfl⟩ := Act.of_reply_ok h
    cases refused with
    | taken refusal =>
      exact hsame (Part.stays_lift Part.lawful_first (Part.stays_lift lawful_ringPart
        (Ring.stays_acquire Ring.acquireProducer_eq refusal)) hopen)
  | openConsumer =>
    obtain ⟨result, hopen, rfl⟩ := Act.of_reply_ok h
    cases refused with
    | taken refusal =>
      exact hsame (Part.stays_lift Part.lawful_first (Part.stays_lift lawful_ringPart
        (Ring.stays_acquire Ring.acquireConsumer_eq refusal)) hopen)
  | tryPush value =>
    obtain ⟨result, hpush, rfl⟩ := Act.of_reply_ok h
    cases refused with
    | full value => exact ⟨_, Int64.le_refl _, tryPush_full mindful hpush⟩
  | pushBatch feed =>
    obtain ⟨result, hpush, rfl⟩ := Act.of_reply_ok h
    cases refused with
    | batch refusal => exact hsame (stays_pushBatch [] _ refusal hpush)
  | dropProducer | dropConsumer | push value | receive batch f =>
    exact absurd (Act.yields_bind fun _ => Act.yields_pure nofun) hnot

theorem Access.oblivious (a : Access α L) : Oblivious hereSequencer a.serve w := by
  cases a with
  | call call => exact (oblivious_call mindful call).reply _
  | blockingReceive batch f =>
    exact oblivious_reply (fun c => ignores_blockingReceive c Part.lawful_first batch fun value =>
      ignores_outer c (f value)) _ w
  | pollHandler context batch handler =>
    exact oblivious_reply (fun c => ignores_pollHandler c Part.lawful_first context batch
      (fun s => ignores_acrossHere c _) fun s error => ignores_acrossHere c _) _ w
  | piece a =>
    have apart : (hereSequencer : Part (Channel cap α × L) _).Apart herePoller :=
      Ring.apart_pollerPart.within lawful_hereRing
    exact (Sequencer.Access.oblivious lawful_hereSequencer (fun _ => apart) mindful a).reply _
  | exchange s content =>
    exact oblivious_reply (fun c => ignores_lift_exchange c Part.lawful_first s content) _ w
  | discard value => exact oblivious_reply (fun c => ignores_discard c Part.lawful_first value) _ w
  | publish win => exact oblivious_reply (fun c => ignores_publish c Part.lawful_first win) _ w
  | wait =>
    exact oblivious_reply (fun c => ignores_lift_ring c fun f =>
      Ring.apart_coordinatorPart.ignores_lift f _) _ w
  | countFailure => exact oblivious_reply (fun c => Ring.ignores_countFailure c lawful_hereRing) _ w
  | length => exact oblivious_of_ignores ignores_length w
  | own act => exact oblivious_reply (fun c => ignores_outer c act) _ w

/-- A refused call leaves the channel as it was, but for what is remembered. -/
theorem Access.refused {a : Access α L} {reply : Reply α} (h : a.serve w = .ok reply w')
    (refused : reply.Refused) :
    ∃ c ≤ (hereSequencer.split w).1.gating, w' = recalling hereSequencer c w := by
  have hnot : ¬ Act.Yields (fun reply => ¬ Reply.Refused reply)
      (a.serve : Act (Channel cap α × L) _) := fun hyields => hyields h refused
  cases a with
  | call call =>
    obtain ⟨answer, hcall, rfl⟩ := Act.of_reply_ok h
    exact refused_call mindful hcall refused
  | piece a =>
    obtain ⟨reply, hpiece, rfl⟩ := Act.of_reply_ok h
    cases refused with
    | piece refused =>
      exact Sequencer.Access.refused lawful_hereSequencer mindful hpiece refused
  | length =>
    exact absurd (Act.yields_bind fun _ => Act.yields_bind fun _ => Act.yields_pure nofun) hnot
  | blockingReceive batch f | pollHandler context batch handler | exchange s content
  | discard value | publish win | wait | countFailure | own act =>
    exact absurd (Act.yields_bind fun _ => Act.yields_pure nofun) hnot

end Serving

end Channel

theorem EventRing.stays_publishEvents {cap : Capacity} {W ε A : Type}
    {here : Part W (EventRing cap ε)} (pauses : List (Pause W)) (args : Feed W A)
    (translate : Int64 → A → Act (ε × W) Unit) (refusal : Refusal) :
    Act.Stays (.error refusal) (publishEvents here pauses args translate) := by
  unfold publishEvents
  split
  · exact fun _ _ h => by simp at h
  · exact Ring.stays_claiming pauses _ _ _ refusal

/-- One of the pollers beside a sequencer. -/
def pollerOf {ι S : Type} [DecidableEq ι] (i : ι) : Part (S × (ι → Poller)) Poller where
  Rest := S × (ι → Poller)
  split w := (w.2 i, w)
  join p w := (w.1, Function.update w.2 i p)

/-- Nothing that is refused is noticed: not by those who use a sequencer and its pollers
afterwards, nor by those who use a channel. A batch that is too large for an event ring
changes nothing, and neither does a request for a handle or to a worker. -/
theorem refusals_unnoticed (cap : Capacity) :
    (∀ (ι : Type) [DecidableEq ι] (kind : Multiplicity) (metrics : Bool)
      (w : Sequencer cap × (ι → Poller)),
      Sequencer.Reached (Sequencer.Onward Part.first)
        (Sequencer.Access.serve Part.first pollerOf)
        (Sequencer.new cap kind metrics, fun _ => .sole) w →
      ∀ (a : Sequencer.Access ι) reply w',
        a.serve Part.first pollerOf w = .ok reply w' → reply.Refused →
        Sequencer.Unnoticed (Sequencer.Onward Part.first) Part.first
          (Sequencer.Access.serve Part.first pollerOf) w w') ∧
    (∀ (α L : Type) (settings : Settings) (l : L) (w : Channel cap α × L),
      Sequencer.Reached (Sequencer.Onward Channel.hereSequencer) Channel.Access.serve
        (Channel.new cap settings, l) w →
      ∀ (a : Channel.Access α L) reply w', a.serve w = .ok reply w' → reply.Refused →
        Sequencer.Unnoticed (Sequencer.Onward Channel.hereSequencer) Channel.hereSequencer
          Channel.Access.serve w w') ∧
    (∀ (W ε A : Type) (here : Part W (EventRing cap ε)) (pauses : List (Pause W))
      (args : Feed W A) (translate : Int64 → A → Act (ε × W) Unit) refusal w w',
      EventRing.publishEvents here pauses args translate w = .ok (.error refusal) w' → w' = w) ∧
    (∀ (ε V P Q ι : Type) [DecidableEq P] [DecidableEq Q] [DecidableEq ι]
      (place : Part V (Ring cap ε)) (settings : Settings) (slots : Slots cap ε) (container : V)
      (s : HandleHolders V P Q ι), place.Lawful → (place.split container).1 = .new settings slots →
      HandleHolders.Reachable place container s →
      ∀ request, s.Apt request → ∀ refusal s',
        HandleHolders.serve place request s = .ok (.error refusal) s' → s' = s) := by
  refine ⟨?_, ?_, ?_, ?_⟩
  · intro ι _ kind metrics w hreached a reply w' hrun refused
    have apart : ∀ i, (Part.first : Part (Sequencer cap × (ι → Poller)) _).Apart (pollerOf i) :=
      fun i => ⟨fun _ _ => rfl, fun _ _ _ => rfl⟩
    exact hreached.unnoticed Part.lawful_first
      (fun call w mindful => call.oblivious Part.lawful_first apart mindful)
      (Sequencer.mindful_new cap kind metrics) fun mindful =>
        Sequencer.Access.refused Part.lawful_first mindful hrun refused
  · intro α L settings l w hreached a reply w' hrun refused
    exact hreached.unnoticed Channel.lawful_hereSequencer
      (fun call w mindful => call.oblivious mindful)
      (Sequencer.mindful_new cap settings.producer settings.metrics) fun mindful =>
        Channel.Access.refused mindful hrun refused
  · intro W ε A here pauses args translate refusal w w' hrun
    exact EventRing.stays_publishEvents pauses args translate refusal hrun
  · intro ε V P Q ι _ _ _ place settings slots container s lawful fresh hreach request apt refusal
      s' hserve
    exact hreach.refused lawful fresh apt hserve

/-- A ring of two has room for one sequence when a claim of two is tried. What the producer
remembers changes by that, and the claims after it do not. The other refusals are of a value
for a full channel, of three events for two slots, and of a worker for a ring whose consumer
is taken. -/
theorem refusals_unnoticed_full :
    (∃ w w' : Sequencer .two × (Unit → Poller),
      Sequencer.Access.serve Part.first pollerOf (.tryNext 2) w = .ok (.tried (.ok none)) w' ∧
      w.1.cached = -1 ∧ w'.1.cached = 0 ∧
      let calls : List (Act (Sequencer .two × (Unit → Poller)) Sequencer.Reply) :=
        [.next 1, .tryNext 1].map (Sequencer.Access.serve Part.first pollerOf)
      Act.Keeping (Sequencer.Onward Part.first) calls w' ∧
      Act.journal (Sequencer.forget Part.first) calls w' =
        Act.journal (Sequencer.forget Part.first) calls w) ∧
    (∃ w w' : Channel .two ℕ × Unit,
      (Channel.Access.call (.tryPush 6)).serve w = .ok (.answer (.tried (.error 6))) w' ∧
      Sequencer.Unnoticed (Sequencer.Onward Channel.hereSequencer) Channel.hereSequencer
        Channel.Access.serve w w') ∧
    (∃ refusal, ∃ r r' : EventRing .two ℕ,
      EventRing.publishEvents Part.whole [] (.ofList [1, 2, 3])
        (fun _ n => modify fun (_, r) => (n, r)) r = .ok (.error refusal) r' ∧ r' = r) ∧
    ∃ s s' : HandleHolders (EventRing .two ℕ) Unit Unit Unit,
      HandleHolders.serve Part.whole (.hire () "hand" 1) s =
        .ok (.error .consumerTaken) s' ∧ s' = s := by
  obtain ⟨hsequencer, hchannel, hevents, hholders⟩ := refusals_unnoticed .two
  refine ⟨?_, ?_, ?_, ?_⟩
  · let start : Sequencer .two × (Unit → Poller) := (.new .two .single true, fun _ => .sole)
    let past : List (Sequencer.Access Unit) :=
      [.next 2, .publishRange 0 1, .openWindow () 1, .release () ⟨0, 0⟩]
    let serve : Sequencer.Access Unit → Act (Sequencer .two × (Unit → Poller)) Sequencer.Reply :=
      Sequencer.Access.serve Part.first pollerOf
    let w := (Act.outcomes (past.map serve) start).2
    let w' := ((serve (.tryNext 2)).outcome w).2
    have hrun : serve (.tryNext 2) w = .ok (.tried (.ok none)) w' := rfl
    obtain ⟨-, hafter⟩ := hsequencer Unit .single true w ⟨past, by decide +kernel, rfl⟩ (.tryNext 2)
      _ w' hrun .full
    have keeping :
        Act.Keeping (Sequencer.Onward Part.first) ([.next 1, .tryNext 1].map serve) w := by
      decide +kernel
    exact ⟨w, w', hrun, by decide +kernel, by decide +kernel, (hafter _).1.mpr keeping,
      (hafter _).2 keeping⟩
  · let past : List (Channel.Access ℕ Unit) :=
      [.call .openProducer, .call (.push 4), .call (.push 5)]
    let serve : Channel.Access ℕ Unit → Act (Channel .two ℕ × Unit) (Channel.Reply ℕ) :=
      Channel.Access.serve
    let w := (Act.outcomes (past.map serve)
      (Channel.new .two (Channel.settings 2 .single .single), ())).2
    let w' := ((serve (.call (.tryPush 6))).outcome w).2
    have hrun : serve (.call (.tryPush 6)) w = .ok (.answer (.tried (.error 6))) w' := rfl
    exact ⟨w, w', hrun, hchannel ℕ Unit (Channel.settings 2 .single .single) () w
      ⟨past, by decide +kernel, rfl⟩ _ _ w' hrun (.full 6)⟩
  · let r : EventRing .two ℕ := .new (Channel.settings 2 .single .single) (.fill .two 0)
    have hrun : EventRing.publishEvents Part.whole [] (.ofList [1, 2, 3])
        (fun _ n => modify fun (_, r) => (n, r)) r = .ok (.error (.invalidClaim 3 2)) r := rfl
    exact ⟨_, r, r, hrun, hevents _ _ _ _ _ _ _ _ _ _ hrun⟩
  · let r : EventRing .two ℕ := .new (Channel.settings 2 .single .single) (.fill .two 0)
    let s : HandleHolders (EventRing .two ℕ) Unit Unit Unit :=
      ((HandleHolders.serve Part.whole (.openConsumer ())).outcome (.new r)).2
    have hreach : HandleHolders.Reachable Part.whole r s :=
      .single (.visit (.serve (.openConsumer ()) rfl))
    have hrun : HandleHolders.serve Part.whole (.hire () "hand" 1) s =
        .ok (.error .consumerTaken) s := rfl
    exact ⟨s, s, hrun, hholders _ _ _ _ _ Part.whole (Channel.settings 2 .single .single)
      (.fill .two 0) r s Part.lawful_whole rfl hreach (.hire () "hand" 1) rfl _ _ hrun⟩

/-- That gating does not go back is not enough. Shared producers of a ring of two claim up
to the last word but one, and gating is set to three. An attempt finds the ring full and
makes them remember three. The next claims carry the counter over the end of the words, and
the fourth is admitted only if minus one is still remembered: from where it ends to three is
too far for a word. And to be refused is not to fail: a worker that is shut down reports how
its thread gave up, and is stopped all the same. -/
theorem failures_noticed :
    (∃ w w' : Sequencer .two × (Unit → Poller),
      Sequencer.Reached (Sequencer.GatingForward Part.first)
        (Sequencer.Access.serve Part.first pollerOf)
        (Sequencer.new .two .multi false, fun _ => .sole) w ∧
      Sequencer.Access.serve Part.first pollerOf (.tryNext 1) w = .ok (.tried (.ok none)) w' ∧
      ¬ Sequencer.Unnoticed (Sequencer.GatingForward Part.first) Part.first
        (Sequencer.Access.serve Part.first pollerOf) w w') ∧
    ∃ s s' : HandleHolders (EventRing .two Unit) Unit Unit Unit,
      HandleHolders.Reachable Part.whole
        (.new (Channel.settings 2 .single .single) (.fill .two ())) s ∧
      Worker.shutdown (HandleHolders.site Part.whole ()) HandleHolders.raisesOnStart s =
        .ok (.error (.raised "not today")) s' ∧
      ((HandleHolders.serve Part.whole (.start () (.ok ()))).outcome s).1 =
        .ok (.error .workerAlreadyStarted) ∧
      ((HandleHolders.serve Part.whole (.start () (.ok ()))).outcome s').1 = .ok (.ok ()) := by
  constructor
  · let serve : Sequencer.Access Unit → Act (Sequencer .two × (Unit → Poller)) Sequencer.Reply :=
      Sequencer.Access.serve Part.first pollerOf
    let v : Sequencer .two × (Unit → Poller) :=
      (Sequencer.claimedTo .two (.ofInt ((2 ^ 63 - 1 : ℕ) - 1)), fun _ => .sole)
    let w := ((serve (.publishGating 3)).outcome v).2
    let w' := ((serve (.tryNext 1)).outcome w).2
    have hv : Sequencer.Reached (Sequencer.GatingForward Part.first) serve
        (Sequencer.new .two .multi false, fun _ => .sole) v :=
      Sequencer.reached_claimedTo (2 ^ 63 - 1) (by decide)
    have hw : Sequencer.Reached (Sequencer.GatingForward Part.first) serve
        (Sequencer.new .two .multi false, fun _ => .sole) w := hv.next (by decide +kernel)
    have hrun : serve (.tryNext 1) w = .ok (.tried (.ok none)) w' := rfl
    refine ⟨w, w', hw, hrun, fun ⟨_, hafter⟩ => ?_⟩
    let rest : List (Sequencer.Access Unit) := [.next 1, .next 1, .next 1, .next 1]
    have keeping : Act.Keeping (Sequencer.GatingForward Part.first) (rest.map serve) w := by
      decide +kernel
    have hsame := congrArg (List.map fun entry => entry.1.isOk) ((hafter rest).2 keeping)
    have hdiffer : (Act.journal (Sequencer.forget Part.first) (rest.map serve) w').map
          (fun entry => entry.1.isOk) = [false, false, false, false] ∧
        (Act.journal (Sequencer.forget Part.first) (rest.map serve) w).map
          (fun entry => entry.1.isOk) = [false, false, false, true] := by
      decide +kernel
    rw [hdiffer.1, hdiffer.2] at hsame
    exact absurd hsame (by decide)
  · have hshut : Worker.shutdown (HandleHolders.site Part.whole ())
        HandleHolders.raisesOnStart HandleHolders.workerStarted =
        .ok (.error (.raised "not today")) HandleHolders.workerMade := rfl
    refine ⟨_, _, HandleHolders.reachable_workerStarted, hshut, rfl, ?_⟩
    rw [Act.outcome_ok HandleHolders.start_workerMade]

end LapRing
