import LapRing.Proofs.EventArray
import LapRing.Proofs.IgnoringActions
import LapRing.Proofs.PollFrame
import LapRing.Proofs.SequencerStanding

/-!
# Kinds of producers are for good

Whether a ring has a sole producer or shared ones is settled when it is built. No call of its
users changes it, whatever becomes of the positions and the flags and however the call ends.
-/
namespace LapRing

namespace Act
variable {W S α : Type} {pre post : W → Prop}

theorem leads_throw (P : W → Prop) (h : Halt) : Leads P P (throw h : Act W α) := fun _ hw => hw

theorem leads_get_bind {f : W → Act W α} (h : ∀ w, pre w → post ((f w).outcome w).2) :
    Leads pre post (get >>= f) := by
  intro w hw
  rw [outcome_eq (get_bind f w)]
  exact h w hw

theorem leads_read_bind {p : Part W S} (hp : p.Lawful) {f : S → Act W α}
    (h : ∀ w, pre w → post ((f (p.split w).1).outcome w).2) : Leads pre post (p.read >>= f) := by
  intro w hw
  rw [outcome_eq (bind_ok (Part.read_apply hp w))]
  exact h w hw

end Act

namespace Sequencer
variable {cap : Capacity} {kind : Multiplicity}

abbrev OfKind (kind : Multiplicity) (s : Sequencer cap) : Prop := s.producer = kind

/-- An action on a sequencer that leaves the kind of its producers alone. -/
abbrev KeepsKind {α : Type} (act : Act (Sequencer cap) α) : Prop :=
  ∀ kind, Act.Leads (OfKind kind) (OfKind kind) act

theorem producer_mapFlags (f : LapFlags cap → LapFlags cap) (s : Sequencer cap) :
    (s.mapFlags f).producer = s.producer := by
  obtain ⟨_, _, _ | _, _⟩ := s <;> rfl

theorem leads_ticket {W : Type} {P : W → Prop} (last n : Int64) :
    Act.Leads P P (ticket cap last n : Act W Ticket) := by
  unfold ticket
  refine (Checked.leads_add P _ _).chain fun high => ?_
  exact (Checked.leads_sub P _ _).chain fun _ => Act.leads_pure _

theorem keepsKind_request (n : Int64) : KeepsKind (request n : Act (Sequencer cap) Ticket) := by
  intro kind
  refine Act.leads_get_bind fun s hs => ?_
  obtain ⟨cursor, gating, ⟨claimed, cached⟩ | ⟨cached, flags⟩, tally⟩ := s
  · exact leads_ticket claimed n _ hs
  · exact leads_ticket cursor n _ hs

theorem keepsKind_redeem (t : Ticket) (released : Int64) :
    KeepsKind (redeem t released : Act (Sequencer cap) Int64) := by
  intro kind
  refine (Checked.leads_sub _ _ _).chain fun ahead => ?_
  split
  · exact Act.leads_throw _ _
  · refine Act.leads_get_bind fun s hs => ?_
    split
    · exact (producer_withClaimed s t.high).trans hs
    · exact hs

theorem keepsKind_advanceCursor (high : Int64) :
    KeepsKind (advanceCursor high : Act (Sequencer cap) Unit) := by
  intro kind
  refine Act.leads_get_bind fun s hs => ?_
  split <;> exact hs

theorem keepsKind_mapFlags (f : LapFlags cap → LapFlags cap) :
    KeepsKind (modify (mapFlags f) : Act (Sequencer cap) Unit) := by
  intro kind
  exact Act.leads_modify fun s hs => (producer_mapFlags f s).trans hs

theorem keepsKind_count (f : Tally → Tally) :
    KeepsKind (modify (count · f) : Act (Sequencer cap) Unit) :=
  fun _ => Act.leads_modify fun _ hs => hs

theorem keepsKind_publish (t : Int64) : KeepsKind (publish t : Act (Sequencer cap) Unit) := by
  intro kind
  refine Act.leads_get.chain fun s => ?_
  cases s.producer with
  | single => exact (keepsKind_advanceCursor t kind).chain fun _ => keepsKind_count _ kind
  | multi => exact (keepsKind_mapFlags _ kind).chain fun _ => keepsKind_count _ kind

theorem keepsKind_publishRange (low high : Int64) :
    KeepsKind (publishRange low high : Act (Sequencer cap) Unit) := by
  intro kind
  have hcount : Act.Leads (OfKind kind) (OfKind kind) (do
      if (← get).tally.isSome then
        let size ← Checked.add (← Checked.sub high low) 1
        modify (·.count (.published size.toUInt64)) : Act (Sequencer cap) Unit) := by
    refine Act.leads_get.chain fun s => ?_
    split
    · refine (Checked.leads_sub _ _ _).chain fun size => ?_
      exact (Checked.leads_add _ _ _).chain fun _ => keepsKind_count _ kind
    · exact Act.leads_pure _
  refine Act.leads_get.chain fun s => ?_
  cases s.producer with
  | single => exact (keepsKind_advanceCursor high kind).chain fun _ => hcount
  | multi => exact (keepsKind_mapFlags _ kind).chain fun _ => hcount

end Sequencer

/-- The worlds with `P` are told apart by the kind of producers, as far as the sequencer goes. -/
structure Part.KindOnly {cap : Capacity} {W : Type} (seq : Part W (Sequencer cap))
    (P : W → Prop) : Prop where
  lawful : seq.Lawful
  keep : ∀ w s, s.producer = (seq.split w).1.producer → P w → P (seq.join s (seq.split w).2)

section Sequencers
open Sequencer
variable {cap : Capacity} {W α : Type} {P : W → Prop} {seq : Part W (Sequencer cap)}

namespace Part.KindOnly

theorem leads_lift (h : seq.KindOnly P) {act : Act (Sequencer cap) α} (hact : KeepsKind act) :
    Act.Leads P P (seq.lift act) := by
  intro w hw
  have hkind := hact _ (seq.split w).1 rfl
  cases hrun : act (seq.split w).1 with
  | ok x s =>
    rw [Act.outcome_ok hrun] at hkind
    rw [Act.outcome_ok (lift_ok hrun)]
    exact h.keep w s hkind hw
  | error e s =>
    rw [Act.outcome_error hrun] at hkind
    rw [Act.outcome_error (lift_error hrun)]
    exact h.keep w s hkind hw

theorem leads_update (h : seq.KindOnly P) {f : Sequencer cap → Sequencer cap}
    (hf : ∀ s, (f s).producer = s.producer) : Act.Leads P P (seq.update f) :=
  h.leads_lift fun _ => Act.leads_modify fun s hs => (hf s).trans hs

theorem leads_read (h : seq.KindOnly P) : Act.Leads P P seq.read :=
  h.leads_lift fun _ => Act.leads_get

theorem leads_count (h : seq.KindOnly P) (f : Tally → Tally) :
    Act.Leads P P (seq.update (·.count f)) := h.leads_update fun _ => rfl

end Part.KindOnly

theorem Sequencer.leads_awaitGating (h : seq.KindOnly P) (wrapPoint : Int64) :
    Act.Leads P P (awaitGating seq wrapPoint []) := by
  refine h.leads_read.chain fun s => ?_
  simp only
  split
  · exact Act.leads_pure _
  · exact (h.leads_count _).chain fun _ => Act.leads_throw _ _

theorem Sequencer.leads_claim (h : seq.KindOnly P) (n : Int64) :
    Act.Leads P P (claim seq [] n) := by
  refine (h.leads_lift (keepsKind_request n)).chain fun t => ?_
  refine h.leads_read.chain fun s => ?_
  simp only
  split
  · exact h.leads_lift (keepsKind_redeem t _)
  · refine (leads_awaitGating h _).chain fun gating => ?_
    exact (h.leads_update (producer_withCached · gating)).chain fun _ =>
      h.leads_lift (keepsKind_redeem t _)

theorem Sequencer.leads_next (h : seq.KindOnly P) (n : UInt64) :
    Act.Leads P P (next seq [] n) := by
  unfold next
  split
  · exact Act.leads_pure _
  · exact (leads_claim h _).chain fun _ => Act.leads_pure _

theorem Sequencer.producer_advanceGating (target observed : Int64) (s : Sequencer cap) :
    (s.advanceGating target observed).2.producer = s.producer := by
  unfold advanceGating
  split <;> rfl

theorem Poller.spares_of_kindOnly (h : seq.KindOnly P) : Spares seq P where
  read := h.leads_read
  count := h.leads_count
  withGating _ := h.leads_update fun _ => rfl
  advance win := by
    refine Act.leads_read_bind h.lawful fun w hw => ?_
    have hsub : Act.Leads (fun v => v = w) (fun v => v = w) (Checked.sub win.first 1) :=
      Checked.leads_sub _ _ _
    -- The difference leaves the world as it was read, so what is written has the kind that was
    -- read.
    refine hsub.bind (fun before => ?_) (fun v hv => hv ▸ hw) w rfl
    simp only
    split
    · rintro v rfl
      exact h.keep v _ (producer_advanceGating _ _ _) hw
    · rintro v rfl
      exact hw

end Sequencers

namespace EventRing
open Sequencer
variable {cap : Capacity} {ε A L : Type} {kind : Multiplicity}

/-- The worlds around a ring whose producers are of this kind. -/
abbrev RingOfKind (kind : Multiplicity) (w : EventRing cap ε × L) : Prop :=
  OfKind kind w.1.sequencer

theorem kindOnly_first : (Part.first.within Ring.sequencerPart :
    Part (EventRing cap ε × L) (Sequencer cap)).KindOnly (RingOfKind kind) where
  lawful := Part.lawful_first.within Ring.lawful_sequencerPart
  keep _ _ hs hw := hs.trans hw

theorem unseen_pollerPart : (Part.first.within Ring.pollerPart :
    Part (EventRing cap ε × L) Poller).Unseen (RingOfKind kind) := fun _ _ hw => hw

theorem unseen_slotPart (s : Int64) : (Part.first.within (Ring.slotPart s) :
    Part (EventRing cap ε × L) ε).Unseen (RingOfKind kind) := fun _ _ hw => hw

theorem leads_across {α : Type} (act : Act (ε × L) α) :
    Act.Leads (fun v => RingOfKind kind v.2) (fun v => RingOfKind kind v.2)
      (act.across : Act (ε × (EventRing cap ε × L)) α) := by
  rintro ⟨x, r, l⟩ h
  have hrun := Act.across_eq act x r l
  cases hact : act (x, l) with
  | ok v w => rwa [Act.outcome_ok (hrun.trans (by rw [hact]))]
  | error e w => rwa [Act.outcome_error (hrun.trans (by rw [hact]))]

theorem leads_translate {α : Type} (s : Int64) (act : Act (ε × L) α) :
    Act.Leads (RingOfKind kind) (RingOfKind kind)
      ((Part.first.within (Ring.slotPart s) : Part (EventRing cap ε × L) ε).lend act.across) :=
  (unseen_slotPart s).leads_lend (leads_across act)

theorem leads_publishWindow (win : Window) :
    Act.Leads (RingOfKind kind) (RingOfKind kind)
      (Ring.publish Part.first win : Act (EventRing cap ε × L) Unit) := by
  have hmarked : Act.Leads (RingOfKind kind) (RingOfKind kind)
      ((Part.first : Part (EventRing cap ε × L) _).lift (Ring.sequencerPart.lift
        (if win.first = win.last then Sequencer.publish win.last
          else Sequencer.publishRange win.first win.last))) := by
    rw [← Part.lift_within]
    apply kindOnly_first.leads_lift
    split
    · exact keepsKind_publish _
    · exact keepsKind_publishRange _ _
  exact hmarked.chain fun _ => Act.leads_modify fun _ hw => hw

theorem leads_translateAll {args : Feed L A} {translate : Int64 → A → Act (ε × L) Unit}
    (k : ℕ) (ss : List Int64) : Act.Leads (RingOfKind kind) (RingOfKind kind)
      (translateAll Part.first ⟨args.length, fun k => Act.outer (args.next k)⟩
        (fun s arg => Act.across (translate s arg)) k ss : Act (EventRing cap ε × L) Unit) := by
  induction ss generalizing k with
  | nil => exact Act.leads_pure ()
  | cons s ss ih =>
    have hnext : Act.Leads (RingOfKind kind) (RingOfKind kind)
        (Act.outer (args.next k) : Act (EventRing cap ε × L) (Option A)) :=
      Act.leads_outer (args.next k) fun r : EventRing cap ε => OfKind kind r.sequencer
    refine hnext.chain fun arg => ?_
    cases arg with
    | none => exact Act.leads_pure ()
    | some arg => exact (leads_translate s _).chain fun _ => ih (k + 1)

theorem leads_publishEvent (translate : Int64 → Act (ε × L) Unit) :
    Act.Leads (RingOfKind kind) (RingOfKind kind)
      (publishEvent Part.first [] fun s => Act.across (translate s) :
        Act (EventRing cap ε × L) Unit) :=
  (leads_claim kindOnly_first 1).chain fun s =>
    (leads_translate s (translate s)).closing (leads_publishWindow ⟨s, s⟩)

theorem leads_publishEvents (args : Feed L A) (translate : Int64 → A → Act (ε × L) Unit) :
    Act.Leads (RingOfKind kind) (RingOfKind kind)
      (publishEvents Part.first [] ⟨args.length, fun k => Act.outer (args.next k)⟩
        fun s arg => Act.across (translate s arg) :
          Act (EventRing cap ε × L) (Except Refusal UInt64)) := by
  unfold publishEvents
  split
  · exact Act.leads_pure _
  · have hclaim : Act.Leads (RingOfKind kind) (RingOfKind kind)
        (Ring.claimMany Part.first [] args.length :
          Act (EventRing cap ε × L) (Except Refusal Window)) := by
      refine (leads_next kindOnly_first _).chain fun result => ?_
      cases result with
      | error refusal => exact Act.leads_pure _
      | ok high =>
        refine (Checked.leads_sub _ _ _).chain fun size => ?_
        exact (Checked.leads_sub _ _ _).chain fun _ => Act.leads_pure _
    refine hclaim.chain fun result => ?_
    cases result with
    | error refusal => exact Act.leads_pure _
    | ok win =>
      exact ((leads_translateAll 0 _).closing (leads_publishWindow win)).chain fun _ =>
        Act.leads_pure _

theorem keeps_across (handler : Handler ε L) :
    (handler.across : Handler ε (EventRing cap ε × L)).Keeps (RingOfKind kind) where
  onEvent context s := leads_across (handler.onEvent context s)
  onError context s text := leads_across (handler.onError context s text)

theorem leads_pollAcross (context : String) (batch : UInt64) (handler : Handler ε L) :
    Act.Leads (RingOfKind kind) (RingOfKind kind)
      (poll Part.first context batch handler.across : Act (EventRing cap ε × L) PollState) :=
  leads_poll_of (keeps_across handler) unseen_slotPart (Poller.spares_of_kindOnly kindOnly_first)
    unseen_pollerPart (Act.leads_modify fun _ hw => hw) context batch

/-- No call changes the kind of the producers. -/
theorem leads_serve (call : EventCall ε A L) :
    Act.Leads (RingOfKind kind) (RingOfKind kind)
      (serve [] call : Act (EventRing cap ε × L) EventAnswer) := by
  cases call with
  | publish translate => exact (leads_publishEvent translate).chain fun _ => Act.leads_pure _
  | publishWith arg translate =>
    exact (leads_publishEvent fun s => translate s arg).chain fun _ => Act.leads_pure _
  | publishMany args translate =>
    exact (leads_publishEvents args translate).chain fun _ => Act.leads_pure _
  | poll context batch handler =>
    exact (leads_pollAcross context batch handler).chain fun _ => Act.leads_pure _

theorem producer_outcomes (calls : List (EventCall ε A L)) (w : EventRing cap ε × L) :
    (Act.outcomes (calls.map (serve [])) w).2.1.sequencer.producer = w.1.sequencer.producer := by
  induction calls generalizing w with
  | nil => rfl
  | cons call rest ih => exact (ih _).trans (leads_serve call w rfl)

end EventRing

end LapRing
