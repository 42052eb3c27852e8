import LapRing.Events
import LapRing.Proofs.RunningActions

/-!
# What a poll leaves alone

A poll moves positions, counts what it does and lends out the slots of its window.
It admits no handle and takes none back. So whatever can be told from the sides of
a ring is the same after a poll, if its callbacks leave it as it was.
-/
namespace LapRing

namespace Part
variable {W S α : Type} {p : Part W S} {P : W → Prop}

/-- Whatever the component becomes, the worlds with `P` stay among themselves. -/
def Unseen (p : Part W S) (P : W → Prop) : Prop := ∀ w s, P w → P (p.join s (p.split w).2)

theorem Unseen.leads_lift (h : p.Unseen P) (act : Act S α) : Act.Leads P P (p.lift act) := by
  intro w hw
  cases hact : act (p.split w).1 with
  | ok x s =>
    rw [Act.outcome_ok (lift_ok hact)]
    exact h w s hw
  | error e s =>
    rw [Act.outcome_error (lift_error hact)]
    exact h w s hw

theorem Unseen.leads_lend (h : p.Unseen P) {act : Act (S × W) α}
    (hact : Act.Leads (fun v => P v.2) (fun v => P v.2) act) : Act.Leads P P (p.lend act) := by
  intro w hw
  have hpost := hact ((p.split w).1, w) hw
  cases hrun : act ((p.split w).1, w) with
  | ok x v =>
    rw [Act.outcome_ok hrun] at hpost
    rw [Act.outcome_ok (lend_ok hrun)]
    exact h v.2 v.1 hpost
  | error e v =>
    rw [Act.outcome_error hrun] at hpost
    rw [Act.outcome_error (lend_error hrun)]
    exact h v.2 v.1 hpost

end Part

theorem Act.ite_bind {W α β : Type} (c : Prop) [Decidable c] (x y : Act W α) (f : α → Act W β) :
    (if c then x else y) >>= f = if c then x >>= f else y >>= f := by
  split <;> rfl

theorem Sequencer.leads_highestPublished {cap : Capacity} {W : Type} {P : W → Prop}
    (s : Sequencer cap) (first available : Int64) :
    Act.Leads P P (s.highestPublished first available) := by
  unfold highestPublished LapFlags.frontier
  split
  · exact Act.leads_pure _
  · exact (Checked.leads_word P _ _).chain fun _ => Checked.leads_sub P _ _

namespace Poller
variable {cap : Capacity} {W α : Type} {P : W → Prop}

theorem leads_window (s : Sequencer cap) (position batch : Int64) :
    Act.Leads P P (window s position batch) := by
  unfold window
  refine (Checked.leads_add P _ _).chain fun first => ?_
  refine (Checked.leads_add P _ _).chain fun limit => ?_
  simp only
  split
  · exact Act.leads_pure _
  · refine (s.leads_highestPublished _ _).chain fun highest => ?_
    refine (Checked.leads_sub P _ _).chain fun low => ?_
    split
    · exact fun _ hw => hw
    · split <;> exact Act.leads_pure _

variable {seq : Part W (Sequencer cap)} {poller : Part W Poller}

/-- What a poll does to the sequencer keeps the worlds with `P` among themselves. -/
structure Spares (seq : Part W (Sequencer cap)) (P : W → Prop) : Prop where
  read : Act.Leads P P seq.read
  count : ∀ f, Act.Leads P P (seq.update (·.count f))
  withGating : ∀ gating, Act.Leads P P (seq.update (·.withGating gating))
  advance : ∀ win : Window, Act.Leads P P (do
    let (moved, s) := (← seq.read).advanceGating win.last (← Checked.sub win.first 1)
    if moved then seq.write s else throw .stalled)

theorem spares_of_unseen (h : seq.Unseen P) : Spares seq P where
  read := h.leads_lift get
  count _ := h.leads_lift _
  withGating _ := h.leads_lift _
  advance win := by
    refine (h.leads_lift get).chain fun s => ?_
    refine (Checked.leads_sub P _ _).chain fun before => ?_
    simp only
    split
    · exact h.leads_lift _
    · exact fun _ hw => hw

theorem leads_openWindow (hseq : Spares seq P) (hpoller : poller.Unseen P) (batch : UInt64) :
    Act.Leads P P (openWindow seq poller batch) := by
  unfold openWindow
  split
  · exact Act.leads_pure _
  · refine hseq.read.chain fun s => ?_
    refine (hpoller.leads_lift get).chain fun p => ?_
    refine (leads_window s _ _).chain fun found => ?_
    cases found with
    | none => exact (hseq.count _).chain fun _ => Act.leads_pure _
    | some win =>
      simp only
      split
      · exact fun _ hw => hw
      · exact (hpoller.leads_lift _).chain fun _ => Act.leads_pure _

theorem leads_release (hseq : Spares seq P) (hpoller : poller.Unseen P) (win : Window) :
    Act.Leads P P (release seq poller win) := by
  have hcount : Act.Leads P P (do
      if (← seq.read).tally.isSome then
        let size ← Checked.add (← Checked.sub win.last win.first) 1
        seq.update (·.count (.consumed size.toUInt64)) : Act W Unit) := by
    refine hseq.read.chain fun s => ?_
    split
    · refine (Checked.leads_sub P _ _).chain fun size => ?_
      exact (Checked.leads_add P _ _).chain fun _ => hseq.count _
    · exact Act.leads_pure _
  unfold release
  refine (hpoller.leads_lift get).chain fun p => ?_
  cases p with
  | sole => exact (hseq.withGating _).chain fun _ => hcount
  | competing claimed =>
    have hadvance := (hseq.advance win).chain fun _ => hcount
    simpa only [bind_assoc, Act.ite_bind] using hadvance

theorem leads_poll (hseq : Spares seq P) (hpoller : poller.Unseen P) (batch : UInt64)
    {drain : Window → Act W α} (hdrain : ∀ win, Act.Leads P P (drain win)) :
    Act.Leads P P (poll seq poller batch drain) := by
  unfold poll
  refine (leads_openWindow hseq hpoller batch).chain fun found => ?_
  cases found with
  | none => exact Act.leads_pure _
  | some win =>
    exact ((hdrain win).closing (leads_release hseq hpoller win)).chain fun _ => Act.leads_pure _

end Poller

/-- The callbacks of a handler on events keep the worlds with `P` among themselves. -/
structure Handler.Keeps {ε W : Type} (handler : Handler ε W) (P : W → Prop) : Prop where
  onEvent : ∀ context s, Act.Leads (fun v => P v.2) (fun v => P v.2) (handler.onEvent context s)
  onError : ∀ context s text,
    Act.Leads (fun v => P v.2) (fun v => P v.2) (handler.onError context s text)

namespace EventRing
variable {cap : Capacity} {W ε : Type} {here : Part W (EventRing cap ε)} {P : W → Prop}

/-- A change of the ring that leaves its sides alone leaves the worlds with `P`
among themselves. -/
def SidesOnly (here : Part W (EventRing cap ε)) (P : W → Prop) : Prop :=
  ∀ w r, r.producers = (here.split w).1.producers → r.consumers = (here.split w).1.consumers →
    P w → P (here.join r (here.split w).2)

theorem leads_dispatch {handler : Handler ε W} (keeps : handler.Keeps P)
    {countFailure : Act W Unit} (hcount : Act.Leads P P countFailure) (context : String)
    (s : Int64) :
    Act.Leads (fun v => P v.2) (fun v => P v.2) (handler.dispatch countFailure context s) := by
  unfold Handler.dispatch
  refine (keeps.onEvent context s).chain fun result => ?_
  cases result with
  | ok _ => exact Act.leads_pure _
  | error text =>
    exact hcount.outer.chain fun _ => keeps.onError context s text

/-- A poll keeps the worlds that its handler keeps, if its own changes of the ring do. -/
theorem leads_poll_of {handler : Handler ε W} (keeps : handler.Keeps P)
    (hslot : ∀ s, (here.within (Ring.slotPart s)).Unseen P)
    (hseq : Poller.Spares (here.within Ring.sequencerPart) P)
    (hpoller : (here.within Ring.pollerPart).Unseen P)
    (hcount : Act.Leads P P (Ring.countFailure here)) (context : String) (batch : UInt64) :
    Act.Leads P P (poll here context batch handler) := by
  have hvisit : ∀ win, Act.Leads P P (visit here context handler win) := by
    intro win
    unfold visit
    induction win.sequences with
    | nil => exact Act.leads_pure _
    | cons s rest ih =>
      exact ((hslot s).leads_lend (leads_dispatch keeps hcount context s)).chain fun _ => ih
  unfold poll
  refine (Poller.leads_poll hseq hpoller batch hvisit).chain fun found => ?_
  cases found <;> exact Act.leads_pure _

/-- A poll keeps the worlds that its handler keeps and that only the sides tell apart. -/
theorem leads_poll (sides : SidesOnly here P) {handler : Handler ε W} (keeps : handler.Keeps P)
    (context : String) (batch : UInt64) : Act.Leads P P (poll here context batch handler) := by
  have hslot : ∀ s, (here.within (Ring.slotPart s)).Unseen P := fun s w x hw => sides w _ rfl rfl hw
  have hseq : (here.within Ring.sequencerPart).Unseen P := fun w s hw => sides w _ rfl rfl hw
  have hpoller : (here.within Ring.pollerPart).Unseen P := fun w p hw => sides w _ rfl rfl hw
  have hcount : Act.Leads P P (Ring.countFailure here) := fun w hw => sides w _ rfl rfl hw
  exact leads_poll_of keeps hslot (Poller.spares_of_unseen hseq) hpoller hcount context batch

end EventRing

end LapRing
