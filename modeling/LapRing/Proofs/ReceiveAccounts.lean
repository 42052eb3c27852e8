import LapRing.Proofs.SendAccounts

/-!
# What receivers are handed

A receiver empties the slots of its window one by one and hands out what it finds,
until its callback or its handler gives up. What it leaves behind stays in the
slots when the window is released.
-/
namespace LapRing.ValueFates
open Channel
variable {cap : Capacity} {P Q α L : Type}

/-- A callback notes the value that it is given, and counts at most a rejection. -/
def Hands (f : α → Int64 → Act (Channel cap α × (L × ValueAccount α)) Unit) : Prop :=
  ∀ v s c l b, ∃ (c' : Channel cap α) (l' : L),
    (c' = c ∨ c' = c.withSequencer (c.ring.sequencer.count .failed)) ∧
      ((f v s).outcome (c, (l, b))).2 = (c', (l', b.hand v))

theorem hands_noting (f : α → Act L Unit) :
    Hands fun v _ =>
      (Act.outer (noting f v) : Act (Channel cap α × (L × ValueAccount α)) Unit) := by
  intro v s c l b
  cases hf : f v l with
  | ok u l' =>
    have hnote : noting f v (l, b) = .ok u (l', b.hand v) := Part.lift_ok (p := Part.first) hf
    have hcall : Act.outer (noting f v) (c, (l, b)) = .ok u (c, (l', b.hand v)) :=
      Part.lift_ok hnote
    exact ⟨c, l', Or.inl rfl, congrArg Prod.snd (Act.outcome_ok hcall)⟩
  | error e l' =>
    have hnote : noting f v (l, b) = .error e (l', b.hand v) :=
      Part.lift_error (p := Part.first) hf
    have hcall : Act.outer (noting f v) (c, (l, b)) = .error e (c, (l', b.hand v)) :=
      Part.lift_error hnote
    exact ⟨c, l', Or.inl rfl, congrArg Prod.snd (Act.outcome_error hcall)⟩

/-- A handler sees neither the channel nor the account. -/
theorem leads_handler {β : Type} (act : Act (α × L) β) (c : Channel cap α) (b : ValueAccount α) :
    Act.Leads (fun w : α × (Channel cap α × (L × ValueAccount α)) => w.2.1 = c ∧ w.2.2.2 = b)
      (fun w => w.2.1 = c ∧ w.2.2.2 = b) (Act.across (besideFirst.lift act)) := by
  intro ⟨x, c', l, b'⟩ h
  have hacross := Act.across_eq (besideFirst.lift act) x c' (l, b')
  cases hact : act (x, l) with
  | ok v w =>
    rw [Part.lift_ok (p := besideFirst) (w := (x, (l, b'))) hact] at hacross
    rw [Act.outcome_ok hacross]
    exact h
  | error e w =>
    rw [Part.lift_error (p := besideFirst) (w := (x, (l, b'))) hact] at hacross
    rw [Act.outcome_error hacross]
    exact h

theorem hands_handler (handler : Handler α L) (context : String) :
    Hands fun v s => (Act.owning v (handler.noting.across.dispatch
      (Ring.countFailure (here.within ringPart)) context s) :
        Act (Channel cap α × (L × ValueAccount α)) Unit) := by
  intro v s c l b
  set counted := c.withSequencer (c.ring.sequencer.count .failed) with hcounted
  have hevent : Act.Leads (· = (v, (c, (l, b)))) (fun w => w.2.1 = c ∧ w.2.2.2 = b.hand v)
      (handler.noting.across.onEvent context s) := by
    intro w hw
    rw [hw]
    exact leads_handler (handler.onEvent context s) c (b.hand v) (v, (c, (l, b.hand v))) ⟨rfl, rfl⟩
  have hdispatch : Act.Leads (· = (v, (c, (l, b))))
      (fun w => (w.2.1 = c ∨ w.2.1 = counted) ∧ w.2.2.2 = b.hand v)
      (handler.noting.across.dispatch (Ring.countFailure (here.within ringPart)) context s) := by
    refine hevent.bind (fun result => ?_) fun w hw => ⟨Or.inl hw.1, hw.2⟩
    cases result with
    | ok u => exact fun w hw => ⟨Or.inl hw.1, hw.2⟩
    | error text =>
      -- The rejection is counted before it is reported.
      intro ⟨x, c', l', b'⟩ ⟨(hc : c' = c), (hb : b' = b.hand v)⟩
      subst hc hb
      have hcount : Act.outer (Ring.countFailure (here.within ringPart))
          (x, (c', (l', b.hand v))) = .ok () (x, (counted, (l', b.hand v))) := rfl
      rw [Act.outcome_eq (Act.bind_ok hcount)]
      have hreport := leads_handler (handler.onError context s text) counted (b.hand v)
        (x, (counted, (l', b.hand v))) ⟨rfl, rfl⟩
      exact ⟨Or.inr hreport.1, hreport.2⟩
  obtain ⟨hc, hb⟩ := hdispatch _ rfl
  refine ⟨_, ((handler.noting.across.dispatch (Ring.countFailure (here.within ringPart)) context
    s).outcome (v, (c, (l, b)))).2.2.2.1, hc, ?_⟩
  rw [Act.outcome_owning]
  exact Prod.ext rfl (Prod.ext rfl hb)

/-- Empties the slot of `s` and hands out what was there. -/
def takeOne (f : α → Int64 → Act (Channel cap α × (L × ValueAccount α)) Unit)
    (received : ℕ) (s : Int64) :
    Act (Channel cap α × (L × ValueAccount α)) ℕ := do
  match ← here.lift (exchange s none) with
  | none => return received
  | some value =>
    f value s
    return received + 1

theorem drain_eq (f : α → Int64 → Act (Channel cap α × (L × ValueAccount α)) Unit) (win : Window) :
    drain here f win = win.sequences.foldlM (takeOne f) 0 := rfl

variable [DecidableEq P] [DecidableEq Q]

/-- A consumer empties the slot of `s`. -/
def take (q : Q) (s : Int64) (e : ValueFates cap P Q α) : ValueFates cap P Q α :=
  { e with
    slots := (e.slots.exchange s none).2
    emptied := Function.update e.emptied q (e.emptied q + 1)
    taken := e.taken ++ [Taking.mk q s.toInt (e.slots.exchange s none).1] }

omit [DecidableEq P] in
theorem Shows.take {e : ValueFates cap P Q α} {c : Channel cap α} {b : ValueAccount α}
    (h : e.Shows c b) (q : Q) (s : Int64) :
    (e.take q s).Shows (c.withSlots (c.ring.slots.write s none))
      { b with handed := b.handed ++ (c.ring.slots.read s).toList } := by
  refine ⟨h.sequencer, h.poller, ?_, h.discarded, h.accepted, ?_⟩
  · change c.ring.slots.write s none = (e.slots.write s none).map _
    rw [Slots.map_write, h.slots]
    rfl
  · change b.handed ++ _ = (List.filterMap Taking.content (e.taken ++ [_])).map _
    rw [List.filterMap_append, List.map_append, h.handed, h.slots, Slots.read_map]
    apply congrArg
    change _ = (List.filterMap Taking.content [Taking.mk q s.toInt (e.slots.read s)]).map _
    cases e.slots.read s <;> rfl

/-- A sequencer but for its tally. -/
def silent (s : Sequencer cap) : Sequencer cap := { s with tally := none }

/-- After `k` slots of the window of `q` were emptied. -/
structure Drains (e : ValueFates cap P Q α) (q : Q) (win : Window) (k : ℕ)
    (e' : ValueFates cap P Q α) : Prop where
  run : Relation.ReflTransGen Step e e'
  sequencer : silent e'.sequencer = silent e.sequencer
  stages : e'.stages = e.stages
  holder : e'.holder = e.holder
  poller : e'.poller = e.poller.claim win
  visits : e'.visits = Function.update e.visits q (.draining win)
  emptied : e'.emptied q = k

def Draining (e : ValueFates cap P Q α) (q : Q) (win : Window) (k : ℕ)
    (w : Channel cap α × (L × ValueAccount α)) : Prop :=
  ∃ e', Drains e q win k e' ∧ e'.Shows w.1 w.2.2

section Draining
variable {e e' : ValueFates cap P Q α} {q : Q} {win : Window} {k : ℕ}

theorem Drains.visit (h : Drains e q win k e') : e'.visits q = .draining win := by
  rw [h.visits]
  exact Function.update_self _ _ _

theorem Drains.take (h : Drains e q win k e') {s : Int64} (hs : win.sequences[k]? = some s) :
    Drains e q win (k + 1) (e'.take q s) := by
  have hstep : Step e' (e'.take q s) :=
    .trade (.take h.visit (by rw [h.emptied]; exact hs)) rfl
  refine ⟨h.run.tail hstep, h.sequencer, h.stages, h.holder, h.poller, h.visits, ?_⟩
  rw [← h.emptied]
  exact Function.update_self _ _ _

theorem Drains.reject (h : Drains e q win k e') :
    Drains e q win k { e' with sequencer := e'.sequencer.count .failed } :=
  ⟨h.run.tail .reject, h.sequencer, h.stages, h.holder, h.poller, h.visits, h.emptied⟩

/-- A slot is emptied, and its value is handed out. -/
theorem leads_takeOne {f : α → Int64 → Act (Channel cap α × (L × ValueAccount α)) Unit}
    (hf : Hands f) {s : Int64} (hs : win.sequences[k]? = some s) (received : ℕ) :
    Act.Leads (Draining e q win k) (Draining e q win (k + 1)) (takeOne f received s) := by
  intro ⟨c, l, b⟩ ⟨e', hdrains, hc⟩
  have hstep := hdrains.take hs
  have hshows := hc.take q s
  have htake : here.lift (exchange s none) (c, (l, b)) =
      .ok (c.ring.slots.read s) (c.withSlots (c.ring.slots.write s none), (l, b)) := rfl
  rw [takeOne, Act.outcome_eq (Act.bind_ok htake)]
  cases hread : c.ring.slots.read s with
  | none =>
    rw [hread, Option.toList_none, List.append_nil] at hshows
    exact ⟨_, hstep, hshows⟩
  | some value =>
    rw [hread] at hshows
    obtain ⟨c', l', hc', hcall⟩ := hf value s (c.withSlots (c.ring.slots.write s none)) l b
    simp only
    rw [Act.outcome_bind_pure, hcall]
    rcases hc' with rfl | rfl
    · exact ⟨_, hstep, hshows⟩
    · exact ⟨_, hstep.reject, hshows.reject⟩

/-- Slots are emptied one after the other until the callback gives up. -/
theorem leads_drain {f : α → Int64 → Act (Channel cap α × (L × ValueAccount α)) Unit} (hf : Hands f)
    {ss : List Int64} (hss : win.sequences.drop k = ss) (received : ℕ) :
    Act.Leads (Draining e q win k) (fun w => ∃ j, Draining e q win j w)
      (ss.foldlM (takeOne f) received) := by
  induction ss generalizing k received with
  | nil => exact fun w hw => ⟨k, hw⟩
  | cons s ss ih =>
    have hs : win.sequences[k]? = some s := by
      rw [← Nat.add_zero k, ← List.getElem?_drop, hss]
      rfl
    have hrest : win.sequences.drop (k + 1) = ss := by
      rw [← List.tail_drop, hss, List.tail_cons]
    rw [List.foldlM_cons]
    exact (leads_takeOne hf hs received).bind (fun n => ih hrest n) fun w hw => ⟨k + 1, hw⟩

/-- A window that was opened in its turn is released, and nobody is kept waiting. -/
theorem leads_release (h : e.Sound) (hq : e.Clear q)
    (turn : win.first.toInt = e.sequencer.gating.toInt + 1) :
    Act.Leads (fun w : Channel cap α × (L × ValueAccount α) => ∃ k, Draining e q win k w) e.After
      (Poller.release hereSequencer herePoller win) := by
  intro ⟨c, l, b⟩ ⟨k, e', hdrains, hc⟩
  have hsound := h.run hdrains.run
  have hvisit := hdrains.visit
  obtain ⟨hwin, -⟩ := hsound.channel.window hvisit
  have hpos := cap.one_le_slots
  have hstart := hwin.start
  have hroom := hsound.channel.parties.producers.standing.room
  have hclaimed := hsound.channel.parties.producers.standing.claimed _ (hwin.read _ (le_refl _))
  -- Emptying slots moves no counter, so it is still the turn of this window.
  have hgating : e'.sequencer.gating = e.sequencer.gating :=
    (congrArg Sequencer.gating hdrains.sequencer :)
  have hturn : win.first.toInt = e'.sequencer.gating.toInt + 1 := by rw [hgating, turn]
  have hrelease := Poller.release_eq Part.lawful_first Part.lawful_second
    (w := (e'.sequencer, e'.poller)) hturn hwin.le (by omega)
  have hrun : Poller.release hereSequencer herePoller win (c, (l, b)) =
      .ok () (c.withSequencer (Poller.afterRelease win c.ring.sequencer), (l, b)) :=
    Poller.release_eq lawful_hereSequencer lawful_herePoller
      (show _ = c.ring.sequencer.gating.toInt + 1 by rw [hc.sequencer]; exact hturn) hwin.le
      (by omega)
  rw [Act.outcome_ok hrun]
  refine ⟨_, hdrains.run.tail (.trade (.release hvisit hrelease) rfl),
    ⟨congrArg (Poller.afterRelease win) hc.sequencer, hc.poller, hc.slots, hc.discarded,
      hc.accepted, hc.handed⟩, .of_same hdrains.stages ?_ ?_ ?_ ?_ ?_ ?_⟩
  · change Function.update e'.visits q .idle = e.visits
    rw [hdrains.visits, Function.update_idem, ← hq.ready.1, Function.update_eq_self]
  · exact (congrArg Sequencer.producer hdrains.sequencer :)
  · change e'.poller.consumer = e.poller.consumer
    rw [hdrains.poller, Poller.consumer_claim]
  · intro t p ht
    rw [← hdrains.holder]
    exact ht
  · intro hlevel
    have hclaims := congrArg Sequencer.claimed hdrains.sequencer
    have hcursor := congrArg Sequencer.cursor hdrains.sequencer
    exact hclaims.trans (hlevel.trans hcursor.symm)
  · intro _
    change e'.poller.position (Poller.afterRelease win e'.sequencer) = win.last
    rw [hdrains.poller, Poller.position_claim_afterRelease]

end Draining

section Consumers
variable {e : ValueFates cap P Q α} {q : Q} {c : Channel cap α} {b : ValueAccount α}

/-- Receiving hands out what is in the slots of a window, and notes it in the account,
also if the callback gives up. -/
theorem receiveCount_attains (h : e.Sound) (hq : e.Clear q) (hc : e.Shows c b) (batch : UInt64)
    {f : α → Int64 → Act (Channel cap α × (L × ValueAccount α)) Unit} (hf : Hands f) (l : L) :
    e.After ((receiveCount here batch f).outcome (c, (l, b))).2 := by
  by_cases hb : batch = 0
  · rw [hb]
    exact Attains.refl hc
  rcases RingParties.openWindow_run h.channel.parties hq.ready hb lawful_hereSequencer
    lawful_herePoller
    (w := (c, (l, b))) hc.sequencer hc.poller with ⟨hopen, hsearch⟩ | ⟨win, hfirst, hopen, hsearch⟩
  · have hidle : receiveCount here batch f (c, (l, b)) =
        .ok none (c.withSequencer (e.sequencer.count .idle), (l, b)) :=
      Poller.poll_none (drain here f) hopen
    rw [Act.outcome_ok hidle]
    refine ⟨_, searches_run (.single hsearch), ⟨rfl, hc.poller, hc.slots, hc.discarded, hc.accepted,
      hc.handed⟩, .of_same rfl rfl rfl rfl (fun _ _ ht => ht) id id⟩
  have hturn : win.first.toInt = e.sequencer.gating.toInt + 1 := by
    rw [hfirst, hq.turn]
  have hdrains : Draining e q win 0 (c.withPoller (e.poller.claim win), (l, b)) := by
    refine ⟨_, ⟨searches_run hsearch, rfl, rfl, rfl, rfl, rfl, ?_⟩, hc.sequencer, rfl, hc.slots,
      hc.discarded, hc.accepted, hc.handed⟩
    exact h.channel.unbegun q (by simp [hq.ready.1])
  have hdrain := leads_drain (e := e) (q := q) hf win.sequences.drop_zero 0
  have hpoll := hdrain.closing (leads_release h hq hturn) _ hdrains
  rw [receiveCount, Ring.poll, Poller.poll, Act.outcome_eq (Act.bind_ok hopen)]
  simp only
  rw [Act.outcome_bind_pure, drain_eq]
  exact hpoll

variable (pauses : List (Pause (Channel cap α × (L × ValueAccount α))))

theorem receive_attains (h : e.Sound) (hq : e.Clear q) (hc : e.Shows c b) (batch : UInt64)
    (f : α → Act L Unit) (l : L) :
    e.After (((ValueCall.receive batch f).run pauses).outcome (c, (l, b))).2 := by
  have hcount := receiveCount_attains h hq hc batch (hands_noting f) l
  simp only [ValueCall.run, receive, bind_assoc, pure_bind, Act.outcome_bind_pure]
  exact hcount

theorem pollHandler_attains (h : e.Sound) (hq : e.Clear q) (hc : e.Shows c b) (context : String)
    (batch : UInt64) (handler : Handler α L) (l : L) :
    e.After (((ValueCall.pollHandler context batch handler).run pauses).outcome (c, (l, b))).2 := by
  have hcount := receiveCount_attains h hq hc batch (hands_handler handler context) l
  simp only [ValueCall.run, pollHandler, bind_assoc, pure_bind, Act.outcome_bind_pure]
  exact hcount

end Consumers

end LapRing.ValueFates
