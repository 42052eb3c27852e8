import LapRing.Proofs.ProducerSafety
import LapRing.Proofs.Incarnations
import LapRing.Proofs.WorkerThreads

/-!
# What a worker's handler is called with

One worker over a ring that any number of producers fill. Its handler keeps a record of
its calls, and each poll of its window. Producers go on while callbacks run, and the
worker may be told to stop meanwhile: a batch that has begun is handled all the same.
-/
namespace LapRing

structure WorkerHistory (cap : Capacity) (P ε L : Type) where
  ring : EventRing cap ε
  stages : P → Stage
  holder : ℤ → Holder P
  worker : Worker
  /-- What belongs to the handler. -/
  own : L
  /-- The incarnations so far, the latest first. -/
  past : List Incarnation

namespace WorkerHistory
variable {cap : Capacity} {P ε L : Type}

/-- A worker that was just made. -/
def new (ring : EventRing cap ε) (worker : Worker) (own : L) : WorkerHistory cap P ε L where
  ring
  stages _ := .idle
  holder t := if t < 0 then .published else .unclaimed
  worker
  own
  past := []

def producers (s : WorkerHistory cap P ε L) : Producers cap P :=
  ⟨s.ring.sequencer, s.stages, s.holder⟩

def ringPart : Part (WorkerHistory cap P ε L) (EventRing cap ε) where
  Rest := WorkerHistory cap P ε L
  split s := (s.ring, s)
  join ring s := { s with ring }

def workerPart : Part (WorkerHistory cap P ε L) Worker where
  Rest := WorkerHistory cap P ε L
  split s := (s.worker, s)
  join worker s := { s with worker }

def site : Worker.Site cap ε (WorkerHistory cap P ε L) := ⟨ringPart, workerPart, fun _ => pure ()⟩

abbrev sequencerPart : Part (WorkerHistory cap P ε L) (Sequencer cap) :=
  ringPart.within Ring.sequencerPart

abbrev pollerPart : Part (WorkerHistory cap P ε L) Poller := ringPart.within Ring.pollerPart

theorem lawful_ringPart : (ringPart : Part (WorkerHistory cap P ε L) _).Lawful :=
  ⟨fun _ => rfl, fun _ _ => rfl, fun _ _ _ => rfl⟩

theorem lawful_workerPart : (workerPart : Part (WorkerHistory cap P ε L) _).Lawful :=
  ⟨fun _ => rfl, fun _ _ => rfl, fun _ _ _ => rfl⟩

/-! ## Records -/

/-- Changes the record of the latest incarnation. -/
def latest (f : Incarnation → Incarnation) : List Incarnation → List Incarnation
  | [] => []
  | i :: older => f i :: older

def note (calls : List Callback) (s : WorkerHistory cap P ε L) : WorkerHistory cap P ε L :=
  { s with past := latest (·.hear calls) s.past }

/-- Calls a callback, and notes that and whether it gives up. -/
def hear {U α : Type} (place : Part U (WorkerHistory cap P ε L)) (c : Callback) (act : Act U α) :
    Act U α := do
  place.update (note [c])
  act.onHalt (place.update (note [.panic]))

/-- A handler whose calls are noted. -/
def noting (handler : Handler ε (WorkerHistory cap P ε L)) :
    Handler ε (WorkerHistory cap P ε L) where
  onEvent context t := hear .second (.event t.toInt) (handler.onEvent context t)
  onError context t text := hear .second (.error t.toInt) (handler.onError context t text)
  onStart name := hear .whole .start (handler.onStart name)
  onShutdown name := hear .whole .stop (handler.onShutdown name)

/-- Gives an item to the handler. -/
abbrev give (handler : Handler ε (WorkerHistory cap P ε L)) (context : String) (t : Int64) :
    Act (ε × WorkerHistory cap P ε L) Unit :=
  (noting handler).dispatch (Ring.countFailure ringPart) context t

/-- Gives the items of some sequences to the handler, one after the other. -/
abbrev giveAll (handler : Handler ε (WorkerHistory cap P ε L)) (context : String)
    (ss : List Int64) :
    Act (WorkerHistory cap P ε L) Unit :=
  ss.forM fun t => (ringPart.within (Ring.slotPart t)).lend (give handler context t)

/-- The window that the next turn of the thread opens. -/
def opening (s : WorkerHistory cap P ε L) : Option Window :=
  if s.worker.thread = some .polling ∧ s.worker.running = true then
    match Poller.openWindow sequencerPart pollerPart s.worker.batchSize s with
    | .ok found _ => found
    | .error _ _ => none
  else none

/-- Notes the window that the next turn opens. -/
def foresee (s : WorkerHistory cap P ε L) : WorkerHistory cap P ε L :=
  match s.opening with
  | none => s
  | some win => { s with past := latest (·.opens win) s.past }

/-! ## What happens -/

/-- Starts the worker. A start that succeeds begins a new incarnation. -/
def start (system : Except String Unit) : Act (WorkerHistory cap P ε L) (Except Refusal Unit) := do
  let answer ← Worker.startOn site system
  if answer.isOk then
    modify fun s => { s with past := { gating := s.ring.sequencer.gating.toInt } :: s.past }
  return answer

/-- A turn of the thread. One that is told to stop opens no window any more, so there is
nothing to foresee in a shutdown. -/
def turn (handler : Handler ε (WorkerHistory cap P ε L)) : Act (WorkerHistory cap P ε L) Bool := do
  modify foresee
  Worker.turn site (noting handler)

def shutdown (handler : Handler ε (WorkerHistory cap P ε L)) :
    Act (WorkerHistory cap P ε L) (Except Halt Unit) :=
  Worker.shutdown site (noting handler)

variable [DecidableEq P]

/-- What goes on beside the thread: producers work and change the events in their
slots, and the worker may be told to stop. Nobody else consumes. -/
structure Meanwhile (s s' : WorkerHistory cap P ε L) : Prop where
  producers : Relation.ReflTransGen Producers.Step s.producers s'.producers
  poller : s'.ring.poller = s.ring.poller
  consumers : s'.ring.consumers = s.ring.consumers
  worker : s'.worker = s.worker ∨ s'.worker = { s.worker with running := false }
  past : s'.past = s.past

/-- The callbacks of a handler leave the consumer side alone, and may give up. -/
structure Courteous (handler : Handler ε (WorkerHistory cap P ε L)) : Prop where
  onEvent : ∀ context t item s, s.producers.Sound →
    Meanwhile s ((handler.onEvent context t).outcome (item, s)).2.2
  onError : ∀ context t text item s, s.producers.Sound →
    Meanwhile s ((handler.onError context t text).outcome (item, s)).2.2
  onStart : ∀ name s, s.producers.Sound → Meanwhile s ((handler.onStart name).outcome s).2
  onShutdown : ∀ name s, s.producers.Sound → Meanwhile s ((handler.onShutdown name).outcome s).2

inductive Step : WorkerHistory cap P ε L → WorkerHistory cap P ε L → Prop
  | meanwhile {s s' : WorkerHistory cap P ε L} : Meanwhile s s' → Step s s'
  | start {s : WorkerHistory cap P ε L} (system : Except String Unit) :
      Step s ((WorkerHistory.start system).outcome s).2
  | turn {s : WorkerHistory cap P ε L} {handler : Handler ε (WorkerHistory cap P ε L)} :
      Courteous handler → Step s ((WorkerHistory.turn handler).outcome s).2
  | shutdown {s : WorkerHistory cap P ε L} {handler : Handler ε (WorkerHistory cap P ε L)} :
      Courteous handler → Step s ((WorkerHistory.shutdown handler).outcome s).2

def Reachable (first s : WorkerHistory cap P ε L) : Prop := Relation.ReflTransGen Step first s

/-! ## Callbacks -/

/-- What callbacks leave of a history: they move neither gating nor the consumers, and
what was published stays so. -/
structure Kept (s s' : WorkerHistory cap P ε L) : Prop where
  producers : s'.producers.Sound
  gating : s'.ring.sequencer.gating = s.ring.sequencer.gating
  published : s.producers.published ⊆ s'.producers.published
  poller : s'.ring.poller = s.ring.poller
  consumers : s'.ring.consumers = s.ring.consumers
  worker : s'.worker = s.worker ∨ s'.worker = { s.worker with running := false }

omit [DecidableEq P] in
theorem Kept.refl {s : WorkerHistory cap P ε L} (h : s.producers.Sound) : Kept s s :=
  ⟨h, rfl, fun _ ht => ht, rfl, rfl, Or.inl rfl⟩

omit [DecidableEq P] in
theorem Kept.trans {s t u : WorkerHistory cap P ε L} (h : Kept s t) (h' : Kept t u) : Kept s u where
  producers := h'.producers
  gating := h'.gating.trans h.gating
  published := h.published.trans h'.published
  poller := h'.poller.trans h.poller
  consumers := h'.consumers.trans h.consumers
  worker := by
    rcases h.worker with hw | hw <;> rcases h'.worker with hw' | hw' <;> rw [hw', hw]
    · exact Or.inl rfl
    · exact Or.inr rfl
    · exact Or.inr rfl
    · exact Or.inr rfl

omit [DecidableEq P] in
theorem Kept.note {s t : WorkerHistory cap P ε L} (h : Kept s t) (calls : List Callback) :
    Kept s (t.note calls) :=
  ⟨h.producers, h.gating, h.published, h.poller, h.consumers, h.worker⟩

theorem Meanwhile.kept {s s' : WorkerHistory cap P ε L} (h : Meanwhile s s')
    (hs : s.producers.Sound) :
    Kept s s' := by
  obtain ⟨hproducers, hgating, hpublished⟩ := hs.run h.producers
  exact ⟨hproducers, hgating, hpublished, h.poller, h.consumers, h.worker⟩

omit [DecidableEq P] in
theorem latest_latest (f g : Incarnation → Incarnation) (past : List Incarnation) :
    latest g (latest f past) = latest (g ∘ f) past := by
  cases past <;> rfl

omit [DecidableEq P] in
/-- What is noted twice is noted at once. -/
theorem latest_hear (calls calls' : List Callback) (past : List Incarnation) :
    latest (·.hear calls') (latest (·.hear calls) past) =
      latest (·.hear (calls ++ calls')) past := by
  rw [latest_latest]
  cases past with
  | nil => rfl
  | cons i older => exact congrArg (· :: older) (by simp [Incarnation.hear])

section Hearing
variable {U α : Type} {place : Part U (WorkerHistory cap P ε L)} {c : Callback} {act : Act U α}

/-- A callback is noted, and if it gives up that is noted as well. -/
theorem hear_spec (lawful : place.Lawful)
    (courteous : ∀ u, (place.split u).1.producers.Sound →
      Meanwhile (place.split u).1 (place.split (act.outcome u).2).1)
    {u : U} (h : (place.split u).1.producers.Sound) :
    Kept (place.split u).1 (place.split ((hear place c act).outcome u).2).1 ∧
    ((∃ x, ((hear place c act).outcome u).1 = .ok x ∧
        (place.split ((hear place c act).outcome u).2).1.past =
          latest (·.hear [c]) (place.split u).1.past) ∨
      ∃ e, ((hear place c act).outcome u).1 = .error e ∧
        (place.split ((hear place c act).outcome u).2).1.past =
          latest (·.hear ([c] ++ [.panic])) (place.split u).1.past) := by
  set u₁ := place.join (note [c] (place.split u).1) (place.split u).2 with hu₁
  have hsplit : (place.split u₁).1 = note [c] (place.split u).1 := lawful.split_join _ _
  have hnote : place.update (note [c]) u = .ok () u₁ := Part.update_apply _ _ _
  have hmean := courteous u₁ (hsplit ▸ h)
  have hkept : Kept (place.split u).1 (place.split (act.outcome u₁).2).1 := by
    have hsame : Kept (place.split u).1 (place.split u₁).1 := by
      rw [hsplit]
      exact (Kept.refl h).note _
    exact hsame.trans (hmean.kept (hsplit ▸ h))
  have hpast : (place.split (act.outcome u₁).2).1.past =
      latest (·.hear [c]) (place.split u).1.past := by
    rw [hmean.past, hsplit]
    rfl
  cases hrun : act u₁ with
  | ok x u₂ =>
    rw [Act.outcome_ok hrun] at hkept hpast
    have hhear : hear place c act u = .ok x u₂ :=
      (Act.bind_ok hnote).trans (Act.onHalt_ok hrun _)
    rw [Act.outcome_ok hhear]
    exact ⟨hkept, Or.inl ⟨x, rfl, hpast⟩⟩
  | error e u₂ =>
    rw [Act.outcome_error hrun] at hkept hpast
    set u₃ := place.join (note [.panic] (place.split u₂).1) (place.split u₂).2 with hu₃
    have hhear : hear place c act u = .error e u₃ :=
      (Act.bind_ok hnote).trans (Act.onHalt_error hrun (Part.update_apply _ _ _))
    have hlast : (place.split u₃).1 = note [.panic] (place.split u₂).1 := lawful.split_join _ _
    rw [Act.outcome_error hhear, hlast]
    refine ⟨hkept.note _, Or.inr ⟨e, rfl, ?_⟩⟩
    change latest _ (place.split u₂).1.past = _
    rw [hpast, latest_hear]

end Hearing

/-- What callbacks on the sequences `ts` note: calls on all of them, or on those up to
the first that gives up. -/
inductive Served (ts : List ℤ) (past : List Incarnation) :
    List Incarnation → Except Halt Unit → Prop
  | all {calls : List Callback} {past' : List Incarnation} : Incarnation.Items ts calls →
      past' = latest (·.hear calls) past → Served ts past past' (.ok ())
  | cut {calls : List Callback} {past' : List Incarnation} {e : Halt} {k : ℕ} : 1 ≤ k →
      k ≤ ts.length → Incarnation.Items (ts.take k) calls →
      past' = latest (·.hear (calls ++ [.panic])) past → Served ts past past' (.error e)

theorem items_event (t : ℤ) : Incarnation.Items [t] [.event t] :=
  ⟨by simp [Callback.isItem], rfl⟩

theorem items_error (t : ℤ) : Incarnation.Items [t] [.event t, .error t] :=
  ⟨by simp [Callback.isItem], rfl⟩

/-- The handler is given one item, and learns of it if it rejects the item. -/
theorem give_spec {handler : Handler ε (WorkerHistory cap P ε L)} (courteous : Courteous handler)
    (context : String) (t : Int64) (item : ε) {s : WorkerHistory cap P ε L}
    (h : s.producers.Sound) :
    Kept s ((give handler context t).outcome (item, s)).2.2 ∧
    Served [t.toInt] s.past ((give handler context t).outcome (item, s)).2.2.past
      ((give handler context t).outcome (item, s)).1 := by
  obtain ⟨hkept, hpast⟩ := hear_spec (c := .event t.toInt) Part.lawful_second
    (fun u hu => courteous.onEvent context t u.1 u.2 hu) (u := (item, s)) h
  cases hrun : (noting handler).onEvent context t (item, s) with
  | error e u =>
    have hdispatch : give handler context t (item, s) =
        .error e u := Act.bind_error hrun
    have hheard : (hear Part.second (.event t.toInt) (handler.onEvent context t)).outcome
        (item, s) = (.error e, u) := Act.outcome_error hrun
    rw [hheard] at hkept hpast
    rw [Act.outcome_error hdispatch]
    obtain ⟨_, hok, _⟩ | ⟨_, -, hnoted⟩ := hpast
    · simp at hok
    · exact ⟨hkept, .cut (le_refl 1) (le_refl 1) (items_event _) hnoted⟩
  | ok answer u =>
    have hheard : (hear Part.second (.event t.toInt) (handler.onEvent context t)).outcome
        (item, s) = (.ok answer, u) := Act.outcome_ok hrun
    rw [hheard] at hkept hpast
    obtain ⟨_, -, hnoted⟩ | ⟨_, herror, _⟩ := hpast
    · cases answer with
      | ok _ =>
        have hdispatch : give handler context t (item, s) =
            .ok () u := Act.bind_ok hrun
        rw [Act.outcome_ok hdispatch]
        exact ⟨hkept, .all (items_event _) hnoted⟩
      | error text =>
        set counted : WorkerHistory cap P ε L :=
          { u.2 with ring := { u.2.ring with sequencer := u.2.ring.sequencer.count .failed } }
        have hcounted : Kept u.2 counted :=
          ⟨hkept.producers.count _, rfl, fun _ ht => ht, rfl, rfl, Or.inl rfl⟩
        have hcount : Act.outer (Ring.countFailure ringPart) u = .ok () (u.1, counted) := rfl
        have hdispatch : give handler context t (item, s) =
            hear Part.second (.error t.toInt) (handler.onError context t text) (u.1, counted) :=
          (Act.bind_ok hrun).trans (Act.bind_ok hcount)
        rw [Act.outcome_eq hdispatch]
        obtain ⟨hkept', hpast'⟩ := hear_spec (c := .error t.toInt) Part.lawful_second
          (fun u hu => courteous.onError context t text u.1 u.2 hu) (u := (u.1, counted))
          hcounted.producers
        refine ⟨hkept.trans (hcounted.trans hkept'), ?_⟩
        have hbefore : counted.past = latest (·.hear [.event t.toInt]) s.past := hnoted
        obtain ⟨v, hok, hlast⟩ | ⟨e, herror, hlast⟩ := hpast'
        · rw [hok]
          refine .all (items_error _) (hlast.trans ?_)
          exact (congrArg _ hbefore).trans (latest_hear _ _ _)
        · rw [herror]
          refine .cut (le_refl 1) (le_refl 1) (items_error _) (hlast.trans ?_)
          exact (congrArg _ hbefore).trans (latest_hear _ _ _)
    · simp at herror

theorem Served.cons {t : ℤ} {ts : List ℤ} {past past₁ past₂ : List Incarnation}
    {r : Except Halt Unit} (h : Served [t] past past₁ (.ok ())) (h' : Served ts past₁ past₂ r) :
    Served (t :: ts) past past₂ r := by
  cases h with
  | all items hpast =>
    cases h' with
    | all items' hpast' =>
      refine .all (items.append items') (hpast'.trans ?_)
      rw [hpast, latest_hear]
    | cut pos le items' hpast' =>
      refine .cut (Nat.le_add_left 1 _) (Nat.succ_le_succ le) (items.append items')
        (hpast'.trans ?_)
      rw [hpast, latest_hear, List.append_assoc]

theorem Served.first {t : ℤ} {ts : List ℤ} {past past₁ : List Incarnation} {e : Halt}
    (h : Served [t] past past₁ (.error e)) : Served (t :: ts) past past₁ (.error e) := by
  cases h with
  | cut pos le items hpast =>
    obtain rfl := Nat.le_antisymm le pos
    exact .cut pos (Nat.le_add_left 1 _) items hpast

/-- The events of a list of sequences are lent to the handler one after the other. -/
theorem giveAll_spec {handler : Handler ε (WorkerHistory cap P ε L)} (courteous : Courteous handler)
    (context : String) (ss : List Int64) {s : WorkerHistory cap P ε L} (h : s.producers.Sound) :
    Kept s ((giveAll handler context ss).outcome s).2 ∧
    Served (ss.map Int64.toInt) s.past ((giveAll handler context ss).outcome s).2.past
      ((giveAll handler context ss).outcome s).1 := by
  set body : Int64 → Act (WorkerHistory cap P ε L) Unit := fun t =>
    (ringPart.within (Ring.slotPart t)).lend (give handler context t) with hbody
  induction ss generalizing s with
  | nil =>
    refine ⟨Kept.refl h, .all .nil ?_⟩
    change s.past = latest _ s.past
    cases s.past <;> simp [latest, Incarnation.hear]
  | cons t ss ih =>
    have hone : Kept s ((body t).outcome s).2 ∧
        Served [t.toInt] s.past ((body t).outcome s).2.past ((body t).outcome s).1 := by
      obtain ⟨hkept, hserved⟩ := give_spec courteous context t
        (((ringPart.within (Ring.slotPart t)).split s).1) h
      have hlend : (body t).outcome s = _ := Part.outcome_lend _ s
      rw [hlend]
      refine ⟨⟨hkept.producers, hkept.gating, hkept.published, hkept.poller, hkept.consumers,
        hkept.worker⟩, hserved⟩
    obtain ⟨hkept, hserved⟩ := hone
    cases hrun : body t s with
    | error e s₁ =>
      have hall : (t :: ss).forM body s = .error e s₁ := Act.bind_error hrun
      rw [Act.outcome_error hrun] at hkept hserved
      rw [Act.outcome_error hall]
      exact ⟨hkept, hserved.first⟩
    | ok u s₁ =>
      have hall : (t :: ss).forM body s = ss.forM body s₁ := Act.bind_ok hrun
      rw [Act.outcome_ok hrun] at hkept hserved
      rw [Act.outcome_eq hall]
      obtain ⟨hkept', hserved'⟩ := ih hkept.producers
      exact ⟨hkept.trans hkept', hserved.cons hserved'⟩

end WorkerHistory

end LapRing
