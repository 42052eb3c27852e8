import LapRing.Channel.Basic
import LapRing.Proofs.PollFrame
import LapRing.Proofs.WorkerThreads

/-!
# Who has the handles

Callers ask for handles of a ring and drop them. Workers take a consumer when they
are made, lend it to their thread, get it back or lose it with the thread, and drop
it at their end. On a side for one all this passes a single flag on from holder to
holder: it is set while somebody has a handle and only then.
-/
namespace LapRing

/-- A ring and all who may have handles of it. The ring is part of a container, which is
the ring itself or a channel around it. -/
structure HandleHolders (V P Q ι : Type) where
  container : V
  /-- Whether a caller has a producer. -/
  producers : P → Bool
  /-- Whether a caller has a consumer. -/
  consumers : Q → Bool
  workers : ι → Worker
  /-- Which workers there are: made and not dropped yet. -/
  hired : ι → Bool

/-- Who may have a consumer: a caller, a stopped worker, or the thread of one. -/
inductive Holding (Q ι : Type)
  | caller (q : Q)
  | stopped (i : ι)
  | thread (i : ι)

namespace HandleHolders
variable {cap : Capacity} {ε V P Q ι : Type}

def new (container : V) : HandleHolders V P Q ι where
  container
  producers _ := false
  consumers _ := false
  workers _ := { name := "", batchSize := 0, holdsConsumer := false }
  hired _ := false

def Holds (s : HandleHolders V P Q ι) : Holding Q ι → Prop
  | .caller q => s.consumers q = true
  | .stopped i => s.hired i = true ∧ (s.workers i).holdsConsumer = true
  | .thread i => s.hired i = true ∧ (s.workers i).Lent

section Parts
variable (place : Part V (Ring cap ε))

def ring (s : HandleHolders V P Q ι) : Ring cap ε := (place.split s.container).1

def setRing (r : Ring cap ε) (s : HandleHolders V P Q ι) : HandleHolders V P Q ι :=
  { s with container := place.join r (place.split s.container).2 }

def here : Part (HandleHolders V P Q ι) (EventRing cap ε) where
  Rest := place.Rest × HandleHolders V P Q ι
  split s := (s.ring place, (place.split s.container).2, s)
  join r rest := { rest.2 with container := place.join r rest.1 }

variable [DecidableEq ι]

def setWorker (i : ι) (w : Worker) (s : HandleHolders V P Q ι) : HandleHolders V P Q ι :=
  { s with workers := Function.update s.workers i w }

def workerPart (i : ι) : Part (HandleHolders V P Q ι) Worker where
  Rest := HandleHolders V P Q ι
  split s := (s.workers i, s)
  join w s := s.setWorker i w

def site (i : ι) : Worker.Site cap ε (HandleHolders V P Q ι) :=
  ⟨here place, workerPart i, fun _ => pure ()⟩

end Parts

/-! ## What holders do -/

section Steps
variable [DecidableEq P] [DecidableEq Q] [DecidableEq ι] (place : Part V (Ring cap ε))

/-- What is asked of a ring or a worker without waiting for a thread. -/
inductive Request (P Q ι : Type)
  | openProducer (p : P)
  | openConsumer (q : Q)
  | dropProducer (p : P)
  | dropConsumer (q : Q)
  | hire (i : ι) (name : String) (batchSize : UInt64)
  | start (i : ι) (system : Except String Unit)
  /-- Tells a worker to stop. -/
  | halt (i : ι)

/-- Whether a request can be made. Handles and workers have names of their own, and
are dropped once. -/
def Apt (s : HandleHolders V P Q ι) : Request P Q ι → Prop
  | .openProducer p => s.producers p = false
  | .openConsumer q => s.consumers q = false
  | .dropProducer p => s.producers p = true
  | .dropConsumer q => s.consumers q = true
  | .hire i _ _ => s.hired i = false
  | .start i _ | .halt i => s.hired i = true

def setProducer (p : P) (has : Bool) (s : HandleHolders V P Q ι) : HandleHolders V P Q ι :=
  { s with producers := Function.update s.producers p has }

def setConsumer (q : Q) (has : Bool) (s : HandleHolders V P Q ι) : HandleHolders V P Q ι :=
  { s with consumers := Function.update s.consumers q has }

def setHired (i : ι) (hired : Bool) (s : HandleHolders V P Q ι) : HandleHolders V P Q ι :=
  { s with hired := Function.update s.hired i hired }

def serve : Request P Q ι → Act (HandleHolders V P Q ι) (Except Refusal Unit)
  | .openProducer p => do
    match ← (here place).lift Ring.acquireProducer with
    | .error refusal => return .error refusal
    | .ok () =>
      modify (setProducer p true)
      return .ok ()
  | .openConsumer q => do
    match ← (here place).lift Ring.acquireConsumer with
    | .error refusal => return .error refusal
    | .ok () =>
      modify (setConsumer q true)
      return .ok ()
  | .dropProducer p => do
    (here place).update Ring.releaseProducer
    modify (setProducer p false)
    return .ok ()
  | .dropConsumer q => do
    (here place).update Ring.releaseConsumer
    modify (setConsumer q false)
    return .ok ()
  | .hire i name batchSize => do
    match ← (here place).lift (Worker.new name batchSize) with
    | .error refusal => return .error refusal
    | .ok worker =>
      modify fun s => (s.setWorker i worker).setHired i true
      return .ok ()
  | .start i system => Worker.startOn (site place i) system
  | .halt i => do
    (workerPart i).update ({ · with running := false })
    return .ok ()

/-- What goes on without a turn of a thread: requests are served, and the container
is used in ways that leave the sides of the ring alone. -/
inductive Visit : HandleHolders V P Q ι → HandleHolders V P Q ι → Prop
  | serve {s : HandleHolders V P Q ι} (request : Request P Q ι) :
      s.Apt request → Visit s ((serve place request).outcome s).2
  | work {s : HandleHolders V P Q ι} {v : V} :
      (place.split v).1.producers = (s.ring place).producers →
      (place.split v).1.consumers = (s.ring place).consumers → Visit s { s with container := v }

/-- The callbacks of a handler may do what callers and owners do, and may give up. -/
structure Courteous (handler : Handler ε (HandleHolders V P Q ι)) : Prop where
  onEvent : ∀ context t item s, Relation.ReflTransGen (Visit place) s
    ((handler.onEvent context t).outcome (item, s)).2.2
  onError : ∀ context t text item s, Relation.ReflTransGen (Visit place) s
    ((handler.onError context t text).outcome (item, s)).2.2
  onStart : ∀ name s, Relation.ReflTransGen (Visit place) s ((handler.onStart name).outcome s).2
  onShutdown : ∀ name s,
    Relation.ReflTransGen (Visit place) s ((handler.onShutdown name).outcome s).2

inductive Step : HandleHolders V P Q ι → HandleHolders V P Q ι → Prop
  | visit {s s' : HandleHolders V P Q ι} : Visit place s s' → Step s s'
  | turn {s : HandleHolders V P Q ι} {i : ι} {handler : Handler ε (HandleHolders V P Q ι)} :
      s.hired i = true →
      Courteous place handler → Step s ((Worker.turn (site place i) handler).outcome s).2
  | shutdown {s : HandleHolders V P Q ι} {i : ι} {handler : Handler ε (HandleHolders V P Q ι)} :
      s.hired i = true → Courteous place handler →
      Step s ((Worker.shutdown (site place i) handler).outcome s).2
  | fire {s : HandleHolders V P Q ι} {i : ι} {handler : Handler ε (HandleHolders V P Q ι)} :
      s.hired i = true →
      Courteous place handler →
      Step s (((Worker.drop (site place i) handler).outcome s).2.setHired i false)

/-- What comes of a container with a fresh ring. -/
def Reachable (container : V) (s : HandleHolders V P Q ι) : Prop :=
  Relation.ReflTransGen (Step place) (new container) s

end Steps

/-- A party that may have a consumer, be it a caller or a worker with its thread. -/
def Keeps (s : HandleHolders V P Q ι) : Q ⊕ ι → Prop
  | .inl q => s.consumers q = true
  | .inr i => s.hired i = true ∧ (s.workers i).Has

structure Sound (place : Part V (Ring cap ε)) (settings : Settings)
    (s : HandleHolders V P Q ι) : Prop where
  producerKind : (s.ring place).producers.multiplicity = settings.producer
  consumerKind : (s.ring place).consumers.multiplicity = settings.consumer
  producers : (s.ring place).producers.Tracks (s.producers · = true)
  consumers : (s.ring place).consumers.Tracks s.Keeps
  /-- A worker with a thread has no consumer of its own. -/
  lent : ∀ i, (s.workers i).thread ≠ none → (s.workers i).holdsConsumer = false

variable {place : Part V (Ring cap ε)} {settings : Settings} {s s' : HandleHolders V P Q ι} {i : ι}

theorem sound_new {container : V} {slots : Slots cap ε}
    (fresh : (place.split container).1 = .new settings slots) :
    (new container : HandleHolders V P Q ι).Sound place settings := by
  have hring : (new container : HandleHolders V P Q ι).ring place = .new settings slots := fresh
  refine ⟨by rw [hring]; rfl, by rw [hring]; rfl, ?_, ?_, fun _ h => absurd rfl h⟩
  · rw [hring]
    exact fun _ => ⟨fun _ _ h => Bool.noConfusion h, by simp [new, Ring.new]⟩
  · have hnone : ∀ who, ¬ (new container : HandleHolders V P Q ι).Keeps who := by
      rintro (q | i) h
      · exact Bool.noConfusion h
      · exact Bool.noConfusion h.1
    rw [hring]
    exact fun _ => ⟨fun a _ h => absurd h (hnone a), by simpa [Ring.new] using hnone⟩

namespace Sound

/-- The producer side moves with one caller. -/
theorem movesProducer (h : s.Sound place settings) {p : P} (consumers : s'.consumers = s.consumers)
    (workers : s'.workers = s.workers) (hired : s'.hired = s.hired)
    (others : ∀ p' ≠ p, s'.producers p' = s.producers p')
    (hc : (s'.ring place).consumers = (s.ring place).consumers)
    (moves : (s.ring place).producers.Moves (s.producers p = true) (s'.producers p = true)
      (s'.ring place).producers) : s'.Sound place settings where
  producerKind := moves.multiplicity.trans h.producerKind
  consumerKind := hc ▸ h.consumerKind
  producers := h.producers.moves moves fun p' hne => by rw [others p' hne]
  consumers := by
    have hkeeps : s'.Keeps = s.Keeps := by
      funext who
      cases who <;> simp only [Keeps, consumers, workers, hired]
    rw [hc, hkeeps]
    exact h.consumers
  lent := workers ▸ h.lent

/-- The consumer side moves with one caller or one worker. -/
theorem movesConsumer (h : s.Sound place settings) {p : Q ⊕ ι}
    (producers : s'.producers = s.producers) (others : ∀ p' ≠ p, s'.Keeps p' ↔ s.Keeps p')
    (hp : (s'.ring place).producers = (s.ring place).producers)
    (moves : (s.ring place).consumers.Moves (s.Keeps p) (s'.Keeps p) (s'.ring place).consumers)
    (lent : ∀ j, (s'.workers j).thread ≠ none → (s'.workers j).holdsConsumer = false) :
    s'.Sound place settings where
  producerKind := hp ▸ h.producerKind
  consumerKind := moves.multiplicity.trans h.consumerKind
  producers := by
    rw [hp, producers]
    exact h.producers
  consumers := h.consumers.moves moves others
  lent := lent

/-- The consumer side moves with one worker. -/
theorem movesWorker [DecidableEq ι] (h : s.Sound place settings) {w : Worker} {b : Bool}
    {r : Ring cap ε} (lawful : place.Lawful)
    (lent : w.thread ≠ none → w.holdsConsumer = false)
    (hp : r.producers = (s.ring place).producers)
    (moves : (s.ring place).consumers.Moves (s.Keeps (.inr i)) (b = true ∧ w.Has) r.consumers) :
    (((s.setRing place r).setWorker i w).setHired i b).Sound place settings := by
  set s' := ((s.setRing place r).setWorker i w).setHired i b with hs'
  have hring : s'.ring place = r := lawful.split_join r _
  have hhired : s'.hired i = b := Function.update_self _ _ _
  have hworker : s'.workers i = w := Function.update_self _ _ _
  have hother : ∀ j ≠ i, s'.hired j = s.hired j ∧ s'.workers j = s.workers j := fun j hne =>
    ⟨Function.update_of_ne hne _ _, Function.update_of_ne hne _ _⟩
  refine h.movesConsumer (p := .inr i) rfl ?_ (hring ▸ hp) ?_ ?_
  · rintro (q | j) hne
    · rfl
    · obtain ⟨hh, hw⟩ := hother j (fun he => hne (congrArg _ he))
      simp only [Keeps, hh, hw]
  · simpa only [Keeps, hhired, hworker, hring] using moves
  · intro j
    by_cases hj : j = i
    · rw [hj, hworker]
      exact lent
    · rw [(hother j hj).2]
      exact h.lent j

variable [DecidableEq ι]

theorem movesHired (h : s.Sound place settings) (lawful : place.Lawful) (hi : s.hired i = true)
    {w : Worker} {r : Ring cap ε} (lent : w.thread ≠ none → w.holdsConsumer = false)
    (hp : r.producers = (s.ring place).producers)
    (moves : (s.ring place).consumers.Moves (s.workers i).Has w.Has r.consumers) :
    ((s.setRing place r).setWorker i w).Sound place settings := by
  have hmoves := h.movesWorker (i := i) (b := true) lawful lent hp (by
    simpa only [Keeps, hi, true_and] using moves)
  have hsame : ((s.setRing place r).setWorker i w).setHired i true =
      (s.setRing place r).setWorker i w := by
    rw [setHired, ← hi]
    exact congrArg _ (Function.update_eq_self i s.hired)
  rwa [hsame] at hmoves

/-- A worker changes, and has a consumer as before. -/
theorem setWorker (h : s.Sound place settings) (lawful : place.Lawful) (hi : s.hired i = true)
    {w : Worker} (lent : w.thread ≠ none → w.holdsConsumer = false)
    (same : w.Has ↔ (s.workers i).Has) : (s.setWorker i w).Sound place settings := by
  have hmoves := h.movesHired (r := s.ring place) lawful hi lent rfl (.still same)
  rwa [setRing, ring, lawful.join_split] at hmoves

end Sound

/-! ## Requests -/

section Runs

theorem setRing_ring (lawful : place.Lawful) (s : HandleHolders V P Q ι) :
    s.setRing place (s.ring place) = s := by
  rw [setRing, ring, lawful.join_split]

theorem ring_setRing (lawful : place.Lawful) (r : Ring cap ε) (s : HandleHolders V P Q ι) :
    (s.setRing place r).ring place = r :=
  lawful.split_join _ _

theorem lawful_here (lawful : place.Lawful) :
    (here place : Part (HandleHolders V P Q ι) (EventRing cap ε)).Lawful where
  join_split s := setRing_ring lawful s
  split_join _ _ := lawful.split_join _ _
  join_join r r' rest := by
    simp only [here, lawful.join_join]

theorem here_lift {α : Type} {act : Act (Ring cap ε) α} {x : α} {r : Ring cap ε}
    (h : act (s.ring place) = .ok x r) :
    (here place).lift act s = .ok x (s.setRing place r) :=
  Part.lift_ok h

/-- What leaves the ring alone leaves everybody alone. -/
theorem here_stays (lawful : place.Lawful) {α : Type} {act : Act (Ring cap ε) α} {x : α}
    (h : act (s.ring place) = .ok x (s.ring place)) : (here place).lift act s = .ok x s := by
  have hlift := here_lift h
  rwa [setRing_ring lawful] at hlift

variable [DecidableEq ι]

theorem lawful_workerPart (i : ι) :
    (workerPart i : Part (HandleHolders V P Q ι) Worker).Lawful where
  join_split s := by
    change s.setWorker i (s.workers i) = s
    rw [setWorker, Function.update_eq_self]
  split_join _ _ := Function.update_self _ _ _
  join_join w v s := by
    change (s.setWorker i w).setWorker i v = s.setWorker i v
    simp only [setWorker, Function.update_idem]

theorem setWorker_setWorker (i : ι) (w v : Worker) (s : HandleHolders V P Q ι) :
    (s.setWorker i w).setWorker i v = s.setWorker i v :=
  (lawful_workerPart i).join_join w v s

theorem worker_setWorker (i : ι) (w : Worker) (s : HandleHolders V P Q ι) :
    (s.setWorker i w).workers i = w :=
  Function.update_self _ _ _

theorem worker_setWorker_of_ne {j : ι} (hne : i ≠ j) (w : Worker) (s : HandleHolders V P Q ι) :
    (s.setWorker j w).workers i = s.workers i :=
  Function.update_of_ne hne _ _

theorem read_worker (i : ι) (s : HandleHolders V P Q ι) :
    (site place i).worker.read s = .ok (s.workers i) s :=
  Part.read_apply (lawful_workerPart i) s

end Runs

variable [DecidableEq P] [DecidableEq Q] [DecidableEq ι]

section Requests
variable (lawful : place.Lawful)
include lawful

theorem serve_openProducer (p : P) :
    serve place (.openProducer p) s =
      if (s.ring place).producers.acquire.1 then
        .ok (.ok ()) ((s.setRing place { s.ring place with
          producers := (s.ring place).producers.acquire.2 }).setProducer p true)
      else .ok (.error .producerTaken) s := by
  have hring := Ring.acquireProducer_eq (s.ring place)
  by_cases hadmitted : (s.ring place).producers.acquire.1 = true
  · rw [if_pos hadmitted] at hring ⊢
    exact Act.bind_ok (here_lift hring)
  · rw [if_neg hadmitted] at hring ⊢
    exact Act.bind_ok (here_stays lawful hring)

theorem serve_openConsumer (q : Q) :
    serve place (.openConsumer q) s =
      if (s.ring place).consumers.acquire.1 then
        .ok (.ok ()) ((s.setRing place { s.ring place with
          consumers := (s.ring place).consumers.acquire.2 }).setConsumer q true)
      else .ok (.error .consumerTaken) s := by
  have hring := Ring.acquireConsumer_eq (s.ring place)
  by_cases hadmitted : (s.ring place).consumers.acquire.1 = true
  · rw [if_pos hadmitted] at hring ⊢
    exact Act.bind_ok (here_lift hring)
  · rw [if_neg hadmitted] at hring ⊢
    exact Act.bind_ok (here_stays lawful hring)

theorem serve_hire (i : ι) (name : String) (batchSize : UInt64) :
    serve place (.hire i name batchSize) s =
      if batchSize = 0 then .ok (.error (.invalidBatchSize batchSize)) s
      else if (s.ring place).consumers.acquire.1 then
        .ok (.ok ()) (((s.setRing place { s.ring place with
          consumers := (s.ring place).consumers.acquire.2 }).setWorker i
            { name, batchSize }).setHired i true)
      else .ok (.error .consumerTaken) s := by
  have hnew := Worker.new_eq name batchSize (s.ring place)
  have hrefused : ∀ refusal, Worker.new name batchSize (s.ring place) =
      .ok (.error refusal) (s.ring place) →
      serve place (.hire i name batchSize) s = .ok (.error refusal) s :=
    fun _ hr => Act.bind_ok (here_stays lawful hr)
  by_cases hb : batchSize = 0
  · rw [if_pos hb] at hnew ⊢
    exact hrefused _ hnew
  · rw [if_neg hb] at hnew ⊢
    by_cases hadmitted : (s.ring place).consumers.acquire.1 = true
    · rw [if_pos hadmitted] at hnew ⊢
      exact Act.bind_ok (here_lift hnew)
    · rw [if_neg hadmitted] at hnew ⊢
      exact hrefused _ hnew

end Requests

omit [DecidableEq P] [DecidableEq Q] in
theorem Sound.startOn_cases (h : s.Sound place settings) (lawful : place.Lawful)
    (hi : s.hired i = true) (system : Except String Unit) :
    (∃ refusal, (s.workers i).Refuses refusal ∧
      Worker.startOn (site place i) system s = .ok (.error refusal) s) ∨
    ((s.workers i).thread = none ∧ (s.workers i).holdsConsumer = true) ∧
      ((∃ reason, Worker.startOn (site place i) system s = .ok (.error (.workerSpawn reason))
          (s.setWorker i { s.workers i with running := false })) ∨
        (Worker.nameFault (s.workers i).name ≠ none ∧
          ∃ e, Worker.startOn (site place i) system s = .error e
            ((s.setRing place (Ring.releaseConsumer (s.ring place))).setWorker i
              { s.workers i with running := true, holdsConsumer := false })) ∨
        Worker.startOn (site place i) system s = .ok (.ok ()) (s.setWorker i
          { s.workers i with
            running := true
            holdsConsumer := false
            thread := some .starting })) := by
  have hkeeps : (s.workers i).holdsConsumer = true → s.Keeps (.inr i) :=
    fun holds => ⟨hi, Or.inl holds⟩
  have hworker : (site (P := P) (Q := Q) place i).worker.Lawful := lawful_workerPart i
  exact Worker.startOn_cases (w := s) hworker rfl (lawful_here lawful)
    (fun holds => h.consumers.acquire_release (hkeeps holds)) system

namespace Sound

omit [DecidableEq P] [DecidableEq Q] in
theorem startOn (h : s.Sound place settings) (lawful : place.Lawful) (hi : s.hired i = true)
    (system : Except String Unit) :
    ((Worker.startOn (site place i) system).outcome s).2.Sound place settings := by
  obtain ⟨_, -, hrun⟩ | ⟨⟨hthread, hholds⟩, ⟨_, hrun⟩ | ⟨-, _, hrun⟩ | hrun⟩ :=
    h.startOn_cases lawful hi system
  · rw [Act.outcome_ok hrun]
    exact h
  · rw [Act.outcome_ok hrun]
    exact h.setWorker lawful hi (h.lent i) Iff.rfl
  · rw [Act.outcome_error hrun]
    exact h.movesHired lawful hi (fun hne => absurd hthread hne) rfl
      (.leaves (Or.inl hholds) (not_or.mpr ⟨Bool.false_ne_true, Worker.not_lent hthread⟩))
  · rw [Act.outcome_ok hrun]
    exact h.setWorker lawful hi (fun _ => rfl)
      (iff_of_true (Or.inr ⟨.starting, rfl, nofun⟩) (Or.inl hholds))

omit [DecidableEq Q] [DecidableEq ι] in
theorem setProducer (h : s.Sound place settings) (lawful : place.Lawful) {p : P} {b : Bool}
    {side : Side} (moves : (s.ring place).producers.Moves (s.producers p = true) (b = true) side) :
    ((s.setRing place { s.ring place with producers := side }).setProducer p b).Sound
      place settings := by
  set s' := (s.setRing place { s.ring place with producers := side }).setProducer p b with hs'
  have hring : s'.ring place = { s.ring place with producers := side } := ring_setRing lawful _ _
  refine h.movesProducer (p := p) rfl rfl rfl (fun p' hne => Function.update_of_ne hne _ _)
    (by rw [hring]) ?_
  rw [hring, show s'.producers p = b from Function.update_self _ _ _]
  exact moves

omit [DecidableEq P] [DecidableEq ι] in
theorem setConsumer (h : s.Sound place settings) (lawful : place.Lawful) {q : Q} {b : Bool}
    {side : Side} (moves : (s.ring place).consumers.Moves (s.consumers q = true) (b = true) side) :
    ((s.setRing place { s.ring place with consumers := side }).setConsumer q b).Sound
      place settings := by
  set s' := (s.setRing place { s.ring place with consumers := side }).setConsumer q b with hs'
  have hring : s'.ring place = { s.ring place with consumers := side } := ring_setRing lawful _ _
  have hself : s'.consumers q = b := Function.update_self _ _ _
  refine h.movesConsumer (p := .inl q) rfl ?_ (by rw [hring]) ?_ h.lent
  · rintro (q' | j) hne
    · have hother : s'.consumers q' = s.consumers q' :=
        Function.update_of_ne (fun he => hne (congrArg Sum.inl he)) _ _
      simp only [Keeps, hother]
    · rfl
  · simpa only [Keeps, hself, hring] using moves

theorem serve (h : s.Sound place settings) (lawful : place.Lawful) {request : Request P Q ι}
    (apt : s.Apt request) :
    ((HandleHolders.serve place request).outcome s).2.Sound place settings := by
  cases request with
  | openProducer p =>
    have hrun := serve_openProducer lawful (s := s) (Q := Q) (ι := ι) p
    split at hrun
    · rename_i hadmitted
      rw [Act.outcome_ok hrun]
      exact h.setProducer lawful (.enters hadmitted rfl)
    · rw [Act.outcome_ok hrun]
      exact h
  | openConsumer q =>
    have hrun := serve_openConsumer lawful (s := s) (P := P) (ι := ι) q
    split at hrun
    · rename_i hadmitted
      rw [Act.outcome_ok hrun]
      exact h.setConsumer lawful (.enters hadmitted rfl)
    · rw [Act.outcome_ok hrun]
      exact h
  | dropProducer p => exact h.setProducer lawful (.leaves apt Bool.false_ne_true)
  | dropConsumer q => exact h.setConsumer lawful (.leaves apt Bool.false_ne_true)
  | hire i name batchSize =>
    have hrun := serve_hire lawful (s := s) (P := P) (Q := Q) i name batchSize
    split at hrun
    · rw [Act.outcome_ok hrun]
      exact h
    · split at hrun
      · rename_i hadmitted
        rw [Act.outcome_ok hrun]
        exact h.movesWorker lawful (fun hne => absurd rfl hne) rfl
          (.enters hadmitted ⟨rfl, Or.inl rfl⟩)
      · rw [Act.outcome_ok hrun]
        exact h
  | start i system => exact h.startOn lawful apt system
  | halt i => exact h.setWorker lawful apt (h.lent i) Iff.rfl

theorem visit (h : s.Sound place settings) (lawful : place.Lawful) (hvisit : Visit place s s') :
    s'.Sound place settings := by
  cases hvisit with
  | serve request apt => exact h.serve lawful apt
  | work hp hc =>
    exact ⟨hp ▸ h.producerKind, hc ▸ h.consumerKind, hp ▸ h.producers, hc ▸ h.consumers, h.lent⟩

end Sound

end HandleHolders

end LapRing
