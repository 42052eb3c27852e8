import LapRing.Proofs.SideHolders
import LapRing.Worker

/-!
# Workers and their threads, step by step

A worker in any world: making one, starting its thread, and the turns of the thread,
each of which comes to its end even if the thread does not.
-/
namespace LapRing.Worker
variable {cap : Capacity} {W ε : Type}

/-- Whether a worker has a thread that has not lost its consumer. -/
def Lent (w : Worker) : Prop := ∃ phase, w.thread = some phase ∧ ∀ why, phase ≠ .gaveUp why

/-- Whether a worker has a consumer, itself or in its thread. -/
def Has (w : Worker) : Prop := w.holdsConsumer = true ∨ w.Lent

theorem Lent.thread_ne {w : Worker} (h : w.Lent) : w.thread ≠ none := by
  obtain ⟨phase, hphase, -⟩ := h
  rw [hphase]
  exact Option.some_ne_none _

theorem not_lent {w : Worker} (h : w.thread = none) : ¬ w.Lent := fun hlent => hlent.thread_ne h

/-- A thread that gave up has lost its consumer. -/
theorem not_has_gaveUp {w : Worker} {why : Halt} (holds : w.holdsConsumer = false)
    (h : w.thread = some (.gaveUp why)) : ¬ w.Has := by
  rintro (hholds | ⟨phase, hphase, hlive⟩)
  · exact Bool.eq_false_iff.mp holds hholds
  · exact hlive why (Option.some.inj (hphase.symm.trans h))

/-- Why a worker does not start. -/
inductive Refuses (w : Worker) : Refusal → Prop
  | running : w.thread ≠ none → Refuses w .workerAlreadyStarted
  | bare : w.thread = none → w.holdsConsumer = false → Refuses w .consumerTaken

theorem new_eq (name : String) (batchSize : UInt64) (r : EventRing cap ε) :
    Worker.new name batchSize r =
      if batchSize = 0 then .ok (.error (.invalidBatchSize batchSize)) r
      else if r.consumers.acquire.1 then
        .ok (.ok { name, batchSize }) { r with consumers := r.consumers.acquire.2 }
      else .ok (.error .consumerTaken) r := by
  have hring := Ring.acquireConsumer_eq r
  rw [Worker.new]
  split
  · rfl
  · by_cases hadmitted : r.consumers.acquire.1 = true
    · rw [if_pos hadmitted] at hring ⊢
      exact Act.bind_ok hring
    · rw [if_neg hadmitted] at hring ⊢
      exact Act.bind_ok hring

section Sites
variable (site : Site cap ε W) {w : W}

/-! ## Starting -/

/-- The world with another worker. -/
def Site.put (x : Worker) (w : W) : W := site.worker.join x (site.worker.split w).2

/-- The world with a consumer dropped. -/
def Site.release (w : W) : W :=
  site.ring.join (Ring.releaseConsumer (site.ring.split w).1) (site.ring.split w).2

variable {site}

/-- A dropped consumer is given back if it is asked for at once. -/
theorem reacquire_eq (hring : site.ring.Lawful)
    (regain : (site.ring.split w).1.consumers.release.acquire =
      (true, (site.ring.split w).1.consumers)) :
    site.ring.lift Ring.acquireConsumer (site.release w) = .ok (.ok ()) w := by
  have hacquire := Ring.acquireConsumer_eq (Ring.releaseConsumer (site.ring.split w).1)
  have hadmitted : (Ring.releaseConsumer (site.ring.split w).1).consumers.acquire =
      (true, (site.ring.split w).1.consumers) := regain
  rw [hadmitted, if_pos rfl] at hacquire
  have hlift : site.ring.lift Ring.acquireConsumer (site.release w) = .ok (.ok ())
      (site.ring.join (site.ring.split w).1 (site.ring.split (site.release w)).2) :=
    Part.lift_ok (by rw [Site.release, hring.split_join]; exact hacquire)
  rwa [Site.release, hring.join_join, hring.join_split] at hlift

variable (hworker : site.worker.Lawful) {x : Worker} (hx : (site.worker.split w).1 = x)
include hworker hx

theorem startOn_spawned (free : x.thread = none) (holds : x.holdsConsumer = true)
    (named : nameFault x.name = none) :
    startOn site (.ok ()) w = .ok (.ok ()) (site.put
      { x with running := true, holdsConsumer := false, thread := some .starting } w) := by
  subst hx
  rw [startOn, Part.read_bind hworker]
  simp only [free, holds, named]
  rfl

/-- What a start comes to: it is refused, the system spawns no thread, the name is no
name for a thread, or the thread has the consumer. -/
theorem startOn_cases (hring : site.ring.Lawful)
    (regain : x.holdsConsumer = true → (site.ring.split w).1.consumers.release.acquire =
      (true, (site.ring.split w).1.consumers)) (system : Except String Unit) :
    (∃ refusal, x.Refuses refusal ∧ startOn site system w = .ok (.error refusal) w) ∨
    (x.thread = none ∧ x.holdsConsumer = true) ∧
      ((∃ reason, startOn site system w =
          .ok (.error (.workerSpawn reason)) (site.put { x with running := false } w)) ∨
        (nameFault x.name ≠ none ∧ ∃ e, startOn site system w =
          .error e (site.release (site.put { x with running := true, holdsConsumer := false } w))) ∨
        startOn site system w = .ok (.ok ()) (site.put
          { x with running := true, holdsConsumer := false, thread := some .starting } w)) := by
  have hspawned := startOn_spawned hworker hx
  have hread : startOn site system w = _ := Part.read_bind hworker _ w
  rw [hx] at hread
  cases hthread : x.thread with
  | some phase =>
    refine Or.inl ⟨_, .running (by rw [hthread]; exact Option.some_ne_none _), hread.trans ?_⟩
    simp only [hthread]
    rfl
  | none =>
    cases hholds : x.holdsConsumer with
    | false =>
      refine Or.inl ⟨_, .bare hthread hholds, hread.trans ?_⟩
      simp only [hthread, hholds]
      rfl
    | true =>
      refine Or.inr ⟨⟨rfl, rfl⟩, ?_⟩
      cases hname : nameFault x.name with
      | some fault =>
        refine Or.inr (Or.inl ⟨Option.some_ne_none _, .fault fault, hread.trans ?_⟩)
        simp only [hthread, hholds, hname]
        rfl
      | none =>
        cases system with
        | ok _ => exact Or.inr (Or.inr (hspawned hthread hholds hname))
        | error reason =>
          refine Or.inl ⟨reason, hread.trans ?_⟩
          simp only [hthread, hholds, hname]
          have hback := reacquire_eq hring (regain hholds)
          refine (Act.bind_ok (Part.update_apply _ _ w)).trans ((Act.bind_ok hback).trans ?_)
          rfl

end Sites

/-! ## Turns -/

section Turns
variable (site : Site cap ε W) (handler : Handler ε W)

theorem guarded_ok {piece : Act W Bool} {w w' : W} {moved : Bool} (h : piece w = .ok moved w') :
    guarded site piece w = .ok moved w' := by
  have hend : piece.ending w = .ok (.ok moved) w' := by simp only [Act.ending, h]
  exact Act.bind_ok hend

theorem guarded_error {piece : Act W Bool} {w w' : W} {why : Halt} (h : piece w = .error why w') :
    guarded site piece w = .ok true (site.release
      (site.put { (site.worker.split w').1 with thread := some (.gaveUp why) } w')) := by
  have hend : piece.ending w = .ok (.error why) w' := by simp only [Act.ending, h]
  exact Act.bind_ok hend

theorem guarded_ends (piece : Act W Bool) (w : W) :
    ∃ moved w', guarded site piece w = .ok moved w' := by
  cases hrun : piece w with
  | ok moved w' => exact ⟨_, _, guarded_ok site hrun⟩
  | error why w' => exact ⟨_, _, guarded_error site hrun⟩

theorem turn_ends (w : W) : ∃ moved w', turn site handler w = .ok moved w' := by
  have hread : site.worker.read w = .ok (site.worker.split w).1
      (site.worker.join (site.worker.split w).1 (site.worker.split w).2) := rfl
  rw [turn, Act.bind_ok hread]
  cases (site.worker.split w).1.thread with
  | none => exact ⟨_, _, rfl⟩
  | some phase =>
    cases phase with
    | starting => exact guarded_ends site _ _
    | polling =>
      simp only
      split
      · exact guarded_ends site _ _
      · exact ⟨_, _, rfl⟩
    | stopping => exact guarded_ends site _ _
    | finished => exact ⟨_, _, rfl⟩
    | gaveUp why => exact ⟨_, _, rfl⟩

theorem turns_ends (n : ℕ) (w : W) : ∃ w', turns site handler n w = .ok () w' := by
  induction n generalizing w with
  | zero => exact ⟨w, rfl⟩
  | succ n ih =>
    obtain ⟨moved, w', hturn⟩ := turn_ends site handler w
    cases moved with
    | false => exact ⟨w', Act.bind_ok hturn⟩
    | true =>
      obtain ⟨w'', hrest⟩ := ih w'
      exact ⟨w'', (Act.bind_ok hturn).trans hrest⟩

section Phases
variable (hworker : site.worker.Lawful) {w : W} {x : Worker} (hx : (site.worker.split w).1 = x)
include hworker hx

theorem turn_starting (h : x.thread = some .starting) :
    turn site handler w = guarded site (do
      handler.onStart x.name
      site.note (.workerStarted x.name x.batchSize)
      enter site .polling
      return true) w := by
  rw [turn, Part.read_bind hworker, hx]
  simp only [h]

theorem turn_polling (h : x.thread = some .polling) (running : x.running = true) :
    turn site handler w = guarded site (do
      return (← EventRing.poll site.ring x.name x.batchSize handler) = .processing) w := by
  rw [turn, Part.read_bind hworker, hx]
  simp only [h, running, if_true]

/-- Told to stop, the thread polls no more. -/
theorem turn_told (h : x.thread = some .polling) (told : x.running = false) :
    turn site handler w = .ok true (site.put { x with thread := some .stopping } w) := by
  have hrun : turn site handler w = (do enter site .stopping; return true : Act W Bool) w := by
    rw [turn, Part.read_bind hworker, hx]
    simp only [h, told, Bool.false_eq_true, if_false]
  subst hx
  have henter : enter site .stopping w =
      .ok () (site.put { (site.worker.split w).1 with thread := some .stopping } w) := rfl
  rw [hrun, Act.bind_ok henter]
  rfl

theorem turn_stopping (h : x.thread = some .stopping) :
    turn site handler w = guarded site (do
      handler.onShutdown x.name
      site.note (.workerStopped x.name (← site.ring.read).sequencer.gating)
      enter site .finished
      return true) w := by
  rw [turn, Part.read_bind hworker, hx]
  simp only [h]

theorem turn_over (h : x.thread = none ∨ x.thread = some .finished ∨
    ∃ why, x.thread = some (.gaveUp why)) : turn site handler w = .ok false w := by
  rw [turn, Part.read_bind hworker, hx]
  obtain h | h | ⟨why, h⟩ := h <;> simp only [h] <;> rfl

end Phases

/-- A worker without a thread has nothing to stop. Another one is told to stop, and
its thread is let come to its end. -/
theorem stop_cases (hworker : site.worker.Lawful) {w : W} {x : Worker}
    (hx : (site.worker.split w).1 = x) :
    (x.thread = none ∧
      stop site handler w = .ok none (site.put { x with running := false } w)) ∨
    x.thread ≠ none ∧ ∃ w', turns site handler 3 (site.put { x with running := false } w) =
        .ok () w' ∧
      stop site handler w = .ok ((site.worker.split w').1.thread.map result)
        (site.put { (site.worker.split w').1 with thread := none } w') := by
  subst hx
  set x := (site.worker.split w).1
  set w₀ := site.put { x with running := false } w with hw₀
  have htold : (site.worker.split w₀).1 = { x with running := false } := hworker.split_join _ _
  have hupdate : site.worker.update ({ · with running := false }) w = .ok () w₀ := rfl
  rw [stop, Act.bind_ok hupdate, Part.read_bind hworker, htold]
  cases hthread : x.thread with
  | none => exact Or.inl ⟨rfl, rfl⟩
  | some phase =>
    obtain ⟨w', hturns⟩ := turns_ends site handler 3 w₀
    refine Or.inr ⟨Option.some_ne_none _, w', hturns, ?_⟩
    simp only [Option.isNone_some, Bool.false_eq_true, if_false]
    exact (Act.bind_ok hturns).trans (Part.read_bind hworker _ w')

end Turns

end LapRing.Worker
