import LapRing.Proofs.HandleAccounting

/-!
# Workers that rest

A worker that has its consumer and no thread is not running: it was never started, or it
was told to stop and no request has set it running before its thread was gone. So an
attempt to start it that fails puts back what was there.
-/
namespace LapRing

/-- A worker that could be started is not running. -/
def Worker.Rested (w : Worker) : Prop :=
  w.thread = none → w.holdsConsumer = true → w.running = false

namespace HandleHolders
variable {cap : Capacity} {ε V P Q ι : Type} {place : Part V (Ring cap ε)} {settings : Settings}
  {s s' : HandleHolders V P Q ι} {i : ι}

def Rested (s : HandleHolders V P Q ι) : Prop := ∀ i w, s.worker? i = some w → w.Rested

theorem rested_new (container : V) : (new container : HandleHolders V P Q ι).Rested :=
  fun _ _ h => absurd (worker?_eq_some.mp h).1 Bool.false_ne_true

theorem Treats.rested {before after : Option Worker} (h : Treats before after)
    (rested : ∀ w, before = some w → w.Rested) : ∀ w, after = some w → w.Rested := by
  cases h with
  | leave _ => exact rested
  | hire name batchSize =>
    rintro _ ⟨⟩ _ _
    rfl
  | tell w =>
    rintro _ ⟨⟩ _ _
    rfl
  | start _ _ =>
    rintro _ ⟨⟩ hthread
    simp at hthread
  | misname _ _ =>
    rintro _ ⟨⟩ _ hholds
    simp at hholds

variable [DecidableEq ι]

theorem Rested.setWorker (h : s.Rested) {w : Worker} (hw : w.Rested) :
    (s.setWorker i w).Rested := by
  intro j w' hlookup
  by_cases hj : j = i
  · subst hj
    obtain ⟨-, hworker⟩ := worker?_eq_some.mp hlookup
    rw [worker_setWorker] at hworker
    exact hworker ▸ hw
  · rw [worker?_setWorker_of_ne hj] at hlookup
    exact h j w' hlookup

theorem Rested.fire (h : s.Rested) : (s.setHired i false).Rested := by
  intro j w hlookup
  by_cases hj : j = i
  · subst hj
    obtain ⟨hhired, -⟩ := worker?_eq_some.mp hlookup
    have hfired : (s.setHired j false).hired j = false := Function.update_self _ _ _
    exact absurd (hfired.symm.trans hhired) Bool.false_ne_true
  · rw [worker?_setHired_of_ne hj] at hlookup
    exact h j w hlookup

variable [DecidableEq P] [DecidableEq Q]

theorem Sound.visit_rested (h : s.Sound place settings) (lawful : place.Lawful)
    (hvisit : Visit place s s') (rested : s.Rested) : s'.Rested :=
  fun i => (h.treats lawful hvisit i).rested (rested i)

theorem steady_rested (lawful : place.Lawful) :
    Steady place settings i (Rested : HandleHolders V P Q ι → Prop) where
  visit h hvisit rested := h.visit_rested lawful hvisit rested
  enter _ _ rested := rested.setWorker nofun
  setRing _ rested := rested

/-- Worker `i` was told to stop and has not lost its thread yet. -/
structure Told (i : ι) (s : HandleHolders V P Q ι) : Prop where
  rested : s.Rested
  hired : s.hired i = true
  thread : (s.workers i).thread ≠ none
  running : (s.workers i).running = false

theorem steady_told (lawful : place.Lawful) :
    Steady place settings i (Told i : HandleHolders V P Q ι → Prop) where
  visit {s s'} h hvisit told := by
    have htreats := h.treats lawful hvisit i
    rw [worker?_of_hired told.hired] at htreats
    generalize hafter : s'.worker? i = after at htreats
    have hrest := h.visit_rested lawful hvisit told.rested
    cases htreats with
    | leave _ =>
      obtain ⟨hhired, hworker⟩ := worker?_eq_some.mp hafter
      exact ⟨hrest, hhired, hworker ▸ told.thread, hworker ▸ told.running⟩
    | tell _ =>
      obtain ⟨hhired, hworker⟩ := worker?_eq_some.mp hafter
      refine ⟨hrest, hhired, ?_, ?_⟩ <;> rw [hworker]
      exact told.thread
    | start hfree _ => exact absurd hfree told.thread
    | misname hfree _ => exact absurd hfree told.thread
  enter phase _ told := by
    refine ⟨told.rested.setWorker nofun, told.hired, ?_, ?_⟩ <;> rw [worker_setWorker]
    · exact Option.some_ne_none _
    · exact told.running
  setRing _ told := ⟨told.rested, told.hired, told.thread, told.running⟩

/-! ## Steps -/

section Steps
variable {handler : Handler ε (HandleHolders V P Q ι)} (h : s.Sound place settings)
  (rested : s.Rested) (lawful : place.Lawful)
include h rested lawful

theorem Sound.turn_rested (hi : s.hired i = true) (courteous : Courteous place handler) :
    ((Worker.turn (site place i) handler).outcome s).2.Rested :=
  (leads_turn lawful (steady_rested lawful) courteous s ⟨h, hi, rested⟩).keeps

theorem Sound.fire_rested (hi : s.hired i = true) (courteous : Courteous place handler) :
    (((Worker.drop (site place i) handler).outcome s).2.setHired i false).Rested := by
  have hmay : s.MayHaveThread place settings i Rested := ⟨h, hi, rested⟩
  obtain ⟨s₁, h₁, ⟨-, hrun⟩ | ⟨-, hrun⟩⟩ :=
    hmay.drop_cases lawful (steady_rested lawful) courteous
  · rw [Act.outcome_ok hrun]
    have hring : (s₁.setRing place (Ring.releaseConsumer (s₁.ring place))).Rested := h₁.keeps
    exact (hring.setWorker fun _ hholds => absurd hholds Bool.false_ne_true).fire
  · rw [Act.outcome_ok hrun]
    exact (h₁.keeps.setWorker fun _ hholds => absurd hholds Bool.false_ne_true).fire

/-- A worker that is shut down rests, whatever becomes of its thread. -/
theorem Sound.shutdown_rested (hi : s.hired i = true) (courteous : Courteous place handler) :
    ((Worker.shutdown (site place i) handler).outcome s).2.Rested := by
  have htold : Visit place s (s.setWorker i { s.workers i with running := false }) :=
    .serve (.halt i) hi
  set s₀ := s.setWorker i { s.workers i with running := false } with hs₀
  have hworker : s₀.workers i = { s.workers i with running := false } := worker_setWorker i _ s
  have hsame : s₀.setWorker i { s₀.workers i with running := false } = s₀ := by
    rw [hworker, hs₀, setWorker_setWorker]
  have hrest := h.visit_rested lawful htold rested
  obtain ⟨-, hstop⟩ | ⟨hthread, -⟩ :=
    Worker.stop_cases (site place i) handler (lawful_workerPart i) (w := s) rfl
  · have hrun : Worker.shutdown (site place i) handler s = .ok (.ok ()) s₀ := Act.bind_ok hstop
    rw [Act.outcome_ok hrun]
    exact hrest
  · -- A worker that was told to stop is shut down by the same steps.
    have hagain : Worker.shutdown (site place i) handler s =
        Worker.shutdown (site place i) handler s₀ := by
      refine Act.bind_eq _ (Act.bind_eq _ ?_)
      change EStateM.Result.ok () s₀ =
        .ok () (s₀.setWorker i { s₀.workers i with running := false })
      rw [hsame]
    have hmay : s₀.MayHaveThread place settings i (Told i) :=
      ⟨h.visit lawful htold, hi, hrest, hi, by rw [hworker]; exact hthread, by rw [hworker]⟩
    rw [Act.outcome_eq hagain]
    obtain ⟨s₁, h₁, ⟨hgone, -⟩ | ⟨-, hrun⟩ | ⟨why, -, ⟨-, hrun⟩ | ⟨-, hrun⟩⟩⟩ :=
      hmay.shutdown_cases lawful (steady_told lawful) courteous
    · exact absurd hgone h₁.keeps.thread
    · rw [Act.outcome_ok hrun]
      exact h₁.keeps.rested.setWorker fun _ _ => h₁.keeps.running
    · rw [Act.outcome_ok hrun]
      have hring : ∀ r, (s₁.setRing place r).Rested := fun _ => h₁.keeps.rested
      exact (hring _).setWorker fun _ _ => h₁.keeps.running
    · rw [Act.outcome_ok hrun]
      exact h₁.keeps.rested.setWorker fun _ _ => h₁.keeps.running

theorem Sound.step_rested (hstep : Step place s s') : s'.Rested := by
  cases hstep with
  | visit hvisit => exact h.visit_rested lawful hvisit rested
  | turn hi courteous => exact h.turn_rested rested lawful hi courteous
  | shutdown hi courteous => exact h.shutdown_rested rested lawful hi courteous
  | fire hi courteous => exact h.fire_rested rested lawful hi courteous

end Steps

theorem Reachable.rested {container : V} {slots : Slots cap ε} (h : Reachable place container s)
    (lawful : place.Lawful) (fresh : (place.split container).1 = .new settings slots) :
    s.Rested := by
  induction h with
  | refl => exact rested_new container
  | tail hrun hstep ih =>
    have hreach : Reachable place container _ := hrun
    have hsound := hreach.sound lawful fresh
    exact hsound.step_rested ih lawful hstep

/-- A refused request leaves everything as it was. -/
theorem Reachable.refused {container : V} {slots : Slots cap ε} (h : Reachable place container s)
    (lawful : place.Lawful) (fresh : (place.split container).1 = .new settings slots)
    {request : Request P Q ι} (apt : s.Apt request) {refusal : Refusal}
    (hserve : HandleHolders.serve place request s = .ok (.error refusal) s') : s' = s := by
  obtain he | ⟨i, hi, hfree, hholds, rfl⟩ := (h.sound lawful fresh).refused_cases lawful apt hserve
  · exact he
  · have hrunning : (s.workers i).running = false :=
      h.rested lawful fresh i _ (worker?_of_hired hi) hfree hholds
    rw [← hrunning]
    exact (lawful_workerPart i).join_split s

end HandleHolders

end LapRing
