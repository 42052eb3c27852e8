import LapRing.Proofs.Claiming
import LapRing.Proofs.HandleHolders

/-!
# Handles are accounted for

The consumer of a worker goes to its thread and comes back, or is dropped when the
thread gives up. It is dropped with the worker unless it was dropped before. On each
of these ways it is given back once, so a side for one is taken exactly while
somebody has a handle, and whoever asks then is turned down.
-/
namespace LapRing

namespace HandleHolders
variable {cap : Capacity} {ε V P Q ι : Type} {place : Part V (Ring cap ε)} {settings : Settings}
  {s s' : HandleHolders V P Q ι} {i : ι} [DecidableEq P] [DecidableEq Q] [DecidableEq ι]

/-! ## Threads -/

/-- The worker of a name, if there is one. -/
def worker? (s : HandleHolders V P Q ι) (i : ι) : Option Worker :=
  if s.hired i then some (s.workers i) else none

/-- What a visit does to a worker: it is made, told to stop, or started. One whose name
is none for a thread loses its consumer by that. -/
inductive Treats : Option Worker → Option Worker → Prop
  | leave (w : Option Worker) : Treats w w
  | hire (name : String) (batchSize : UInt64) : Treats none (some { name, batchSize })
  | tell (w : Worker) : Treats (some w) (some { w with running := false })
  | start {w : Worker} : w.thread = none → w.holdsConsumer = true → Treats (some w)
      (some { w with running := true, holdsConsumer := false, thread := some .starting })
  | misname {w : Worker} : w.thread = none → Worker.nameFault w.name ≠ none →
      Treats (some w) (some { w with running := true, holdsConsumer := false })

omit [DecidableEq P] [DecidableEq Q] [DecidableEq ι] in
theorem worker?_of_hired (hi : s.hired i = true) : s.worker? i = some (s.workers i) :=
  if_pos hi

omit [DecidableEq P] [DecidableEq Q] [DecidableEq ι] in
theorem worker?_eq_some {w : Worker} :
    s.worker? i = some w ↔ s.hired i = true ∧ s.workers i = w := by
  unfold worker?
  split <;> simp [*]

omit [DecidableEq P] [DecidableEq Q] in
theorem worker?_setWorker (hi : s.hired i = true) (w : Worker) :
    (s.setWorker i w).worker? i = some w :=
  worker?_eq_some.mpr ⟨hi, worker_setWorker i w s⟩

omit [DecidableEq P] [DecidableEq Q] in
theorem worker?_setWorker_of_ne {j : ι} (hne : i ≠ j) (w : Worker) :
    (s.setWorker j w).worker? i = s.worker? i := by
  simp only [worker?, worker_setWorker_of_ne hne]
  rfl

omit [DecidableEq P] [DecidableEq Q] in
theorem worker?_setHired_of_ne {j : ι} (hne : i ≠ j) (b : Bool) :
    (s.setHired j b).worker? i = s.worker? i := by
  simp only [worker?, setHired, Function.update_of_ne hne]

omit [DecidableEq P] [DecidableEq Q] in
theorem worker?_made (w : Worker) : ((s.setWorker i w).setHired i true).worker? i = some w :=
  worker?_eq_some.mpr ⟨Function.update_self _ _ _, worker_setWorker i w s⟩

theorem Sound.treats (h : s.Sound place settings) (lawful : place.Lawful)
    (hvisit : Visit place s s') (i : ι) : Treats (s.worker? i) (s'.worker? i) := by
  cases hvisit with
  | work _ _ => exact .leave _
  | serve request apt =>
    cases request with
    | openProducer p =>
      have hrun := serve_openProducer lawful (s := s) (Q := Q) (ι := ι) p
      split at hrun <;> rw [Act.outcome_ok hrun] <;> exact .leave _
    | openConsumer q =>
      have hrun := serve_openConsumer lawful (s := s) (P := P) (ι := ι) q
      split at hrun <;> rw [Act.outcome_ok hrun] <;> exact .leave _
    | dropProducer p => exact .leave _
    | dropConsumer q => exact .leave _
    | hire j name batchSize =>
      have hrun := serve_hire lawful (s := s) (P := P) (Q := Q) j name batchSize
      split at hrun
      · rw [Act.outcome_ok hrun]
        exact .leave _
      · split at hrun <;> rw [Act.outcome_ok hrun]
        · by_cases hj : i = j
          · subst hj
            rw [show s.worker? i = none from if_neg (Bool.eq_false_iff.mp apt)]
            change Treats none ((setHired i true (HandleHolders.setWorker i _ _)).worker? i)
            rw [worker?_made]
            exact .hire name batchSize
          · rw [worker?_setHired_of_ne hj, worker?_setWorker_of_ne hj]
            exact .leave _
        · exact .leave _
    | start j system =>
      have hserve : HandleHolders.serve (P := P) (Q := Q) place (.start j system) =
          Worker.startOn (site place j) system := rfl
      rw [hserve]
      have hone : ∀ (s₁ : HandleHolders V P Q ι) (w : Worker), s₁.hired = s.hired →
          s₁.worker? i = s.worker? i → Treats (some (s.workers j)) (some w) →
          Treats (s.worker? i) ((s₁.setWorker j w).worker? i) := by
        intro s₁ w hhired hsame htreat
        by_cases hj : i = j
        · subst hj
          rw [worker?_of_hired apt, worker?_setWorker (hhired ▸ apt)]
          exact htreat
        · rw [worker?_setWorker_of_ne hj, hsame]
          exact .leave _
      obtain ⟨_, -, hrun⟩ | ⟨⟨hfree, hholds⟩, ⟨_, hrun⟩ | ⟨hname, _, hrun⟩ | hrun⟩ :=
        h.startOn_cases lawful apt system
      · rw [Act.outcome_ok hrun]
        exact .leave _
      · rw [Act.outcome_ok hrun]
        exact hone s _ rfl rfl (.tell _)
      · rw [Act.outcome_error hrun]
        exact hone (s.setRing place _) _ rfl rfl (.misname hfree hname)
      · rw [Act.outcome_ok hrun]
        exact hone s _ rfl rfl (.start hfree hholds)
    | halt j =>
      change Treats _ ((s.setWorker j { s.workers j with running := false }).worker? i)
      by_cases hj : i = j
      · subst hj
        rw [worker?_of_hired apt, worker?_setWorker apt]
        exact .tell _
      · rw [worker?_setWorker_of_ne hj]
        exact .leave _

/-- No request touches a thread. -/
theorem Sound.visit_thread (h : s.Sound place settings) (lawful : place.Lawful)
    (hvisit : Visit place s s') (hi : s.hired i = true) (hthread : (s.workers i).thread ≠ none) :
    s'.hired i = true ∧ (s'.workers i).thread = (s.workers i).thread := by
  have htreats := h.treats lawful hvisit i
  rw [worker?_of_hired hi] at htreats
  generalize hafter : s'.worker? i = after at htreats
  cases htreats with
  | leave _ | tell _ =>
    obtain ⟨hhired, hworker⟩ := worker?_eq_some.mp hafter
    exact ⟨hhired, by rw [hworker]⟩
  | start hfree _ => exact absurd hfree hthread
  | misname hfree _ => exact absurd hfree hthread

/-- What no visit takes away, and no thread of worker `i` that goes on. -/
structure Steady (place : Part V (Ring cap ε)) (settings : Settings) (i : ι)
    (K : HandleHolders V P Q ι → Prop) : Prop where
  visit : ∀ {s s'}, s.Sound place settings → Visit place s s' → K s → K s'
  enter : ∀ {s} (phase : Phase), s.hired i = true → K s →
    K (s.setWorker i { s.workers i with thread := some phase })
  setRing : ∀ {s} (r : Ring cap ε), K s → K (s.setRing place r)

theorem steady_true : Steady place settings i (fun _ : HandleHolders V P Q ι => True) :=
  ⟨fun _ _ _ => trivial, fun _ _ _ => trivial, fun _ _ => trivial⟩

/-- Worker `i` has a thread with a consumer. -/
structure HasThread (place : Part V (Ring cap ε)) (settings : Settings) (i : ι)
    (K : HandleHolders V P Q ι → Prop) (s : HandleHolders V P Q ι) : Prop where
  sound : s.Sound place settings
  hired : s.hired i = true
  lent : (s.workers i).Lent
  keeps : K s

variable {K : HandleHolders V P Q ι → Prop}

namespace HasThread

/-- What others do does not take the consumer from a thread. -/
theorem visits (h : s.HasThread place settings i K) (lawful : place.Lawful)
    (steady : Steady place settings i K) (hrun : Relation.ReflTransGen (Visit place) s s') :
    s'.HasThread place settings i K := by
  induction hrun with
  | refl => exact h
  | tail _ hvisit ih =>
    obtain ⟨phase, hphase, hlive⟩ := ih.lent
    obtain ⟨hired, hthread⟩ := ih.sound.visit_thread lawful hvisit ih.hired
      (by rw [hphase]; exact Option.some_ne_none _)
    exact ⟨ih.sound.visit lawful hvisit, hired, ⟨phase, hthread.trans hphase, hlive⟩,
      steady.visit ih.sound hvisit ih.keeps⟩

/-- A thread goes on to its next phase. -/
theorem enter (h : s.HasThread place settings i K) (lawful : place.Lawful)
    (steady : Steady place settings i K) (phase : Phase) (live : ∀ why, phase ≠ .gaveUp why) :
    (s.setWorker i { s.workers i with thread := some phase }).HasThread place settings i K := by
  have hlent : Worker.Lent { s.workers i with thread := some phase } := ⟨phase, rfl, live⟩
  have hnone : (s.workers i).holdsConsumer = false := h.sound.lent i h.lent.thread_ne
  refine ⟨h.sound.setWorker lawful h.hired (fun _ => hnone)
    (iff_of_true (Or.inr hlent) (Or.inr h.lent)), h.hired, ?_, steady.enter phase h.hired h.keeps⟩
  rw [worker_setWorker]
  exact hlent

omit [DecidableEq P] [DecidableEq Q] in
/-- A thread that gives up drops its consumer. -/
theorem giveUp (h : s.HasThread place settings i K) (lawful : place.Lawful) (why : Halt) :
    ((s.setRing place (Ring.releaseConsumer (s.ring place))).setWorker i
      { s.workers i with thread := some (.gaveUp why) }).Sound place settings := by
  have hnone : (s.workers i).holdsConsumer = false := h.sound.lent i h.lent.thread_ne
  exact h.sound.movesHired lawful h.hired (fun _ => hnone) rfl (.leaves (Or.inr h.lent)
    (Worker.not_has_gaveUp hnone rfl))

end HasThread

/-- Worker `i` may have a thread or none. -/
structure MayHaveThread (place : Part V (Ring cap ε)) (settings : Settings) (i : ι)
    (K : HandleHolders V P Q ι → Prop) (s : HandleHolders V P Q ι) : Prop where
  sound : s.Sound place settings
  hired : s.hired i = true
  keeps : K s

variable {handler : Handler ε (HandleHolders V P Q ι)}

section Leading
variable (lawful : place.Lawful) (steady : Steady place settings i K)
include lawful steady

theorem leads_guarded {piece : Act (HandleHolders V P Q ι) Bool}
    (hpiece : Act.Leads (HasThread place settings i K) (HasThread place settings i K) piece) :
    Act.Leads (HasThread place settings i K) (MayHaveThread place settings i K)
      (Worker.guarded (site place i) piece) := by
  intro s h
  have hpost := hpiece s h
  cases hrun : piece s with
  | ok moved s' =>
    rw [Act.outcome_ok hrun] at hpost
    rw [Act.outcome_ok (Worker.guarded_ok _ hrun)]
    exact ⟨hpost.sound, hpost.hired, hpost.keeps⟩
  | error why s' =>
    rw [Act.outcome_error hrun] at hpost
    rw [Act.outcome_ok (Worker.guarded_error _ hrun)]
    exact ⟨hpost.giveUp lawful why, hpost.hired,
      steady.setRing _ (steady.enter (.gaveUp why) hpost.hired hpost.keeps)⟩

theorem hasThread_callback {α : Type} {act : Act (HandleHolders V P Q ι) α}
    (courteous : ∀ s, Relation.ReflTransGen (Visit place) s (act.outcome s).2) :
    Act.Leads (HasThread place settings i K) (HasThread place settings i K) act :=
  fun s h => h.visits lawful steady (courteous s)

theorem leads_enter (phase : Phase) (live : ∀ why, phase ≠ .gaveUp why) :
    Act.Leads (HasThread place settings i K) (HasThread place settings i K)
      (Worker.enter (site place i) phase) :=
  fun _ h => h.enter lawful steady phase live

omit steady [DecidableEq P] [DecidableEq Q] [DecidableEq ι] in
theorem leads_read :
    Act.Leads (HasThread place settings i K) (HasThread place settings i K) (here place).read := by
  intro s h
  have hread : (here place).read s = .ok (s.ring place) (s.setRing place (s.ring place)) := rfl
  rw [Act.outcome_ok hread, setRing_ring lawful]
  exact h

/-- A poll keeps the consumer of the thread that polls. -/
theorem leads_poll (courteous : Courteous place handler) (context : String) (batch : UInt64) :
    Act.Leads (HasThread place settings i K) (HasThread place settings i K)
      (EventRing.poll (here place) context batch handler) := by
  refine EventRing.leads_poll ?_ ⟨?_, ?_⟩ context batch
  · intro s r hp hc h
    have hjoin : (place.split (place.join r (place.split s.container).2)).1 = r :=
      lawful.split_join r _
    exact h.visits lawful steady (.single (.work ((congrArg Ring.producers hjoin).trans hp)
      ((congrArg Ring.consumers hjoin).trans hc)))
  · exact fun context t v h => h.visits lawful steady (courteous.onEvent context t v.1 v.2)
  · exact fun context t text v h => h.visits lawful steady
      (courteous.onError context t text v.1 v.2)

theorem leads_turn (courteous : Courteous place handler) :
    Act.Leads (MayHaveThread place settings i K) (MayHaveThread place settings i K)
      (Worker.turn (site place i) handler) := by
  intro s h
  have hturn : ∀ phase, (s.workers i).thread = some phase → (∀ why, phase ≠ .gaveUp why) →
      s.HasThread place settings i K :=
    fun phase hphase hlive => ⟨h.sound, h.hired, ⟨phase, hphase, hlive⟩, h.keeps⟩
  have hworker : (site place i : Worker.Site cap ε (HandleHolders V P Q ι)).worker.Lawful :=
    lawful_workerPart i
  have hover : ((s.workers i).thread = none ∨ (s.workers i).thread = some .finished ∨
      ∃ why, (s.workers i).thread = some (.gaveUp why)) → _ := fun hgone =>
    Act.outcome_ok (Worker.turn_over _ handler hworker (w := s) rfl hgone)
  cases hthread : (s.workers i).thread with
  | none =>
    rw [hover (Or.inl hthread)]
    exact h
  | some phase =>
    cases phase with
    | starting =>
      rw [Act.outcome_eq (Worker.turn_starting _ handler hworker (w := s) rfl hthread)]
      refine leads_guarded lawful steady ?_ s (hturn _ hthread nofun)
      exact (hasThread_callback lawful steady (courteous.onStart _)).chain fun _ =>
        (Act.leads_pure _).chain fun _ =>
          (leads_enter lawful steady .polling nofun).chain fun _ => Act.leads_pure _
    | polling =>
      cases hrunning : (s.workers i).running with
      | true =>
        rw [Act.outcome_eq (Worker.turn_polling _ handler hworker (w := s) rfl hthread hrunning)]
        refine leads_guarded lawful steady ?_ s (hturn _ hthread nofun)
        exact (leads_poll lawful steady courteous _ _).chain fun _ => Act.leads_pure _
      | false =>
        rw [Act.outcome_ok (Worker.turn_told _ handler hworker (w := s) rfl hthread hrunning)]
        have hthreaded := (hturn _ hthread nofun).enter lawful steady .stopping nofun
        exact ⟨hthreaded.sound, hthreaded.hired, hthreaded.keeps⟩
    | stopping =>
      rw [Act.outcome_eq (Worker.turn_stopping _ handler hworker (w := s) rfl hthread)]
      refine leads_guarded lawful steady ?_ s (hturn _ hthread nofun)
      exact (hasThread_callback lawful steady (courteous.onShutdown _)).chain fun _ =>
        (leads_read lawful).chain fun _ => (Act.leads_pure _).chain fun _ =>
          (leads_enter lawful steady .finished nofun).chain fun _ => Act.leads_pure _
    | finished =>
      rw [hover (Or.inr (Or.inl hthread))]
      exact h
    | gaveUp why =>
      rw [hover (Or.inr (Or.inr ⟨why, hthread⟩))]
      exact h

theorem leads_turns (courteous : Courteous place handler) (n : ℕ) :
    Act.Leads (MayHaveThread place settings i K) (MayHaveThread place settings i K)
      (Worker.turns (site place i) handler n) := by
  induction n with
  | zero => exact Act.leads_pure _
  | succ n ih =>
    refine (leads_turn lawful steady courteous).chain fun moved => ?_
    cases moved with
    | false => exact Act.leads_pure _
    | true => exact ih

/-! ## The end of a worker -/

/-- Stopping leaves the consumer where the thread left it. The thread is gone. -/
theorem MayHaveThread.stop_cases (h : s.MayHaveThread place settings i K)
    (courteous : Courteous place handler) :
    ∃ s₁ : HandleHolders V P Q ι, s₁.MayHaveThread place settings i K ∧
      Worker.stop (site place i) handler s = .ok ((s₁.workers i).thread.map Worker.result)
        (s₁.setWorker i { s₁.workers i with thread := none }) := by
  have htold : Visit place s (s.setWorker i { s.workers i with running := false }) :=
    .serve (.halt i) h.hired
  set s₀ := s.setWorker i { s.workers i with running := false } with hs₀
  have h₀ : s₀.MayHaveThread place settings i K :=
    ⟨h.sound.visit lawful htold, h.hired, steady.visit h.sound htold h.keeps⟩
  obtain ⟨hthread, hstop⟩ | ⟨-, s₁, hturns, hstop⟩ :=
    Worker.stop_cases (site place i) handler (lawful_workerPart i) (w := s) rfl
  · have hworker : s₀.workers i = { s.workers i with running := false } := worker_setWorker i _ s
    have hfree : (s₀.workers i).thread = none := by rw [hworker]; exact hthread
    have hsame : s₀.setWorker i { s₀.workers i with thread := none } = s₀ := by
      rw [← hfree]
      exact (lawful_workerPart i).join_split s₀
    refine ⟨s₀, h₀, ?_⟩
    rw [hfree, hsame]
    exact hstop
  · have h₁ := leads_turns lawful steady courteous 3 s₀ h₀
    have hrun : Worker.turns (site place i) handler 3 s₀ = .ok () s₁ := hturns
    rw [Act.outcome_ok hrun] at h₁
    exact ⟨s₁, h₁, hstop⟩

end Leading

omit [DecidableEq P] [DecidableEq Q] [DecidableEq ι] in
/-- A thread that ended well had the consumer to the last, one that gave up had not. -/
theorem Sound.ended (h : s.Sound place settings) {phase : Phase}
    (hthread : (s.workers i).thread = some phase) :
    (Worker.result phase = .ok () ∧ (s.workers i).Has) ∨
      ∃ why, Worker.result phase = .error why ∧ ¬ (s.workers i).Has := by
  have hnone : (s.workers i).holdsConsumer = false :=
    h.lent i (by rw [hthread]; exact Option.some_ne_none _)
  cases phase with
  | gaveUp why =>
    exact Or.inr ⟨why, rfl, Worker.not_has_gaveUp hnone hthread⟩
  | starting => exact Or.inl ⟨rfl, Or.inr ⟨_, hthread, nofun⟩⟩
  | polling => exact Or.inl ⟨rfl, Or.inr ⟨_, hthread, nofun⟩⟩
  | stopping => exact Or.inl ⟨rfl, Or.inr ⟨_, hthread, nofun⟩⟩
  | finished => exact Or.inl ⟨rfl, Or.inr ⟨_, hthread, nofun⟩⟩

omit [DecidableEq P] [DecidableEq Q] in
/-- Without a thread it is the worker itself that has a consumer or has none. -/
theorem Sound.setStopped (h : s.Sound place settings) (lawful : place.Lawful)
    (hi : s.hired i = true) (w : Worker) {b : Bool} (same : b = true ↔ (s.workers i).Has) :
    (s.setWorker i { w with thread := none, holdsConsumer := b }).Sound place settings := by
  exact h.setWorker lawful hi (fun hne => absurd rfl hne)
    (Iff.trans ⟨fun has => has.resolve_right (Worker.not_lent rfl), Or.inl⟩ same)

/-- What a shutdown comes to: there was no thread; it ended well and the worker takes its
consumer back; or it gave up, and the worker gets another consumer or none. -/
theorem MayHaveThread.shutdown_cases (h : s.MayHaveThread place settings i K)
    (lawful : place.Lawful)
    (steady : Steady place settings i K) (courteous : Courteous place handler) :
    ∃ s₁ : HandleHolders V P Q ι, s₁.MayHaveThread place settings i K ∧
      (((s₁.workers i).thread = none ∧ Worker.shutdown (site place i) handler s = .ok (.ok ()) s₁) ∨
      ((s₁.workers i).Has ∧ Worker.shutdown (site place i) handler s = .ok (.ok ())
        (s₁.setWorker i { s₁.workers i with thread := none, holdsConsumer := true })) ∨
      ∃ why, ¬ (s₁.workers i).Has ∧
        ((s₁.ring place).consumers.acquire.1 = true ∧
          Worker.shutdown (site place i) handler s = .ok (.error why)
            ((s₁.setRing place { s₁.ring place with
              consumers := (s₁.ring place).consumers.acquire.2 }).setWorker i
                { s₁.workers i with thread := none, holdsConsumer := true }) ∨
        (s₁.ring place).consumers.acquire.1 = false ∧
          Worker.shutdown (site place i) handler s = .ok (.error why)
            (s₁.setWorker i { s₁.workers i with thread := none, holdsConsumer := false }))) := by
  obtain ⟨s₁, h₁, hstop⟩ := h.stop_cases lawful steady courteous
  refine ⟨s₁, h₁, ?_⟩
  set s₂ := s₁.setWorker i { s₁.workers i with thread := none } with hs₂
  have hput : ∀ (s₃ : HandleHolders V P Q ι) (b : Bool), s₃.workers = s₂.workers →
      s₃.setWorker i { s₃.workers i with holdsConsumer := b } =
        s₃.setWorker i { s₁.workers i with thread := none, holdsConsumer := b } := by
    intro s₃ b hworkers
    rw [hworkers, hs₂, worker_setWorker]
  cases hthread : (s₁.workers i).thread with
  | none =>
    have hsame : s₂ = s₁ := by
      rw [hs₂, ← hthread]
      exact (lawful_workerPart i).join_split s₁
    rw [hthread, hsame] at hstop
    exact Or.inl ⟨rfl, Act.bind_ok hstop⟩
  | some phase =>
    rw [hthread] at hstop
    obtain ⟨hresult, has⟩ | ⟨why, hresult, hasnot⟩ := h₁.sound.ended hthread
    · rw [Option.map_some, hresult] at hstop
      refine Or.inr (Or.inl ⟨has, (Act.bind_ok hstop).trans ?_⟩)
      rw [← setWorker_setWorker i { s₁.workers i with thread := none } _ s₁, ← hput s₂ true rfl]
      rfl
    · rw [Option.map_some, hresult] at hstop
      refine Or.inr (Or.inr ⟨why, hasnot, ?_⟩)
      have hring : Ring.acquireConsumer (s₂.ring place) = _ :=
        Ring.acquireConsumer_eq (s₁.ring place)
      cases hadmitted : (s₁.ring place).consumers.acquire.1 with
      | true =>
        rw [if_pos hadmitted] at hring
        refine Or.inl ⟨rfl, (Act.bind_ok hstop).trans ((Act.bind_ok (here_lift hring)).trans ?_)⟩
        rw [← setWorker_setWorker i { s₁.workers i with thread := none } _ (s₁.setRing place _)]
        exact congrArg _ (hput (s₂.setRing place _) true rfl)
      | false =>
        rw [if_neg (Bool.eq_false_iff.mp hadmitted)] at hring
        have hlift := here_lift hring
        rw [show s₁.ring place = s₂.ring place from rfl, setRing_ring lawful] at hlift
        refine Or.inr ⟨rfl, (Act.bind_ok hstop).trans ((Act.bind_ok hlift).trans ?_)⟩
        rw [← setWorker_setWorker i { s₁.workers i with thread := none } _ s₁]
        exact congrArg _ (hput s₂ false rfl)

/-- A worker that is dropped drops its consumer, unless it was lost before. -/
theorem MayHaveThread.drop_cases (h : s.MayHaveThread place settings i K) (lawful : place.Lawful)
    (steady : Steady place settings i K) (courteous : Courteous place handler) :
    ∃ s₁ : HandleHolders V P Q ι, s₁.MayHaveThread place settings i K ∧
      ((s₁.workers i).Has ∧ Worker.drop (site place i) handler s = .ok ()
        ((s₁.setRing place (Ring.releaseConsumer (s₁.ring place))).setWorker i
          { s₁.workers i with thread := none, holdsConsumer := false }) ∨
      ¬ (s₁.workers i).Has ∧ Worker.drop (site place i) handler s = .ok ()
        (s₁.setWorker i { s₁.workers i with thread := none, holdsConsumer := false })) := by
  obtain ⟨s₁, h₁, hstop⟩ := h.stop_cases lawful steady courteous
  refine ⟨s₁, h₁, ?_⟩
  set s₂ := s₁.setWorker i { s₁.workers i with thread := none } with hs₂
  have hworker : s₂.workers i = { s₁.workers i with thread := none } := worker_setWorker i _ s₁
  have hread : (site place i).worker.read s₂ = .ok (s₂.workers i) s₂ := read_worker i s₂
  have hlost : s₂.setWorker i { s₂.workers i with holdsConsumer := false } =
      s₁.setWorker i { s₁.workers i with thread := none, holdsConsumer := false } := by
    rw [hworker, hs₂, setWorker_setWorker]
  have hdropped : (s₂.setRing place (Ring.releaseConsumer (s₂.ring place))).setWorker i
      { s₂.workers i with holdsConsumer := false } =
      (s₁.setRing place (Ring.releaseConsumer (s₁.ring place))).setWorker i
        { s₁.workers i with thread := none, holdsConsumer := false } := by
    rw [hworker]
    exact setWorker_setWorker i _ _ (s₁.setRing place _)
  rw [← hlost, ← hdropped]
  cases hthread : (s₁.workers i).thread with
  | none =>
    rw [hthread] at hstop
    cases hholds : (s₁.workers i).holdsConsumer with
    | true =>
      refine Or.inl ⟨Or.inl hholds, (Act.bind_ok hstop).trans ((Act.bind_ok hread).trans ?_)⟩
      rw [if_pos (by rw [hworker]; exact hholds)]
      rfl
    | false =>
      refine Or.inr ⟨not_or.mpr ⟨Bool.eq_false_iff.mp hholds, Worker.not_lent hthread⟩,
        (Act.bind_ok hstop).trans ((Act.bind_ok hread).trans ?_)⟩
      rw [if_neg (by rw [hworker]; exact Bool.eq_false_iff.mp hholds)]
      rfl
  | some phase =>
    rw [hthread] at hstop
    obtain ⟨hresult, has⟩ | ⟨why, hresult, hasnot⟩ := h₁.sound.ended hthread
    · rw [Option.map_some, hresult] at hstop
      exact Or.inl ⟨has, Act.bind_ok hstop⟩
    · rw [Option.map_some, hresult] at hstop
      exact Or.inr ⟨hasnot, (Act.bind_ok hstop).trans (Act.bind_ok hread)⟩

theorem Sound.shutdown (h : s.Sound place settings) (lawful : place.Lawful)
    (hi : s.hired i = true) (courteous : Courteous place handler) :
    ((Worker.shutdown (site place i) handler).outcome s).2.Sound place settings := by
  have hmay : s.MayHaveThread place settings i fun _ => True := ⟨h, hi, trivial⟩
  obtain ⟨s₁, h₁, ⟨-, hrun⟩ | ⟨has, hrun⟩ | ⟨why, hasnot, ⟨hadmitted, hrun⟩ | ⟨-, hrun⟩⟩⟩ :=
    hmay.shutdown_cases lawful steady_true courteous
  · rw [Act.outcome_ok hrun]
    exact h₁.sound
  · rw [Act.outcome_ok hrun]
    exact h₁.sound.setStopped lawful h₁.hired _ (iff_of_true rfl has)
  · rw [Act.outcome_ok hrun]
    refine h₁.sound.movesHired lawful h₁.hired (fun hne => absurd rfl hne) rfl ?_
    rw [iff_false_intro hasnot]
    exact .enters hadmitted (Or.inl rfl)
  · rw [Act.outcome_ok hrun]
    exact h₁.sound.setStopped lawful h₁.hired _ (iff_of_false Bool.false_ne_true hasnot)

/-- A dropped worker leaves no consumer behind. -/
theorem Sound.fire (h : s.Sound place settings) (lawful : place.Lawful)
    (hi : s.hired i = true) (courteous : Courteous place handler) :
    (((Worker.drop (site place i) handler).outcome s).2.setHired i false).Sound
      place settings := by
  have hmay : s.MayHaveThread place settings i fun _ => True := ⟨h, hi, trivial⟩
  obtain ⟨s₁, h₁, ⟨has, hrun⟩ | ⟨hasnot, hrun⟩⟩ :=
    hmay.drop_cases lawful steady_true courteous
  · rw [Act.outcome_ok hrun]
    exact h₁.sound.movesWorker lawful (fun hne => absurd rfl hne) rfl
      (.leaves ⟨h₁.hired, has⟩ fun hb => Bool.false_ne_true hb.1)
  · rw [Act.outcome_ok hrun, ← setRing_ring lawful s₁]
    exact h₁.sound.movesWorker lawful (fun hne => absurd rfl hne) rfl
      (.still (iff_of_false (fun hb => Bool.false_ne_true hb.1) fun has => hasnot has.2))

theorem Sound.step (h : s.Sound place settings) (lawful : place.Lawful) (hstep : Step place s s') :
    s'.Sound place settings := by
  cases hstep with
  | visit hvisit => exact h.visit lawful hvisit
  | turn hi courteous => exact (leads_turn lawful steady_true courteous s ⟨h, hi, trivial⟩).sound
  | shutdown hi courteous => exact h.shutdown lawful hi courteous
  | fire hi courteous => exact h.fire lawful hi courteous

theorem Reachable.sound {container : V} {slots : Slots cap ε}
    (h : Reachable place container s) (lawful : place.Lawful)
    (fresh : (place.split container).1 = .new settings slots) : s.Sound place settings := by
  induction h with
  | refl => exact sound_new fresh
  | tail _ hstep ih => exact ih.step lawful hstep

omit [DecidableEq P] [DecidableEq Q] [DecidableEq ι] in
/-- On the consumer side, callers, stopped workers and threads are told apart. -/
theorem Sound.tracks (h : s.Sound place settings) : (s.ring place).consumers.Tracks s.Holds := by
  intro hkind
  obtain ⟨hunique, htaken⟩ := h.consumers hkind
  have hthread : ∀ i, s.Holds (.stopped i) → ¬ s.Holds (.thread i) := by
    rintro i ⟨-, hholds⟩ ⟨-, phase, hphase, -⟩
    have hnone := h.lent i (by rw [hphase]; exact Option.some_ne_none _)
    exact Bool.false_ne_true (hnone.symm.trans hholds)
  have hworker : ∀ {i j}, s.hired i = true ∧ (s.workers i).Has →
      s.hired j = true ∧ (s.workers j).Has → i = j :=
    fun hi hj => Sum.inr.inj (hunique (.inr _) (.inr _) hi hj)
  refine ⟨?_, htaken.trans ⟨?_, ?_⟩⟩
  · rintro (q | i | i) (q' | j | j) ha hb
    · exact congrArg _ (Sum.inl.inj (hunique (.inl q) (.inl q') ha hb))
    · exact absurd (hunique (.inl q) (.inr j) ha ⟨hb.1, Or.inl hb.2⟩) Sum.inl_ne_inr
    · exact absurd (hunique (.inl q) (.inr j) ha ⟨hb.1, Or.inr hb.2⟩) Sum.inl_ne_inr
    · exact absurd (hunique (.inr i) (.inl q') ⟨ha.1, Or.inl ha.2⟩ hb) Sum.inr_ne_inl
    · exact congrArg _ (hworker ⟨ha.1, Or.inl ha.2⟩ ⟨hb.1, Or.inl hb.2⟩)
    · obtain rfl := hworker ⟨ha.1, Or.inl ha.2⟩ ⟨hb.1, Or.inr hb.2⟩
      exact absurd hb (hthread i ha)
    · exact absurd (hunique (.inr i) (.inl q') ⟨ha.1, Or.inr ha.2⟩ hb) Sum.inr_ne_inl
    · obtain rfl := hworker ⟨ha.1, Or.inr ha.2⟩ ⟨hb.1, Or.inl hb.2⟩
      exact absurd ha (hthread i hb)
    · exact congrArg _ (hworker ⟨ha.1, Or.inr ha.2⟩ ⟨hb.1, Or.inr hb.2⟩)
  · rintro ⟨q | i, hkeeps⟩
    · exact ⟨.caller q, hkeeps⟩
    · obtain ⟨hi, hholds | hlent⟩ := hkeeps
      · exact ⟨.stopped i, hi, hholds⟩
      · exact ⟨.thread i, hi, hlent⟩
  · rintro ⟨q | i | i, hholds⟩
    · exact ⟨.inl q, hholds⟩
    · exact ⟨.inr i, hholds.1, Or.inl hholds.2⟩
    · exact ⟨.inr i, hholds.1, Or.inr hholds.2⟩

omit [DecidableEq P] [DecidableEq Q] in
theorem holds_setWorker {w : Worker} (hholds : w.holdsConsumer = (s.workers i).holdsConsumer)
    (hthread : w.thread = (s.workers i).thread) : (s.setWorker i w).Holds = s.Holds := by
  have hworker : ∀ j, ((s.setWorker i w).workers j).holdsConsumer = (s.workers j).holdsConsumer ∧
      ((s.setWorker i w).workers j).Lent = (s.workers j).Lent := by
    intro j
    by_cases hj : j = i
    · subst hj
      rw [worker_setWorker, Worker.Lent, hthread]
      exact ⟨hholds, rfl⟩
    · rw [worker_setWorker_of_ne hj]
      exact ⟨rfl, rfl⟩
  funext who
  cases who with
  | caller q => rfl
  | stopped j => exact congrArg (s.hired j = true ∧ · = true) (hworker j).1
  | thread j => exact congrArg (s.hired j = true ∧ ·) (hworker j).2

/-- A refused request changes nothing, but a worker that cannot be started is no longer
running. -/
theorem Sound.refused_cases (h : s.Sound place settings) (lawful : place.Lawful)
    {request : Request P Q ι} (apt : s.Apt request) {refusal : Refusal}
    (hserve : HandleHolders.serve place request s = .ok (.error refusal) s') :
    s' = s ∨ ∃ i, s.hired i = true ∧ (s.workers i).thread = none ∧
      (s.workers i).holdsConsumer = true ∧
      s' = s.setWorker i { s.workers i with running := false } := by
  have hsame : ∀ {answer : Except Refusal Unit} {s₁ : HandleHolders V P Q ι},
      HandleHolders.serve place request s = .ok answer s₁ →
        (answer = .error refusal → s₁ = s) → s' = s := by
    intro answer s₁ hrun hanswer
    rw [hserve] at hrun
    injection hrun with ha hs
    rw [hs, hanswer ha.symm]
  cases request with
  | openProducer p =>
    have hrun := serve_openProducer lawful (s := s) (Q := Q) (ι := ι) p
    split at hrun
    · exact Or.inl (hsame hrun nofun)
    · exact Or.inl (hsame hrun fun _ => rfl)
  | openConsumer q =>
    have hrun := serve_openConsumer lawful (s := s) (P := P) (ι := ι) q
    split at hrun
    · exact Or.inl (hsame hrun nofun)
    · exact Or.inl (hsame hrun fun _ => rfl)
  | dropProducer p =>
    exact Or.inl (hsame (show HandleHolders.serve place (.dropProducer p) s =
      .ok (.ok ()) _ from rfl) nofun)
  | dropConsumer q =>
    exact Or.inl (hsame (show HandleHolders.serve place (.dropConsumer q) s =
      .ok (.ok ()) _ from rfl) nofun)
  | hire i name batchSize =>
    have hrun := serve_hire lawful (s := s) (P := P) (Q := Q) i name batchSize
    split at hrun
    · exact Or.inl (hsame hrun fun _ => rfl)
    · split at hrun
      · exact Or.inl (hsame hrun nofun)
      · exact Or.inl (hsame hrun fun _ => rfl)
  | start i system =>
    obtain ⟨_, -, hrun⟩ | ⟨⟨hfree, hholds⟩, ⟨_, hrun⟩ | ⟨-, _, hrun⟩ | hrun⟩ :=
      h.startOn_cases lawful apt system
    · exact Or.inl (hsame hrun fun _ => rfl)
    · obtain ⟨-, hstate⟩ := EStateM.Result.ok.inj (hserve.symm.trans hrun)
      exact Or.inr ⟨i, apt, hfree, hholds, hstate⟩
    · exact absurd (hserve.symm.trans hrun) nofun
    · exact Or.inl (hsame hrun nofun)
  | halt i =>
    exact Or.inl (hsame (show HandleHolders.serve place (.halt i) s =
      .ok (.ok ()) _ from rfl) nofun)

/-- It leaves every handle where it is. -/
theorem Sound.refused (h : s.Sound place settings) (lawful : place.Lawful)
    {request : Request P Q ι} (apt : s.Apt request) {refusal : Refusal}
    (hserve : HandleHolders.serve place request s = .ok (.error refusal) s') :
    s'.producers = s.producers ∧ s'.Holds = s.Holds := by
  obtain rfl | ⟨i, -, -, -, rfl⟩ := h.refused_cases lawful apt hserve
  · exact ⟨rfl, rfl⟩
  · exact ⟨rfl, holds_setWorker rfl rfl⟩

end HandleHolders

/-- A batch that is refused leaves the world as it was. -/
theorem Ring.claimMany_refused {cap : Capacity} {W σ : Type} {here : Part W (Ring cap σ)}
    {pauses : List (Pause W)} {n : UInt64} {refusal : Refusal} {w w' : W}
    (h : claimMany here pauses n w = .ok (.error refusal) w') : w' = w := by
  obtain ⟨answer, v, hnext, hrest⟩ := Act.of_bind_ok h
  cases answer with
  | ok high =>
    obtain ⟨_, _, -, hrest⟩ := Act.of_bind_ok hrest
    obtain ⟨_, _, -, hrest⟩ := Act.of_bind_ok hrest
    simp at hrest
  | error _ =>
    rw [← (EStateM.Result.ok.inj hrest).2]
    exact Sequencer.next_refused hnext

theorem Act.grants_iff {W : Type} {request : Act W (Except Refusal Unit)} {given : Prop}
    [Decidable given] {refusal : Refusal} {w v u : W}
    (h : request w = if given then .ok (.ok ()) v else .ok (.error refusal) u) :
    (request.outcome w).1 = .ok (.ok ()) ↔ given := by
  by_cases hgiven : given
  · rw [if_pos hgiven] at h
    exact iff_of_true (congrArg Prod.fst (outcome_ok h)) hgiven
  · rw [if_neg hgiven] at h
    refine iff_of_false (fun hok => ?_) hgiven
    rw [outcome_ok h] at hok
    simp at hok

namespace HandleHolders
variable {cap : Capacity} {ε V P Q ι : Type} {place : Part V (Ring cap ε)} {settings : Settings}
  {s s' : HandleHolders V P Q ι} {i : ι} [DecidableEq P] [DecidableEq Q] [DecidableEq ι]

/-- Whoever comes from a fresh ring, be it an event ring or the ring of a channel: a
side for one has at most one holder and is taken exactly while it has one, a handle
is given exactly if the side is for many or nobody has one, and a refusal leaves all
handles where they are. -/
theorem handles_accounted (lawful : place.Lawful) {container : V} {slots : Slots cap ε}
    (fresh : (place.split container).1 = .new settings slots) (h : Reachable place container s) :
    (settings.producer = .single →
      (∀ p p', s.producers p = true → s.producers p' = true → p = p') ∧
      ((s.ring place).producers.taken = true ↔ ∃ p, s.producers p = true)) ∧
    (settings.consumer = .single →
      (∀ a b, s.Holds a → s.Holds b → a = b) ∧
      ((s.ring place).consumers.taken = true ↔ ∃ a, s.Holds a)) ∧
    (∀ p, ((serve place (.openProducer p)).outcome s).1 = .ok (.ok ()) ↔
      settings.producer = .multi ∨ ∀ p, s.producers p = false) ∧
    (∀ q, ((serve place (.openConsumer q)).outcome s).1 = .ok (.ok ()) ↔
      settings.consumer = .multi ∨ ∀ a, ¬ s.Holds a) ∧
    (∀ i name batchSize, batchSize ≠ 0 →
      (((serve place (.hire i name batchSize)).outcome s).1 = .ok (.ok ()) ↔
        settings.consumer = .multi ∨ ∀ a, ¬ s.Holds a)) ∧
    (∀ request, s.Apt request → ∀ refusal s', serve place request s = .ok (.error refusal) s' →
      s'.producers = s.producers ∧ s'.Holds = s.Holds) ∧
    ∀ pauses n refusal s', Ring.claimMany (here place) pauses n s = .ok (.error refusal) s' →
      s' = s := by
  have hsound := h.sound lawful fresh
  have hproducers := hsound.producers
  have hconsumers := hsound.tracks
  have hadmitsP := hproducers.admits_iff
  have hadmitsC := hconsumers.admits_iff
  rw [hsound.producerKind] at hadmitsP
  rw [hsound.consumerKind] at hadmitsC
  simp only [Bool.not_eq_true] at hadmitsP
  refine ⟨fun hkind => hproducers (hsound.producerKind.trans hkind),
    fun hkind => hconsumers (hsound.consumerKind.trans hkind), fun p => ?_, fun q => ?_, ?_,
    fun request apt refusal s' => hsound.refused lawful apt,
    fun pauses n refusal s' => Ring.claimMany_refused⟩
  · exact (Act.grants_iff (serve_openProducer lawful p)).trans hadmitsP
  · exact (Act.grants_iff (serve_openConsumer lawful q)).trans hadmitsC
  · intro i name batchSize hb
    have hrun := serve_hire lawful (s := s) (P := P) (Q := Q) i name batchSize
    rw [if_neg hb] at hrun
    exact (Act.grants_iff hrun).trans hadmitsC

/-! ## A worker whose handler gives up -/

/-- Gives up before its first poll. -/
def raisesOnStart : Handler Unit (HandleHolders (EventRing .two Unit) Unit Unit Unit) where
  onEvent _ _ := pure (.ok ())
  onError _ _ _ := pure ()
  onStart _ := throw (.raised "not today")

theorem courteous_raisesOnStart : Courteous Part.whole raisesOnStart :=
  ⟨fun _ _ _ _ => .refl, fun _ _ _ _ _ => .refl, fun _ _ => .refl, fun _ _ => .refl⟩

/-- A ring of two with one worker, which is stopped. -/
def workerMade : HandleHolders (EventRing .two Unit) Unit Unit Unit :=
  ((serve Part.whole (.hire () "hand" 1)).outcome
    (new (.new (Channel.settings 2 .single .single) (.fill .two ())))).2

/-- The worker has been started. -/
def workerStarted : HandleHolders (EventRing .two Unit) Unit Unit Unit :=
  workerMade.setWorker () { workerMade.workers () with
    running := true, holdsConsumer := false, thread := some .starting }

theorem named_workerMade : Worker.nameFault (workerMade.workers ()).name = none := by
  change Worker.nameFault "hand" = none
  decide +kernel

theorem start_workerMade :
    serve Part.whole (.start () (.ok ())) workerMade = .ok (.ok ()) workerStarted :=
  Worker.startOn_spawned (lawful_workerPart ()) rfl rfl rfl named_workerMade

theorem reachable_workerStarted :
    Reachable Part.whole (.new (Channel.settings 2 .single .single) (.fill .two ()))
      workerStarted := by
  have hhired : Reachable Part.whole _ workerMade :=
    .single (.visit (.serve (.hire () "hand" 1) rfl))
  have hstarted := hhired.tail (.visit (.serve (.start () (.ok ())) rfl))
  rwa [Act.outcome_ok start_workerMade] at hstarted

/-- The thread of a worker panics at once. The consumer goes to a caller, so the worker
is left without one when it learns of that. -/
theorem handles_accounted_panic :
    ∃ s : HandleHolders (EventRing .two Unit) Unit Unit Unit,
      Reachable Part.whole (.new (Channel.settings 2 .single .single) (.fill .two ())) s ∧
      (s.ring Part.whole).consumers.taken = true ∧ s.Holds (.caller ()) ∧
      ¬ s.Holds (.stopped ()) ∧
      ((serve Part.whole (.hire () "spare" 1)).outcome s).1 ≠ .ok (.ok ()) := by
  have hgone := reachable_workerStarted.tail (.turn (i := ()) rfl courteous_raisesOnStart)
  have htaken := hgone.tail (.visit (.serve (.openConsumer ()) rfl))
  have hshut := htaken.tail (.shutdown (i := ()) rfl courteous_raisesOnStart)
  obtain ⟨s, hreach, hcaller⟩ : ∃ s : HandleHolders (EventRing .two Unit) Unit Unit Unit,
      Reachable Part.whole (.new (Channel.settings 2 .single .single) (.fill .two ())) s ∧
      s.Holds (.caller ()) := ⟨_, hshut, rfl⟩
  obtain ⟨-, hconsumers, -, -, hhire, -, -⟩ := handles_accounted Part.lawful_whole rfl hreach
  obtain ⟨hunique, htaken⟩ := hconsumers rfl
  refine ⟨s, hreach, htaken.mpr ⟨_, hcaller⟩, hcaller, fun hstopped => ?_, fun hgiven => ?_⟩
  · exact absurd (hunique _ _ hcaller hstopped) nofun
  · rcases (hhire () "spare" 1 (by decide)).mp hgiven with hmulti | hnone
    · exact absurd hmulti nofun
    · exact hnone _ hcaller

end HandleHolders

end LapRing
