import LapRing.Proofs.WindowOpening
import LapRing.Proofs.WorkerHistory

/-!
# Turns of a thread that keeps records

What holds of a worker's history between two turns of its thread: the record of the latest
incarnation is as far as the thread, and gating is the end of its last window. Even
a poll in which a callback gives up releases its window.
-/
namespace LapRing.WorkerHistory
variable {cap : Capacity} {P ε L : Type} {s s' : WorkerHistory cap P ε L}

/-- A history between two polls, but for its records. -/
structure Fit (s : WorkerHistory cap P ε L) : Prop where
  producers : s.producers.Sound
  position : s.ring.poller.position s.ring.sequencer = s.ring.sequencer.gating
  batchSize : s.worker.batchSize ≠ 0
  named : Worker.nameFault s.worker.name = none
  /-- The worker is the only one who has a consumer. -/
  consumers : s.ring.consumers.Tracks fun _ : Unit => s.worker.Has
  lent : s.worker.thread ≠ none → s.worker.holdsConsumer = false
  home : s.worker.thread = none → s.worker.holdsConsumer = true

/-- The latest incarnation is as far as the thread, and those before it are over. -/
def Recorded (thread : Option Phase) : List Incarnation → Prop
  | [] => thread = none
  | i :: older => i.At thread ∧ ∀ j ∈ older, j.Ended

theorem Recorded.at {thread : Option Phase} {past : List Incarnation} (h : Recorded thread past) :
    ∀ i ∈ past, ∃ phase, i.At phase := by
  cases past with
  | nil => exact nofun
  | cons i older =>
    exact List.forall_mem_cons.mpr ⟨⟨thread, h.1⟩, fun j hj => ⟨none, h.2 j hj⟩⟩

structure Sound (s : WorkerHistory cap P ε L) : Prop extends Fit s where
  chained : Chained s.past s.ring.sequencer.gating.toInt
  recorded : Recorded s.worker.thread s.past

theorem sound_new {name : String} {batchSize : UInt64} {settings : Settings}
    {slots : Slots cap ε} {worker : Worker} {ring : EventRing cap ε} (own : L)
    (hired : Worker.new name batchSize (Ring.new settings slots) = .ok (.ok worker) ring)
    (named : Worker.nameFault name = none) :
    (new ring worker own : WorkerHistory cap P ε L).Sound := by
  have hnew := Worker.new_eq name batchSize (Ring.new settings slots)
  rw [hired] at hnew
  split at hnew
  · simp at hnew
  · rename_i hb
    split at hnew
    · rename_i hadmitted
      have hside : (Ring.new settings slots).consumers.Tracks fun _ : Unit => False :=
        fun _ => ⟨fun _ _ h => h.elim, by simp [Ring.new]⟩
      injection hnew with hworker hring
      obtain rfl : worker = { name, batchSize } := Except.ok.inj hworker
      subst hring
      refine ⟨⟨Producers.sound_new cap settings.producer settings.metrics, ?_, hb, named, ?_,
        fun h => absurd rfl h, fun _ => rfl⟩, ?_, rfl⟩
      · cases hkind : settings.consumer <;> simp [new, Ring.new, Poller.new, Poller.position,
          Poller.claimed?, hkind]
      · exact hside.moves (a := ()) (.enters hadmitted (Or.inl rfl)) fun b hb => absurd rfl hb
      · change (Sequencer.new cap settings.producer settings.metrics).gating.toInt = -1
        cases settings.producer <;> rfl
    · simp at hnew

theorem Kept.same_worker (k : Kept s s') :
    s'.worker.name = s.worker.name ∧ s'.worker.batchSize = s.worker.batchSize ∧
      s'.worker.thread = s.worker.thread ∧ s'.worker.holdsConsumer = s.worker.holdsConsumer ∧
      (s'.worker.Has ↔ s.worker.Has) := by
  rcases k.worker with hw | hw <;> rw [hw] <;> exact ⟨rfl, rfl, rfl, rfl, Iff.rfl⟩

theorem Kept.told (k : Kept s s') (told : s.worker.running = false) :
    s'.worker.running = false := by
  rcases k.worker with hw | hw <;> rw [hw]
  exact told

namespace Fit

theorem kept (h : s.Fit) (k : Kept s s') : s'.Fit := by
  obtain ⟨hname, hbatch, hthread, hholds, hhas⟩ := k.same_worker
  refine ⟨k.producers, ?_, hbatch ▸ h.batchSize, hname ▸ h.named, ?_, ?_, ?_⟩
  · have hposition := h.position
    simp only [Poller.position] at hposition ⊢
    rw [k.poller, k.gating, hposition]
  · rw [k.consumers]
    exact h.consumers.moves (a := ()) (.still hhas) fun b hb => absurd rfl hb
  · rw [hthread, hholds]
    exact h.lent
  · rw [hthread, hholds]
    exact h.home

/-- A live thread goes on to another phase. -/
theorem enter (h : s.Fit) (lent : s.worker.Lent) (phase : Phase)
    (live : ∀ why, phase ≠ .gaveUp why) :
    { s with worker := { s.worker with thread := some phase } }.Fit := by
  have hnone := h.lent lent.thread_ne
  have hlent : Worker.Lent { s.worker with thread := some phase } := ⟨phase, rfl, live⟩
  refine ⟨h.producers, h.position, h.batchSize, h.named, ?_, fun _ => hnone, nofun⟩
  exact h.consumers.moves (a := ()) (.still (iff_of_true (Or.inr hlent) (Or.inr lent)))
    fun b hb => absurd rfl hb

/-- A thread gives up and drops the consumer. -/
theorem giveUp (h : s.Fit) (lent : s.worker.Lent) (why : Halt) :
    (site.release (site.put { s.worker with thread := some (.gaveUp why) } s)).Fit := by
  have hnone := h.lent lent.thread_ne
  have hlost : ¬ Worker.Has { s.worker with thread := some (.gaveUp why) } :=
    Worker.not_has_gaveUp hnone rfl
  refine ⟨h.producers, h.position, h.batchSize, h.named, ?_, fun _ => hnone, nofun⟩
  exact h.consumers.moves (a := ()) (.leaves (Or.inr lent) hlost)
    fun b hb => absurd rfl hb

end Fit

/-! ## Turns without a poll -/

/-- The windows that each incarnation opened, the latest first. -/
def windows (s : WorkerHistory cap P ε L) : List (List Window) := s.past.map Incarnation.batches

/-- How many turns a thread has left once it is told to stop. -/
def turnsLeft : Option Phase → ℕ
  | some .starting => 3
  | some .polling => 2
  | some .stopping => 1
  | _ => 0

/-- A turn of the thread without a poll. Told to stop, the thread comes nearer to its
end. -/
structure Turned (s : WorkerHistory cap P ε L) (moved : Bool)
    (s' : WorkerHistory cap P ε L) : Prop where
  sound : s'.Sound
  thread : s.worker.thread ≠ none → s'.worker.thread ≠ none
  told : s.worker.running = false → s'.worker.running = false
  left : s.worker.running = false → turnsLeft s'.worker.thread ≤ turnsLeft s.worker.thread - 1
  rest : moved = false → turnsLeft s.worker.thread = 0
  windows : s'.windows = s.windows

namespace Sound

theorem kept (h : s.Sound) (k : Kept s s') (past : s'.past = s.past) : s'.Sound := by
  obtain ⟨-, -, hthread, -, -⟩ := k.same_worker
  refine ⟨h.toFit.kept k, ?_, ?_⟩
  · rw [past, k.gating]
    exact h.chained
  · rw [past, hthread]
    exact h.recorded

/-- There is a record of the thread. -/
theorem latest_at (h : s.Sound) {phase : Phase} (hthread : s.worker.thread = some phase) :
    ∃ i older, s.past = i :: older ∧ i.At (some phase) ∧ ∀ j ∈ older, j.Ended := by
  have hrecorded := h.recorded
  rw [hthread] at hrecorded
  cases hpast : s.past with
  | nil =>
    rw [hpast] at hrecorded
    exact absurd hrecorded nofun
  | cons i older =>
    rw [hpast] at hrecorded
    exact ⟨i, older, rfl, hrecorded⟩

variable [DecidableEq P]

/-- A callback takes the thread to its next phase, or the thread gives up in it. -/
theorem callback (h : s.Sound) {phase : Phase} (hthread : s.worker.thread = some phase)
    (live : ∀ why, phase ≠ .gaveUp why) (next : Phase) (live' : ∀ why, next ≠ .gaveUp why)
    (closer : turnsLeft (some next) ≤ turnsLeft (some phase) - 1) (c : Callback)
    (returns : ∀ i, Incarnation.At i (some phase) → (i.hear [c]).At (some next))
    (givesUp : ∀ i why, Incarnation.At i (some phase) →
      (i.hear [c, .panic]).At (some (.gaveUp why)))
    {act : Act (WorkerHistory cap P ε L) Unit} {tail : Act (WorkerHistory cap P ε L) Bool}
    (courteous : ∀ s : WorkerHistory cap P ε L, s.producers.Sound → Meanwhile s (act.outcome s).2)
    (htail : ∀ s, tail s = .ok true { s with worker := { s.worker with thread := some next } }) :
    ∃ s', Worker.guarded site (do hear Part.whole c act; tail) s = .ok true s' ∧
      Turned s true s' := by
  obtain ⟨i, older, hpast, hat, holder⟩ := h.latest_at hthread
  obtain ⟨hkept, hnoted⟩ := hear_spec (c := c) Part.lawful_whole courteous h.producers
  have hchained := h.chained
  rw [hpast] at hchained
  have hwindows : ∀ calls, (i.hear calls :: older).map Incarnation.batches = s.windows :=
    fun _ => (congrArg (List.map Incarnation.batches) hpast).symm
  cases hrun : hear Part.whole c act s with
  | ok u s₁ =>
    rw [Act.outcome_ok hrun] at hkept hnoted
    have hk : Kept s s₁ := hkept
    have hlent : s₁.worker.Lent := ⟨phase, hk.same_worker.2.2.1.trans hthread, live⟩
    have hrest : (do hear Part.whole c act; tail : Act (WorkerHistory cap P ε L) Bool) s =
        .ok true { s₁ with worker := { s₁.worker with thread := some next } } :=
      (Act.bind_ok hrun).trans (htail s₁)
    obtain ⟨_, -, hp⟩ | ⟨_, herror, -⟩ := hnoted
    · have hp₁ : s₁.past = i.hear [c] :: older := hp.trans (by rw [Part.whole, hpast]; rfl)
      refine ⟨_, Worker.guarded_ok site hrest, ⟨(h.toFit.kept hk).enter hlent next live', ?_, ?_⟩,
        fun _ => Option.some_ne_none _, hk.told, fun _ => hthread ▸ closer, nofun, ?_⟩
      · change Chained s₁.past s₁.ring.sequencer.gating.toInt
        rw [hp₁, hk.gating]
        exact hchained.hear _
      · change Recorded (some next) s₁.past
        rw [hp₁]
        exact ⟨returns i hat, holder⟩
      · exact (congrArg (List.map Incarnation.batches) hp₁).trans (hwindows [c])
    · simp at herror
  | error why s₁ =>
    rw [Act.outcome_error hrun] at hkept hnoted
    have hk : Kept s s₁ := hkept
    have hlent : s₁.worker.Lent := ⟨phase, hk.same_worker.2.2.1.trans hthread, live⟩
    have hrest : (do hear Part.whole c act; tail : Act (WorkerHistory cap P ε L) Bool) s =
        .error why s₁ := Act.bind_error hrun
    obtain ⟨_, hok, -⟩ | ⟨_, -, hp⟩ := hnoted
    · simp at hok
    · have hp₁ : s₁.past = i.hear [c, .panic] :: older :=
        hp.trans (by rw [Part.whole, hpast]; rfl)
      refine ⟨_, Worker.guarded_error site hrest, ⟨(h.toFit.kept hk).giveUp hlent why, ?_, ?_⟩,
        fun _ => Option.some_ne_none _, hk.told, fun _ => Nat.zero_le _, nofun, ?_⟩
      · change Chained s₁.past s₁.ring.sequencer.gating.toInt
        rw [hp₁, hk.gating]
        exact hchained.hear _
      · change Recorded (some (.gaveUp why)) s₁.past
        rw [hp₁]
        exact ⟨givesUp i why hat, holder⟩
      · exact (congrArg (List.map Incarnation.batches) hp₁).trans (hwindows [c, .panic])

/-- Turns that open no window. -/
theorem turn_quiet (h : s.Sound) {handler : Handler ε (WorkerHistory cap P ε L)}
    (courteous : Courteous handler)
    (quiet : ¬ (s.worker.thread = some .polling ∧ s.worker.running = true)) :
    ∃ moved s', Worker.turn site (noting handler) s = .ok moved s' ∧ Turned s moved s' := by
  have hworker : (site : Worker.Site cap ε (WorkerHistory cap P ε L)).worker.Lawful :=
    lawful_workerPart
  have hover : (s.worker.thread = none ∨ s.worker.thread = some .finished ∨
      ∃ why, s.worker.thread = some (.gaveUp why)) → turnsLeft s.worker.thread = 0 →
      ∃ moved s', Worker.turn site (noting handler) s = .ok moved s' ∧ Turned s moved s' :=
    fun hgone hleft => ⟨false, s, Worker.turn_over site _ hworker rfl hgone,
      h, id, id, fun _ => by rw [hleft], fun _ => hleft, rfl⟩
  cases hthread : s.worker.thread with
  | none => exact hover (Or.inl hthread) (by rw [hthread]; rfl)
  | some phase =>
    cases phase with
    | starting =>
      obtain ⟨s', hrun, hturned⟩ := h.callback hthread nofun .polling nofun (le_refl 2) .start
        (fun i hat => Incarnation.Went.begins hat.1 hat.2 rfl)
        (fun i why hat => Or.inl (Incarnation.Went.begins hat.1 hat.2 rfl))
        (courteous.onStart s.worker.name) fun _ => rfl
      exact ⟨true, s', (Worker.turn_starting site _ hworker rfl hthread).trans hrun, hturned⟩
    | polling =>
      have htold : s.worker.running = false :=
        Bool.eq_false_iff.mpr fun hrunning => quiet ⟨hthread, hrunning⟩
      obtain ⟨i, older, hpast, hat, holder⟩ := h.latest_at hthread
      refine ⟨true, _, Worker.turn_told site _ hworker rfl hthread htold,
        ⟨h.toFit.enter ⟨.polling, hthread, nofun⟩ .stopping nofun, h.chained, ?_⟩,
        fun _ => Option.some_ne_none _, fun _ => htold, fun _ => ?_, nofun, rfl⟩
      · change Recorded (some .stopping) s.past
        rw [hpast]
        exact ⟨hat, holder⟩
      · rw [hthread]
        exact le_refl 1
    | stopping =>
      obtain ⟨s', hrun, hturned⟩ := h.callback hthread nofun .finished nofun (le_refl 0) .stop
        (fun i hat => Incarnation.Went.closes hat rfl)
        (fun i why hat => Or.inr (Incarnation.Went.closes hat rfl))
        (courteous.onShutdown s.worker.name) fun _ => rfl
      exact ⟨true, s', (Worker.turn_stopping site _ hworker rfl hthread).trans hrun, hturned⟩
    | finished => exact hover (Or.inr (Or.inl hthread)) (by rw [hthread]; rfl)
    | gaveUp why => exact hover (Or.inr (Or.inr ⟨why, hthread⟩)) (by rw [hthread]; rfl)

end Sound

/-! ## Polls -/

theorem lawful_sequencerPart : (sequencerPart : Part (WorkerHistory cap P ε L) _).Lawful :=
  lawful_ringPart.within Ring.lawful_sequencerPart

theorem lawful_pollerPart : (pollerPart : Part (WorkerHistory cap P ε L) _).Lawful :=
  lawful_ringPart.within Ring.lawful_pollerPart

def withSequencer (seq : Sequencer cap) (s : WorkerHistory cap P ε L) : WorkerHistory cap P ε L :=
  { s with ring := { s.ring with sequencer := seq } }

def withPoller (poller : Poller) (s : WorkerHistory cap P ε L) : WorkerHistory cap P ε L :=
  { s with ring := { s.ring with poller := poller } }

/-- A window that the next poll opens, whatever the records say. -/
structure Opens (s : WorkerHistory cap P ε L) (win : Window) : Prop where
  first : win.first.toInt = s.ring.sequencer.gating.toInt + 1
  le : win.first.toInt ≤ win.last.toInt
  read : ∀ t ≤ win.last.toInt, t ∈ s.producers.published
  run : ∀ past, Poller.openWindow sequencerPart pollerPart s.worker.batchSize { s with past } =
    .ok (some win) ({ s with past }.withPoller (s.ring.poller.claim win))

namespace Fit

theorem noted (h : s.Fit) (past : List Incarnation) : { s with past }.Fit :=
  ⟨h.producers, h.position, h.batchSize, h.named, h.consumers, h.lent, h.home⟩

/-- A poll opens the window after gating, if there is anything to read, and otherwise
counts that it found nothing. -/
theorem openWindow_cases (h : s.Fit) :
    Poller.openWindow sequencerPart pollerPart s.worker.batchSize s =
      .ok none (s.withSequencer (s.ring.sequencer.count .idle)) ∨ ∃ win, s.Opens win := by
  have hopens := fun past => Poller.openWindow_eq lawful_sequencerPart lawful_pollerPart
    (w := { s with past }) h.producers.standing h.position (le_refl _) h.producers.standing.released
    h.batchSize
  obtain ⟨last, hgreatest, hrun⟩ := hopens s.past
  obtain ⟨hlow, -, hall⟩ := hgreatest.1
  by_cases hnone : last = s.ring.sequencer.gating
  · rw [Poller.windowTo, if_pos hnone] at hrun
    exact Or.inl hrun
  · have hne : last.toInt ≠ s.ring.sequencer.gating.toInt :=
      fun he => hnone (Int64.toInt_inj.mp he)
    have hlt := last.toInt_lt
    have hfirst : (s.ring.sequencer.gating + 1).toInt = s.ring.sequencer.gating.toInt + 1 :=
      Checked.toInt_succ (by omega)
    refine Or.inr ⟨⟨s.ring.sequencer.gating + 1, last⟩, hfirst, ?_, fun t ht => ?_, fun past => ?_⟩
    · change (s.ring.sequencer.gating + 1).toInt ≤ last.toInt
      omega
    · by_cases hold : t ≤ s.ring.sequencer.gating.toInt
      · exact h.producers.standing.released t hold
      · exact hall t (by omega) ht
    · obtain ⟨last', hgreatest', hrun'⟩ := hopens past
      obtain rfl : last' = last := Int64.toInt_inj.mp (hgreatest'.unique hgreatest)
      rw [Poller.windowTo, if_neg hnone] at hrun'
      exact hrun'

/-- After the poll of a window, whatever went on meanwhile, the window is released. -/
theorem released (h : s.Fit) {win : Window} (hopens : s.Opens win)
    (k : Kept (s.withPoller (s.ring.poller.claim win)) s') :
    Poller.release sequencerPart pollerPart win s' =
        .ok () (s'.withSequencer (Poller.afterRelease win s'.ring.sequencer)) ∧
      (s'.withSequencer (Poller.afterRelease win s'.ring.sequencer)).Fit := by
  obtain ⟨first, le, read, -⟩ := hopens
  have hgating : s'.ring.sequencer.gating = s.ring.sequencer.gating := k.gating
  have hstart := h.producers.standing.start_le
  have hroom := h.producers.standing.room
  have hclaimed := h.producers.standing.claimed _ (read _ (le_refl _))
  have hpos := cap.one_le_slots
  obtain ⟨hname, hbatch, hthread, hholds, hhas⟩ := k.same_worker
  refine ⟨Poller.release_eq lawful_sequencerPart lawful_pollerPart ?_ le ?_,
    k.producers.release ?_ fun t ht => k.published (read t ht), ?_, hbatch ▸ h.batchSize,
    hname ▸ h.named, ?_, ?_, ?_⟩
  · rw [first, ← hgating]
    rfl
  · change -1 ≤ s.ring.sequencer.gating.toInt at hstart
    change s.ring.sequencer.claimed.toInt + cap.slots < 2 ^ 63 at hroom
    change win.last.toInt ≤ s.ring.sequencer.claimed.toInt at hclaimed
    omega
  · change s'.ring.sequencer.gating.toInt ≤ _
    rw [hgating]
    omega
  · change s'.ring.poller.position (Poller.afterRelease win s'.ring.sequencer) = win.last
    rw [k.poller]
    exact s.ring.poller.position_claim_afterRelease win _
  · change s'.ring.consumers.Tracks _
    rw [k.consumers]
    exact h.consumers.moves (a := ()) (.still hhas) fun b hb => absurd rfl hb
  · change s'.worker.thread ≠ none → s'.worker.holdsConsumer = false
    rw [hthread, hholds]
    exact h.lent
  · change s'.worker.thread = none → s'.worker.holdsConsumer = true
    rw [hthread, hholds]
    exact h.home

end Fit

section Polls
variable [DecidableEq P] {handler : Handler ε (WorkerHistory cap P ε L)}

/-- The items of a window are given to the handler, and the window is released even
if the handler gives up. -/
theorem Fit.poll_cases (h : s.Fit) (courteous : Courteous handler) {win : Window}
    (hopens : s.Opens win) :
    ∃ s' : WorkerHistory cap P ε L, s'.Fit ∧ s'.worker.thread = s.worker.thread ∧
      s'.ring.sequencer.gating = win.last ∧ ∃ r,
        Served (win.sequences.map Int64.toInt) s.past s'.past r ∧
        ((r = .ok () ∧ EventRing.poll ringPart s.worker.name s.worker.batchSize (noting handler) s =
            .ok .processing s') ∨
          ∃ why, r = .error why ∧ EventRing.poll ringPart s.worker.name s.worker.batchSize
            (noting handler) s = .error why s') := by
  obtain ⟨hkept, hserved⟩ := giveAll_spec courteous s.worker.name win.sequences
    (s := s.withPoller (s.ring.poller.claim win)) h.producers
  obtain ⟨hrelease, hfit⟩ := h.released hopens hkept
  refine ⟨_, hfit, hkept.same_worker.2.2.1, rfl, _, hserved, ?_⟩
  cases hvisit : giveAll handler s.worker.name win.sequences
      (s.withPoller (s.ring.poller.claim win)) with
  | ok u s₁ =>
    rw [Act.outcome_ok hvisit] at hrelease ⊢
    exact Or.inl ⟨rfl, Act.bind_ok (Poller.poll_ok (hopens.run s.past) hvisit hrelease)⟩
  | error why s₁ =>
    rw [Act.outcome_error hvisit] at hrelease ⊢
    exact Or.inr ⟨why, rfl,
      Act.bind_error (Poller.poll_error (hopens.run s.past) hvisit hrelease)⟩

namespace Sound

omit [DecidableEq P] in
/-- A poll that finds nothing only counts that. -/
theorem poll_idle (h : s.Sound) (handler : Handler ε (WorkerHistory cap P ε L))
    (hthread : s.worker.thread = some .polling) (hrunning : s.worker.running = true)
    (hopen : Poller.openWindow sequencerPart pollerPart s.worker.batchSize s =
      .ok none (s.withSequencer (s.ring.sequencer.count .idle))) :
    ∃ s', Worker.turn site (noting handler) s = .ok false s' ∧ s'.Sound := by
  have hkept : Kept s (s.withSequencer (s.ring.sequencer.count .idle)) :=
    ⟨h.producers.count _, rfl, fun _ ht => ht, rfl, rfl, Or.inl rfl⟩
  have hpoll : EventRing.poll ringPart s.worker.name s.worker.batchSize (noting handler) s =
      .ok .idle (s.withSequencer (s.ring.sequencer.count .idle)) :=
    Act.bind_ok (Poller.poll_none _ hopen)
  have hturn := Worker.turn_polling site (noting handler) lawful_workerPart (w := s) rfl hthread
    hrunning
  exact ⟨_, hturn.trans (Worker.guarded_ok site (Act.bind_ok hpoll)), h.kept hkept rfl⟩

/-- A poll with a window that was noted beforehand. -/
theorem poll_window (h : s.Sound) (courteous : Courteous handler)
    (hthread : s.worker.thread = some .polling) (hrunning : s.worker.running = true)
    {win : Window} (hopens : s.Opens win) :
    ∃ s', Worker.turn site (noting handler) { s with past := latest (·.opens win) s.past } =
      .ok true s' ∧ s'.Sound := by
  obtain ⟨i, older, hpast, hat, holder⟩ := h.latest_at hthread
  have hchained := h.chained
  rw [hpast] at hchained
  have hopened := hchained.opens hopens.first hopens.le
  set s₀ : WorkerHistory cap P ε L := { s with past := latest (·.opens win) s.past } with hs₀
  have hpast₀ : s₀.past = i.opens win :: older := congrArg (latest _) hpast
  have hturn := Worker.turn_polling site (noting handler) lawful_workerPart (w := s₀) rfl hthread
    hrunning
  obtain ⟨s', hfit, hthread', hgating, r, hserved, hpoll⟩ :=
    (h.toFit.noted (latest (·.opens win) s.past)).poll_cases courteous
      ⟨hopens.first, hopens.le, hopens.read, hopens.run⟩
  rw [show s₀.worker.thread = some .polling from hthread] at hthread'
  obtain ⟨rfl, hpoll⟩ | ⟨why, rfl, hpoll⟩ := hpoll
  · obtain ⟨hitems, hpast'⟩ | _ := hserved
    rw [hpast₀] at hpast'
    refine ⟨s', hturn.trans (Worker.guarded_ok site (Act.bind_ok hpoll)), hfit, ?_, ?_⟩
    · rw [hpast', hgating]
      exact hopened.hear _
    · rw [hpast', hthread']
      exact ⟨hat.batch hitems, holder⟩
  · obtain _ | ⟨hpos, hle, hitems, hpast'⟩ := hserved
    rw [hpast₀] at hpast'
    rw [List.length_map, win.length_sequences] at hle
    refine ⟨_, hturn.trans (Worker.guarded_error site (Act.bind_error hpoll)),
      hfit.giveUp ⟨.polling, hthread', nofun⟩ why, ?_, ?_⟩
    · change Chained s'.past s'.ring.sequencer.gating.toInt
      rw [hpast', hgating]
      exact hopened.hear _
    · change Recorded (some (.gaveUp why)) s'.past
      rw [hpast']
      exact ⟨Or.inl (hat.cut hpos hle hitems), holder⟩

/-- A turn of the thread, with its window noted beforehand. -/
theorem turn (h : s.Sound) (courteous : Courteous handler) :
    ∃ moved s', WorkerHistory.turn handler s = .ok moved s' ∧ s'.Sound := by
  by_cases hpolls : s.worker.thread = some .polling ∧ s.worker.running = true
  · obtain hnone | ⟨win, hopens⟩ := h.toFit.openWindow_cases
    · have hsame : s.foresee = s := by simp only [foresee, opening, if_pos hpolls, hnone]
      obtain ⟨s', hturn, hsound⟩ := h.poll_idle handler hpolls.1 hpolls.2 hnone
      refine ⟨false, s', ?_, hsound⟩
      rw [WorkerHistory.turn, Act.modify_bind, hsame, hturn]
    · have hnote : s.foresee = { s with past := latest (·.opens win) s.past } := by
        simp only [foresee, opening, if_pos hpolls, hopens.run s.past]
      obtain ⟨s', hturn, hsound⟩ := h.poll_window courteous hpolls.1 hpolls.2 hopens
      refine ⟨true, s', ?_, hsound⟩
      rw [WorkerHistory.turn, Act.modify_bind, hnote, hturn]
  · have hsame : s.foresee = s := by rw [foresee, opening, if_neg hpolls]
    obtain ⟨moved, s', hturn, hturned⟩ := h.turn_quiet courteous hpolls
    refine ⟨moved, s', ?_, hturned.sound⟩
    rw [WorkerHistory.turn, Act.modify_bind, hsame, hturn]

end Sound

end Polls

end LapRing.WorkerHistory
