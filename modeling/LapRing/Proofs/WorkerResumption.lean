import LapRing.Proofs.WorkerTurns

/-!
# A worker resumes where it stopped

The thread of a worker is told to stop between two polls, or gives up within one. In
either case the window of its last poll is released, and nothing beyond it was given
to the handler. So the next incarnation goes on after that window: no sequence comes
twice, and none is left out but those that were left when a callback gave up.
-/
namespace LapRing.WorkerHistory
variable {cap : Capacity} {P ε L : Type} {s s' : WorkerHistory cap P ε L}

/-! ## Starts -/

/-- A history whose worker has a new thread. -/
def started (s : WorkerHistory cap P ε L) : WorkerHistory cap P ε L :=
  { s with
    worker := { s.worker with running := true, holdsConsumer := false, thread := some .starting }
    past := { gating := s.ring.sequencer.gating.toInt } :: s.past }

namespace Sound

/-- Without a thread all incarnations are over. -/
theorem ended (h : s.Sound) (free : s.worker.thread = none) : ∀ i ∈ s.past, i.Ended := by
  have hrecorded := h.recorded
  rw [free] at hrecorded
  cases hpast : s.past with
  | nil => exact nofun
  | cons i older =>
    rw [hpast] at hrecorded
    exact List.forall_mem_cons.mpr hrecorded

theorem started (h : s.Sound) (free : s.worker.thread = none) : s.started.Sound := by
  have hhad : s.worker.Has := Or.inl (h.home free)
  have hhas : s.started.worker.Has := Or.inr ⟨.starting, rfl, nofun⟩
  refine ⟨⟨h.producers, h.position, h.batchSize, h.named, ?_, fun _ => rfl, nofun⟩,
    h.chained.begins, ⟨rfl, rfl⟩, h.ended free⟩
  exact h.consumers.moves (a := ()) (.still (iff_of_true hhas hhad)) fun b hb => absurd rfl hb

/-- A worker without a thread can be started. -/
theorem start_ok (h : s.Sound) (free : s.worker.thread = none) :
    WorkerHistory.start (.ok ()) s = .ok (.ok ()) s.started := by
  have hspawned := Worker.startOn_spawned (show site.worker.Lawful from lawful_workerPart)
    (w := s) rfl free (h.home free) h.named
  exact Act.bind_ok hspawned

theorem start (h : s.Sound) (system : Except String Unit) :
    ((WorkerHistory.start system).outcome s).2.Sound := by
  have hregain : s.worker.holdsConsumer = true →
      s.ring.consumers.release.acquire = (true, s.ring.consumers) := fun hholds =>
    h.consumers.acquire_release (a := ()) (Or.inl hholds)
  obtain ⟨refusal, -, hrun⟩ | ⟨⟨hfree, -⟩, ⟨reason, hrun⟩ | ⟨hfault, -⟩ | hrun⟩ :=
    Worker.startOn_cases (show site.worker.Lawful from lawful_workerPart) (w := s) rfl
      lawful_ringPart hregain system
  · have hstart : WorkerHistory.start system s = .ok (.error refusal) s := Act.bind_ok hrun
    rw [Act.outcome_ok hstart]
    exact h
  · have hstart : WorkerHistory.start system s = .ok (.error (.workerSpawn reason))
        (site.put { s.worker with running := false } s) := Act.bind_ok hrun
    rw [Act.outcome_ok hstart]
    exact h.kept ⟨h.producers, rfl, fun _ ht => ht, rfl, rfl, Or.inr rfl⟩ rfl
  · exact absurd h.named hfault
  · have hstart : WorkerHistory.start system s = .ok (.ok ()) s.started := Act.bind_ok hrun
    rw [Act.outcome_ok hstart]
    exact h.started hfree

/-! ## Shutdowns -/

end Sound

/-- A history whose worker has a consumer and no thread. -/
def takeBack (consumers : Side) (s : WorkerHistory cap P ε L) : WorkerHistory cap P ε L :=
  { s with
    ring := { s.ring with consumers }
    worker := { s.worker with holdsConsumer := true, thread := none } }

/-- What a shutdown leaves: the thread is gone and no window was opened. An error tells
that the latest incarnation gave up. -/
structure Stopped (s : WorkerHistory cap P ε L) (answer : Except Halt Unit)
    (s' : WorkerHistory cap P ε L) : Prop where
  sound : s'.Sound
  free : s'.worker.thread = none
  windows : s'.windows = s.windows
  answer : answer = .ok () ↔
    s.worker.thread = none ∨ ∀ i ∈ s'.past.head?, .panic ∉ i.calls

namespace Sound

variable [DecidableEq P] {handler : Handler ε (WorkerHistory cap P ε L)}

/-- Told to stop, the thread comes to its end in the turns that it has left. -/
theorem turns_told (h : s.Sound) (courteous : Courteous handler)
    (thread : s.worker.thread ≠ none) (told : s.worker.running = false) {n : ℕ}
    (enough : turnsLeft s.worker.thread ≤ n) :
    ∃ s', Worker.turns site (noting handler) n s = .ok () s' ∧ s'.Sound ∧
      s'.worker.thread ≠ none ∧ turnsLeft s'.worker.thread = 0 ∧ s'.windows = s.windows := by
  induction n generalizing s with
  | zero => exact ⟨s, rfl, h, thread, Nat.le_zero.mp enough, rfl⟩
  | succ n ih =>
    have hquiet : ¬ (s.worker.thread = some .polling ∧ s.worker.running = true) := by simp [told]
    obtain ⟨moved, s₁, hturn, hturned⟩ := h.turn_quiet courteous hquiet
    have hleft := hturned.left told
    cases moved with
    | false =>
      have hrest := hturned.rest rfl
      exact ⟨s₁, Act.bind_ok hturn, hturned.sound, hturned.thread thread, by omega,
        hturned.windows⟩
    | true =>
      obtain ⟨s', hturns, hsound, hthread, hover, hwindows⟩ :=
        ih hturned.sound (hturned.thread thread) (hturned.told told) (by omega)
      exact ⟨s', (Act.bind_ok hturn).trans hturns, hsound, hthread, hover,
        hwindows.trans hturned.windows⟩

omit [DecidableEq P] in
theorem takeBack (h : s.Sound) {consumers : Side}
    (moves : s.ring.consumers.Moves s.worker.Has (s.takeBack consumers).worker.Has consumers)
    {i : Incarnation} {older : List Incarnation} (hpast : s.past = i :: older) (ended : i.Ended)
    (others : ∀ j ∈ older, j.Ended) : (s.takeBack consumers).Sound := by
  refine ⟨⟨h.producers, h.position, h.batchSize, h.named, ?_, fun hne => absurd rfl hne,
    fun _ => rfl⟩, h.chained, ?_⟩
  · exact h.consumers.moves (a := ()) moves fun b hb => absurd rfl hb
  · change Recorded none s.past
    rw [hpast]
    exact ⟨ended, others⟩

/-- A shutdown comes to its end, and the worker has its consumer back, or another one. -/
theorem shutdown (h : s.Sound) (courteous : Courteous handler) :
    ∃ answer s', WorkerHistory.shutdown handler s = .ok answer s' ∧ Stopped s answer s' := by
  have hkept : Kept s (site.put { s.worker with running := false } s) :=
    ⟨h.producers, rfl, fun _ ht => ht, rfl, rfl, Or.inr rfl⟩
  have htold := h.kept hkept rfl
  obtain ⟨hfree, hstop⟩ | ⟨hthread, s₁, hturns, hstop⟩ :=
    Worker.stop_cases site (noting handler) lawful_workerPart (w := s) rfl
  · exact ⟨.ok (), _, Act.bind_ok hstop, htold, hfree, rfl, iff_of_true rfl (Or.inl hfree)⟩
  · have hleft : turnsLeft s.worker.thread ≤ 3 := by
      unfold turnsLeft
      split <;> decide
    obtain ⟨_, hturns', hsound, hlive, hover, hwindows⟩ :=
      htold.turns_told courteous hthread rfl hleft
    obtain ⟨-, rfl⟩ := EStateM.Result.ok.inj (hturns.symm.trans hturns')
    obtain ⟨phase, hphase⟩ := Option.ne_none_iff_exists'.mp hlive
    obtain ⟨i, older, hpast, hat, holder⟩ := hsound.latest_at hphase
    have hhead : s₁.past.head? = some i := by rw [hpast, List.head?_cons]
    have hresult : (site.worker.split s₁).1.thread.map Worker.result = some (Worker.result phase) :=
      congrArg (Option.map Worker.result) hphase
    rw [hresult] at hstop
    rw [hphase] at hover
    cases phase with
    | starting => exact absurd hover (by decide)
    | polling => exact absurd hover (by decide)
    | stopping => exact absurd hover (by decide)
    | finished =>
      obtain ⟨hended, hcalm⟩ := hat.of_finished
      have hlent : s₁.worker.Lent := ⟨.finished, hphase, nofun⟩
      have hrun : WorkerHistory.shutdown handler s = .ok (.ok ()) (s₁.takeBack s₁.ring.consumers) :=
        Act.bind_ok hstop
      have hhome := hsound.takeBack (.still (iff_of_true (Or.inl rfl) (Or.inr hlent))) hpast hended
        holder
      refine ⟨_, _, hrun, hhome, rfl, hwindows, iff_of_true rfl (Or.inr fun j hj => ?_)⟩
      exact Option.some.inj (hhead.symm.trans hj) ▸ hcalm
    | gaveUp why =>
      -- the thread has dropped the consumer, so there is one to be had
      obtain ⟨hended, hpanic⟩ := hat.of_gaveUp
      have hlost : ¬ s₁.worker.Has := Worker.not_has_gaveUp (hsound.lent hlive) hphase
      have hadmitted : s₁.ring.consumers.acquire.1 = true :=
        hsound.consumers.admits_iff.mpr (Or.inr fun _ => hlost)
      have hacquire := Ring.acquireConsumer_eq s₁.ring
      rw [if_pos hadmitted] at hacquire
      have hlift : site.ring.lift Ring.acquireConsumer
          (site.put { (site.worker.split s₁).1 with thread := none } s₁) = .ok (.ok ()) _ :=
        Part.lift_ok hacquire
      have hrun : WorkerHistory.shutdown handler s =
          .ok (.error why) (s₁.takeBack s₁.ring.consumers.acquire.2) :=
        (Act.bind_ok hstop).trans (Act.bind_ok hlift)
      have hhome := hsound.takeBack (.enters hadmitted (Or.inl rfl)) hpast hended holder
      refine ⟨_, _, hrun, hhome, rfl, hwindows, iff_of_false nofun ?_⟩
      exact not_or.mpr ⟨hthread, fun hcalm => hcalm i hhead hpanic⟩

theorem step (h : s.Sound) (hstep : Step s s') : s'.Sound := by
  cases hstep with
  | meanwhile hmean => exact h.kept (hmean.kept h.producers) hmean.past
  | start system => exact h.start system
  | turn courteous =>
    obtain ⟨moved, _, hturn, hsound⟩ := h.turn courteous
    rw [Act.outcome_ok hturn]
    exact hsound
  | shutdown courteous =>
    obtain ⟨answer, _, hshutdown, hstopped⟩ := h.shutdown courteous
    rw [Act.outcome_ok hshutdown]
    exact hstopped.sound

end Sound

/-! ## Histories -/

/-- What the records of a worker show: what was handled, what was skipped, and where
each incarnation went on. -/
structure Resumes (s : WorkerHistory cap P ε L) : Prop where
  recorded : Recorded s.worker.thread s.past
  /-- An incarnation handles sequences without a gap, from gating at its start on. -/
  handled : ∀ i ∈ s.past, i.handled = consecutive (i.gating + 1) i.handled.length
  /-- A batch that has begun is handled to its end, unless a callback gives up. -/
  complete : ∀ i ∈ s.past, .panic ∉ i.calls → i.handled = i.begun
  resumed : ∀ newer i older, s.past = newer ++ i :: older → i.gating = lastBegun older
  gating : s.ring.sequencer.gating.toInt = lastBegun s.past
  begun : s.past.reverse.flatMap Incarnation.begun =
    consecutive 0 (s.ring.sequencer.gating.toInt + 1).toNat
  once : (s.past.reverse.flatMap Incarnation.handled).Nodup
  all : (∀ i ∈ s.past, .panic ∉ i.calls) → s.past.reverse.flatMap Incarnation.handled =
    consecutive 0 (s.ring.sequencer.gating.toInt + 1).toNat

theorem Sound.resumes (h : s.Sound) : s.Resumes := by
  have hat := h.recorded.at
  refine ⟨h.recorded, fun i hi => ?_, fun i hi calm => ?_, fun newer i older hpast => ?_,
    h.chained.eq_lastBegun, h.chained.begun_eq, h.chained.nodup_handled hat,
    h.chained.handled_eq hat⟩
  · obtain ⟨_, hphase⟩ := hat i hi
    exact h.chained.handled_consecutive hi hphase
  · obtain ⟨_, hphase⟩ := hat i hi
    exact hphase.handled_eq calm
  · exact Chained.gating_eq (hpast ▸ h.chained)

section Histories
variable [DecidableEq P] {name : String} {batchSize : UInt64} {settings : Settings}
  {slots : Slots cap ε} {worker : Worker} {ring : EventRing cap ε} {own : L}

theorem Reachable.sound
    (hired : Worker.new name batchSize (Ring.new settings slots) = .ok (.ok worker) ring)
    (named : Worker.nameFault name = none) (h : Reachable (new ring worker own) s) :
    s.Sound := by
  induction h with
  | refl => exact sound_new own hired named
  | tail _ hstep ih => exact ih.step hstep

/-- A handler that rejects every event by giving up. -/
def raising : Handler ε (WorkerHistory cap P ε L) where
  onEvent _ _ := throw (.raised "enough")
  onError _ _ _ := pure ()

theorem courteous_raising : Courteous (raising : Handler ε (WorkerHistory cap P ε L)) := by
  have hsame : ∀ s : WorkerHistory cap P ε L, Meanwhile s s :=
    fun _ => ⟨.refl, rfl, rfl, Or.inl rfl, rfl⟩
  exact ⟨fun _ _ _ _ _ => hsame _, fun _ _ _ _ _ _ => hsame _, fun _ _ _ => hsame _,
    fun _ _ _ => hsame _⟩

/-- A worker on an empty ring of two. -/
def hand : WorkerHistory .two Unit Unit Unit :=
  new { Ring.new { capacity := 2 } (.fill .two ()) with consumers := ⟨.single, true⟩ }
    { name := "hand", batchSize := 2 } ()

theorem hired_hand : Worker.new "hand" 2 (Ring.new { capacity := 2 } (.fill .two ())) =
    .ok (.ok hand.worker) hand.ring := rfl

theorem named_hand : Worker.nameFault "hand" = none := by decide +kernel

/-- Its thread has started, and both slots were filled. -/
def busy : WorkerHistory .two Unit Unit Unit :=
  { hand.started with
    ring := { hand.started.ring with sequencer := { cursor := 1, claims := .single 1 (-1) } }
    stages := fun _ => .idle
    holder := Producers.assign .published (-1) 1 (Producers.assign (.owned ()) (-1) 1
      (Producers.assign (.pending ()) (-1) (-1) hand.holder)) }

theorem reachable_busy : Reachable hand busy := by
  have hsound : hand.Sound := sound_new () hired_hand named_hand
  have hstarted : Reachable hand _ := .single (.start (.ok ()))
  rw [Act.outcome_ok (hsound.start_ok rfl)] at hstarted
  have hdrawn : Producers.Step hand.started.producers _ :=
    .claim (p := ()) (.draw (n := 2) (t := ⟨1, -1⟩)
      ⟨rfl, fun _ _ => rfl⟩ (show Capacity.two.checkClaim 2 = .ok 2 from rfl) rfl
    (Producers.lasts_of_few _ (by decide)))
  have hclaimed := ((Relation.ReflTransGen.single hdrawn).tail
    (.claim (p := ()) (.trust rfl (by decide)))).tail (.claim (p := ()) (.redeem rfl rfl rfl))
  have hpublished := hclaimed.tail (.publish
    (fun t ht ht' =>
      ⟨(), Producers.assign_of_mem _ (show -1 < t from lt_of_lt_of_le (by decide) ht) ht'⟩)
    (show (0 : Int64) ≤ 1 by decide) (fun _ => rfl) (Or.inl rfl))
  exact hstarted.tail (.meanwhile ⟨hpublished, rfl, rfl, Or.inl rfl, rfl⟩)

/-- However starts, polls, publishes and shutdowns follow one another, no sequence is
handled twice, and only the rest of a batch whose callback gave up is skipped. A
shutdown comes to its end and opens no window. It tells whether a callback gave up, and
in either case the worker can be started again and goes on where it stopped. Producers
claim only while one more lap of words is left after the claim. -/
theorem resumes_where_it_stopped
    (hired : Worker.new name batchSize (Ring.new settings slots) = .ok (.ok worker) ring)
    (named : Worker.nameFault name = none) (h : Reachable (new ring worker own) s) :
    s.Resumes ∧
    ∀ handler : Handler ε (WorkerHistory cap P ε L), Courteous handler →
      ∃ answer s', shutdown handler s = .ok answer s' ∧
        s'.Resumes ∧ s'.worker.thread = none ∧ s'.windows = s.windows ∧
        (answer = .ok () ↔ s.worker.thread = none ∨ ∀ i ∈ s'.past.head?, .panic ∉ i.calls) ∧
        start (.ok ()) s' = .ok (.ok ()) s'.started ∧ s'.started.Resumes := by
  have hsound := h.sound hired named
  refine ⟨hsound.resumes, fun handler courteous => ?_⟩
  obtain ⟨answer, s', hrun, hstopped⟩ := hsound.shutdown courteous
  exact ⟨answer, s', hrun, hstopped.sound.resumes, hstopped.free, hstopped.windows,
    hstopped.answer, hstopped.sound.start_ok hstopped.free,
    (hstopped.sound.started hstopped.free).resumes⟩

/-- A callback gives up on sequence 0, so 1 is skipped. -/
theorem resumes_where_it_stopped_panic :
    ∃ s : WorkerHistory .two Unit Unit Unit, Reachable hand s ∧
      s.past.map Incarnation.handled = [[0]] ∧ s.past.map Incarnation.begun = [[0, 1]] ∧
      ∃ s', shutdown raising s = .ok (.error (.raised "enough")) s' ∧ s'.Resumes ∧
        start (.ok ()) s' = .ok (.ok ()) s'.started ∧
        s'.started.past.map Incarnation.gating = [1, -1] := by
  obtain ⟨s, hreach, hhandled, hbegun, hraised, hgatings⟩ : ∃ s, Reachable hand s ∧
      s.past.map Incarnation.handled = [[0]] ∧ s.past.map Incarnation.begun = [[0, 1]] ∧
      ((shutdown raising).outcome s).1 = .ok (.error (.raised "enough")) ∧
      ((shutdown raising).outcome s).2.started.past.map Incarnation.gating = [1, -1] :=
    ⟨_, (reachable_busy.tail (.turn courteous_raising)).tail (.turn courteous_raising), rfl, rfl,
      rfl, rfl⟩
  obtain ⟨-, hshutdown⟩ := resumes_where_it_stopped hired_hand named_hand hreach
  obtain ⟨answer, s', hrun, hresumes, -, -, -, hstart, -⟩ := hshutdown raising courteous_raising
  rw [Act.outcome_ok hrun] at hraised hgatings
  obtain rfl := Except.ok.inj hraised
  exact ⟨s, hreach, hhandled, hbegun, s', hrun, hresumes, hstart, hgatings⟩

end Histories

end LapRing.WorkerHistory
