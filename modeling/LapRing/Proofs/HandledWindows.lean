import LapRing.Proofs.CallRuns
import LapRing.Proofs.HandlerTraces

/-!
# What becomes of a window that handlers are given

A poll opens the window after the position, gives its items to a handler, and releases
the whole window in its turn, however the calls ended. So a sequence that was in the window
of a poll is in no window of a later one, and no handler is called for it again.
-/
namespace LapRing.HandlerPolls
variable {cap : Capacity} {P Q σ ε B L A : Type} [DecidableEq P] [DecidableEq Q] {metrics : Bool}
  {m : HandlerPolls cap P Q σ} {q : Q} {win : Window} {see : σ → Option ε} {ring : B → Ring cap σ}

/-- What a poll leaves that finds nothing: where counting is on, one more idle poll. A
batch of zero is not even counted. -/
def idled (batch : UInt64) (m : HandlerPolls cap P Q σ) : HandlerPolls cap P Q σ :=
  if batch = 0 then m
  else
    let tally := m.sequencer.tally.map fun t => { t with idlePolls := t.idlePolls + 1 }
    { m with sequencer := { m.sequencer with tally } }

/-- The last sequence that a poll of `batch` reaches. -/
def Reaches (m : HandlerPolls cap P Q σ) (batch : UInt64) (last : ℤ) : Prop :=
  IsGreatest (publishedRuns m.published m.position.toInt
    (m.position.toInt + min batch.toNat cap.slots)) last

/-- A poll of consumer `q` made these calls for the window after the position. They are
the trace of its items, as they were in their slots when the poll began. Rejections are
counted, those of this poll and those that others made meanwhile. -/
structure Handled (metrics : Bool) (q : Q) (batch : UInt64) (see : σ → Option ε)
    (m : HandlerPolls cap P Q σ) (win : Window) (calls : List (HandlerCall ε))
    (ending : Except Halt Unit) (m' : HandlerPolls cap P Q σ) : Prop where
  first : win.first.toInt = m.position.toInt + 1
  last : m.Reaches batch win.last.toInt
  trace : Trace (items see m.slots win.sequences) calls ending
  run : m.Run m'
  rejected : ∃ later, m'.rejected = m.rejected ++ later ∧ later.count q = rejections calls ∧
    (metrics = true → m'.sequencer.metrics.handlerErrors =
      m.sequencer.metrics.handlerErrors + .ofNat later.length)
  past : ∀ m'', m'.Run m'' → win.last.toInt ≤ m''.position.toInt

/-- What a poll of consumer `q` returns, calls and leaves. -/
inductive Inspected (metrics : Bool) (q : Q) (batch : UInt64) (see : σ → Option ε)
    (m : HandlerPolls cap P Q σ) :
    Except Halt PollState → List (HandlerCall ε) → HandlerPolls cap P Q σ → Prop
  | idle : m.Reaches batch m.position.toInt →
      Inspected metrics q batch see m (.ok .idle) [] (m.idled batch)
  /-- The window is released, however the calls ended. Whatever anybody does afterwards,
  nobody has anything of it in a window. -/
  | released {win : Window} {calls : List (HandlerCall ε)} {ending : Except Halt Unit}
      {m' : HandlerPolls cap P Q σ} :
      Handled metrics q batch see m win calls ending m' → m'.visits q = .idle →
      m'.sequencer.gating = win.last →
      (∀ m'' r win', m'.Run m'' → m''.visits r = .draining win' →
        win.last.toInt < win'.first.toInt) →
      Inspected metrics q batch see m (ending.map fun _ => .processing) calls m'
  /-- The window has to wait for an earlier one that another consumer has not released. -/
  | waiting {win : Window} {calls : List (HandlerCall ε)} {ending : Except Halt Unit}
      {m' : HandlerPolls cap P Q σ} {r : Q} {win' : Window} :
      Handled metrics q batch see m win calls ending m' → m'.visits q = .draining win →
      r ≠ q → m'.visits r = .draining win' → win'.last.toInt < win.first.toInt →
      Inspected metrics q batch see m (.error .stalled) calls m'

/-- The state that a poll reports. -/
def stateOf {A : Type} : Option A → PollState
  | none => .idle
  | some _ => .processing

/-- The rejected items of a run are counted. -/
theorem handlerErrors_run {m' : HandlerPolls cap P Q σ} (h : m.Sound metrics) (hrun : m.Run m')
    {later : List Q} (rejected : m'.rejected = m.rejected ++ later) (hmetrics : metrics = true) :
    m'.sequencer.metrics.handlerErrors =
      m.sequencer.metrics.handlerErrors + .ofNat later.length := by
  obtain ⟨t, ht, herrors⟩ := h.kept hmetrics
  obtain ⟨t', ht', herrors'⟩ := (h.run hrun).kept hmetrics
  rw [Sequencer.metrics, Sequencer.metrics, ht, ht', Option.getD_some, Option.getD_some, herrors,
    herrors', rejected, List.length_append, UInt64.ofNat_add]

theorem searches_run {parties : RingParties cap P Q}
    (h : Relation.ReflTransGen (RingParties.Search q) m.toRingParties parties) :
    m.Run { m with toRingParties := parties } := by
  induction h with
  | refl => exact .refl
  | tail _ hsearch ih => exact ih.tail ⟨some q, .search hsearch⟩

omit [DecidableEq P] [DecidableEq Q] in
/-- A window that is not the next to be released waits for an earlier one. -/
theorem earlier_of_early (h : m.toRingParties.Sound) (hq : m.visits q = .draining win)
    (early : win.first.toInt ≠ m.sequencer.gating.toInt + 1) :
    m.poller.consumer = .multi ∧ ∃ r win', r ≠ q ∧ m.visits r = .draining win' ∧
      win'.last.toInt < win.first.toInt := by
  have hvisit : m.toRingParties.SoundVisit (.draining win) := hq ▸ h.visits q
  obtain ⟨hwin, hlo, hhi⟩ := hvisit
  have hle := hwin.le
  have hkind : m.poller.consumer = .multi := by
    cases hkind : m.poller.consumer with
    | single => exact absurd (hwin.sole hkind) early
    | multi => rfl
  have hposition := hhi hkind
  obtain ⟨r, win', hr, hlow, hhigh⟩ :=
    h.covered (m.sequencer.gating.toInt + 1) (by omega) (by omega)
  have hne : r ≠ q := by
    rintro rfl
    obtain rfl : win = win' := Visit.draining.inj (hq.symm.trans hr)
    omega
  refine ⟨hkind, r, win', hne, hr, ?_⟩
  rcases h.apart r q win' win hne hr hq with hlt | hlt
  · exact hlt
  · omega

section Polls
variable {here : Part (B × List (HandlerCall ε) × L) (Ring cap σ)}

/-- A consumer finds the window after the position that its batch admits. -/
theorem opened (h : m.toRingParties.Sound) (ready : m.Ready q) {batch : UInt64} (hb : batch ≠ 0)
    (hhere : here.Lawful) {w : B × List (HandlerCall ε) × L} (around : m.Around (here.split w).1) :
    (m.Reaches batch m.position.toInt ∧
      Poller.openWindow (here.within Ring.sequencerPart) (here.within Ring.pollerPart) batch w =
        .ok none (here.join ((here.split w).1.withSequencer (m.sequencer.count .idle))
          (here.split w).2)) ∨
    ∃ win, win.first.toInt = m.position.toInt + 1 ∧ m.Reaches batch win.last.toInt ∧
      Poller.openWindow (here.within Ring.sequencerPart) (here.within Ring.pollerPart) batch w =
        .ok (some win) (here.join { (here.split w).1 with poller := m.poller.claim win }
          (here.split w).2) ∧
      m.Run { m with
        toRingParties := { m.toRingParties with poller := m.poller.claim win }.visit q
          (.draining win) } := by
  have hseq : (here.within Ring.sequencerPart).Lawful := hhere.within Ring.lawful_sequencerPart
  have hpoller : (here.within Ring.pollerPart).Lawful := hhere.within Ring.lawful_pollerPart
  have hstanding : (here.split w).1.sequencer.Standing m.published := by
    rw [around.sequencer]
    exact h.producers.standing
  have hposition : (here.split w).1.poller.position (here.split w).1.sequencer = m.position := by
    rw [around.sequencer, around.poller]
    rfl
  have hgating : (here.split w).1.sequencer.gating.toInt ≤ m.position.toInt := by
    rw [around.sequencer]
    exact h.gating_le
  obtain ⟨last, hlast, hopen⟩ :=
    Poller.openWindow_eq hseq hpoller hstanding hposition hgating h.read hb
  rcases RingParties.openWindow_run h ready hb hseq hpoller
    (w := w) around.sequencer around.poller with
    ⟨hnone, -⟩ | ⟨win, hfirst, hsome, hrun⟩
  · rw [hnone] at hopen
    by_cases hsame : last = m.position
    · subst hsame
      exact Or.inl ⟨hlast, hnone⟩
    · rw [Poller.windowTo, if_neg hsame] at hopen
      simp at hopen
  · rw [hsome] at hopen
    by_cases hsame : last = m.position
    · rw [Poller.windowTo, if_pos hsame] at hopen
      simp at hopen
    · rw [Poller.windowTo, if_neg hsame] at hopen
      obtain ⟨hwin, -⟩ := EStateM.Result.ok.inj hopen
      obtain rfl : win = ⟨m.position + 1, last⟩ := Option.some.inj hwin
      exact Or.inr ⟨_, hfirst, hlast, hsome, searches_run hrun⟩

/-- A window that was worked through is released if it has its turn. -/
theorem release_eq (hhere : here.Lawful) {m' : HandlerPolls cap P Q σ} (h : m'.Sound metrics)
    (hq : m'.visits q = .draining win) {w : B × List (HandlerCall ε) × L}
    (around : m'.Around (here.split w).1) :
    (∃ m'', m'.Run m'' ∧ m''.rejected = m'.rejected ∧ m''.visits q = .idle ∧
      m''.sequencer.gating = win.last ∧
      ∃ r, m''.Around r ∧
        Poller.release (here.within Ring.sequencerPart) (here.within Ring.pollerPart) win w =
          .ok () (here.join r (here.split w).2)) ∨
    m'.poller.consumer = .multi ∧
      (∃ r win', r ≠ q ∧ m'.visits r = .draining win' ∧ win'.last.toInt < win.first.toInt) ∧
      Poller.release (here.within Ring.sequencerPart) (here.within Ring.pollerPart) win w =
        .error .stalled w := by
  have hseq : (here.within Ring.sequencerPart).Lawful := hhere.within Ring.lawful_sequencerPart
  have hpoller : (here.within Ring.pollerPart).Lawful := hhere.within Ring.lawful_pollerPart
  have hvisit : m'.toRingParties.SoundVisit (.draining win) := hq ▸ h.parties.visits q
  obtain ⟨hwin, -, -⟩ := hvisit
  have hle := hwin.le
  have hstart := hwin.start
  have hpos := cap.one_le_slots
  have hclaimed := h.parties.producers.standing.claimed _ (hwin.read _ (le_refl _))
  have hroom := h.parties.producers.standing.room
  have hgating : ((here.within Ring.sequencerPart).split w).1 = m'.sequencer := around.sequencer
  have hconsumer : ((here.within Ring.pollerPart).split w).1 = m'.poller := around.poller
  by_cases hturn : win.first.toInt = m'.sequencer.gating.toInt + 1
  · have hstep := Poller.release_eq Part.lawful_first Part.lawful_second
      (w := (m'.sequencer, m'.poller)) hturn hle (by omega)
    refine Or.inl ⟨_, .single ⟨some q, .release hq hstep⟩, rfl, RingParties.visits_visit _ _ _, rfl,
      (here.split w).1.withSequencer (Poller.afterRelease win (here.split w).1.sequencer), ?_, ?_⟩
    · exact ⟨congrArg (Poller.afterRelease win) around.sequencer, around.poller, around.slots⟩
    · exact Poller.release_eq hseq hpoller (by rw [hgating]; exact hturn) hle (by omega)
  · obtain ⟨hkind, hearlier⟩ := earlier_of_early h.parties hq hturn
    refine Or.inr ⟨hkind, hearlier, ?_⟩
    exact Poller.release_stalled hseq hpoller (by rw [hconsumer]; exact hkind)
      (by rw [hgating]; exact hturn) (by omega) hle

/-- A poll whose window has to wait is not over. -/
theorem poll_stalled {W : Type} {seq : Part W (Sequencer cap)} {poller : Part W Poller}
    {batch : UInt64} (drain : Window → Act W A) {w w₁ : W}
    (ho : Poller.openWindow seq poller batch w = .ok (some win) w₁)
    (hr : Poller.release seq poller win ((drain win).outcome w₁).2 =
      .error .stalled ((drain win).outcome w₁).2) :
    (Poller.poll seq poller batch drain).outcome w =
      (.error .stalled, ((drain win).outcome w₁).2) := by
  rw [Poller.poll, Act.outcome_eq (Act.bind_ok ho)]
  simp only
  rw [Act.outcome_bind_pure, Act.outcome_closing, Act.outcome_error hr]
  rcases (drain win).outcome w₁ with ⟨_ | _, _⟩ <;> rfl

omit [DecidableEq P] [DecidableEq Q] in
theorem ending_of_some (ending : Except Halt A) : (ending.map some).map stateOf =
    (ending.map fun _ => ()).map fun _ => PollState.processing := by
  cases ending <;> rfl

/-- The calls for a window account for all that the consumer rejected from the opening of the
window to the end of the poll, since nothing is rejected between the last call and that end. -/
theorem Attended.handled (h : m.Sound metrics) {batch : UInt64}
    (first : win.first.toInt = m.position.toInt + 1) (reach : m.Reaches batch win.last.toInt)
    {m₁ m₂ m' : HandlerPolls cap P Q σ} (opening : m.Run m₁) (same : m₁.rejected = m.rejected)
    {left : Set Int64} {calls : List (HandlerCall ε)} {ending : Except Halt Unit}
    (attended : Attended q win left m₁ calls m₂)
    (trace : Trace (items see m.slots win.sequences) calls ending)
    (closing : m₂.Run m') (quiet : m'.rejected = m₂.rejected)
    (past : win.last.toInt ≤ m'.position.toInt) :
    Handled metrics q batch see m win calls ending m' := by
  obtain ⟨later, hlater, hcount⟩ := attended.rejected
  have hwhole := (opening.trans attended.run).trans closing
  have hrejected : m'.rejected = m.rejected ++ later := by rw [quiet, hlater, same]
  exact ⟨first, reach, trace, hwhole,
    ⟨later, hrejected, hcount, handlerErrors_run h hwhole hrejected⟩,
    fun m'' hlater => past.trans (position_le_run (h.run hwhole) hlater)⟩

/-- A poll whose window was worked through releases it, or has to wait with it. -/
theorem inspected_worked (hhere : here.Lawful) (hring : ∀ w, (here.split w).1 = ring w.1)
    (hjoin : ∀ r w, (here.join r (here.split w).2).2 = w.2)
    {drain : Window → Act (B × List (HandlerCall ε) × L) A} {batch : UInt64}
    {w w₁ : B × List (HandlerCall ε) × L} (hopen : Poller.openWindow
      (here.within Ring.sequencerPart) (here.within Ring.pollerPart) batch w = .ok (some win) w₁)
    {m₂ : HandlerPolls cap P Q σ} (h₂ : m₂.Sound metrics) (hvisit : m₂.visits q = .draining win)
    (around : m₂.Around (ring ((drain win).outcome w₁).2.1)) {calls : List (HandlerCall ε)}
    (handled : ∀ m' : HandlerPolls cap P Q σ, m₂.Run m' → m'.rejected = m₂.rejected →
      win.last.toInt ≤ m'.position.toInt →
      Handled metrics q batch see m win calls (((drain win).outcome w₁).1.map fun _ => ()) m') :
    ∃ m', ((Ring.poll here batch drain).outcome w).2.2 = ((drain win).outcome w₁).2.2 ∧
      m'.Around (ring ((Ring.poll here batch drain).outcome w).2.1) ∧
      Inspected metrics q batch see m (((Ring.poll here batch drain).outcome w).1.map stateOf)
        calls m' := by
  set r := (drain win).outcome w₁
  rcases release_eq hhere h₂ hvisit (w := r.2) (by rw [hring]; exact around) with
    ⟨m₃, hrun₃, hrejected, hidle, hgating, ring₃, haround₃, hrelease⟩ |
    ⟨hkind, ⟨p, win', hne, hp, hearlier⟩, hrelease⟩
  · have hpoll : (Ring.poll here batch drain).outcome w = (r.1.map some, _) :=
      Poller.poll_outcome drain hopen hrelease
    have hsound₃ := h₂.run hrun₃
    have hpast : win.last.toInt ≤ m₃.position.toInt := by
      rw [← hgating]
      exact hsound₃.parties.gating_le
    rw [hpoll]
    refine ⟨m₃, hjoin _ _, ?_, ?_⟩
    · rw [← hring, hhere.split_join]
      exact haround₃
    · rw [ending_of_some]
      refine .released (handled m₃ hrun₃ hrejected hpast) hidle hgating ?_
      intro m'' p win' hlater hp
      rw [← hgating]
      exact released_before hsound₃ hlater hp
  · have hpoll : (Ring.poll here batch drain).outcome w = (.error .stalled, r.2) :=
      poll_stalled drain hopen hrelease
    have hsound : m₂.toRingParties.SoundVisit (.draining win) := hvisit ▸ h₂.parties.visits q
    rw [hpoll]
    exact ⟨m₂, rfl, around,
      .waiting (handled m₂ .refl rfl (hsound.2.2 hkind)) hvisit hne hp hearlier⟩

/-- A poll is as its parts are: its window is opened, its items are given out, and it is
released in its turn. -/
theorem inspected_poll (hhere : here.Lawful) (hring : ∀ w, (here.split w).1 = ring w.1)
    (hjoin : ∀ r w, (here.join r (here.split w).2).2 = w.2)
    {drain : Window → Act (B × List (HandlerCall ε) × L) A}
    (hdrain : ∀ {m : HandlerPolls cap P Q σ} {win : Window} (w : B × List (HandlerCall ε) × L),
      m.Sound metrics → m.visits q = .draining win → m.Around (ring w.1) →
      win.last.toInt < win.first.toInt + cap.slots →
      Tended q win see ring win.sequences ∅ m w.2.1 ((drain win).outcome w))
    (h : m.Sound metrics) (ready : m.Ready q) (batch : UInt64) {w : B × List (HandlerCall ε) × L}
    (around : m.Around (ring w.1)) :
    ∃ calls m', ((Ring.poll here batch drain).outcome w).2.2.1 = w.2.1 ++ calls ∧
      m'.Around (ring ((Ring.poll here batch drain).outcome w).2.1) ∧
      Inspected metrics q batch see m (((Ring.poll here batch drain).outcome w).1.map stateOf)
        calls m' := by
  have hjoined : ∀ r w, ring (here.join r (here.split w).2).1 = r := by
    intro r w
    rw [← hring, hhere.split_join]
  by_cases hb : batch = 0
  · subst hb
    have hpoll : Ring.poll here 0 drain w = .ok none w :=
      Poller.poll_none drain (Poller.openWindow_zero w)
    rw [Act.outcome_ok hpoll]
    refine ⟨[], m, (List.append_nil _).symm, around, ?_⟩
    have hreach : m.Reaches 0 m.position.toInt :=
      isGreatest_publishedRuns (le_refl _) (by simp) (by omega) (by simp)
    exact .idle hreach
  rcases opened h.parties ready hb hhere (w := w) (by rw [hring]; exact around) with
    ⟨hreach, hopen⟩ | ⟨win, hfirst, hreach, hopen, hrun⟩
  · have hpoll : Ring.poll here batch drain w = .ok none _ := Poller.poll_none drain hopen
    rw [Act.outcome_ok hpoll]
    refine ⟨[], m.idled batch, ?_, ?_, .idle hreach⟩
    · simp only [hjoin, List.append_nil]
    · rw [hjoined, idled, if_neg hb, hring]
      exact ⟨rfl, around.poller, around.slots⟩
  set w₁ := here.join { (here.split w).1 with poller := m.poller.claim win } (here.split w).2
  have hsound₁ := h.run hrun
  have haround₁ : HandlerPolls.Around { m with
      toRingParties := { m.toRingParties with poller := m.poller.claim win }.visit q
        (.draining win) } (ring w₁.1) := by
    rw [hjoined, hring]
    exact ⟨around.sequencer, rfl, around.slots⟩
  have hlap : win.last.toInt < win.first.toInt + cap.slots := by
    have hlimit := hreach.1.2.1
    omega
  obtain ⟨calls, m₂, hlog, htrace, hattended, haround₂⟩ :=
    hdrain w₁ hsound₁ (RingParties.visits_visit _ _ _) haround₁ hlap
  obtain ⟨m', hkept, haround', hinspected⟩ := inspected_worked hhere hring hjoin hopen
    (hsound₁.run hattended.run) hattended.visit haround₂
    fun m' => hattended.handled h hfirst hreach hrun rfl htrace
  refine ⟨calls, m', ?_, haround', hinspected⟩
  rw [hkept, hlog, show w₁.2 = w.2 from hjoin _ w]

end Polls

/-- A poll of an event ring lets its handler see every event of its window. -/
theorem inspected_events {ε : Type} {m : HandlerPolls cap P Q ε}
    {handler : Handler ε (EventRing cap ε × L)} (modest : Modest P q id handler)
    (h : m.Sound metrics) (ready : m.Ready q) (context : String) (batch : UInt64)
    {b : EventRing cap ε} (around : m.Around b) (log : List (HandlerCall ε)) (l : L) :
    ∃ b' l' result calls m', (EventRing.poll Part.first context batch handler.logged).outcome
        (b, log, l) = (result, b', log ++ calls, l') ∧ m'.Around b' ∧
      Inspected metrics q batch some m result calls m' := by
  have hdrain : ∀ {m : HandlerPolls cap P Q ε} {win : Window}
      (w : EventRing cap ε × List (HandlerCall ε) × L),
      m.Sound metrics → m.visits q = .draining win → m.Around w.1 →
      win.last.toInt < win.first.toInt + cap.slots →
      Tended q win some id win.sequences ∅ m w.2.1
        ((EventRing.visit Part.first context handler.logged win).outcome w) := by
    intro m win w hm hq haround hlap
    rw [EventRing.visit, Act.forM_eq_foldlM]
    exact tended_fold
      (fun _ _ log l hm hq hs haround => tended_lend modest context log l hm hq hs haround)
      (fun _ hs => hs) (Window.pairwise_slots hlap) hm hq () haround w.2.1 w.2.2
  obtain ⟨calls, m', hlog, haround, hinspected⟩ :=
    inspected_poll Part.lawful_first
      (show ∀ w : EventRing cap ε × List (HandlerCall ε) × L, w.1 = id w.1 from fun _ => rfl)
      (fun _ _ => rfl) hdrain h ready batch (w := (b, log, l)) around
  have hpoll : EventRing.poll Part.first context batch handler.logged =
      Ring.poll Part.first batch (EventRing.visit Part.first context handler.logged) >>=
        fun found => pure (stateOf found) := by
    unfold EventRing.poll
    refine congrArg (_ >>= ·) (funext fun found => ?_)
    cases found <;> rfl
  rw [hpoll, Act.outcome_bind_pure]
  exact ⟨_, _, _, calls, m', Prod.ext rfl (Prod.ext rfl (Prod.ext hlog rfl)), haround, hinspected⟩

/-- A poll of a channel lets its handler see the values in its window. -/
theorem inspected_values {α : Type} {m : HandlerPolls cap P Q (Option α)}
    {handler : Handler α (Channel cap α × L)} (modest : Modest P q Channel.ring handler)
    (h : m.Sound metrics) (ready : m.Ready q) (context : String) (batch : UInt64)
    {b : Channel cap α} (around : m.Around b.ring) (log : List (HandlerCall α)) (l : L) :
    ∃ b' l' result calls m', (Channel.pollHandler Part.first context batch handler.logged).outcome
        (b, log, l) = (result, b', log ++ calls, l') ∧ m'.Around b'.ring ∧
      Inspected metrics q batch id m result calls m' := by
  have hdrain : ∀ {m : HandlerPolls cap P Q (Option α)} {win : Window}
      (w : Channel cap α × List (HandlerCall α) × L),
      m.Sound metrics → m.visits q = .draining win → m.Around w.1.ring →
      win.last.toInt < win.first.toInt + cap.slots →
      Tended q win id Channel.ring win.sequences ∅ m w.2.1
        ((win.sequences.foldlM (takeOut handler.logged context) 0).outcome w) := by
    intro m win w hm hq haround hlap
    exact tended_fold
      (fun received _ log l hm hq hs haround =>
        tended_takeOut modest context received log l hm hq hs haround)
      (fun _ hs => hs) (Window.pairwise_slots hlap) hm hq 0 haround w.2.1 w.2.2
  obtain ⟨calls, m', hlog, haround, hinspected⟩ :=
    inspected_poll (Part.lawful_first.within Channel.lawful_ringPart)
      (show ∀ w : Channel cap α × List (HandlerCall α) × L, w.1.ring = Channel.ring w.1 from
        fun _ => rfl)
      (fun _ _ => rfl) hdrain h ready batch (w := (b, log, l)) around
  have hpoll : Channel.pollHandler Part.first context batch handler.logged =
      Ring.poll (Part.first.within Channel.ringPart) batch
        (fun win => win.sequences.foldlM (takeOut handler.logged context) 0) >>=
          fun found => pure (stateOf found) := by
    refine congrArg (_ >>= ·) (funext fun found => ?_)
    cases found <;> rfl
  rw [hpoll, Act.outcome_bind_pure]
  exact ⟨_, _, _, calls, m', Prod.ext rfl (Prod.ext rfl (Prod.ext hlog rfl)), haround, hinspected⟩

omit [DecidableEq P] [DecidableEq Q] in
/-- A trace has calls for its items only. -/
theorem sequence_of_trace {xs : List (Int64 × ε)} {calls : List (HandlerCall ε)}
    {ending : Except Halt Unit} (h : Trace xs calls ending) :
    ∀ call ∈ calls, call.sequence ∈ xs.map Prod.fst := by
  have hone : ∀ {s : Int64} {item : ε} {calls : List (HandlerCall ε)} {ending : Except Halt Unit},
      Dispatched s item calls ending → ∀ call ∈ calls, call.sequence = s := by
    intro s item calls ending hd
    cases hd <;> simp [HandlerCall.sequence]
  induction h with
  | done => simp
  | next hd _ ih =>
    intro call hcall
    rcases List.mem_append.mp hcall with hcall | hcall
    · simp [hone hd call hcall]
    · exact List.mem_cons_of_mem _ (ih call hcall)
  | stop hd =>
    intro call hcall
    simp [hone hd call hcall]

/-- A poll has nothing to do with what is before the position. -/
theorem Inspected.after {batch : UInt64} {m' : HandlerPolls cap P Q σ}
    {result : Except Halt PollState}
    {calls : List (HandlerCall ε)} (h : Inspected metrics q batch see m result calls m') {t : ℤ}
    (le : t ≤ m.position.toInt) : ∀ call ∈ calls, t < call.sequence.toInt := by
  have hhandled : ∀ {win : Window} {ending : Except Halt Unit},
      Handled metrics q batch see m win calls ending m' →
        ∀ call ∈ calls, t < call.sequence.toInt := by
    intro win ending hh call hcall
    have hmem := sequence_of_trace hh.trace call hcall
    simp only [items, List.mem_map, List.mem_filterMap, Option.map_eq_some_iff] at hmem
    obtain ⟨_, ⟨s, hs, item, -, rfl⟩, hsame⟩ := hmem
    have hbounds := Window.mem_sequences.mp hs
    have hfirst := hh.first
    rw [← hsame]
    simp only
    omega
  cases h with
  | idle _ => simp
  | released hh _ _ _ => exact hhandled hh
  | waiting hh _ _ _ _ => exact hhandled hh

/-- A poll gives its handler the items of its window in order, in any state that
producers and consumers reach together. For each item there is one call, followed by one
report if the item was rejected, until a call gives up. What was rejected is counted, the
whole window is released, and no later poll makes a call for any sequence of it. Producers
claim only while one more lap of words is left after the claim. -/
theorem handled_once {producer consumer : Multiplicity} :
    (∀ {ε L : Type} {m : HandlerPolls cap P Q ε} {q : Q}
      {handler : Handler ε (EventRing cap ε × L)},
      m.Reachable producer consumer metrics → m.Ready q → Modest P q id handler →
      ∀ (context : String) (batch : UInt64) {b : EventRing cap ε}, m.Around b →
      ∀ (log : List (HandlerCall ε)) (l : L), ∃ b' l' result calls m',
        (EventRing.poll Part.first context batch handler.logged).outcome (b, log, l) =
          (result, b', log ++ calls, l') ∧
        m'.Around b' ∧ Inspected metrics q batch some m result calls m') ∧
    (∀ {α L : Type} {m : HandlerPolls cap P Q (Option α)} {q : Q}
        {handler : Handler α (Channel cap α × L)},
      m.Reachable producer consumer metrics → m.Ready q → Modest P q Channel.ring handler →
      ∀ (context : String) (batch : UInt64) {b : Channel cap α}, m.Around b.ring →
      ∀ (log : List (HandlerCall α)) (l : L), ∃ b' l' result calls m',
        (Channel.pollHandler Part.first context batch handler.logged).outcome (b, log, l) =
          (result, b', log ++ calls, l') ∧
        m'.Around b'.ring ∧ Inspected metrics q batch id m result calls m') ∧
    ∀ {σ ε : Type} {see : σ → Option ε} {m m₁ m₂ m₃ : HandlerPolls cap P Q σ} {q r : Q}
      {batch batch' : UInt64} {win : Window} {ending : Except Halt Unit}
      {result : Except Halt PollState} {calls calls' : List (HandlerCall ε)},
      Handled metrics q batch see m win calls ending m₁ → m₁.Run m₂ →
      Inspected metrics r batch' see m₂ result calls' m₃ →
      ∀ call ∈ calls', win.last.toInt < call.sequence.toInt := by
  refine ⟨?_, ?_, ?_⟩
  · intro ε L m q handler h ready modest context batch b around log l
    exact inspected_events modest h.sound ready context batch around log l
  · intro α L m q handler h ready modest context batch b around log l
    exact inspected_values modest h.sound ready context batch around log l
  · intro σ ε see m m₁ m₂ m₃ q r batch batch' win ending result calls calls' hhandled hrun hlater
    exact hlater.after (hhandled.past m₂ hrun)

/-- Rejects sequence 0, and gives up on the next. -/
def picky {B : Type} : Handler ℕ (B × Unit) where
  onEvent _ s := if s = 0 then pure (.error "spoiled") else throw (.raised "enough")
  onError _ _ _ := pure ()

theorem modest_picky (q : ℕ) (ring : B → Ring cap σ) :
    Modest ℕ q ring (picky : Handler ℕ (B × Unit)) := by
  constructor
  · intro context s m win x b l _ _ around
    refine ⟨m, .refl, ?_⟩
    unfold picky
    simp only
    split <;> exact around
  · intro context s text m win x b l _ _ around
    exact ⟨m, .refl, around⟩

/-- A producer has published two sequences at once. -/
theorem reachable_two (slots : Slots .two σ) :
    ∃ (stages : ℕ → Stage) (holder : ℤ → Holder ℕ), Reachable .multi .multi true
      (⟨⟨⟨⟨1, -1, .shared (-1) (.markRange (.new .two) 0 1), some { itemsPublished := 2 }⟩, stages,
        holder⟩, .competing (-1), fun _ => .idle⟩, slots, []⟩ : HandlerPolls .two ℕ ℕ σ) := by
  have htwo : Capacity.two.checkClaim 2 = .ok 2 := rfl
  have hown : ∀ t : ℤ, (0 : Int64).toInt ≤ t → t ≤ (1 : Int64).toInt → t = 0 ∨ t = 1 := by
    intro t (ht : 0 ≤ t) (ht' : t ≤ 1)
    omega
  have h₀ : RingParties.Reachable .multi .multi true
      (.new .two .multi .multi true : RingParties .two ℕ ℕ) := .refl
  have h₁ := h₀.tail (.produce (.claim (p := 0) (.draw (t := ⟨1, -1⟩) ⟨rfl, nofun⟩ htwo rfl
    (Producers.lasts_of_few _ (by decide)))))
  have h₂ := h₁.tail (.produce (.claim (p := 0) (.trust rfl (by decide))))
  have h₃ := h₂.tail (.produce (.claim (p := 0) (.redeem rfl rfl rfl)))
  have h₄ : RingParties.Reachable .multi .multi true
    ⟨⟨⟨1, -1, .shared (-1) (.markRange (.new .two) 0 1),
      some { itemsPublished := 2 }⟩, _, _⟩, .competing (-1), fun _ => .idle⟩ :=
    h₃.tail (.produce (.publish
      (fun t (ht : (0 : Int64).toInt ≤ t) (ht' : t ≤ (1 : Int64).toInt) => ⟨0, by
        rcases hown t ht ht' with rfl | rfl <;> rfl⟩) (by decide) nofun (Or.inl rfl)))
  exact ⟨_, _, slots, run_of_parties h₄ slots []⟩

/-- A handler rejects the first event and gives up on the second, and both are released. -/
theorem handled_once_picky :
    ∃ (m m' : HandlerPolls .two ℕ ℕ ℕ) (win : Window), m.Reachable .multi .multi true ∧
      Handled true 0 5 some m win [.event 0 7 (.ok (.error "spoiled")),
        .error 0 "spoiled" (.ok ()), .event 1 8 (.error (.raised "enough"))]
        (.error (.raised "enough")) m' ∧ m'.sequencer.gating = win.last := by
  obtain ⟨stages, holder, h⟩ := reachable_two (⟨#v[7, 8]⟩ : Slots .two ℕ)
  set m : HandlerPolls .two ℕ ℕ ℕ := ⟨⟨⟨⟨1, -1, .shared (-1) (.markRange (.new .two) 0 1),
    some { itemsPublished := 2 }⟩, stages, holder⟩, .competing (-1), fun _ => .idle⟩,
    ⟨#v[7, 8]⟩, []⟩
  set b : EventRing .two ℕ := { Ring.new {} ⟨#v[7, 8]⟩ with
    sequencer := ⟨1, -1, .shared (-1) (.markRange (.new .two) 0 1), some { itemsPublished := 2 }⟩
    poller := .competing (-1) }
  have haround : m.Around b := ⟨rfl, rfl, rfl⟩
  obtain ⟨b', l', result, calls, m', hrun, -, hinspected⟩ :=
    handled_once.1 h ⟨rfl, nofun⟩ (modest_picky 0 id) "" 5 haround [] ()
  have hresult : .error (.raised "enough") = result := congrArg Prod.fst hrun
  have hcalls : [.event 0 7 (.ok (.error "spoiled")), .error 0 "spoiled" (.ok ()),
      .event 1 8 (.error (.raised "enough"))] = calls := congrArg (fun r => r.2.2.1) hrun
  subst hresult hcalls
  generalize hended : (.error (.raised "enough") : Except Halt PollState) = result at hinspected
  cases hinspected with
  | @released win _ ending _ hhandled _ hgating _ =>
    obtain rfl : ending = .error (.raised "enough") := by
      cases ending with
      | ok u => simp [Except.map] at hended
      | error e => simpa [Except.map] using hended.symm
    exact ⟨m, m', win, h, hhandled, hgating⟩
  | waiting _ _ _ _ _ => simp at hended

end LapRing.HandlerPolls
