import LapRing.Proofs.RingParties
import LapRing.Proofs.NestedSends
import LapRing.Proofs.Refusals

/-!
# A callback that sends may as well send afterwards

When a consumer calls, its window begins right after gating. Whatever its callback sends
through the same channel goes behind the cursor, so the window stays as it was opened and
what was accepted can be put off until the window is released. Room is counted from gating
as it was when the consumer called.
-/
namespace LapRing

/-- Sequencers that differ in counts are level alike. -/
theorem Sequencer.Level.of_uncounted {cap : Capacity} {s s' : Sequencer cap} {published : Set ℤ}
    (h : s.Level published) (same : s.uncounted = s'.uncounted) :
    s'.gating = s.gating ∧ s'.Level published := by
  obtain ⟨cursor, gating, claims, tally⟩ := s
  obtain ⟨cursor', gating', claims', tally'⟩ := s'
  obtain ⟨rfl, rfl, rfl⟩ : cursor = cursor' ∧ gating = gating' ∧ claims = claims' := by
    simpa [uncounted] using same
  obtain ⟨⟨hstarted, hcached, hreleased, hnear, hclaimed, hroom, hrecords⟩, hlevel⟩ := h
  exact ⟨rfl, ⟨hstarted, hcached, hreleased, hnear, hclaimed, hroom, hrecords⟩, hlevel⟩

namespace Channel
open Sequencer
variable {cap : Capacity} {α L M : Type}

/-- A receive whose callback may send, with the log that is kept of it. -/
def busyReceive (batch : UInt64) (f : α → Act (Channel cap α × (L × CallbackLog α)) Unit)
    (c : Channel cap α) (l : L) : Except Halt PollState × Channel cap α × (L × CallbackLog α) :=
  (receive here batch (heeding f)).outcome (c, l, {})

/-- A receive whose callback sends nothing, with the values that arrive. -/
def quietReceive (batch : UInt64) (stop : Option (ℕ × Halt)) (c : Channel cap α) :
    Except Halt PollState × Channel cap α × List α :=
  (receive here batch fun value => Act.outer (listening stop value)).outcome (c, [])

/-- Nobody can tell which of the two is there. -/
structure Indistinct (c c' : Channel cap α) : Prop where
  slots : c.ring.slots = c'.ring.slots
  cursor : c.ring.sequencer.cursor = c'.ring.sequencer.cursor
  gating : c.ring.sequencer.gating = c'.ring.sequencer.gating
  discarded : c.discarded = c'.discarded
  length : ∀ W, (c.length : Act W UInt64) = c'.length
  unnoticed : ∀ {L : Type} (l : L), Unnoticed (Sequencer.Onward hereSequencer) hereSequencer
    (Access.serve : Access α L → Act (Channel cap α × L) (Reply α)) (c', l) (c, l)

/-- A receive that ends this way comes to the same as one whose callback sends nothing and
gives up at the same value, if what was accepted is sent after it. What waits for ever is
something that did not fit. -/
structure PutOff (batch : UInt64) (c : Channel cap α) (ending : Except Halt PollState)
    (after : Channel cap α) (log : CallbackLog α) : Prop where
  safe : ∀ reason, ending ≠ .error (.fault reason)
  fair : log.Fair cap c.ring.sequencer.gating
  overdue : ending = .error .stalled → log.Overdue cap c.ring.sequencer.gating
  deferred : ending ≠ .error .stalled → ∃ between answers later,
    quietReceive batch (stopOf ending log.heard.length) c =
        (ending, between, log.heard) ∧
      serveAll (Channel.serve []) (log.accepted.map SendCall.call) (between, ()) =
        (answers, (later, ())) ∧
      (∀ answer ∈ answers, SendCall.accepted answer = true) ∧ after.Indistinct later

/-! ## Windows -/

/-- A consumer finds all windows before its own released. -/
structure Poised (published : Set ℤ) (c : Channel cap α) : Prop where
  level : c.ring.sequencer.Level published
  position : c.ring.poller.position c.ring.sequencer = c.ring.sequencer.gating

/-- The window that a consumer opens, whatever its callback will do. -/
structure Opened (published : Set ℤ) (batch : UInt64) (c : Channel cap α) (win : Window) :
    Prop where
  opens : ∀ {M : Type} (m : M), Poller.openWindow hereSequencer herePoller batch (c, m) =
    .ok (some win) (c.withPoller (c.ring.poller.claim win), m)
  turn : win.first.toInt = c.ring.sequencer.gating.toInt + 1
  le : win.first.toInt ≤ win.last.toInt
  le_cursor : win.last.toInt ≤ c.ring.sequencer.cursor.toInt
  read : ∀ t ≤ win.last.toInt, t ∈ published

section Opening
variable {c : Channel cap α} {published : Set ℤ} {batch : UInt64}

/-- Where a window ends does not depend on what the callback will do. -/
theorem Poised.window (h : c.Poised published) (hb : batch ≠ 0) :
    ∃ last : Int64, IsGreatest (publishedRuns published c.ring.sequencer.gating.toInt
        (c.ring.sequencer.gating.toInt + min batch.toNat cap.slots)) last.toInt ∧
      (last = c.ring.sequencer.gating → ∀ {M : Type} (m : M),
        Poller.openWindow hereSequencer herePoller batch (c, m) =
          .ok none (c.withSequencer (c.ring.sequencer.count .idle), m)) ∧
      (last ≠ c.ring.sequencer.gating → ∀ {M : Type} (m : M),
        Poller.openWindow hereSequencer herePoller batch (c, m) =
          .ok (some ⟨c.ring.sequencer.gating + 1, last⟩)
            (c.withPoller (c.ring.poller.claim ⟨c.ring.sequencer.gating + 1, last⟩), m)) := by
  have hopens : ∀ {M : Type} (m : M), _ := fun m =>
    Poller.openWindow_eq lawful_hereSequencer lawful_herePoller (w := (c, m)) h.level.standing
      h.position (le_refl _) h.level.standing.released hb
  obtain ⟨last, hgreatest, -⟩ := hopens ()
  refine ⟨last, hgreatest, fun hnone M m => ?_, fun hsome M m => ?_⟩
  · obtain ⟨last', hgreatest', hopen⟩ := hopens m
    obtain rfl := Int64.toInt_inj.mp (hgreatest'.unique hgreatest)
    rw [Poller.windowTo, if_pos hnone] at hopen
    exact hopen
  · obtain ⟨last', hgreatest', hopen⟩ := hopens m
    obtain rfl := Int64.toInt_inj.mp (hgreatest'.unique hgreatest)
    rw [Poller.windowTo, if_neg hsome] at hopen
    exact hopen

/-- A consumer opens a window or finds none. -/
theorem Poised.openWindow (h : c.Poised published) (batch : UInt64) :
    (∃ c' : Channel cap α, c'.Poised published ∧ ∀ {M : Type} (m : M),
      Poller.openWindow hereSequencer herePoller batch (c, m) = .ok none (c', m)) ∨
    ∃ win, c.Opened published batch win := by
  by_cases hb : batch = 0
  · subst hb
    exact .inl ⟨c, h, fun m => Poller.openWindow_zero (c, m)⟩
  obtain ⟨last, ⟨⟨hle, -, hall⟩, -⟩, hidle, hopen⟩ := h.window hb
  by_cases hnone : last = c.ring.sequencer.gating
  · exact .inl ⟨c.withSequencer (c.ring.sequencer.count .idle),
      ⟨⟨h.level.standing.count _, h.level.claimed⟩, h.position⟩, hidle hnone⟩
  · have hread : ∀ t ≤ last.toInt, t ∈ published := by
      intro t ht
      by_cases hold : t ≤ c.ring.sequencer.gating.toInt
      · exact h.level.standing.released t hold
      · exact hall t (by omega) ht
    have hcursor := h.level.standing.le_cursor (hread _ (le_refl _))
    have hroom := h.level.room
    have hslots := cap.one_le_slots
    have hne : last.toInt ≠ c.ring.sequencer.gating.toInt := fun he =>
      hnone (Int64.toInt_inj.mp he)
    have hfirst : (c.ring.sequencer.gating + 1).toInt = c.ring.sequencer.gating.toInt + 1 :=
      Checked.toInt_succ (by omega)
    have hle' : (c.ring.sequencer.gating + 1).toInt ≤ last.toInt := by omega
    exact .inr ⟨⟨c.ring.sequencer.gating + 1, last⟩, hopen hnone, hfirst, hle', hcursor, hread⟩

/-- A receive with a window hands it out and releases it, however the callback ends. -/
theorem outcome_receive (h : c.Poised published) {win : Window}
    (opened : c.Opened published batch win) {m m' : M}
    {f : α → Act (Channel cap α × M) Unit} {ending : Except Halt ℕ} {c' : Channel cap α}
    (run : (win.sequences.foldlM (handing f) 0).outcome
      (c.withPoller (c.ring.poller.claim win), m) = (ending, (c', m')))
    (gating : c'.ring.sequencer.gating = c.ring.sequencer.gating) :
    (receive here batch f).outcome (c, m) =
      (ending.map fun _ => .processing, (c'.released win, m')) := by
  have hstart := h.level.start_le
  have hroom := h.level.room
  have hslots := cap.one_le_slots
  have hturn := opened.turn
  have hcursor := opened.le_cursor
  have hrelease : Poller.release hereSequencer herePoller win (c', m') =
      .ok () (c'.released win, m') :=
    Poller.release_eq lawful_hereSequencer lawful_herePoller (w := (c', m'))
      (show win.first.toInt = c'.ring.sequencer.gating.toInt + 1 by rw [gating]; exact hturn)
      opened.le (by omega)
  have hdrain : (drain here (fun value _ => f value) win).outcome
      (c.withPoller (c.ring.poller.claim win), m) = (ending, (c', m')) := by
    rw [drain_handing]
    exact run
  have hafter : Poller.release hereSequencer herePoller win
      ((drain here (fun value _ => f value) win).outcome
        (c.withPoller (c.ring.poller.claim win), m)).2 = .ok () (c'.released win, m') := by
    rw [hdrain]
    exact hrelease
  have hpoll : (receiveCount here batch fun value _ => f value).outcome (c, m) =
      (ending.map some, (c'.released win, m')) := by
    have hpolled := Poller.poll_outcome (drain here fun value _ => f value)
      (opened.opens m) hafter
    rwa [hdrain] at hpolled
  have hreceive := Act.outcome_bind_pure (receiveCount here batch fun value _ => f value) stateOf
    (c, m)
  rw [hpoll] at hreceive
  refine hreceive.trans ?_
  cases ending <;> rfl

/-- A receive without a window is idle. -/
theorem outcome_receive_none {c' : Channel cap α} {m : M}
    (hopen : Poller.openWindow hereSequencer herePoller batch (c, m) = .ok none (c', m))
    (f : α → Act (Channel cap α × M) Unit) :
    (receive here batch f).outcome (c, m) = (.ok .idle, (c', m)) := by
  have hpoll := Poller.poll_none (drain here fun value _ => f value) hopen
  exact Act.outcome_ok (Act.bind_ok hpoll)

end Opening

/-! ## Putting off -/

/-- Channels that are alike cannot be told apart, if what producers remember is of the past. -/
theorem Alike.indistinct {c c' : Channel cap α} (h : c.Alike c') {published : Set ℤ}
    (level : c'.ring.sequencer.Level published)
    (past : c.ring.sequencer.cached.toInt ≤ c.ring.sequencer.gating.toInt) : c.Indistinct c' := by
  obtain ⟨hslots, hcursor, hgating, hdiscarded⟩ := h.views
  refine ⟨hslots, hcursor, hgating, hdiscarded, fun W => ?_, fun l => ?_⟩
  · simp only [Channel.length, Ring.length, hcursor, hgating]
  · have hclaimed := level.claimed
    have hstart := level.start_le
    have hle := level.gating_le
    have hcached := level.standing.cached_le
    have hmindful : c'.ring.sequencer.Mindful :=
      ⟨Int64.le_iff_toInt_le.mpr hcached, by rw [hclaimed]; omega⟩
    have hback : c'.Alike c := h.symm
    have hsame : (c, l) = recalling hereSequencer c.ring.sequencer.cached (c', l) :=
      Prod.ext hback.eq_withCached rfl
    rw [hsame]
    refine unnoticed_of_recalling (w := (c', l)) lawful_hereSequencer
      (fun call w mindful => Access.oblivious mindful call) hmindful ?_
    rw [Int64.le_iff_toInt_le]
    change c.ring.sequencer.cached.toInt ≤ c'.ring.sequencer.gating.toInt
    rwa [← hgating]

/-- What producers remember of the past keeps the sequencer level. -/
theorem Alike.level {c c' : Channel cap α} (h : c.Alike c') {published : Set ℤ}
    (level : c'.ring.sequencer.Level published) (started : -1 ≤ c.ring.sequencer.cached.toInt)
    (past : c.ring.sequencer.cached.toInt ≤ c.ring.sequencer.gating.toInt) :
    c.ring.sequencer.Level published := by
  have hback : c'.Alike c := h.symm
  rw [h.views.2.2.1] at past
  rw [hback.eq_withCached]
  exact level.withCached started past

section Windows
variable {c : Channel cap α} {published : Set ℤ} {batch : UInt64} {win : Window}

theorem Opened.inside (h : c.Opened published batch win) {s : Int64} (hs : s ∈ win.sequences) :
    c.ring.sequencer.gating.toInt < s.toInt ∧ s.toInt ≤ c.ring.sequencer.cursor.toInt := by
  have hmem := Window.mem_sequences.mp hs
  have hturn := h.turn
  have hcursor := h.le_cursor
  omega

/-- What fits before a window is released fits after that. -/
theorem Opened.fits (h : c.Opened published batch win) {y : Channel cap α}
    (same : y.ring.sequencer = c.ring.sequencer) {ps : List (SendCall α Unit)} (fits : y.Fits ps) :
    (y.released win).Fits ps := by
  have hturn := h.turn
  have hle := h.le
  unfold Fits at fits ⊢
  change _ ∨ y.ring.sequencer.cursor.toInt + _ ≤ win.last.toInt + _
  rw [same] at fits ⊢
  omega

theorem Poised.calm (h : c.Poised published) (few : c.ring.sequencer.claimed.toInt + 1 < 2 ^ 62) :
    c.ring.sequencer.Calm := by
  have hslots := cap.slots_le_int
  rw [h.level.claimed] at few
  exact ⟨⟨published, h.level⟩, by omega⟩

/-- Once the window is released, what was put off is sent. -/
theorem Opened.resent (h : c.Opened published batch win) (level : c.ring.sequencer.Level published)
    (calm : c.ring.sequencer.Calm) {y x : Channel cap α} {d : CallbackLog α}
    (same : y.ring.sequencer = c.ring.sequencer) (abreast : Abreast y x d) :
    ∃ answers later, serveAll (Channel.serve []) (d.accepted.map SendCall.call)
      (y.released win, ()) =
        (answers, (later, ())) ∧ (∀ answer ∈ answers, SendCall.accepted answer = true) ∧
      (x.released win).Indistinct later ∧
      ∃ published', (x.released win).ring.sequencer.Level published' := by
  have hturn := h.turn
  have hle := h.le
  have hcursor := h.le_cursor
  have hroom := calm.room
  have hreleased : (y.released win).ring.sequencer.Level published := by
    change (Poller.afterRelease win y.ring.sequencer).Level published
    rw [same]
    exact level.afterRelease (by omega) h.read
  have hfits := h.fits same abreast.fits
  have hlaps : (y.released win).ring.sequencer.gating.toInt + 2 * cap.slots < 2 ^ 63 := by
    change win.last.toInt + 2 * cap.slots < 2 ^ 63
    omega
  obtain ⟨answers, hserve, hall⟩ := serveAll_sendCalls abreast.honest hreleased hfits hlaps
  obtain ⟨-, -, published', -, hlater⟩ := level_afterSendCalls hreleased hfits hlaps
  obtain ⟨published₀, hx⟩ := abreast.level
  have hgating := (abreast.positions (same ▸ calm)).1
  have hpast : (x.released win).ring.sequencer.cached.toInt ≤
      (x.released win).ring.sequencer.gating.toInt := by
    have hcached := hx.standing.cached_le
    rw [hgating, same] at hcached
    change x.ring.sequencer.cached.toInt ≤ win.last.toInt
    omega
  have halike : (x.released win).Alike ((y.released win).afterSendCalls d.accepted) :=
    (alike_released abreast.alike win).trans (released_afterSendCalls win _ y)
  exact ⟨answers, _, hserve, hall, halike.indistinct hlater hpast, published',
    halike.level hlater hx.standing.started hpast⟩

section Drained
variable {ending : Except Halt ℕ} {x : Channel cap α} {l : L} {d : CallbackLog α}
  (h : c.Poised published) (calm : c.ring.sequencer.Calm) (opened : c.Opened published batch win)
  (drained : Drained (c.withPoller (c.ring.poller.claim win)) {} win.sequences 0 ending (x, l, d))
include h calm opened drained

/-- A window that was handed out with sends could as well be handed out without them. -/
theorem Drained.putOff :
    PutOff batch c (ending.map fun _ => .processing) (x.released win) d := by
  have herror : ∀ e, (ending.map fun _ => PollState.processing) = .error e → ending = .error e := by
    cases ending <;> simp [Except.map]
  refine ⟨fun reason he => drained.safe reason (herror _ he), drained.fair,
    fun he => drained.overdue (herror _ he), fun hne => ?_⟩
  obtain ⟨y, hsame, -, habreast, hlistened⟩ := drained.listened fun he => hne (by rw [he]; rfl)
  obtain ⟨answers, later, hserve, hall, hindistinct, -⟩ := opened.resent h.level calm hsame habreast
  have hquiet := outcome_receive h opened hlistened (by rw [hsame]; rfl)
  refine ⟨_, answers, later, ?_, hserve, hall, hindistinct⟩
  rw [stopOf_map]
  exact hquiet

/-- After the release the next consumer is poised. -/
theorem Drained.poised (ends : ending ≠ .error .stalled) :
    ∃ published', (x.released win).Poised published' := by
  obtain ⟨y, hsame, hpoller, habreast, -⟩ := drained.listened ends
  obtain ⟨-, -, -, -, -, published', hlevel⟩ := opened.resent h.level calm hsame habreast
  refine ⟨published', hlevel, ?_⟩
  have hclaim : x.ring.poller = c.ring.poller.claim win := by
    rw [habreast.alike.poller, poller_afterSendCalls, hpoller]
    rfl
  change x.ring.poller.position (Poller.afterRelease win x.ring.sequencer) = win.last
  rw [hclaim]
  exact c.ring.poller.position_claim_afterRelease win x.ring.sequencer

end Drained

/-- A consumer that finds all before its window released may send from its callback. -/
theorem Poised.putOff (h : c.Poised published) (few : c.ring.sequencer.claimed.toInt + 1 < 2 ^ 62)
    {f : α → Act (Channel cap α × (L × CallbackLog α)) Unit} (sends : ∀ value, Sends (f value))
    (batch : UInt64) (l : L) :
    PutOff batch c (busyReceive batch f c l).1 (busyReceive batch f c l).2.1
        (busyReceive batch f c l).2.2.2 ∧
      ((busyReceive batch f c l).1 ≠ .error .stalled → ∃ published',
        (busyReceive batch f c l).2.1.Poised published') := by
  have hcalm := h.calm few
  obtain ⟨c', hc', hopen⟩ | ⟨win, hopened⟩ := h.openWindow batch
  · have hbusy : busyReceive batch f c l = (.ok .idle, (c', (l, {}))) :=
      outcome_receive_none (hopen _) _
    have hquiet : quietReceive batch none c = (.ok .idle, (c', [])) :=
      outcome_receive_none (hopen _) _
    have halike : c'.Alike c' := rfl
    rw [hbusy]
    refine ⟨⟨nofun, CallbackLog.fair_new _ _, nofun, fun _ => ?_⟩, fun _ => ⟨published, hc'⟩⟩
    exact ⟨c', [], c', hquiet, rfl, by simp,
      halike.indistinct hc'.level hc'.level.standing.cached_le⟩
  · have habreast : Abreast (c.withPoller (c.ring.poller.claim win))
        (c.withPoller (c.ring.poller.claim win)) {} :=
      ⟨rfl, .inl rfl, by simp [CallbackLog.accepted], published, h.level⟩
    have hopening : (c.withPoller (c.ring.poller.claim win)).ring.sequencer.Calm := hcalm
    have hdrained := drained sends hopening (fun s hs => hopened.inside hs) habreast
      (CallbackLog.fair_new _ _) 0 l
    rcases hrun : (win.sequences.foldlM (handing (heeding f)) 0).outcome
      (c.withPoller (c.ring.poller.claim win), l, {}) with ⟨ending, x, l', d⟩
    rw [hrun] at hdrained
    have hbusy : busyReceive batch f c l =
        (ending.map fun _ => .processing, (x.released win, (l', d))) :=
      outcome_receive h hopened hrun hdrained.gating
    rw [hbusy]
    refine ⟨hdrained.putOff h hcalm hopened, fun hne => hdrained.poised h hcalm hopened ?_⟩
    exact fun he => hne (congrArg (Except.map fun _ => PollState.processing) he)

end Windows

/-! ## Channels that consumers find -/

/-- A channel as a consumer finds it that calls now. Other parties have come as far as they
like, but drain no window, and a sole producer has published what it claimed. Or calls were
made one after the other, also from callbacks. Handles, counts and consumers that sleep make
no difference. -/
inductive Reached : Channel cap α → Prop
  | new (settings : Settings) : Reached (.new cap settings)
  | amid {c : Channel cap α} {producer consumer : Multiplicity} {metrics : Bool}
      {parties : RingParties cap ℕ ℕ} : parties.Reachable producer consumer metrics →
      (∀ q win, parties.visits q ≠ .draining win) →
      (parties.sequencer.producer = .single →
      parties.sequencer.claimed = parties.sequencer.cursor) →
      parties.sequencer.uncounted = c.ring.sequencer.uncounted → parties.poller = c.ring.poller →
      Reached c
  | elsewhere {c c' : Channel cap α} : Reached c →
      c.ring.sequencer.uncounted = c'.ring.sequencer.uncounted → c.ring.poller = c'.ring.poller →
      Reached c'
  | sent {c : Channel cap α} {L : Type} (p : SendCall α L) (l : L) :
      Reached c → c.ring.sequencer.claimed.toInt + 1 < 2 ^ 62 → p.Honest →
      ((Channel.serve [] p.call).outcome (c, l)).1 ≠ .error .stalled →
      Reached ((Channel.serve [] p.call).outcome (c, l)).2.1
  | received {c : Channel cap α} {L : Type} (batch : UInt64)
      {f : α → Act (Channel cap α × (L × CallbackLog α)) Unit} (l : L) :
      Reached c → c.ring.sequencer.claimed.toInt + 1 < 2 ^ 62 → (∀ value, Sends (f value)) →
      (busyReceive batch f c l).1 ≠ .error .stalled → Reached (busyReceive batch f c l).2.1

section Reaching
variable {c : Channel cap α} {published : Set ℤ}

/-- A consumer stays poised while gating and the position stay. -/
theorem Poised.keep (h : c.Poised published) {c' : Channel cap α} {published' : Set ℤ}
    (level : c'.ring.sequencer.Level published')
    (gating : c'.ring.sequencer.gating = c.ring.sequencer.gating)
    (poller : c'.ring.poller = c.ring.poller) : c'.Poised published' := by
  refine ⟨level, ?_⟩
  have hposition := h.position
  unfold Poller.position at hposition ⊢
  rw [poller, gating]
  exact hposition

/-- Nobody drains a window, so the position is gating. -/
theorem poised_amid {parties : RingParties cap ℕ ℕ} (sound : parties.Sound)
    (still : ∀ q win, parties.visits q ≠ .draining win)
    (order : parties.sequencer.producer = .single →
      parties.sequencer.claimed = parties.sequencer.cursor)
    (same : parties.sequencer.uncounted = c.ring.sequencer.uncounted)
    (poller : parties.poller = c.ring.poller) : c.Poised parties.published := by
  have hclaimed : parties.sequencer.claimed = parties.sequencer.cursor := by
    rcases parties.sequencer.shared_or_single with hshared | hsole
    · exact (cursor_of_shared hshared).symm
    · exact order hsole
  obtain ⟨hgating, hlevel⟩ := Level.of_uncounted ⟨sound.producers.standing, hclaimed⟩ same
  have hposition : parties.position = parties.sequencer.gating := by
    refine Int64.toInt_inj.mp (le_antisymm ?_ sound.gating_le)
    by_contra hahead
    obtain ⟨q, win, hq, -⟩ := sound.covered parties.position.toInt (by omega) (le_refl _)
    exact still q win hq
  refine ⟨hlevel, ?_⟩
  rw [hgating, ← hposition, ← poller]
  unfold RingParties.position Poller.position
  rw [hgating]

/-- A send leaves the next consumer poised. -/
theorem Poised.sent (h : c.Poised published)
    (few : c.ring.sequencer.claimed.toInt + 1 < 2 ^ 62) {p : SendCall α L}
    (honest : p.Honest) {l : L}
    (ends : ((Channel.serve [] p.call).outcome (c, l)).1 ≠ .error .stalled) :
    ∃ published', ((Channel.serve [] p.call).outcome (c, l)).2.1.Poised published' := by
  have hcalm := h.calm few
  have hroom := hcalm.room
  by_cases hfits : p.size = 0 ∨ c.ring.sequencer.cursor.toInt + p.size.toNat ≤
      c.ring.sequencer.gating.toInt + cap.slots
  · obtain ⟨ending, l', hserve, -⟩ := serve_accepting h.level honest hfits hcalm.room_gating l
    obtain ⟨hgating, -, published', -, hlevel⟩ :=
      level_afterSendCall h.level hfits hcalm.room_gating l
    rw [hserve]
    exact ⟨published', h.keep hlevel hgating (poller_afterSendCall l p c)⟩
  · obtain ⟨hsize, hfull⟩ := not_or.mp hfits
    obtain ⟨answer, seen, hseen, hserve, -⟩ | ⟨hserve, -⟩ :=
      serve_full h.level (p.pos_of_size hsize) (by omega) (by omega) l
    · rw [hserve]
      exact ⟨published, h.keep (h.level.remember hseen) (gating_withCached _ _) rfl⟩
    · rw [hserve] at ends
      exact absurd rfl ends

theorem Reached.poised (h : c.Reached) : ∃ published, c.Poised published := by
  induction h with
  | new settings =>
    refine ⟨_, settled_new _ _ _, ?_⟩
    change (Poller.new settings.consumer _).position _ = _
    cases settings.consumer <;> rfl
  | amid reachable still order same poller =>
    exact ⟨_, poised_amid reachable.sound still order same poller⟩
  | elsewhere _ same poller ih =>
    obtain ⟨published, hpoised⟩ := ih
    obtain ⟨hgating, hlevel⟩ := hpoised.level.of_uncounted same
    exact ⟨published, hpoised.keep hlevel hgating poller.symm⟩
  | sent p l _ few honest ends ih =>
    obtain ⟨published, hpoised⟩ := ih
    exact hpoised.sent few honest ends
  | received batch l _ few sends ends ih =>
    obtain ⟨published, hpoised⟩ := ih
    exact (hpoised.putOff few sends batch l).2 ends

/-- Sending from inside a receive is safe and keeps the order. The values that arrive are
those that arrive at a callback that sends nothing. What the callback sends is accepted
exactly if it has room from gating as it was before the receive, and comes to the same as
if it were sent after the receive. -/
theorem sends_put_off (reached : c.Reached) (few : c.ring.sequencer.claimed.toInt + 1 < 2 ^ 62)
    {f : α → Act (Channel cap α × (L × CallbackLog α)) Unit} (sends : ∀ value, Sends (f value))
    (batch : UInt64) (l : L) :
    PutOff batch c (busyReceive batch f c l).1 (busyReceive batch f c l).2.1
      (busyReceive batch f c l).2.2.2 := by
  obtain ⟨published, hpoised⟩ := reached.poised
  exact (hpoised.putOff few sends batch l).1

/-- Offers two more numbers and gives up. -/
def greedy (value : ℕ) : Act (Channel .two ℕ × (Unit × CallbackLog ℕ)) Unit := do
  let _ ← send (.offered (value + 10))
  let _ ← send (.offered (value + 20))
  Act.outer (Part.first.lift (throw (.raised "enough")))

theorem sends_greedy (value : ℕ) : Sends (greedy value) := by
  refine .bind (.send _ trivial) fun _ => .bind (.send _ trivial) fun _ => .own _ ?_
  intro l h l' hthrow
  obtain ⟨rfl, -⟩ := EStateM.Result.error.inj hthrow
  exact ⟨"enough", rfl⟩

/-- The slot of the value that arrived is not free yet, so one of two offers is refused. -/
theorem sends_put_off_greedy :
    ∃ c : Channel .two ℕ, c.Reached ∧ c.ring.sequencer.claimed.toInt + 1 < 2 ^ 62 ∧
      (∀ value, Sends (greedy value)) ∧
      (busyReceive 5 greedy c ()).1 = .error (.raised "enough") ∧
      (busyReceive 5 greedy c ()).2.2.2.heard = [1] ∧
      (busyReceive 5 greedy c ()).2.2.2.attempts.map (·.accepted) = [true, false] ∧
      PutOff 5 c (busyReceive 5 greedy c ()).1 (busyReceive 5 greedy c ()).2.1
        (busyReceive 5 greedy c ()).2.2.2 := by
  have hnew : (Channel.new .two {} : Channel .two ℕ).Reached := .new {}
  have hsent := hnew.sent (.sent 1 : SendCall ℕ Unit) () (by decide) trivial
    (show (.ok .pushed : Except Halt (Answer ℕ)) ≠ .error .stalled by simp)
  have hfew : (((Channel.serve [] (SendCall.sent 1 : SendCall ℕ Unit).call).outcome
    (Channel.new .two {}, ())).2.1).ring.sequencer.claimed.toInt + 1 < 2 ^ 62 := by decide
  exact ⟨_, hsent, hfew, sends_greedy, rfl, rfl, rfl, sends_put_off hsent hfew sends_greedy 5 ()⟩

end Reaching

end Channel

end LapRing
