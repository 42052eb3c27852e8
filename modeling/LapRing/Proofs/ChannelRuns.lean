import LapRing.Proofs.CallRuns
import LapRing.Proofs.ChannelParties
import LapRing.Proofs.Receiving

/-!
# Channel calls as runs

The calls of a channel, made while nobody else moves, are runs of the accesses of its
parties. Others may be in the middle of claims and of writing, but for a
receiver all earlier windows must be released, or it would have to wait.
-/
namespace LapRing.ChannelParties
variable {cap : Capacity} {P Q α : Type}

/-- A channel and its parties, which differ only in what the ring does not keep. -/
structure Shows (m : ChannelParties cap P Q α) (r : Ring cap (Option α)) : Prop where
  sequencer : r.sequencer = m.sequencer
  poller : r.poller = m.poller
  slots : r.slots = m.slots

section Writing
variable [DecidableEq P] [DecidableEq Q] {m : ChannelParties cap P Q α} {p : P}

/-- Puts down that `p` wrote the given entries. -/
def noteAll (p : P) (wrote : ℤ → Option (P × Option α)) :
    List Int64 → List (Option α) → ℤ → Option (P × Option α)
  | s :: ss, x :: xs => noteAll p (Function.update wrote s.toInt (some (p, x))) ss xs
  | _, _ => wrote

omit [DecidableEq P] in
theorem noteAll_of_not_mem (wrote : ℤ → Option (P × Option α)) {ss : List Int64}
    (xs : List (Option α)) {t : ℤ} (ht : ∀ s ∈ ss, s.toInt ≠ t) :
    noteAll p wrote ss xs t = wrote t := by
  induction ss generalizing wrote xs with
  | nil => rfl
  | cons s ss ih =>
    cases xs with
    | nil => rfl
    | cons x xs =>
      rw [noteAll, ih _ _ fun u hu => ht u (List.mem_cons_of_mem _ hu)]
      exact Function.update_of_ne (ht s List.mem_cons_self).symm _ _

omit [DecidableEq P] in
/-- Distinct sequences are all put down with their entries. -/
theorem noteAll_getElem (wrote : ℤ → Option (P × Option α)) {ss : List Int64}
    {xs : List (Option α)} (distinct : ss.Nodup) {k : ℕ} (hk : k < ss.length)
    (hk' : k < xs.length) : noteAll p wrote ss xs ss[k].toInt = some (p, xs[k]) := by
  induction ss generalizing wrote xs k with
  | nil => exact absurd hk (Nat.not_lt_zero k)
  | cons s ss ih =>
    cases xs with
    | nil => exact absurd hk' (Nat.not_lt_zero k)
    | cons x xs =>
      obtain ⟨hs, hss⟩ := List.nodup_cons.mp distinct
      cases k with
      | zero =>
        rw [noteAll, List.getElem_cons_zero, List.getElem_cons_zero, noteAll_of_not_mem _ _ ?_]
        · exact Function.update_self _ _ _
        · intro u hu he
          exact hs (Int64.toInt_inj.mp he ▸ hu)
      | succ k =>
        simp only [noteAll, List.getElem_cons_succ]
        exact ih _ hss _ _

omit [DecidableEq P] in
/-- As many entries as a window is long leave none of it unwritten. -/
theorem noteAll_ne_none (wrote : ℤ → Option (P × Option α)) {win : Window} {xs : List (Option α)}
    (len : xs.length = win.size) {t : ℤ} (lo : win.first.toInt ≤ t) (hi : t ≤ win.last.toInt) :
    noteAll p wrote win.sequences xs t ≠ none := by
  have hsize := win.size_eq
  have hlen := win.length_sequences
  have hk : (t - win.first.toInt).toNat < win.sequences.length := by omega
  have ht : (win.sequences[(t - win.first.toInt).toNat]).toInt = t := by
    rw [win.toInt_getElem_sequences hk]
    omega
  rw [← ht, noteAll_getElem _ (List.Nodup.of_map _ win.nodup_sequences) hk (by omega)]
  simp

/-- Writing entries is a run, one slot after the other. -/
theorem write_run {ss : List Int64} (xs : List (Option α)) (distinct : ss.Nodup)
    (own : ∀ s ∈ ss, m.holder s.toInt = .owned p) (unwritten : ∀ s ∈ ss, m.wrote s.toInt = none) :
    Relation.ReflTransGen Step m { m with
      slots := m.slots.writeAll ss xs
      wrote := noteAll p m.wrote ss xs } := by
  induction ss generalizing m xs with
  | nil => exact .refl
  | cons s ss ih =>
    cases xs with
    | nil => exact .refl
    | cons x xs =>
      obtain ⟨hs, hss⟩ := List.nodup_cons.mp distinct
      have hwrite := Step.write x (own s List.mem_cons_self) (unwritten s List.mem_cons_self)
      refine .head hwrite (ih xs hss (fun u hu => own u (List.mem_cons_of_mem _ hu)) fun u hu => ?_)
      have hne : u.toInt ≠ s.toInt := fun he => hs (Int64.toInt_inj.mp he ▸ hu)
      exact (Function.update_of_ne hne _ _).trans (unwritten u (List.mem_cons_of_mem _ hu))

/-- A producer that may send: it makes no claim and owns nothing, and no sole
producer has claims outstanding. -/
structure Free (m : ChannelParties cap P Q α) (p : P) : Prop where
  ready : m.toProducers.Ready p
  owns : ∀ t, m.holder t ≠ .owned p
  level : m.sequencer.claimed = m.sequencer.cursor

/-- What sending entries with one claim of `n` makes of a channel and its parties. -/
structure Sent (p : P) (n : Int64) (entries : List (Option α)) (m m' : ChannelParties cap P Q α) :
    Prop where
  run : Relation.ReflTransGen Step m m'
  sent : m'.sent = m.sent ++ [(p, Sequencer.nextWindow m.sequencer n)]
  wrote : m'.wrote = noteAll p m.wrote (Sequencer.nextWindow m.sequencer n).sequences entries
  taken : m'.taken = m.taken

omit [DecidableEq P] [DecidableEq Q] in
theorem Free.lasts (hp : m.Free p) (h : m.Sound) {n : Int64} (pos : 1 ≤ n.toInt)
    (room : m.sequencer.cursor.toInt + n.toInt + cap.slots < 2 ^ 63) :
    Producers.Lasts cap (m.sequencer.claimed + n) := by
  have hstart := h.parties.producers.start_le
  have hlevel := hp.level
  have hhigh : (m.sequencer.claimed + n).toInt = m.sequencer.claimed.toInt + n.toInt :=
    Sequencer.toInt_high cap m.sequencer.claimed n hstart pos (by rw [hlevel]; omega)
  rw [Producers.Lasts, hhigh, hlevel]
  exact room

/-- What `p` may do with a claim of `n` once it was given it: the whole window is its
own, nothing of it is written yet, and it may be published. -/
structure Given (m : ChannelParties cap P Q α) (p : P) (n : Int64) (win : Window) : Prop where
  high : m.sequencer.claimed + n = win.last
  size : (win.size : ℤ) = n.toInt
  le : win.first ≤ win.last
  own : ∀ t, (m.toProducers.owning p win.last (m.sequencer.admitted n)).holder t = .owned p ↔
    win.first.toInt ≤ t ∧ t ≤ win.last.toInt
  unwritten : ∀ s ∈ win.sequences, m.wrote s.toInt = none
  order : (m.sequencer.admitted n).producer = .single →
    win.first.toInt = (m.sequencer.admitted n).cursor.toInt + 1
  publish : Sequencer.publishRange win.first win.last (m.sequencer.admitted n) =
    .ok () ((m.sequencer.admitted n).afterPublish win.first win.last)

omit [DecidableEq P] [DecidableEq Q] in
theorem Free.given (hp : m.Free p) (h : m.Sound) {n : Int64} (pos : 1 ≤ n.toInt)
    (room : m.sequencer.cursor.toInt + n.toInt + cap.slots < 2 ^ 63) :
    m.Given p n (Sequencer.nextWindow m.sequencer n) := by
  have hpos := cap.one_le_slots
  have hlevel : m.sequencer.Level m.published := ⟨h.parties.producers.standing, hp.level⟩
  have hstart := hlevel.start_le
  have hgating := hlevel.gating_le
  set win := Sequencer.nextWindow m.sequencer n with hwin
  have hfirst : win.first.toInt = m.sequencer.cursor.toInt + 1 := hlevel.toInt_first pos (by omega)
  have hlast : win.last.toInt = m.sequencer.cursor.toInt + n.toInt :=
    hlevel.toInt_last pos (by omega)
  have hsize := win.size_eq
  refine ⟨by rw [hp.level]; rfl, by omega, by rw [Int64.le_iff_toInt_le]; omega, ?_, ?_, ?_, ?_⟩
  · intro t
    rw [hfirst, ← hp.level]
    exact Producers.owned_owning hp.owns t
  · intro s hs
    apply h.unwritten
    have := (Window.mem_sequences.mp hs).1
    rw [hp.level]
    omega
  · intro hsingle
    rw [Sequencer.producer_admitted] at hsingle
    rw [Sequencer.cursor_admitted hsingle]
    exact hfirst
  · exact Sequencer.publishRange_eq (Sequencer.forward_admitted n (by omega)) (by omega) (by omega)
      (by omega)

/-- A claim that `p` was given is filled and published in one go. -/
theorem Free.send (hp : m.Free p) (h : m.Sound) {n : Int64} (pos : 1 ≤ n.toInt)
    (room : m.sequencer.cursor.toInt + n.toInt + cap.slots < 2 ^ 63) (entries : List (Option α))
    (len : (entries.length : ℤ) = n.toInt)
    (claim : Relation.ReflTransGen (Producers.Claim p) m.toProducers
      (m.toProducers.owning p (m.sequencer.claimed + n) (m.sequencer.admitted n)))
    {r : Ring cap (Option α)} (hr : m.Shows r) :
    ∃ m' : ChannelParties cap P Q α, Sent p n entries m m' ∧ m'.Shows (r.afterSend n entries) := by
  have hgiven := hp.given h pos room
  set win := Sequencer.nextWindow m.sequencer n with hwin
  rw [hgiven.high] at claim
  set m₁ : ChannelParties cap P Q α :=
    { m with toProducers := m.toProducers.owning p win.last (m.sequencer.admitted n) } with hm₁
  have hrun₁ : Relation.ReflTransGen Step m m₁ :=
    claim.lift (fun producers => { m with toProducers := producers })
      fun _ _ => Step.claim (m := { m with toProducers := _ })
  have hrun₂ := write_run (m := m₁) entries (List.Nodup.of_map _ win.nodup_sequences)
    (fun s hs => (hgiven.own _).mpr (Window.mem_sequences.mp hs)) hgiven.unwritten
  have hsize := hgiven.size
  have hrun₃ := Step.publish (m := { m₁ with
    slots := m₁.slots.writeAll win.sequences entries
    wrote := noteAll p m₁.wrote win.sequences entries }) hgiven.own hgiven.le
    (fun _ hlo hhi => noteAll_ne_none _ (by omega) hlo hhi) hgiven.order (Or.inl hgiven.publish)
  refine ⟨_, ⟨(hrun₁.trans hrun₂).tail hrun₃, rfl, rfl, rfl⟩, ?_, hr.poller, ?_⟩
  · simp only [Ring.afterSend, hr.sequencer]
    rfl
  · simp only [Ring.afterSend, hr.sequencer, hr.slots]
    rfl

section Pushing
open Channel
variable {L : Type} {c : Channel cap α}

/-- A value that fits is sent. -/
theorem Free.push_run (hp : m.Free p) (h : m.Sound)
    (fits : m.sequencer.cursor.toInt < m.sequencer.gating.toInt + cap.slots)
    (room : m.sequencer.cursor.toInt + 1 + cap.slots < 2 ^ 63) (hc : m.Shows c.ring)
    (pauses : List (Pause (Channel cap α × L))) (value : α) (l : L) :
    ∃ (m' : ChannelParties cap P Q α) (c' : Channel cap α), Sent p 1 [some value] m m' ∧
      m'.Shows c'.ring ∧ push here pauses value (c, l) = .ok () (c', l) := by
  have hlevel : m.sequencer.Level m.published := ⟨h.parties.producers.standing, hp.level⟩
  have hring : c.ring.sequencer.Level m.published := hc.sequencer ▸ hlevel
  have hone := Checked.toInt_one
  have hpush := push_eq hring (by rw [hc.sequencer]; exact fits)
    (by rw [hc.sequencer]; exact room) pauses value l
  obtain ⟨-, hclaim⟩ := Producers.claim_run h.parties.producers hp.ready cap.checkClaim_one
    (hp.lasts h (by omega) (by omega)) (by rw [hp.level]; omega) lawful_hereSequencer (w := (c, l))
    hc.sequencer pauses
  obtain ⟨m', hsent, hshows⟩ := hp.send h (n := 1) (by omega) (by omega) [some value]
    (by simp [hone]) hclaim hc
  exact ⟨m', _, hsent, (ring_afterSend _ _ c).symm ▸ hshows, hpush⟩

/-- A value is offered, and sent if there is room. -/
theorem Free.tryPush_run (hp : m.Free p) (h : m.Sound)
    (room : m.sequencer.cursor.toInt + 1 + cap.slots < 2 ^ 63) (hc : m.Shows c.ring) (value : α)
    (l : L) :
    ∃ (m' : ChannelParties cap P Q α) (c' : Channel cap α), m'.Shows c'.ring ∧
      (Sent p 1 [some value] m m' ∧ tryPush here value (c, l) = .ok (.ok ()) (c', l) ∨
        Relation.ReflTransGen Step m m' ∧ m'.sent = m.sent ∧ m'.wrote = m.wrote ∧
          m'.taken = m.taken ∧ tryPush here value (c, l) = .ok (.error value) (c', l)) := by
  have hlevel : m.sequencer.Level m.published := ⟨h.parties.producers.standing, hp.level⟩
  have hring : c.ring.sequencer.Level m.published := hc.sequencer ▸ hlevel
  have hone := Checked.toInt_one
  obtain ⟨hroom, hfull⟩ := tryPush_eq hring (by rw [hc.sequencer]; exact room) value l
  rw [hc.sequencer] at hroom hfull
  by_cases fits : m.sequencer.cursor.toInt < m.sequencer.gating.toInt + cap.slots
  · obtain ⟨-, hclaim⟩ := Producers.attempt_run h.parties.producers hp.ready cap.checkClaim_one
      (hp.lasts h (by omega) (by omega)) (by rw [hp.level]; omega)
    obtain ⟨m', hsent, hshows⟩ := hp.send h (n := 1) (by omega) (by omega) [some value]
      (by simp [hone]) hclaim hc
    exact ⟨m', _, (ring_afterSend _ _ c).symm ▸ hshows, Or.inl ⟨hsent, hroom fits⟩⟩
  · obtain ⟨-, hclaim⟩ := Producers.attempt_full_run h.parties.producers hp.ready cap.checkClaim_one
      (by rw [hp.level]; omega)
    have hrun : Relation.ReflTransGen Step m { m with
        sequencer := m.sequencer.withCached m.sequencer.gating } :=
      hclaim.lift (fun producers => { m with toProducers := producers })
        fun _ _ => Step.claim (m := { m with toProducers := _ })
    exact ⟨{ m with sequencer := m.sequencer.withCached m.sequencer.gating },
      c.withSequencer (m.sequencer.withCached m.sequencer.gating),
      ⟨rfl, hc.poller, hc.slots⟩, Or.inr ⟨hrun, rfl, rfl, rfl, hfull (by omega)⟩⟩

/-- A batch that fits is sent as a whole, however its feed ends. -/
theorem Free.pushBatch_run (hp : m.Free p) (h : m.Sound) (feed : Feed L α)
    (pos : 1 ≤ feed.length.toNat) (le : feed.length.toNat ≤ cap.slots)
    (fits : m.sequencer.cursor.toInt + feed.length.toNat ≤ m.sequencer.gating.toInt + cap.slots)
    (room : m.sequencer.cursor.toInt + feed.length.toNat + cap.slots < 2 ^ 63)
    (hc : m.Shows c.ring) (pauses : List (Pause (Channel cap α × L))) (l : L) :
    ∃ (m' : ChannelParties cap P Q α) (c' : Channel cap α),
      Sent p feed.length.toInt64
        ((feed.gather 0 feed.length.toNat l).entries feed.length.toNat) m m' ∧
      m'.Shows c'.ring ∧
      pushBatch here pauses (outerFeed feed) (c, l) =
        match (feed.gather 0 feed.length.toNat l).ending with
        | .ok () => .ok (.ok feed.length) (c', (feed.gather 0 feed.length.toNat l).world)
        | .error e => .error e (c', (feed.gather 0 feed.length.toNat l).world) := by
  have hsize : feed.length.toInt64.toInt = feed.length.toNat := cap.toInt_toInt64 le
  have hlevel : m.sequencer.Level m.published := ⟨h.parties.producers.standing, hp.level⟩
  have hring : c.ring.sequencer.Level m.published := hc.sequencer ▸ hlevel
  have hpush := pushBatch_eq hring feed pos le (by rw [hc.sequencer]; exact fits)
    (by rw [hc.sequencer]; exact room) pauses l
  obtain ⟨-, hclaim⟩ := Producers.claim_run h.parties.producers hp.ready (cap.checkClaim_ok pos le)
    (hp.lasts h (by omega) (by omega)) (by rw [hp.level]; omega) lawful_hereSequencer (w := (c, l))
    hc.sequencer pauses
  obtain ⟨m', hsent, hshows⟩ := hp.send h (by omega) (by omega)
    ((feed.gather 0 feed.length.toNat l).entries feed.length.toNat)
    (by rw [Yield.length_entries (feed.length_items_gather 0 _ l), hsize]) hclaim hc
  exact ⟨m', _, hsent, (ring_afterSend _ _ c).symm ▸ hshows, hpush⟩

end Pushing

end Writing

section Taking
open Channel
variable [DecidableEq P] [DecidableEq Q] {m : ChannelParties cap P Q α} {q : Q} {win : Window}

/-- Emptying slots of a window is a run, one slot after the other. -/
theorem take_run (hq : m.visits q = .draining win) (k : ℕ) (hk : m.emptied q + k ≤ win.size) :
    ∃ m' : ChannelParties cap P Q α, Relation.ReflTransGen Step m m' ∧
      m'.toRingParties = m.toRingParties ∧
      m'.emptied q = m.emptied q + k ∧ m'.sent = m.sent ∧
      m'.slots = m.slots.writeAll ((win.sequences.drop (m.emptied q)).take k)
        (List.replicate k none) ∧
      m'.taken.map Taking.sequence = m.taken.map Taking.sequence ++
        ((win.sequences.drop (m.emptied q)).take k).map Int64.toInt := by
  induction k generalizing m with
  | zero => exact ⟨m, .refl, rfl, rfl, rfl, rfl, by simp⟩
  | succ k ih =>
    have hlt : m.emptied q < win.sequences.length := by
      rw [win.length_sequences]
      omega
    have htake := Step.take hq (List.getElem?_eq_getElem hlt)
    set m₁ : ChannelParties cap P Q α := { m with
      slots := (m.slots.exchange win.sequences[m.emptied q] none).2
      emptied := Function.update m.emptied q (m.emptied q + 1)
      taken := m.taken ++ [⟨q, win.sequences[m.emptied q].toInt,
        (m.slots.exchange win.sequences[m.emptied q] none).1⟩] } with hm₁
    have hself : m₁.emptied q = m.emptied q + 1 := Function.update_self _ _ _
    obtain ⟨m', hrun, hparties, hemptied, hsent, hslots, htaken⟩ :=
      ih (m := m₁) hq (by rw [hself]; omega)
    rw [hself] at hemptied hslots htaken
    refine ⟨m', hrun.head htake, hparties, by omega, hsent, ?_, ?_⟩
    · rw [hslots, List.drop_eq_getElem_cons hlt, List.take_succ_cons, List.replicate_succ]
      rfl
    · rw [htaken, List.drop_eq_getElem_cons hlt, List.take_succ_cons]
      simp [hm₁]

/-- Emptying the first `k` slots of a window and then releasing it is a run. -/
theorem drain_run (h : m.Sound) (hq : m.visits q = .draining win)
    (turn : win.first.toInt = m.sequencer.gating.toInt + 1) (begun : m.emptied q = 0) {k : ℕ}
    (hk : k ≤ win.size) :
    ∃ m' : ChannelParties cap P Q α, Relation.ReflTransGen Step m m' ∧
      m'.sequencer = Poller.afterRelease win m.sequencer ∧ m'.poller = m.poller ∧
      m'.slots = m.slots.writeAll (win.sequences.take k) (List.replicate k none) ∧
      m'.sent = m.sent ∧
      m'.taken.map Taking.sequence =
        m.taken.map Taking.sequence ++ (win.sequences.take k).map Int64.toInt := by
  obtain ⟨hwin, -⟩ := h.window hq
  have hstart := hwin.start
  have hpos := cap.one_le_slots
  have hroom := h.parties.producers.standing.room
  have hclaimed := h.parties.producers.standing.claimed _ (hwin.read _ (le_refl _))
  obtain ⟨m₁, hrun, hparties, -, hsent, hslots, htaken⟩ := take_run hq k (by omega)
  rw [begun, List.drop_zero] at hslots htaken
  have hsequencer : m₁.sequencer = m.sequencer :=
    congrArg (fun parties => parties.sequencer) hparties
  have hpoller : m₁.poller = m.poller := congrArg (fun parties => parties.poller) hparties
  have hq₁ : m₁.visits q = .draining win := hparties ▸ hq
  have hrelease := Poller.release_eq Part.lawful_first Part.lawful_second
    (w := (m₁.sequencer, m₁.poller))
    (show win.first.toInt = m₁.sequencer.gating.toInt + 1 by rw [hsequencer]; exact turn)
    hwin.le (by omega)
  exact ⟨_, hrun.tail (Step.release hq₁ hrelease),
    congrArg (Poller.afterRelease win) hsequencer, hpoller, hslots, hsent, htaken⟩

/-- Receiving is a run if all earlier windows are released. It takes slots as far
as the receiver goes, and releases the whole window. -/
theorem Sound.receive_run (h : m.Sound) (hq : m.toRingParties.Ready q)
    (turn : m.position = m.sequencer.gating) {L : Type} {c : Channel cap α} (hc : m.Shows c.ring)
    (batch : UInt64) (f : α → Act L Unit) (l : L) :
    ∃ (m' : ChannelParties cap P Q α) (r : Except Halt PollState × Channel cap α × L),
      (receive here batch fun value => Act.outer (f value)).outcome (c, l) = r ∧
      Relation.ReflTransGen Step m m' ∧ m'.Shows r.2.1.ring ∧ m'.sent = m.sent ∧
      (r.1 = .ok .idle ∧ m'.taken = m.taken ∨
        ∃ win k, k ≤ Window.size win ∧ win.first.toInt = m.sequencer.gating.toInt + 1 ∧
          m'.taken.map Taking.sequence =
            m.taken.map Taking.sequence ++ (win.sequences.take k).map Int64.toInt ∧
          (r.1 = .ok .processing ∧ k = win.size ∨ ∃ e, r.1 = .error e)) := by
  by_cases hb : batch = 0
  · refine ⟨m, (.ok .idle, c, l), ?_, .refl, hc, rfl, Or.inl ⟨rfl, rfl⟩⟩
    rw [hb]
    rfl
  rcases RingParties.openWindow_run h.parties hq hb lawful_hereSequencer
    lawful_herePoller (w := (c, l))
    hc.sequencer hc.poller with ⟨hopen, hsearch⟩ | ⟨win, hfirst, hopen, hsearch⟩
  · refine ⟨_, (.ok .idle, c.withSequencer (m.sequencer.count .idle), l), ?_,
      .single (Step.search hsearch), ⟨rfl, hc.poller, hc.slots⟩, rfl, Or.inl ⟨rfl, rfl⟩⟩
    exact Act.outcome_ok (Act.bind_ok
      (Poller.poll_none (drain here fun value _ => Act.outer (f value)) hopen))
  have hrun : Relation.ReflTransGen Step m { m with
      toRingParties := { m.toRingParties with poller := m.poller.claim win }.visit q
        (.draining win) } :=
    hsearch.lift (fun parties => { m with toRingParties := parties })
      fun _ _ => Step.search (m := { m with toRingParties := _ })
  set m₁ : ChannelParties cap P Q α := { m with
    toRingParties := { m.toRingParties with poller := m.poller.claim win }.visit q
      (.draining win) } with hm₁
  have hsound := h.run hrun
  have hq₁ : m₁.visits q = .draining win := RingParties.visits_visit _ _ _
  obtain ⟨hwin, -⟩ := hsound.window hq₁
  have hpos := cap.one_le_slots
  have hnear := hsound.parties.producers.standing.near _ (hwin.read _ (le_refl _))
  have hclaimed := hsound.parties.producers.standing.claimed _ (hwin.read _ (le_refl _))
  have hroom := hsound.parties.producers.standing.room
  have hturn : win.first.toInt = m.sequencer.gating.toInt + 1 := by
    rw [hfirst]
    exact congrArg (Int64.toInt · + 1) turn
  rw [← hc.poller] at hopen
  obtain ⟨k, hk, hwhole, hreceive⟩ := receive_window hopen (by rw [hc.sequencer]; exact hturn)
    hwin.start hwin.le (by rw [hc.sequencer]; exact hnear) (by omega) f
  obtain ⟨m₂, hdrain, hsequencer, hpoller, hslots, hsent, htaken⟩ :=
    drain_run hsound hq₁ hturn (h.unbegun q (by simp [hq.1])) hk
  have hshows : m₂.Shows (c.afterReceive win k).ring := by
    refine ⟨?_, ?_, ?_⟩
    · rw [hsequencer]
      exact congrArg (Poller.afterRelease win) hc.sequencer
    · rw [hpoller]
      exact congrArg (Poller.claim win) hc.poller
    · rw [hslots]
      exact congrArg (fun slots => Slots.writeAll slots (win.sequences.take k) _) hc.slots
  cases hvalues : (win.sequences.filterMap c.ring.slots.read).forM f l with
  | ok u l' =>
    rw [hvalues] at hreceive
    exact ⟨m₂, _, Act.outcome_ok hreceive, hrun.trans hdrain, hshows, hsent,
      Or.inr ⟨win, k, hk, hturn, htaken, Or.inl ⟨rfl, hwhole l' hvalues⟩⟩⟩
  | error e l' =>
    rw [hvalues] at hreceive
    exact ⟨m₂, _, Act.outcome_error hreceive, hrun.trans hdrain, hshows, hsent,
      Or.inr ⟨win, k, hk, hturn, htaken, Or.inr ⟨e, rfl⟩⟩⟩

end Taking

end LapRing.ChannelParties
