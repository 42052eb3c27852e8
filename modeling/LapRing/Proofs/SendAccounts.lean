import LapRing.Proofs.ValueAccount
import LapRing.Proofs.ChannelRuns

/-!
# Calls that keep an account of values

The calls of a channel, made while nobody else moves, are runs of the accesses of its
parties, and the account that its callers keep agrees with theirs. So the values of a
channel fare as those that carry their sequences, whatever its feeds, callbacks and
handlers do.
-/
namespace LapRing.ValueFates
variable {cap : Capacity} {P Q α L : Type}

/-- A consumer that may receive: it makes no visit, and all windows are released. -/
structure Clear (e : ValueFates cap P Q α) (q : Q) : Prop where
  ready : e.toRingParties.Ready q
  turn : e.position = e.sequencer.gating

/-- Whoever may make a call may make one afterwards. -/
structure Frees (e e' : ValueFates cap P Q α) : Prop where
  free : ∀ p, e.toChannelParties.Free p → e'.toChannelParties.Free p
  clear : ∀ q, e.Clear q → e'.Clear q

theorem free_new (cap : Capacity) (producer consumer : Multiplicity) (metrics : Bool) (p : P) :
    (new cap producer consumer metrics : ValueFates cap P Q α).toChannelParties.Free p := by
  refine ⟨⟨rfl, fun _ _ => rfl⟩, ?_, ?_⟩
  · intro t (ht : (if t < 0 then Holder.published else .unclaimed) = _)
    split at ht <;> simp at ht
  · cases producer <;> rfl

theorem clear_new (cap : Capacity) (producer consumer : Multiplicity) (metrics : Bool) (q : Q) :
    (new cap producer consumer metrics : ValueFates cap P Q α).Clear q := by
  refine ⟨⟨rfl, fun _ _ => rfl⟩, ?_⟩
  cases consumer <;> rfl

section Frees
variable {e e' e'' : ValueFates cap P Q α}

theorem Frees.refl (e : ValueFates cap P Q α) : Frees e e := ⟨fun _ hp => hp, fun _ hq => hq⟩

theorem Frees.trans (h : Frees e e') (h' : Frees e' e'') : Frees e e'' :=
  ⟨fun p hp => h'.free p (h.free p hp), fun q hq => h'.clear q (h.clear q hq)⟩

/-- Nobody notices what leaves all parties where they are. -/
theorem Frees.of_same (stages : e'.stages = e.stages) (visits : e'.visits = e.visits)
    (producer : e'.sequencer.producer = e.sequencer.producer)
    (consumer : e'.poller.consumer = e.poller.consumer)
    (owned : ∀ t p, e'.holder t = .owned p → e.holder t = .owned p)
    (level : e.sequencer.claimed = e.sequencer.cursor →
      e'.sequencer.claimed = e'.sequencer.cursor)
    (turn : e.position = e.sequencer.gating → e'.position = e'.sequencer.gating) :
    Frees e e' := by
  constructor
  · intro p hp
    refine ⟨⟨(congrFun stages p).trans hp.ready.1, fun hsingle q => ?_⟩,
      fun t ht => hp.owns t (owned t p ht), level hp.level⟩
    exact (congrFun stages q).trans (hp.ready.2 (producer.symm.trans hsingle) q)
  · intro q hq
    refine ⟨⟨(congrFun visits q).trans hq.ready.1, fun hsingle r => ?_⟩, turn hq.turn⟩
    exact (congrFun visits r).trans (hq.ready.2 (consumer.symm.trans hsingle) r)

end Frees

/-- Puts entries into one slot after the other. -/
def putAll (p : P) : List Int64 → List (Option α) → ValueFates cap P Q α → ValueFates cap P Q α
  | s :: ss, x :: xs, e => putAll p ss xs (e.put p s x)
  | _, _, e => e

theorem toRingParties_putAll (p : P) (ss : List Int64) (xs : List (Option α))
    (e : ValueFates cap P Q α) :
    (e.putAll p ss xs).toRingParties = e.toRingParties := by
  induction ss generalizing xs e with
  | nil => rfl
  | cons s ss ih =>
    cases xs with
    | nil => rfl
    | cons x xs => exact ih xs (e.put p s x)

theorem wrote_putAll (p : P) (ss : List Int64) (xs : List (Option α))
    {e : ValueFates cap P Q α} {t : ℤ}
    (h : e.wrote t ≠ none) : (e.putAll p ss xs).wrote t ≠ none := by
  induction ss generalizing xs e with
  | nil => exact h
  | cons s ss ih =>
    cases xs with
    | nil => exact h
    | cons x xs =>
      apply ih
      by_cases ht : t = s.toInt
      · rw [ht, show (e.put p s x).wrote s.toInt = some _ from Function.update_self _ _ _]
        simp
      · rwa [show (e.put p s x).wrote t = e.wrote t from Function.update_of_ne ht _ _]

/-- As many entries as sequences leave none of them unwritten. -/
theorem wrote_putAll_mem (p : P) {ss : List Int64} {xs : List (Option α)} {e : ValueFates cap P Q α}
    (len : ss.length = xs.length) {s : Int64} (hs : s ∈ ss) :
    (e.putAll p ss xs).wrote s.toInt ≠ none := by
  induction ss generalizing xs e with
  | nil => simp at hs
  | cons u ss ih =>
    cases xs with
    | nil => simp at len
    | cons x xs =>
      rcases List.mem_cons.mp hs with rfl | hin
      · change (putAll p ss xs (e.put p s x)).wrote s.toInt ≠ none
        apply wrote_putAll
        rw [show (e.put p s x).wrote s.toInt = some _ from Function.update_self _ _ _]
        simp
      · exact ih (Nat.succ.inj len) hin

namespace Shows
variable {e : ValueFates cap P Q α} {c : Channel cap α} {b : ValueAccount α}

theorem putAll (h : e.Shows c b) (p : P) (ss : List Int64) (xs : List (Option α))
    (len : ss.length = xs.length) :
    (e.putAll p ss xs).Shows (c.refillAll ss xs) (b.acceptAll xs) := by
  induction ss generalizing xs e c b with
  | nil =>
    obtain rfl : xs = [] := List.length_eq_zero_iff.mp len.symm
    rw [ValueAccount.acceptAll_nil]
    exact h
  | cons s ss ih =>
    cases xs with
    | nil => simp at len
    | cons x xs =>
      rw [ValueAccount.acceptAll_cons]
      exact ih (h.put p s x) xs (Nat.succ.inj len)

end Shows

variable [DecidableEq P] [DecidableEq Q]

/-- Putting entries into slots that are owned and not yet written is a run. -/
theorem putAll_run {e : ValueFates cap P Q α} {p : P} {ss : List Int64} (xs : List (Option α))
    (distinct : ss.Nodup) (own : ∀ s ∈ ss, e.holder s.toInt = .owned p)
    (unwritten : ∀ s ∈ ss, e.wrote s.toInt = none) :
    Relation.ReflTransGen Step e (e.putAll p ss xs) := by
  induction ss generalizing e xs with
  | nil => exact .refl
  | cons s ss ih =>
    cases xs with
    | nil => exact .refl
    | cons x xs =>
      obtain ⟨hs, hss⟩ := List.nodup_cons.mp distinct
      have hput := Step.put x (own s List.mem_cons_self) (unwritten s List.mem_cons_self)
      refine .head hput (ih xs hss (fun u hu => own u (List.mem_cons_of_mem _ hu)) fun u hu => ?_)
      have hne : u.toInt ≠ s.toInt := fun he => hs (Int64.toInt_inj.mp he ▸ hu)
      exact (Function.update_of_ne hne _ _).trans (unwritten u (List.mem_cons_of_mem _ hu))

theorem claims_run {e : ValueFates cap P Q α} {producers : Producers cap P} {p : P}
    (hrun : Relation.ReflTransGen (Producers.Claim p) e.toProducers producers) :
    Relation.ReflTransGen Step e { e with toProducers := producers } :=
  hrun.lift (fun producers => ({ e with toProducers := producers } : ValueFates cap P Q α))
    fun a b hclaim =>
      Step.trade (e := { e with toProducers := a })
        (m := { e.toChannelParties with toProducers := b }) (.claim hclaim) rfl

theorem searches_run {e : ValueFates cap P Q α} {parties : RingParties cap P Q} {q : Q}
    (hrun : Relation.ReflTransGen (RingParties.Search q) e.toRingParties parties) :
    Relation.ReflTransGen Step e { e with toRingParties := parties } :=
  hrun.lift (fun parties => ({ e with toRingParties := parties } : ValueFates cap P Q α))
    fun a b hsearch =>
      Step.trade (e := { e with toRingParties := a })
        (m := { e.toChannelParties with toRingParties := b }) (.search hsearch) rfl

/-- A channel and the account of its callers as some run of accesses leaves them. -/
def Attains (e : ValueFates cap P Q α) (c : Channel cap α) (b : ValueAccount α) : Prop :=
  ∃ e', Relation.ReflTransGen Step e e' ∧ e'.Shows c b ∧ Frees e e'

section Attains
variable {e e' : ValueFates cap P Q α} {c : Channel cap α} {b : ValueAccount α}

theorem Attains.refl (hc : e.Shows c b) : e.Attains c b := ⟨e, .refl, hc, .refl e⟩

theorem Attains.head (h : e'.Attains c b) (hrun : Relation.ReflTransGen Step e e')
    (hfrees : Frees e e') : e.Attains c b := by
  obtain ⟨e'', hrun', hshows, hfrees'⟩ := h
  exact ⟨e'', hrun.trans hrun', hshows, hfrees.trans hfrees'⟩

end Attains

section Producers
open Channel Sequencer
variable {e : ValueFates cap P Q α} {p : P} {n : Int64} {entries : List (Option α)}
  {c : Channel cap α} {b : ValueAccount α}

/-- A claim of `n` was given to `p`, and its slots are filled. -/
def filled (p : P) (n : Int64) (entries : List (Option α)) (e : ValueFates cap P Q α) :
    ValueFates cap P Q α :=
  let win := nextWindow e.sequencer n
  putAll p win.sequences entries
    { e with toProducers := e.toProducers.owning p win.last (e.sequencer.admitted n) }

omit [DecidableEq P] [DecidableEq Q] in
theorem toRingParties_filled (p : P) (n : Int64) (entries : List (Option α))
    (e : ValueFates cap P Q α) :
    (e.filled p n entries).toRingParties = { e.toRingParties with
      toProducers := e.toProducers.owning p (nextWindow e.sequencer n).last
        (e.sequencer.admitted n) } :=
  toRingParties_putAll ..

/-- The claim is published as well. -/
def posted (p : P) (n : Int64) (entries : List (Option α)) (e : ValueFates cap P Q α) :
    ValueFates cap P Q α :=
  let win := nextWindow e.sequencer n
  { e.filled p n entries with
    sequencer := (e.sequencer.admitted n).afterPublish win.first win.last
    holder := Producers.assign .published (win.first.toInt - 1) win.last.toInt
      (e.toProducers.owning p win.last (e.sequencer.admitted n)).holder
    sent := (e.filled p n entries).sent ++ [(p, win)] }

theorem posted_run (given : e.toChannelParties.Given p n (nextWindow e.sequencer n))
    (len : (entries.length : ℤ) = n.toInt)
    (claim : Relation.ReflTransGen (Producers.Claim p) e.toProducers
      (e.toProducers.owning p (e.sequencer.claimed + n) (e.sequencer.admitted n))) :
    Relation.ReflTransGen Step e (e.posted p n entries) := by
  set win := nextWindow e.sequencer n with hwin
  have hsize := given.size
  have hlen : win.sequences.length = entries.length := by
    rw [win.length_sequences]
    omega
  rw [given.high] at claim
  have hfill : Relation.ReflTransGen Step _ (e.filled p n entries) :=
    putAll_run (e := { e with
      toProducers := e.toProducers.owning p win.last (e.sequencer.admitted n) })
      entries (List.Nodup.of_map _ win.nodup_sequences)
      (fun s hs => (given.own _).mpr (Window.mem_sequences.mp hs)) given.unwritten
  have hwritten : ∀ t, win.first.toInt ≤ t → t ≤ win.last.toInt →
      (e.filled p n entries).wrote t ≠ none := by
    intro t hlo hhi
    have hmem : t ∈ (win.sequences.drop 0).map Int64.toInt :=
      Window.mem_drop_sequences.mpr ⟨by omega, hhi⟩
    obtain ⟨s, hs, rfl⟩ := List.mem_map.mp hmem
    exact wrote_putAll_mem p hlen hs
  have hparties := toRingParties_filled p n entries e
  have hholder : (e.filled p n entries).holder =
      (e.toProducers.owning p win.last (e.sequencer.admitted n)).holder :=
    congrArg (fun parties => parties.holder) hparties
  have hsequencer : (e.filled p n entries).sequencer = e.sequencer.admitted n :=
    congrArg (fun parties => parties.sequencer) hparties
  have hpublish := ChannelParties.Step.publish (m := (e.filled p n entries).toChannelParties)
    (by rw [hholder]; exact given.own) given.le hwritten
    (by rw [hsequencer]; exact given.order) (Or.inl (by rw [hsequencer]; exact given.publish))
  rw [hholder] at hpublish
  exact ((claims_run claim).trans hfill).tail (.trade hpublish rfl)

omit [DecidableEq P] [DecidableEq Q] in
theorem Shows.posted (hc : e.Shows c b) (p : P)
    (len : (nextWindow e.sequencer n).sequences.length = entries.length) :
    (e.posted p n entries).Shows (c.afterSend n entries) (b.acceptAll entries) := by
  set win := nextWindow e.sequencer n with hwin
  have hclaimed : Shows
    { e with toProducers := e.toProducers.owning p win.last (e.sequencer.admitted n) }
      (c.withSequencer (c.ring.sequencer.admitted n)) b :=
    ⟨congrArg (Sequencer.admitted n) hc.sequencer, hc.poller, hc.slots, hc.discarded, hc.accepted,
      hc.handed⟩
  have hfilled : (e.filled p n entries).Shows _ _ := hclaimed.putAll p win.sequences entries len
  have hsequencer : (e.filled p n entries).sequencer = e.sequencer.admitted n :=
    congrArg (fun parties => parties.sequencer) (toRingParties_filled p n entries e)
  have hchannel : c.afterSend n entries = ((c.withSequencer (c.ring.sequencer.admitted n)).refillAll
      win.sequences entries).afterPublish win := by
    simp only [afterSend, hc.sequencer, hwin]
  rw [hchannel]
  exact ⟨congrArg (fun s => s.afterPublish win.first win.last)
    (hfilled.sequencer.trans hsequencer), hfilled.poller, hfilled.slots, hfilled.discarded,
    hfilled.accepted, hfilled.handed⟩

omit [DecidableEq P] [DecidableEq Q] in
/-- Nobody is kept from making a call by a claim that was published. -/
theorem frees_posted (given : e.toChannelParties.Given p n (nextWindow e.sequencer n))
    (level : e.sequencer.claimed = e.sequencer.cursor) : Frees e (e.posted p n entries) := by
  set win := nextWindow e.sequencer n with hwin
  have hparties := toRingParties_filled p n entries e
  have hpoller : (e.posted p n entries).poller = e.poller :=
    congrArg (fun parties => parties.poller) hparties
  have hgating : (e.posted p n entries).sequencer.gating = e.sequencer.gating :=
    (gating_afterPublish ..).trans (gating_admitted ..)
  refine .of_same (congrArg (fun parties => parties.stages) hparties)
    (congrArg (fun parties => parties.visits) hparties)
    ((producer_afterPublish ..).trans (producer_admitted ..))
    (congrArg Poller.consumer hpoller) ?_ ?_ ?_
  · intro t r (ht : Producers.assign .published (win.first.toInt - 1) win.last.toInt _ t = _)
    by_cases hin : win.first.toInt - 1 < t ∧ t ≤ win.last.toInt
    · rw [Producers.assign_of_mem _ hin.1 hin.2] at ht
      simp at ht
    · rw [Producers.assign_of_not_mem _ hin] at ht
      by_cases hclaim : e.sequencer.claimed.toInt < t ∧ t ≤ win.last.toInt
      · have := (given.own t).mp (Producers.assign_of_mem _ hclaim.1 hclaim.2)
        omega
      · exact (Producers.assign_of_not_mem _ hclaim).symm.trans ht
  · exact fun _ => (claimed_published level n).trans (cursor_published level n).symm
  · intro hturn
    simp only [RingParties.position, Poller.position, hpoller, hgating] at hturn ⊢
    exact hturn

/-- A claim that `p` was given is filled and published in one go. -/
theorem attains_send (hp : e.toChannelParties.Free p) (h : e.Sound) (pos : 1 ≤ n.toInt)
    (room : e.sequencer.cursor.toInt + n.toInt + cap.slots < 2 ^ 63) (entries : List (Option α))
    (len : (entries.length : ℤ) = n.toInt)
    (claim : Relation.ReflTransGen (Producers.Claim p) e.toProducers
      (e.toProducers.owning p (e.sequencer.claimed + n) (e.sequencer.admitted n)))
    (hc : e.Shows c b) : e.Attains (c.afterSend n entries) (b.acceptAll entries) := by
  have hgiven := hp.given h.channel pos room
  have hsize := hgiven.size
  have hlen := (nextWindow e.sequencer n).length_sequences
  exact ⟨_, posted_run hgiven len claim, hc.posted p (by omega), frees_posted hgiven hp.level⟩

theorem attains_sendOne (hp : e.toChannelParties.Free p) (h : e.Sound)
    (room : e.sequencer.cursor.toInt + 1 + cap.slots < 2 ^ 63) (value : α)
    (claim : Relation.ReflTransGen (Producers.Claim p) e.toProducers
      (e.toProducers.owning p (e.sequencer.claimed + 1) (e.sequencer.admitted 1)))
    (hc : e.Shows c b) : e.Attains (c.afterSend 1 [some value]) (b.accept (some value)) := by
  have hone := Checked.toInt_one
  have hsend := attains_send hp h (n := 1) (by omega) (by omega) [some value] (by simp [hone])
    claim hc
  rwa [ValueAccount.acceptAll_cons, ValueAccount.acceptAll_nil] at hsend

variable (pauses : List (Pause (Channel cap α × (L × ValueAccount α))))

/-- The channel and the account after a call. -/
abbrev After (e : ValueFates cap P Q α) (w : Channel cap α × (L × ValueAccount α)) : Prop :=
  e.Attains w.1 w.2.2

theorem push_attains (hp : e.toChannelParties.Free p) (h : e.Sound)
    (fits : e.sequencer.cursor.toInt < e.sequencer.gating.toInt + cap.slots)
    (room : e.sequencer.cursor.toInt + 1 + cap.slots < 2 ^ 63) (hc : e.Shows c b) (value : α)
    (l : L) : e.After (((ValueCall.push value).run pauses).outcome (c, (l, b))).2 := by
  have hlevel : e.sequencer.Level e.published := ⟨h.channel.parties.producers.standing, hp.level⟩
  have hone := Checked.toInt_one
  have hpush := push_eq (hc.sequencer ▸ hlevel) (by rw [hc.sequencer]; exact fits)
    (by rw [hc.sequencer]; exact room) pauses value (l, b)
  obtain ⟨-, hclaim⟩ := Producers.claim_run h.channel.parties.producers hp.ready cap.checkClaim_one
    (hp.lasts h.channel (by omega) (by omega)) (by rw [hp.level]; omega) lawful_hereSequencer
    (w := (c, (l, b))) hc.sequencer pauses
  have hrun : (ValueCall.push value).run pauses (c, (l, b)) =
      .ok .pushed (c.afterSend 1 [some value], (l, b.accept (some value))) :=
    Act.bind_ok hpush
  rw [Act.outcome_ok hrun]
  exact attains_sendOne hp h room value hclaim hc

/-- A value that is refused is handed back, and nothing else changes hands. -/
theorem tryPush_attains (hp : e.toChannelParties.Free p) (h : e.Sound)
    (room : e.sequencer.cursor.toInt + 1 + cap.slots < 2 ^ 63) (hc : e.Shows c b) (value : α)
    (l : L) :
    let w := ((ValueCall.tryPush value).run pauses).outcome (c, (l, b))
    e.After w.2 ∧ (w.1 = .ok (.tried (.ok ())) ∧ w.2.2.2 = b.accept (some value) ∨
      w.1 = .ok (.tried (.error value)) ∧ w.2.2.2 = b ∧ w.2.1.discarded = c.discarded ∧
        w.2.1.ring.slots = c.ring.slots) := by
  intro w
  have hlevel : e.sequencer.Level e.published := ⟨h.channel.parties.producers.standing, hp.level⟩
  have hone := Checked.toInt_one
  obtain ⟨hroom, hfull⟩ := tryPush_eq (hc.sequencer ▸ hlevel) (by rw [hc.sequencer]; exact room)
    value (l, b)
  rw [hc.sequencer] at hroom hfull
  by_cases fits : e.sequencer.cursor.toInt < e.sequencer.gating.toInt + cap.slots
  · obtain ⟨-, hclaim⟩ :=
      Producers.attempt_run h.channel.parties.producers hp.ready cap.checkClaim_one
      (hp.lasts h.channel (by omega) (by omega)) (by rw [hp.level]; omega)
    have hrun : (ValueCall.tryPush value).run pauses (c, (l, b)) =
        .ok (.tried (.ok ())) (c.afterSend 1 [some value], (l, b.accept (some value))) :=
      Act.bind_ok (hroom fits)
    simp only [w, Act.outcome_ok hrun]
    exact ⟨attains_sendOne hp h room value hclaim hc, Or.inl ⟨trivial, trivial⟩⟩
  · obtain ⟨-, hclaim⟩ :=
      Producers.attempt_full_run h.channel.parties.producers hp.ready cap.checkClaim_one
      (by rw [hp.level]; omega)
    have hrun : (ValueCall.tryPush value).run pauses (c, (l, b)) = .ok (.tried (.error value))
        (c.withSequencer (e.sequencer.withCached e.sequencer.gating), (l, b)) :=
      Act.bind_ok (hfull (by omega))
    simp only [w, Act.outcome_ok hrun]
    refine ⟨⟨_, claims_run hclaim, ⟨rfl, hc.poller, hc.slots, hc.discarded, hc.accepted, hc.handed⟩,
      ?_⟩, Or.inr ⟨trivial, trivial, rfl, rfl⟩⟩
    refine .of_same rfl rfl (producer_withCached _ _) rfl (fun _ _ ht => ht) ?_ ?_
    · intro hsame
      simp only [claimed_withCached, cursor_withCached]
      exact hsame
    · intro hturn
      simp only [RingParties.position, Poller.position, gating_withCached] at hturn ⊢
      exact hturn

/-- A batch that fits accepts what its feed yields, also when the feed gives up. -/
theorem batch_attains (hp : e.toChannelParties.Free p) (h : e.Sound) (feed : Feed L α)
    (pos : 1 ≤ feed.length.toNat) (le : feed.length.toNat ≤ cap.slots)
    (fits : e.sequencer.cursor.toInt + feed.length.toNat ≤ e.sequencer.gating.toInt + cap.slots)
    (room : e.sequencer.cursor.toInt + feed.length.toNat + cap.slots < 2 ^ 63) (hc : e.Shows c b)
    (l : L) : e.After (((ValueCall.pushBatch feed).run pauses).outcome (c, (l, b))).2 := by
  have hsize : feed.length.toInt64.toInt = feed.length.toNat := cap.toInt_toInt64 le
  have hlevel : e.sequencer.Level e.published := ⟨h.channel.parties.producers.standing, hp.level⟩
  obtain ⟨-, hclaim⟩ :=
    Producers.claim_run h.channel.parties.producers hp.ready (cap.checkClaim_ok pos le)
    (hp.lasts h.channel (by omega) (by omega)) (by rw [hp.level]; omega) lawful_hereSequencer
    (w := (c, (l, b))) hc.sequencer pauses
  set y := feed.noting.gather 0 feed.length.toNat (l, b) with hy
  have hlen : (y.entries feed.length.toNat).length = feed.length.toNat :=
    Yield.length_entries (feed.noting.length_items_gather 0 _ (l, b))
  have hsend := attains_send hp h (by omega) (by omega) (y.entries feed.length.toNat) (by omega)
    hclaim hc
  have haccount : y.world.2 = b.acceptAll (y.entries feed.length.toNat) := by
    rw [ValueAccount.acceptAll_entries]
    exact feed.account_gather 0 _ l b
  have hpush := pushBatch_eq (hc.sequencer ▸ hlevel) feed.noting pos le
    (by rw [hc.sequencer]; exact fits) (by rw [hc.sequencer]; exact room) pauses (l, b)
  rw [show feed.noting.length = feed.length from rfl, ← hy] at hpush
  -- Both endings of the feed leave the same channel and the same account.
  have hend : (((ValueCall.pushBatch feed).run pauses).outcome (c, (l, b))).2 =
      (c.afterSend feed.length.toInt64 (y.entries feed.length.toNat), y.world) := by
    rw [ValueCall.run, Act.outcome_bind_pure]
    cases hending : y.ending with
    | ok u =>
      rw [hending] at hpush
      exact congrArg Prod.snd (Act.outcome_ok hpush)
    | error halt =>
      rw [hending] at hpush
      exact congrArg Prod.snd (Act.outcome_error hpush)
  rw [hend, After, haccount]
  exact hsend

/-- A batch of no length and one longer than a lap change nothing. -/
theorem pushBatch_attains (hp : e.toChannelParties.Free p) (h : e.Sound) (feed : Feed L α)
    (fits : feed.length.toNat ≤ cap.slots →
      e.sequencer.cursor.toInt + feed.length.toNat ≤ e.sequencer.gating.toInt + cap.slots ∧
        e.sequencer.cursor.toInt + feed.length.toNat + cap.slots < 2 ^ 63)
    (hc : e.Shows c b) (l : L) :
    e.After (((ValueCall.pushBatch feed).run pauses).outcome (c, (l, b))).2 := by
  by_cases hzero : feed.length = 0
  · have hrun : (ValueCall.pushBatch feed).run pauses (c, (l, b)) = .ok (.batch (.ok 0))
      (c, (l, b)) :=
      Act.bind_ok (pushBatch_empty (show feed.noting.length = 0 from hzero) pauses c (l, b))
    rw [Act.outcome_ok hrun]
    exact Attains.refl hc
  by_cases hlong : cap.slots < feed.length.toNat
  · have hrun : (ValueCall.pushBatch feed).run pauses (c, (l, b)) =
        .ok (.batch (.error (.invalidClaim feed.length cap.word))) (c, (l, b)) :=
      Act.bind_ok (pushBatch_tooLong (show cap.slots < feed.noting.length.toNat from hlong) pauses c
        (l, b))
    rw [Act.outcome_ok hrun]
    exact Attains.refl hc
  obtain ⟨hfits, hroom⟩ := fits (by omega)
  have hpos : feed.length.toNat ≠ 0 := fun he => hzero (UInt64.toNat_inj.mp he)
  exact batch_attains pauses hp h feed (by omega) (by omega) hfits hroom hc l

end Producers

end LapRing.ValueFates
