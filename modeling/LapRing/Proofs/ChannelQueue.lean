import LapRing.Proofs.SideHolders
import LapRing.Proofs.Receiving

/-!
# A channel is a bounded queue

The slots between gating and the cursor hold the entries of a queue, oldest
first. Every call changes the ring as it changes that queue, and gives the same
answer: claims made from memory, flags of earlier laps and values left in slots
by receivers that gave up make no difference.
-/
namespace LapRing

/-- A side of a ring admits as its party does. -/
def Side.Mirrors (side : Side) (p : Party) : Prop :=
  side.multiplicity = p.multiplicity ∧
    (p.multiplicity = .single → p.alive ≤ 1 ∧ (side.taken = true ↔ p.alive = 1))

namespace Side
variable {side : Side} {p : Party}

theorem acquire_admitted (h : side.Mirrors p) (hp : p.Admits) :
    side.acquire.1 = true ∧ side.acquire.2.Mirrors p.enter := by
  obtain ⟨kind, taken⟩ := side
  obtain ⟨kind', alive⟩ := p
  obtain ⟨rfl : kind = kind', hsingle⟩ := h
  cases kind with
  | multi => exact ⟨rfl, rfl, fun hm => Multiplicity.noConfusion hm⟩
  | single =>
    obtain ⟨-, htaken⟩ := hsingle rfl
    have halive : alive = 0 := hp.resolve_left fun hm => Multiplicity.noConfusion hm
    have hfree : taken = false := by
      simp only [halive] at htaken
      simpa using htaken
    subst hfree halive
    exact ⟨rfl, rfl, fun _ => ⟨le_refl 1, by simp [acquire, Cell.compareAndSet, Party.enter]⟩⟩

theorem acquire_refused (h : side.Mirrors p) (hp : ¬ p.Admits) : side.acquire.1 = false := by
  obtain ⟨kind, taken⟩ := side
  obtain ⟨kind', alive⟩ := p
  obtain ⟨rfl : kind = kind', hsingle⟩ := h
  simp only [Party.Admits, not_or] at hp
  cases kind with
  | multi => exact absurd rfl hp.1
  | single =>
    obtain ⟨hle, htaken⟩ := hsingle rfl
    simp only at hle htaken
    have hheld : taken = true := htaken.mpr (by omega)
    rw [hheld]
    rfl

theorem release_mirrors (h : side.Mirrors p) : side.release.Mirrors p.leave := by
  obtain ⟨kind, taken⟩ := side
  obtain ⟨kind', alive⟩ := p
  obtain ⟨rfl : kind = kind', hsingle⟩ := h
  cases kind with
  | multi => exact ⟨rfl, fun hm => Multiplicity.noConfusion hm⟩
  | single =>
    obtain ⟨hle, -⟩ := hsingle rfl
    simp only at hle
    refine ⟨rfl, fun _ => ⟨?_, ?_⟩⟩
    · simp only [Party.leave]
      omega
    · simp only [release, Party.leave, Bool.false_eq_true, false_iff]
      omega

end Side

namespace Ring
variable {cap : Capacity} {α : Type}

structure Mirrors (r : Ring cap (Option α)) (q : Queue α) : Prop where
  settled : r.sequencer.Settled
  position : r.poller.position r.sequencer = r.sequencer.gating
  limit : q.limit = cap.slots
  length : r.sequencer.cursor.toInt = r.sequencer.gating.toInt + q.entries.length
  claimed : r.sequencer.cursor.toInt + 1 = q.claimed
  entries : ∀ (k : ℕ) (hk : k < q.entries.length),
    r.slots.peek (r.sequencer.gating.toInt + 1 + k) = q.entries[k]
  producers : r.producers.Mirrors q.producers
  consumers : r.consumers.Mirrors q.consumers

theorem mirrors_new (settings : Settings) :
    (new settings (.fill cap none) : Ring cap (Option α)).Mirrors (.new cap.slots settings) := by
  have hside : ∀ kind, (⟨kind, false⟩ : Side).Mirrors ⟨kind, 0⟩ := by
    intro kind
    exact ⟨rfl, fun _ => ⟨Nat.zero_le 1, by simp⟩⟩
  refine ⟨Sequencer.settled_new _ _ _, ?_, rfl, rfl, rfl, ?_, hside _, hside _⟩
  · change (Poller.new settings.consumer _).position _ = _
    cases settings.consumer <;> rfl
  · intro k hk
    exact absurd hk (Nat.not_lt_zero k)

namespace Mirrors
variable {r : Ring cap (Option α)} {q : Queue α}

theorem length_le (h : r.Mirrors q) : q.entries.length ≤ cap.slots := by
  have hlap := h.settled.le_gating
  have hlength := h.length
  omega

/-- What is not a position may change. -/
theorem withSequencer (h : r.Mirrors q) {s : Sequencer cap} (hs : s.Settled)
    (hcursor : s.cursor = r.sequencer.cursor) (hgating : s.gating = r.sequencer.gating) :
    ({ r with sequencer := s } : Ring cap (Option α)).Mirrors q := by
  refine ⟨hs, ?_, h.limit, ?_, ?_, ?_, h.producers, h.consumers⟩
  · rw [hgating, ← h.position]
    simp only [Poller.position, hgating]
  · simp only [hcursor, hgating]
    exact h.length
  · simp only [hcursor]
    exact h.claimed
  · simp only [hgating]
    exact h.entries

/-- Sending appends entries to the queue. -/
theorem afterSend (h : r.Mirrors q) {n : Int64} (entries : List (Option α))
    (hn : n.toInt = entries.length) (pos : 1 ≤ entries.length)
    (fits : q.entries.length + entries.length ≤ q.limit)
    (room : q.claimed + entries.length < 2 ^ 62) :
    (r.afterSend n entries).Mirrors (q.append entries) := by
  have hslots := cap.slots_le_int
  have hlimit := h.limit
  have hlength := h.length
  have hclaimed := h.claimed
  have hfirst := h.settled.toInt_first (n := n) (by omega) (by omega)
  have hlast := h.settled.toInt_last (n := n) (by omega) (by omega)
  obtain ⟨hsettled, hcursor⟩ := h.settled.admitted_published (n := n)
    (by omega) (by omega) (by omega)
  have hcursor' : (r.afterSend n entries).sequencer.cursor.toInt =
      r.sequencer.cursor.toInt + entries.length := by
    change (Sequencer.cursor (Sequencer.afterPublish _ _ _)).toInt = _
    rw [hcursor, ← hn]
    exact hlast
  have hgating : (r.afterSend n entries).sequencer.gating = r.sequencer.gating := by
    change (Sequencer.afterPublish _ _ _).gating = _
    rw [Sequencer.gating_afterPublish, Sequencer.gating_admitted]
  have hsize : (Sequencer.nextWindow r.sequencer n).sequences.length = entries.length := by
    rw [Window.length_sequences, Window.size_eq]
    omega
  refine ⟨hsettled, ?_, hlimit, ?_, ?_, ?_, h.producers, h.consumers⟩
  · rw [hgating, ← h.position]
    simp only [Poller.position, hgating]
    rfl
  · simp only [hcursor', hgating, Queue.append, List.length_append]
    omega
  · simp only [hcursor', Queue.append]
    omega
  · intro k hk
    have happend : k < (q.entries ++ entries).length := hk
    have hk' := happend
    rw [List.length_append] at hk'
    rw [hgating]
    change (r.slots.writeAll (Sequencer.nextWindow r.sequencer n).sequences entries).peek _ =
      (q.entries ++ entries)[k]
    by_cases hold : k < q.entries.length
    · rw [List.getElem_append_left hold, ← h.entries k hold]
      refine Slots.peek_writeAll_other _ _ _ fun s hs he => ?_
      have hmem := Window.mem_sequences.mp hs
      have := cap.eq_of_emod_eq he (by omega) (by omega)
      omega
    · rw [List.getElem_append_right (by omega)]
      have hat := Window.toInt_getElem_sequences (Sequencer.nextWindow r.sequencer n)
        (k := k - q.entries.length) (by omega)
      rw [show r.sequencer.gating.toInt + 1 + k =
        (Sequencer.nextWindow r.sequencer n).sequences[k - q.entries.length].toInt by omega,
        Slots.peek_toInt]
      exact Slots.read_writeAll _ _ _ (Window.pairwise_slots (by omega)) _ _

/-- Receiving removes entries from the front. -/
theorem received (h : r.Mirrors q) {taken : ℕ} {r' : Ring cap (Option α)}
    (hr : Received taken r r') (le : taken ≤ q.entries.length) : r'.Mirrors (q.remove taken) := by
  have hlength := h.length
  refine ⟨hr.settled, hr.position, h.limit, ?_, ?_, ?_, ?_, ?_⟩
  · rw [hr.cursor, hr.gating]
    simp only [Queue.remove, List.length_drop]
    omega
  · rw [hr.cursor]
    exact h.claimed
  · intro k hk
    simp only [Queue.remove, List.length_drop] at hk
    have hold := h.entries (taken + k) (by omega)
    rw [hr.gating, hr.slots _ (by omega) (by omega)]
    simp only [Queue.remove, List.getElem_drop]
    rw [← hold]
    congr 1
    omega
  · rw [hr.producers]
    exact h.producers
  · rw [hr.consumers]
    exact h.consumers

/-- The values in front are those of the queue's first entries. -/
theorem values (h : r.Mirrors q) {count : ℕ} (le : count ≤ q.entries.length) :
    ((List.range count).filterMap fun k : ℕ => r.slots.peek (r.sequencer.gating.toInt + 1 + k)) =
      (q.entries.take count).filterMap id := by
  have hmap : ((List.range count).map fun k : ℕ =>
      r.slots.peek (r.sequencer.gating.toInt + 1 + k)) = q.entries.take count := by
    refine List.ext_getElem (by simp [le]) fun k hk hk' => ?_
    simp only [List.length_map, List.length_range] at hk
    rw [List.getElem_map, List.getElem_range, List.getElem_take]
    exact h.entries k (by omega)
  rw [← hmap, List.filterMap_map]
  rfl

end Mirrors

end Ring

namespace Channel
variable {cap : Capacity} {α L : Type} {c : Channel cap α} {q : Queue α}

/-- A call has the same outcome on a channel and on a queue that it mirrors, and
the channel goes on mirroring the queue. -/
def Agrees (pauses : List (Pause (Channel cap α × L))) (call : Call α L) (c : Channel cap α)
    (q : Queue α) (l : L) : Prop :=
  ∃ answer c' q' l', (serve pauses call).outcome (c, l) = (answer, (c', l')) ∧
    (Queue.serve call).outcome (q, l) = (answer, (q', l')) ∧ c'.ring.Mirrors q'

section Calls
variable {pauses : List (Pause (Channel cap α × L))} {l : L}

theorem agrees_of_ok {call : Call α L} {answer : Answer α} {c' : Channel cap α} {q' : Queue α}
    {l' : L} (hc : serve pauses call (c, l) = .ok answer (c', l'))
    (hq : Queue.serve call (q, l) = .ok answer (q', l')) (hm : c'.ring.Mirrors q') :
    Agrees pauses call c q l := by
  exact ⟨.ok answer, c', q', l', Act.outcome_ok hc, Act.outcome_ok hq, hm⟩

theorem agrees_of_error {call : Call α L} {e : Halt} {c' : Channel cap α} {q' : Queue α} {l' : L}
    (hc : serve pauses call (c, l) = .error e (c', l'))
    (hq : Queue.serve call (q, l) = .error e (q', l')) (hm : c'.ring.Mirrors q') :
    Agrees pauses call c q l := by
  exact ⟨.error e, c', q', l', Act.outcome_error hc, Act.outcome_error hq, hm⟩

/-- What is asked of the ring alone is seen on the channel. -/
theorem lift_ring {β : Type} {act : Act (Ring cap (Option α)) β} {x : β} {r' : Ring cap (Option α)}
    (h : act c.ring = .ok x r') :
    here.lift (ringPart.lift act) (c, l) = .ok x ({ c with ring := r' }, l) :=
  Part.lift_ok (Part.lift_ok h)

theorem openProducer_agrees (h : c.ring.Mirrors q) : Agrees pauses .openProducer c q l := by
  have hring := Ring.acquireProducer_eq c.ring
  by_cases hp : q.producers.Admits
  · obtain ⟨htrue, hside⟩ := Side.acquire_admitted h.producers hp
    rw [if_pos htrue] at hring
    exact agrees_of_ok (Act.bind_ok (lift_ring hring)) (if_pos hp) { h with producers := hside }
  · have hfalse := Side.acquire_refused h.producers hp
    rw [if_neg (by simp only [hfalse, Bool.false_eq_true, not_false_eq_true])] at hring
    exact agrees_of_ok (Act.bind_ok (lift_ring hring)) (if_neg hp) h

theorem openConsumer_agrees (h : c.ring.Mirrors q) : Agrees pauses .openConsumer c q l := by
  have hring := Ring.acquireConsumer_eq c.ring
  by_cases hp : q.consumers.Admits
  · obtain ⟨htrue, hside⟩ := Side.acquire_admitted h.consumers hp
    rw [if_pos htrue] at hring
    exact agrees_of_ok (Act.bind_ok (lift_ring hring)) (if_pos hp) { h with consumers := hside }
  · have hfalse := Side.acquire_refused h.consumers hp
    rw [if_neg (by simp only [hfalse, Bool.false_eq_true, not_false_eq_true])] at hring
    exact agrees_of_ok (Act.bind_ok (lift_ring hring)) (if_neg hp) h

theorem drop_agrees (h : c.ring.Mirrors q) :
    Agrees pauses .dropProducer c q l ∧ Agrees pauses .dropConsumer c q l := by
  constructor
  · exact agrees_of_ok rfl rfl { h with producers := Side.release_mirrors h.producers }
  · exact agrees_of_ok rfl rfl { h with consumers := Side.release_mirrors h.consumers }

/-- Sending one value appends it. -/
theorem push_agrees (h : c.ring.Mirrors q) (value : α) (fits : q.entries.length < q.limit)
    (room : q.claimed + 1 < 2 ^ 62) : Agrees pauses (.push value) c q l := by
  have hslots := cap.slots_le_int
  have hlength := h.length
  have hclaimed := h.claimed
  have hlimit := h.limit
  have hpush := push_eq h.settled (by omega) (by omega) pauses value l
  have hm := h.afterSend (n := 1) [some value] rfl (le_refl 1) fits room
  rw [← ring_afterSend] at hm
  exact agrees_of_ok (Act.bind_ok hpush) rfl hm

theorem tryPush_agrees (h : c.ring.Mirrors q) (value : α)
    (room : q.entries.length < q.limit → q.claimed + 1 < 2 ^ 62) (room' : q.claimed < 2 ^ 62) :
    Agrees pauses (.tryPush value) c q l := by
  have hslots := cap.slots_le_int
  have hlength := h.length
  have hclaimed := h.claimed
  have hlimit := h.limit
  obtain ⟨hroom, hfull⟩ := tryPush_eq h.settled (by omega) value l
  by_cases fits : q.entries.length < q.limit
  · have hpush := hroom (by omega)
    have hm := h.afterSend (n := 1) [some value] rfl (le_refl 1) fits (room fits)
    rw [← ring_afterSend] at hm
    exact agrees_of_ok (Act.bind_ok hpush) (if_pos fits) hm
  · have hrefused := hfull (by omega)
    refine agrees_of_ok (Act.bind_ok hrefused) (if_neg fits) ?_
    exact h.withSequencer h.settled.withCached (Sequencer.cursor_withCached _ _)
      (Sequencer.gating_withCached _ _)

/-- A batch appends all the entries it announces, or none. -/
theorem pushBatch_agrees (h : c.ring.Mirrors q) (feed : Feed L α)
    (fits : feed.length.toNat ≤ q.limit → q.entries.length + feed.length.toNat ≤ q.limit)
    (room : feed.length.toNat ≤ q.limit → q.claimed + feed.length.toNat < 2 ^ 62) :
    Agrees pauses (.pushBatch feed) c q l := by
  have hslots := cap.slots_le_int
  have hlength := h.length
  have hclaimed := h.claimed
  have hlimit := h.limit
  by_cases hzero : feed.length = 0
  · exact agrees_of_ok (Act.bind_ok (pushBatch_empty hzero pauses c l))
      (Queue.serve_pushBatch_zero hzero q l) h
  · by_cases hlong : q.limit < feed.length.toNat
    · have hserve := Queue.serve_pushBatch_tooLong hlong l
      rw [hlimit] at hlong hserve
      exact agrees_of_ok (Act.bind_ok (pushBatch_tooLong hlong pauses c l)) hserve h
    · have hone : 1 ≤ feed.length.toNat := by
        have : feed.length.toNat ≠ 0 := fun he => hzero (UInt64.toNat_inj.mp he)
        omega
      have hle : feed.length.toNat ≤ cap.slots := by omega
      have hentries := Yield.length_entries (feed.length_items_gather 0 feed.length.toNat l)
      have hpush := pushBatch_eq h.settled feed hone hle (by omega) (by omega) pauses l
      have hm := h.afterSend (n := feed.length.toInt64) _
        (by rw [hentries]; exact cap.toInt_toInt64 hle) (by omega) (by omega) (by omega)
      rw [← ring_afterSend] at hm
      have hserve := Queue.serve_pushBatch hzero (by omega : feed.length.toNat ≤ q.limit) l
      cases hending : (feed.gather 0 feed.length.toNat l).ending with
      | ok u =>
        rw [hending] at hpush hserve
        exact agrees_of_ok (Act.bind_ok hpush) hserve hm
      | error e =>
        rw [hending] at hpush hserve
        exact agrees_of_error (Act.bind_error hpush) hserve hm

/-- Receiving takes what a queue gives, as far as the receiver goes. -/
theorem receive_agrees (h : c.ring.Mirrors q) (batch : UInt64) (f : α → Act L Unit) :
    Agrees pauses (.receive batch f) c q l := by
  have hlength := h.length
  have htaken : c.taken batch = min batch.toNat q.entries.length := by
    rw [taken]
    omega
  have hvalues : c.valuesAhead (c.taken batch) = (q.entries.take (c.taken batch)).filterMap id :=
    h.values (by omega)
  by_cases hnone : c.taken batch = 0
  · obtain ⟨c', hreceived, hrun⟩ := receive_none h.settled h.position hnone f l
    have hm := h.received hreceived (Nat.zero_le _)
    have htake : Queue.take batch f (q, l) = .ok .idle (q.remove 0, l) := by
      simp only [Queue.take, ← htaken, hnone, List.take_zero, List.filterMap_nil]
      rfl
    exact agrees_of_ok (Act.bind_ok hrun) (Act.bind_ok htake) hm
  · obtain ⟨c', hreceived, hrun⟩ :=
      receive_some h.settled h.position (Nat.pos_of_ne_zero hnone) f l
    have hm := h.received hreceived (by omega)
    rw [hvalues] at hrun
    cases hall : ((q.entries.take (c.taken batch)).filterMap id).forM f l with
    | ok u l' =>
      have htake : Queue.take batch f (q, l) = .ok .processing (q.remove (c.taken batch), l') := by
        simp only [Queue.take, ← htaken, hall, hnone, if_false]
      rw [hall] at hrun
      exact agrees_of_ok (Act.bind_ok hrun) (Act.bind_ok htake) hm
    | error e l' =>
      have htake : Queue.take batch f (q, l) = .error e (q.remove (c.taken batch), l') := by
        simp only [Queue.take, ← htaken, hall]
      rw [hall] at hrun
      exact agrees_of_error (Act.bind_error hrun) (Act.bind_error htake) hm

/-- A batch that is not refused counts with all its entries. -/
theorem claimed_pushBatch (feed : Feed L α) (q : Queue α) (l : L)
    (hle : feed.length.toNat ≤ q.limit) :
    ((Queue.serve (.pushBatch feed)).outcome (q, l)).2.1.claimed =
      q.claimed + feed.length.toNat := by
  by_cases hzero : feed.length = 0
  · simp only [Act.outcome, Queue.serve_pushBatch_zero hzero, hzero]
    rfl
  · have hserve := Queue.serve_pushBatch hzero hle l
    have hentries := Yield.length_entries (feed.length_items_gather 0 feed.length.toNat l)
    cases hending : (feed.gather 0 feed.length.toNat l).ending with
    | ok u =>
      rw [hending] at hserve
      simp only [Act.outcome, hserve, Queue.append, hentries]
    | error e =>
      rw [hending] at hserve
      simp only [Act.outcome, hserve, Queue.append, hentries]

/-- Every permitted call has the same outcome on both. -/
theorem serve_agrees (pauses : List (Pause (Channel cap α × L))) (h : c.ring.Mirrors q)
    (call : Call α L) (permitted : q.Permits call)
    (room : ((Queue.serve call).outcome (q, l)).2.1.claimed < 2 ^ 62) :
    Agrees pauses call c q l := by
  cases call with
  | openProducer => exact openProducer_agrees h
  | openConsumer => exact openConsumer_agrees h
  | dropProducer => exact (drop_agrees h).1
  | dropConsumer => exact (drop_agrees h).2
  | tryPush value =>
    by_cases fits : q.entries.length < q.limit
    · simp only [Act.outcome, Queue.serve, fits, if_true] at room
      exact tryPush_agrees h value (fun _ => room) (Nat.lt_of_succ_lt room)
    · simp only [Act.outcome, Queue.serve, fits, if_false] at room
      exact tryPush_agrees h value (fun hfits => absurd hfits fits) room
  | push value => exact push_agrees h value permitted.2 room
  | pushBatch feed =>
    refine pushBatch_agrees h feed permitted.2 fun hle => ?_
    rwa [claimed_pushBatch feed q l hle] at room
  | receive batch f => exact receive_agrees h batch f

end Calls

/-- A run of permitted calls gives the same answers on both. -/
theorem serveAll_agrees (pauses : List (Pause (Channel cap α × L))) (calls : List (Call α L))
    {l : L} (h : c.ring.Mirrors q) (legal : Queue.Legal calls (q, l)) :
    ∃ answers c' q' l', serveAll (serve pauses) calls (c, l) = (answers, (c', l')) ∧
      serveAll Queue.serve calls (q, l) = (answers, (q', l')) ∧ c'.ring.Mirrors q' := by
  induction calls generalizing c q l with
  | nil => exact ⟨[], c, q, l, rfl, rfl, h⟩
  | cons call rest ih =>
    obtain ⟨permitted, room, hrest⟩ := legal
    obtain ⟨answer, c₁, q₁, l₁, hc, hq, hm⟩ := serve_agrees pauses h call permitted room
    rw [hq] at hrest
    obtain ⟨answers, c', q', l', hcs, hqs, hm'⟩ := ih hm hrest
    refine ⟨answer :: answers, c', q', l', ?_, ?_, hm'⟩
    · simp only [serveAll, hc, hcs]
    · simp only [serveAll, hq, hqs]

/-- The length of a channel is the length of the queue. -/
theorem length_eq (h : c.ring.Mirrors q) (l : L) :
    c.length l = .ok (UInt64.ofNat q.entries.length) l := by
  have hlength := h.length
  have hle := h.length_le
  have hslots := cap.slots_le_int
  have hahead : (c.ring.sequencer.cursor - c.ring.sequencer.gating).toInt = q.entries.length := by
    rw [Checked.toInt_sub (by omega) (by omega)]
    omega
  rw [Channel.length, Ring.length, Checked.sub_exact (by omega) (by omega), pure_bind,
    Act.pure_apply, Checked.toUInt64_max_zero hahead]

/-- A channel refines a bounded queue of optional entries. However many handles
either side admits, and whatever its callers do in feeds and callbacks, every
run of calls gives the answers of the queue and leaves the callers' world as the
queue does, and after each call the channel is as long as the queue. -/
theorem refines_queue (cap : Capacity) (settings : Settings)
    (pauses : List (Pause (Channel cap α × L))) (calls before : List (Call α L)) (l : L)
    (legal : Queue.Legal calls (Queue.new cap.slots settings, l)) (hb : before <+: calls) :
    let c := serveAll (serve pauses) before (Channel.new cap settings, l)
    let q := serveAll Queue.serve before (Queue.new cap.slots settings, l)
    c.1 = q.1 ∧ c.2.2 = q.2.2 ∧
      c.2.1.ring.sequencer.cursor.toInt - c.2.1.ring.sequencer.gating.toInt =
        q.2.1.entries.length ∧
      c.2.1.length q.2.2 = .ok (UInt64.ofNat q.2.1.entries.length) q.2.2 ∧
      q.2.1.entries.length ≤ cap.slots := by
  have hnew : (Channel.new cap settings : Channel cap α).ring.Mirrors (.new cap.slots settings) :=
    Ring.mirrors_new settings
  obtain ⟨answers, c', q', l', hc, hq, hm⟩ :=
    serveAll_agrees pauses before hnew (legal.of_prefix hb)
  simp only [hc, hq]
  have hlength := hm.length
  exact ⟨trivial, trivial, by omega, length_eq hm l', hm.length_le⟩

/-- A receiver that gives up loses what it took, and a batch that is too short
sends nothing in its second slot: of the values 1, 2 and 3 only 3 arrives. -/
theorem refines_queue_short_batch :
    let arrive : ℕ → Act (List ℕ) Unit := fun value =>
      if value = 1 then throw (.raised "full") else modify (· ++ [value])
    let feed : Feed (List ℕ) ℕ := ⟨2, fun k => pure (if k = 0 then some 3 else none)⟩
    let calls : List (Call ℕ (List ℕ)) :=
      [.openProducer, .openConsumer, .push 1, .push 2, .tryPush 4, .receive 9 arrive,
        .pushBatch feed, .receive 9 arrive]
    let settings : Settings := { capacity := 2, producer := .multi }
    Queue.Legal calls (Queue.new 2 settings, []) ∧ calls <+: calls ∧
      (serveAll (serve []) calls (Channel.new ⟨1, by decide⟩ settings, [])).2.2 = [3] := by
  intro arrive feed calls settings
  have hlegal : Queue.Legal calls (Queue.new 2 settings, []) := by decide
  have h := refines_queue ⟨1, by decide⟩ settings [] calls calls [] hlegal List.prefix_rfl
  exact ⟨hlegal, List.prefix_rfl, h.2.1.trans rfl⟩

end Channel

end LapRing
