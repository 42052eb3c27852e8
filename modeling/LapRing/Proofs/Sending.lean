import LapRing.Channel.Send
import LapRing.Proofs.IgnoringActions
import LapRing.Proofs.LentRings
import LapRing.Proofs.BoundedQueue

/-!
# What sending does to a channel

A channel stands in a world beside whatever its callers own. Storing a value
writes one slot and publishes it; filling a batch writes every slot of its
window, with the items its feed yields and then with nothing.
-/
namespace LapRing

section
variable {cap : Capacity} {σ : Type}

/-- Writes the slots of the given sequences one after the other. -/
def Slots.writeAll (slots : Slots cap σ) : List Int64 → List σ → Slots cap σ
  | s :: ss, x :: xs => (slots.write s x).writeAll ss xs
  | _, _ => slots

/-- The ring after `entries` were sent with one claim of `n`. -/
def Ring.afterSend (n : Int64) (entries : List σ) (r : Ring cap σ) : Ring cap σ :=
  let win := Sequencer.nextWindow r.sequencer n
  { r with
    sequencer := (r.sequencer.admitted n).afterPublish win.first win.last
    slots := r.slots.writeAll win.sequences entries
    coordinator := r.coordinator.wakeup }

theorem Slots.peek_writeAll_other (slots : Slots cap σ) (ss : List Int64) (xs : List σ) {t : ℤ}
    (h : ∀ s ∈ ss, s.toInt % cap.slots ≠ t % cap.slots) :
    (slots.writeAll ss xs).peek t = slots.peek t := by
  induction ss generalizing slots xs with
  | nil => cases xs <;> rfl
  | cons s ss ih =>
    cases xs with
    | nil => rfl
    | cons x xs =>
      rw [writeAll, ih _ _ fun u hu => h u (List.mem_cons_of_mem _ hu), peek_write,
        if_neg (h s List.mem_cons_self)]

/-- Sequences with different slots are all found as they were written. -/
theorem Slots.read_writeAll (slots : Slots cap σ) (ss : List Int64) (xs : List σ)
    (distinct : ss.Pairwise fun s t => cap.slot s ≠ cap.slot t) {k : ℕ} (hk : k < ss.length)
    (hk' : k < xs.length) : (slots.writeAll ss xs).read ss[k] = xs[k] := by
  induction ss generalizing slots xs k with
  | nil => exact absurd hk (Nat.not_lt_zero k)
  | cons s ss ih =>
    cases xs with
    | nil => exact absurd hk' (Nat.not_lt_zero k)
    | cons x xs =>
      obtain ⟨hs, hss⟩ := List.pairwise_cons.mp distinct
      cases k with
      | zero =>
        have hother : ∀ u ∈ ss, u.toInt % cap.slots ≠ s.toInt % cap.slots := by
          intro u hu he
          exact hs u hu ((cap.slot_eq_iff s u).mpr he.symm)
        simp only [writeAll, List.getElem_cons_zero]
        rw [← peek_toInt, peek_writeAll_other _ _ _ hother, peek_toInt, read_write, if_pos rfl]
      | succ k =>
        simp only [writeAll, List.getElem_cons_succ]
        exact ih _ _ hss _ _

end

namespace Channel
variable {cap : Capacity} {α L : Type}

/-- The channel in a world beside what its callers own. -/
abbrev here : Part (Channel cap α × L) (Channel cap α) := Part.first

abbrev hereRing : Part (Channel cap α × L) (Ring cap (Option α)) := here.within ringPart

abbrev hereSequencer : Part (Channel cap α × L) (Sequencer cap) :=
  hereRing.within Ring.sequencerPart

theorem lawful_hereRing : (hereRing : Part (Channel cap α × L) _).Lawful :=
  Part.lawful_first.within lawful_ringPart

theorem lawful_hereSequencer : (hereSequencer : Part (Channel cap α × L) _).Lawful :=
  lawful_hereRing.within Ring.lawful_sequencerPart

def withSequencer (s : Sequencer cap) (c : Channel cap α) : Channel cap α :=
  { c with ring := { c.ring with sequencer := s } }

def withSlots (slots : Slots cap (Option α)) (c : Channel cap α) : Channel cap α :=
  { c with ring := { c.ring with slots } }

def afterPublish (win : Window) (c : Channel cap α) : Channel cap α :=
  { c with ring := c.ring.afterPublish win }

@[simp] theorem ring_discard (x : Option α) (c : Channel cap α) : (c.discard x).ring = c.ring := by
  cases x <;> rfl

theorem discarded_discard (x : Option α) (c : Channel cap α) :
    (c.discard x).discarded.toList = c.discarded.toList ++ x.toList := by
  cases x <;> simp [discard]

/-- Puts content into a slot and discards what was there. -/
def refill (s : Int64) (x : Option α) (c : Channel cap α) : Channel cap α :=
  (c.withSlots (c.ring.slots.write s x)).discard (c.ring.slots.read s)

/-- Puts content into one slot after the other. -/
def refillAll : List Int64 → List (Option α) → Channel cap α → Channel cap α
  | s :: ss, x :: xs, c => refillAll ss xs (c.refill s x)
  | _, _, c => c

/-- The channel after `entries` were sent with one claim of `n`. -/
def afterSend (n : Int64) (entries : List (Option α)) (c : Channel cap α) : Channel cap α :=
  let win := Sequencer.nextWindow c.ring.sequencer n
  ((c.withSequencer (c.ring.sequencer.admitted n)).refillAll win.sequences entries).afterPublish win

theorem ring_refill (s : Int64) (x : Option α) (c : Channel cap α) :
    (c.refill s x).ring = (c.withSlots (c.ring.slots.write s x)).ring :=
  ring_discard _ _

theorem ring_refillAll (ss : List Int64) (xs : List (Option α)) (c : Channel cap α) :
    (c.refillAll ss xs).ring = (c.withSlots (c.ring.slots.writeAll ss xs)).ring := by
  induction ss generalizing xs c with
  | nil => rfl
  | cons s ss ih =>
    cases xs with
    | nil => rfl
    | cons x xs =>
      rw [refillAll, ih]
      simp only [ring_refill, withSlots, Slots.writeAll]

theorem ring_afterSend (n : Int64) (entries : List (Option α)) (c : Channel cap α) :
    (c.afterSend n entries).ring = c.ring.afterSend n entries := by
  simp only [afterSend, afterPublish, ring_refillAll, Ring.afterSend, Ring.afterPublish]
  rfl

theorem afterPublish_discard (win : Window) (x : Option α) (c : Channel cap α) :
    (c.afterPublish win).discard x = (c.discard x).afterPublish win := by
  cases x <;> rfl

/-- A claimed window is published and the consumers are woken. -/
theorem publish_eq {c : Channel cap α} (win : Window)
    (forward : c.ring.sequencer.Forward win.last) (lo : 0 ≤ win.first.toInt)
    (le : win.first.toInt ≤ win.last.toInt) (word : win.last.toInt + 1 < 2 ^ 63) (l : L) :
    Ring.publish hereRing win (c, l) = .ok () (c.afterPublish win, l) := by
  exact Ring.publish_eq lawful_hereRing (w := (c, l)) win forward lo le word

/-- A stored value is in its slot and published; what was there is discarded. -/
theorem store_eq {c : Channel cap α} {s : Int64} (forward : c.ring.sequencer.Forward s)
    (lo : 0 ≤ s.toInt) (word : s.toInt + 1 < 2 ^ 63) (value : α) (l : L) :
    store here s value (c, l) = .ok () ((c.refill s (some value)).afterPublish ⟨s, s⟩, l) := by
  have hput : here.lift (exchange s (some value)) (c, l) =
      .ok (c.ring.slots.read s) (c.withSlots (c.ring.slots.write s (some value)), l) := rfl
  have hpublish := publish_eq (c := c.withSlots (c.ring.slots.write s (some value)))
    ⟨s, s⟩ forward lo (le_refl _) word l
  rw [store, Act.bind_ok hput, refill, ← afterPublish_discard]
  exact Act.closing_ok hpublish rfl

/-- A feed of the callers, asked from the world that also holds the channel. -/
def outerFeed (feed : Feed L α) : Feed (Channel cap α × L) α where
  length := feed.length
  next k := Act.outer (feed.next k)

theorem length_outerFeed (feed : Feed L α) :
    (outerFeed feed : Feed (Channel cap α × L) α).length = feed.length := rfl

theorem next_outerFeed (feed : Feed L α) (k : ℕ) (c : Channel cap α) (l : L) :
    (outerFeed feed).next k (c, l) =
      match feed.next k l with
      | .ok x l => .ok x (c, l)
      | .error e l => .error e (c, l) := by
  change Part.second.lift (feed.next k) (c, l) = _
  cases h : feed.next k l with
  | ok x l' => exact Part.lift_ok h
  | error e l' => exact Part.lift_error h

/-- Slots that are vacated hold nothing, wherever the channel stands. -/
theorem vacateAll_in {W : Type} {p : Part W (Channel cap α)} (hp : p.Lawful) (ss : List Int64)
    (w : W) :
    (ss.forM fun t => p.lift (vacate t)) w =
      .ok () (p.alter (·.refillAll ss (List.replicate ss.length none)) w) := by
  induction ss generalizing w with
  | nil => exact congrArg _ (Part.alter_eq_self hp rfl).symm
  | cons s ss ih =>
    have hone : p.lift (vacate s) w = .ok () (p.alter (·.refill s none) w) := Part.lift_ok rfl
    refine (Act.bind_ok hone).trans ((ih _).trans ?_)
    rw [Part.alter_alter hp]
    rfl

theorem vacateAll_eq (ss : List Int64) (c : Channel cap α) (l : L) :
    (ss.forM fun t => here.lift (vacate t) : Act (Channel cap α × L) Unit) (c, l) =
      .ok () (c.refillAll ss (List.replicate ss.length none), l) :=
  vacateAll_in Part.lawful_first ss (c, l)

/-- Filling writes what the feed yields, and nothing into the slots left over. -/
theorem fill_eq (feed : Feed L α) (k : ℕ) (ss : List Int64)
    (word : ∀ s ∈ ss, s.toInt + 1 < 2 ^ 63) (c : Channel cap α) (l : L) :
    fill here (outerFeed feed) k ss (c, l) =
      match (feed.gather k ss.length l).ending with
      | .ok () => .ok () (c.refillAll ss ((feed.gather k ss.length l).entries ss.length),
          (feed.gather k ss.length l).world)
      | .error e => .error e (c.refillAll ss ((feed.gather k ss.length l).entries ss.length),
          (feed.gather k ss.length l).world) := by
  induction ss generalizing k c l with
  | nil => rfl
  | cons s ss ih =>
    have hnext := next_outerFeed feed k c l
    simp only [List.length_cons, Feed.gather]
    rw [fill]
    cases hfeed : feed.next k l with
    | error e l' =>
      rw [hfeed] at hnext
      have hone : fillOne here (outerFeed feed) k s (c, l) = .error e (c, l') :=
        Act.bind_error hnext
      exact Act.bind_error (Act.onHalt_error hone (vacateAll_eq (s :: ss) c l'))
    | ok item l' =>
      rw [hfeed] at hnext
      cases item with
      | none =>
        have hone : fillOne here (outerFeed feed) k s (c, l) = .ok false (c, l') :=
          Act.bind_ok hnext
        rw [Act.bind_ok (Act.onHalt_ok hone _)]
        exact vacateAll_eq (s :: ss) c l'
      | some x =>
        have hword := word s List.mem_cons_self
        have hlow := s.le_toInt
        have hone := Checked.toInt_one
        have hstore : fillOne here (outerFeed feed) k s (c, l) =
            .ok true (c.refill s (some x), l') := by
          have hput : here.lift (exchange s (some x)) (c, l') =
              .ok (c.ring.slots.read s) (c.withSlots (c.ring.slots.write s (some x)), l') := rfl
          rw [fillOne, Act.bind_ok hnext]
          simp only
          rw [Act.bind_ok hput, Checked.add_exact (by omega) (by omega)]
          rfl
        rw [Act.bind_ok (Act.onHalt_ok hstore _)]
        simp only [Yield.entries, List.map_cons, List.cons_append, List.length_cons,
          Nat.add_sub_add_right, refillAll]
        exact ih (k + 1) (fun t ht => word t (List.mem_cons_of_mem _ ht)) (c.refill s (some x)) l'

section Calls
open Sequencer
variable {c : Channel cap α} {published : Set ℤ}

theorem claim_here (h : c.ring.sequencer.Level published) {n : Int64} (pos : 1 ≤ n.toInt)
    (fits : c.ring.sequencer.cursor.toInt + n.toInt ≤ c.ring.sequencer.gating.toInt + cap.slots)
    (room : c.ring.sequencer.cursor.toInt + n.toInt + 1 < 2 ^ 63)
    (pauses : List (Pause (Channel cap α × L))) (l : L) :
    Sequencer.claim hereSequencer pauses n (c, l) =
      .ok (c.ring.sequencer.cursor + n) (c.withSequencer (c.ring.sequencer.admitted n), l) := by
  exact Ring.claim_eq lawful_hereRing (w := (c, l)) h pos fits room pauses

theorem claimMany_here (h : c.ring.sequencer.Level published) {n : UInt64} (pos : 1 ≤ n.toNat)
    (le : n.toNat ≤ cap.slots)
    (fits : c.ring.sequencer.cursor.toInt + n.toNat ≤ c.ring.sequencer.gating.toInt + cap.slots)
    (room : c.ring.sequencer.cursor.toInt + n.toNat + 1 < 2 ^ 63)
    (pauses : List (Pause (Channel cap α × L))) (l : L) :
    Ring.claimMany hereRing pauses n (c, l) =
      .ok (.ok (nextWindow c.ring.sequencer n.toInt64))
        (c.withSequencer (c.ring.sequencer.admitted n.toInt64), l) := by
  exact Ring.claimMany_eq lawful_hereRing (w := (c, l)) h pos le fits room pauses

/-- A value claimed for is stored in the next slot and published. -/
theorem store_admitted (h : c.ring.sequencer.Level published)
    (room : c.ring.sequencer.cursor.toInt + 1 + cap.slots < 2 ^ 63) (value : α) (l : L) :
    store here (c.ring.sequencer.cursor + 1) value
        (c.withSequencer (c.ring.sequencer.admitted 1), l) =
      .ok () (c.afterSend 1 [some value], l) := by
  have hpos := cap.one_le_slots
  have hstart := h.start_le
  have hgating := h.gating_le
  have hnext : (c.ring.sequencer.cursor + 1).toInt = c.ring.sequencer.cursor.toInt + 1 :=
    Checked.toInt_succ (by omega)
  have hforward : (c.withSequencer (c.ring.sequencer.admitted 1)).ring.sequencer.Forward
      (c.ring.sequencer.cursor + 1) := forward_admitted 1 (by omega)
  rw [store_eq hforward (by omega) (by omega) value l]
  simp only [afterSend, nextWindow_one, Window.sequences_self]
  rfl

theorem push_eq (h : c.ring.sequencer.Level published)
    (fits : c.ring.sequencer.cursor.toInt < c.ring.sequencer.gating.toInt + cap.slots)
    (room : c.ring.sequencer.cursor.toInt + 1 + cap.slots < 2 ^ 63)
    (pauses : List (Pause (Channel cap α × L))) (value : α) (l : L) :
    push here pauses value (c, l) = .ok () (c.afterSend 1 [some value], l) := by
  have hpos := cap.one_le_slots
  have hone := Checked.toInt_one
  have hclaim := claim_here h (n := 1) (by omega) (by omega) (by omega) pauses l
  rw [push, Ring.claimOne, Act.bind_ok hclaim]
  exact store_admitted h room value l

/-- A value offered is stored if there is room, and handed back otherwise. -/
theorem tryPush_eq (h : c.ring.sequencer.Level published)
    (room : c.ring.sequencer.cursor.toInt + 1 + cap.slots < 2 ^ 63) (value : α) (l : L) :
    (c.ring.sequencer.cursor.toInt < c.ring.sequencer.gating.toInt + cap.slots →
      tryPush here value (c, l) = .ok (.ok ()) (c.afterSend 1 [some value], l)) ∧
    (c.ring.sequencer.gating.toInt + cap.slots ≤ c.ring.sequencer.cursor.toInt →
      tryPush here value (c, l) = .ok (.error value)
        (c.withSequencer (c.ring.sequencer.withCached c.ring.sequencer.gating), l)) := by
  have hone := Checked.toInt_one
  have hstart := h.start_le
  have hgating := h.gating_le
  have hcached := h.standing.cached_le
  have hclaimed := h.claimed
  have hwrap := toInt_wrapPoint cap c.ring.sequencer.cursor 1
    (by omega) (by omega) (by omega)
  have htry : here.lift (ringPart.lift (Ring.sequencerPart.lift (tryClaim 1))) (c, l) =
      .ok (c.ring.sequencer.attempted 1).1
        (c.withSequencer (c.ring.sequencer.attempted 1).2, l) :=
    Part.lift_ok (Part.lift_ok (Part.lift_ok
      (tryClaim_eq (s := c.ring.sequencer) (by rw [hclaimed]; omega) (by omega)
        (by rw [hclaimed]; omega))))
  rw [tryPush, Act.bind_ok htry]
  constructor
  · intro fits
    have hattempt := attempted_of_fits (s := c.ring.sequencer) (n := 1)
      (by rw [hclaimed]; omega)
    rw [hclaimed] at hattempt
    rw [hattempt]
    exact Act.bind_ok (store_admitted h room value l)
  · intro full
    have hattempt := attempted_of_full (s := c.ring.sequencer) (n := 1) hcached
      (by rw [hclaimed]; omega)
    rw [hattempt]
    rfl

/-- A batch of none is done at once. -/
theorem pushBatch_empty {feed : Feed L α} (hzero : feed.length = 0)
    (pauses : List (Pause (Channel cap α × L))) (c : Channel cap α) (l : L) :
    pushBatch here pauses (outerFeed feed) (c, l) = .ok (.ok 0) (c, l) := by
  rw [pushBatch, length_outerFeed, if_pos hzero]
  rfl

/-- A batch above the capacity is refused before anything is done. -/
theorem pushBatch_tooLong {feed : Feed L α} (hlong : cap.slots < feed.length.toNat)
    (pauses : List (Pause (Channel cap α × L))) (c : Channel cap α) (l : L) :
    pushBatch here pauses (outerFeed feed) (c, l) =
      .ok (.error (.invalidClaim feed.length cap.word)) (c, l) := by
  have hzero : ¬ feed.length = 0 := by
    intro he
    rw [he] at hlong
    exact absurd hlong (Nat.not_lt_zero _)
  have hmany : Ring.claimMany hereRing pauses feed.length (c, l) =
      .ok (.error (.invalidClaim feed.length cap.word)) (c, l) :=
    Ring.claimMany_tooLong hlong pauses
  rw [pushBatch, length_outerFeed, if_neg hzero, Act.bind_ok hmany]
  rfl

/-- A batch that fits appends as many entries as it announces, however its feed
ends. -/
theorem pushBatch_eq (h : c.ring.sequencer.Level published) (feed : Feed L α)
    (pos : 1 ≤ feed.length.toNat) (le : feed.length.toNat ≤ cap.slots)
    (fits : c.ring.sequencer.cursor.toInt + feed.length.toNat ≤
      c.ring.sequencer.gating.toInt + cap.slots)
    (room : c.ring.sequencer.cursor.toInt + feed.length.toNat + cap.slots < 2 ^ 63)
    (pauses : List (Pause (Channel cap α × L))) (l : L) :
    pushBatch here pauses (outerFeed feed) (c, l) =
      match (feed.gather 0 feed.length.toNat l).ending with
      | .ok () => .ok (.ok feed.length) (c.afterSend feed.length.toInt64
          ((feed.gather 0 feed.length.toNat l).entries feed.length.toNat),
            (feed.gather 0 feed.length.toNat l).world)
      | .error e => .error e (c.afterSend feed.length.toInt64
          ((feed.gather 0 feed.length.toNat l).entries feed.length.toNat),
            (feed.gather 0 feed.length.toNat l).world) := by
  have hstart := h.start_le
  have hgating := h.gating_le
  have hn : feed.length.toInt64.toInt = feed.length.toNat := cap.toInt_toInt64 le
  have hzero : feed.length ≠ 0 := by
    intro he
    rw [he] at pos
    exact absurd pos (by decide)
  have hfirst := h.toInt_first (n := feed.length.toInt64) (by omega) (by omega)
  have hlast := h.toInt_last (n := feed.length.toInt64) (by omega) (by omega)
  set win := nextWindow c.ring.sequencer feed.length.toInt64 with hwin
  have hsize : win.sequences.length = feed.length.toNat := by
    rw [Window.length_sequences, Window.size_eq]
    omega
  have hfill := fill_eq feed 0 win.sequences
    (fun s hs => by have := (Window.mem_sequences.mp hs).2; omega)
    (c.withSequencer (c.ring.sequencer.admitted feed.length.toInt64)) l
  rw [hsize] at hfill
  set c' := (c.withSequencer (c.ring.sequencer.admitted feed.length.toInt64)).refillAll
    win.sequences ((feed.gather 0 feed.length.toNat l).entries feed.length.toNat) with hc'
  have hmany := claimMany_here h pos le (by omega) (by omega) pauses l
  have hforward : c'.ring.sequencer.Forward win.last := by
    rw [hc', ring_refillAll]
    exact forward_admitted _ (by omega)
  have hpublish := publish_eq (L := L) win hforward (by omega) (by omega) (by omega)
  rw [pushBatch, length_outerFeed, if_neg hzero, Act.bind_ok hmany]
  cases hending : (feed.gather 0 feed.length.toNat l).ending with
  | ok u =>
    rw [hending] at hfill
    exact Act.bind_ok (Act.closing_ok hfill (hpublish _))
  | error e =>
    rw [hending] at hfill
    exact Act.bind_error (Act.closing_error hfill (hpublish _))

end Calls

end Channel

end LapRing
