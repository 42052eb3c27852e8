import LapRing.Proofs.EventArray
import LapRing.Proofs.ValueFates
import LapRing.Proofs.Receiving

/-!
# What callers note of the values

The callers of a channel note down what goes in and what they are given: a feed
each item it yields, a callback or a handler each value it is called with, before
it does anything else. The parties show in a channel when their values agree.
-/
namespace LapRing

namespace Slots
variable {cap : Capacity} {α β : Type}

def map (f : α → β) (slots : Slots cap α) : Slots cap β := ⟨slots.cells.map f⟩

@[simp] theorem map_fill (f : α → β) (x : α) : (fill cap x).map f = fill cap (f x) := by
  simp [map, fill]

@[simp] theorem read_map (f : α → β) (slots : Slots cap α) (s : Int64) :
    (slots.map f).read s = f (slots.read s) := by
  simp [map, read]

theorem map_write (f : α → β) (slots : Slots cap α) (s : Int64) (x : α) :
    (slots.write s x).map f = (slots.map f).write s (f x) := by
  simp [map, write, Vector.map_set]

theorem values_map (f : α → β) (slots : Slots cap (Option α)) :
    (slots.map (Option.map f)).values = slots.values.map f := by
  rw [values, toList, map, Vector.toList_map, List.filterMap_map, values, toList,
    List.map_filterMap]
  rfl

end Slots

/-- What the callers of a channel have noted down, oldest first. -/
structure ValueAccount (α : Type) where
  accepted : List α := []
  handed : List α := []

namespace ValueAccount
variable {α : Type}

def accept (value : Option α) (b : ValueAccount α) : ValueAccount α :=
  { b with accepted := b.accepted ++ value.toList }

def acceptAll (entries : List (Option α)) (b : ValueAccount α) : ValueAccount α :=
  { b with accepted := b.accepted ++ entries.filterMap id }

def hand (value : α) (b : ValueAccount α) : ValueAccount α :=
  { b with handed := b.handed ++ [value] }

@[simp] theorem acceptAll_nil (b : ValueAccount α) : b.acceptAll [] = b := by
  simp [acceptAll]

theorem acceptAll_cons (x : Option α) (xs : List (Option α)) (b : ValueAccount α) :
    b.acceptAll (x :: xs) = (b.accept x).acceptAll xs := by
  cases x <;> simp [accept, acceptAll]

theorem acceptAll_entries {L : Type} (y : Yield α L) (n : ℕ) (b : ValueAccount α) :
    b.acceptAll (y.entries n) = b.acceptAll (y.items.map some) := by
  simp [acceptAll, Yield.entries]

end ValueAccount

section Noting
variable {α L : Type}

/-- A feed that notes what it yields. -/
def Feed.noting (feed : Feed L α) : Feed (L × ValueAccount α) α where
  length := feed.length
  next k := do
    let item ← Part.first.lift (feed.next k)
    modify fun (l, b) => (l, b.accept item)
    return item

/-- The account of a feed tells what was asked of it. -/
theorem Feed.account_gather (feed : Feed L α) (k n : ℕ) (l : L) (b : ValueAccount α) :
    (feed.noting.gather k n (l, b)).world.2 =
      b.acceptAll ((feed.noting.gather k n (l, b)).items.map some) := by
  induction n generalizing k l b with
  | zero => exact (b.acceptAll_nil).symm
  | succ n ih =>
    unfold gather
    cases hnext : feed.next k l with
    | error e l' =>
      have hnote : feed.noting.next k (l, b) = .error e (l', b) :=
        Act.bind_error (Part.lift_error hnext)
      simp only [hnote]
      exact (b.acceptAll_nil).symm
    | ok item l' =>
      have hnote : feed.noting.next k (l, b) = .ok item (l', b.accept item) :=
        Act.bind_ok (Part.lift_ok hnext)
      cases item with
      | none => simp [hnote, ValueAccount.accept, ValueAccount.acceptAll]
      | some x =>
        simp only [hnote, ih, List.map_cons, ValueAccount.acceptAll_cons]

/-- A callback that notes what it is given. -/
def noting (f : α → Act L Unit) (value : α) : Act (L × ValueAccount α) Unit := do
  modify fun (l, b) => (l, b.hand value)
  Part.first.lift (f value)

/-- An item beside the first part of a world. -/
def besideFirst {R : Type} : Part (α × (L × R)) (α × L) where
  Rest := R
  split := fun (x, (l, r)) => ((x, l), r)
  join := fun (x, l) r => (x, (l, r))

/-- A handler that notes what it is given. -/
def Handler.noting (h : Handler α L) : Handler α (L × ValueAccount α) where
  onEvent context s := do
    modify fun (x, (l, b)) => (x, (l, b.hand x))
    besideFirst.lift (h.onEvent context s)
  onError context s error := besideFirst.lift (h.onError context s error)
  onStart context := Part.first.lift (h.onStart context)
  onShutdown context := Part.first.lift (h.onShutdown context)

/-- A call that moves values. -/
inductive ValueCall (α L : Type)
  | push (value : α)
  | tryPush (value : α)
  | pushBatch (feed : Feed L α)
  | receive (batch : UInt64) (f : α → Act L Unit)
  | pollHandler (context : String) (batch : UInt64) (handler : Handler α L)

/-- Makes a call and keeps the account. -/
def ValueCall.run {cap : Capacity} (pauses : List (Pause (Channel cap α × (L × ValueAccount α)))) :
    ValueCall α L → Act (Channel cap α × (L × ValueAccount α)) (Answer α)
  | .push value => do
    Channel.push Part.first pauses value
    Act.outer (modify fun (l, b) => (l, b.accept (some value)))
    return .pushed
  | .tryPush value => do
    match ← Channel.tryPush Part.first value with
    | .error value => return .tried (.error value)
    | .ok () =>
      Act.outer (modify fun (l, b) => (l, b.accept (some value)))
      return .tried (.ok ())
  | .pushBatch feed => do
    return .batch (← Channel.pushBatch Part.first pauses
      ⟨feed.length, fun k => Act.outer (feed.noting.next k)⟩)
  | .receive batch f => do
    return .received (← Channel.receive Part.first batch fun value => Act.outer (noting f value))
  | .pollHandler context batch handler => do
    return .received (← Channel.pollHandler Part.first context batch handler.noting.across)

end Noting

namespace ValueFates
variable {cap : Capacity} {P Q α : Type}

/-- The parties of a channel whose callers keep an account. The channel does not know
the sequences of its values. -/
structure Shows (e : ValueFates cap P Q α) (c : Channel cap α) (b : ValueAccount α) : Prop where
  sequencer : c.ring.sequencer = e.sequencer
  poller : c.ring.poller = e.poller
  slots : c.ring.slots = e.slots.map (Option.map Stamped.value)
  discarded : c.discarded.toList = e.dropped.map fun d => d.1.value
  accepted : b.accepted = e.accepted.map Stamped.value
  handed : b.handed = e.handed.map Stamped.value

theorem shows_new (cap : Capacity) (settings : Settings) :
    (new cap settings.producer settings.consumer settings.metrics : ValueFates cap P Q α).Shows
      (.new cap settings) {} := by
  refine ⟨rfl, rfl, ?_, rfl, rfl, rfl⟩
  change Slots.fill cap none = (Slots.fill cap none).map (Option.map Stamped.value)
  rw [Slots.map_fill, Option.map_none]

namespace Shows
variable {e : ValueFates cap P Q α} {c : Channel cap α} {b : ValueAccount α}

theorem put (h : e.Shows c b) (p : P) (s : Int64) (value : Option α) :
    (e.put p s value).Shows (c.refill s value) (b.accept value) := by
  have hmark : (value.map (Stamped.mk s.toInt)).map Stamped.value = value := by
    cases value <;> rfl
  refine ⟨?_, ?_, ?_, ?_, ?_, h.handed⟩
  · rw [Channel.ring_refill]
    exact h.sequencer
  · rw [Channel.ring_refill]
    exact h.poller
  · rw [Channel.ring_refill]
    change c.ring.slots.write s value = (e.slots.write s _).map _
    rw [Slots.map_write, hmark, h.slots]
  · rw [Channel.refill, Channel.discarded_discard, h.slots, Slots.read_map]
    change c.discarded.toList ++ _ = (e.dropped ++ _).map _
    rw [List.map_append, h.discarded]
    apply congrArg
    change _ = (((e.slots.read s).map (·, causeOf s value)).toList).map _
    cases e.slots.read s <;> rfl
  · change b.accepted ++ _ = (e.accepted ++ _).map _
    rw [List.map_append, h.accepted]
    cases value <;> rfl

/-- Freeing drops the same values on both sides. -/
theorem free (h : e.Shows c b) : e.free.Shows c.free b := by
  refine ⟨h.sequencer, h.poller, ?_, ?_, h.accepted, h.handed⟩
  · change Slots.fill cap none = (Slots.fill cap none).map (Option.map Stamped.value)
    rw [Slots.map_fill, Option.map_none]
  · change (c.discarded ++ c.ring.slots.values).toList = (e.dropped ++ e.kept.map _).map _
    rw [Array.toList_appendList, h.discarded, h.slots, Slots.values_map, List.map_append,
      List.map_map]
    rfl

/-- Only the tally shows that a value was rejected. -/
theorem reject (h : e.Shows c b) : Shows { e with sequencer := e.sequencer.count .failed }
    (c.withSequencer (c.ring.sequencer.count .failed)) b :=
  ⟨congrArg (Sequencer.count · .failed) h.sequencer, h.poller, h.slots, h.discarded, h.accepted,
    h.handed⟩

end Shows

end ValueFates

end LapRing
