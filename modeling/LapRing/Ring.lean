import LapRing.Poll
import LapRing.Sequencer.Claim
import LapRing.Side

/-!
# Rings

A ring joins a sequencer, a poller and slots, and lends its slots out by
sequence: to a producer from its claim until it publishes, and to a consumer
from the opening of a window until its release. It admits handles on both sides
and wakes sleeping consumers after each publication.
-/
namespace LapRing

structure Ring (cap : Capacity) (σ : Type) where
  settings : Settings
  sequencer : Sequencer cap
  poller : Poller
  slots : Slots cap σ
  coordinator : Coordinator
  producers : Side
  consumers : Side

namespace Ring
variable {cap : Capacity} {W σ α : Type}
open Text

def new (settings : Settings) (slots : Slots cap σ) : Ring cap σ :=
  let sequencer := .new cap settings.producer settings.metrics
  { settings, sequencer, slots
    poller := .new settings.consumer sequencer
    coordinator := settings.coordinator
    producers := ⟨settings.producer, false⟩
    consumers := ⟨settings.consumer, false⟩ }

def sequencerPart : Part (Ring cap σ) (Sequencer cap) where
  Rest := Settings × Poller × Slots cap σ × Coordinator × Side × Side
  split := fun ⟨settings, s, poller, slots, coordinator, producers, consumers⟩ =>
    (s, settings, poller, slots, coordinator, producers, consumers)
  join := fun s (settings, poller, slots, coordinator, producers, consumers) =>
    ⟨settings, s, poller, slots, coordinator, producers, consumers⟩

def pollerPart : Part (Ring cap σ) Poller where
  Rest := Settings × Sequencer cap × Slots cap σ × Coordinator × Side × Side
  split := fun ⟨settings, sequencer, p, slots, coordinator, producers, consumers⟩ =>
    (p, settings, sequencer, slots, coordinator, producers, consumers)
  join := fun p (settings, sequencer, slots, coordinator, producers, consumers) =>
    ⟨settings, sequencer, p, slots, coordinator, producers, consumers⟩

def slotsPart : Part (Ring cap σ) (Slots cap σ) where
  Rest := Settings × Sequencer cap × Poller × Coordinator × Side × Side
  split := fun ⟨settings, sequencer, poller, slots, coordinator, producers, consumers⟩ =>
    (slots, settings, sequencer, poller, coordinator, producers, consumers)
  join := fun slots (settings, sequencer, poller, coordinator, producers, consumers) =>
    ⟨settings, sequencer, poller, slots, coordinator, producers, consumers⟩

def coordinatorPart : Part (Ring cap σ) Coordinator where
  Rest := Settings × Sequencer cap × Poller × Slots cap σ × Side × Side
  split := fun ⟨settings, sequencer, poller, slots, c, producers, consumers⟩ =>
    (c, settings, sequencer, poller, slots, producers, consumers)
  join := fun c (settings, sequencer, poller, slots, producers, consumers) =>
    ⟨settings, sequencer, poller, slots, c, producers, consumers⟩

/-- The slot of one sequence. -/
def slotPart (s : Int64) : Part (Ring cap σ) σ where
  Rest := Ring cap σ
  split r := (r.slots.read s, r)
  join x r := { r with slots := r.slots.write s x }

theorem lawful_sequencerPart : (sequencerPart : Part (Ring cap σ) _).Lawful :=
  ⟨fun _ => rfl, fun _ _ => rfl, fun _ _ _ => rfl⟩

theorem lawful_pollerPart : (pollerPart : Part (Ring cap σ) _).Lawful :=
  ⟨fun _ => rfl, fun _ _ => rfl, fun _ _ _ => rfl⟩

theorem lawful_slotsPart : (slotsPart : Part (Ring cap σ) _).Lawful :=
  ⟨fun _ => rfl, fun _ _ => rfl, fun _ _ _ => rfl⟩

theorem lawful_coordinatorPart : (coordinatorPart : Part (Ring cap σ) _).Lawful :=
  ⟨fun _ => rfl, fun _ _ => rfl, fun _ _ _ => rfl⟩

theorem lawful_slotPart (s : Int64) : (slotPart s : Part (Ring cap σ) σ).Lawful where
  join_split r := by simp [slotPart]
  split_join x r := by simp [slotPart]
  join_join x y r := by simp [slotPart]

/-! ## Handles -/

/-- Admits one more producer. -/
def acquireProducer : Act (Ring cap σ) (Except Refusal Unit) := do
  let r ← get
  let (admitted, producers) := r.producers.acquire
  if admitted then
    set { r with producers }
    return .ok ()
  else return .error .producerTaken

def releaseProducer (r : Ring cap σ) : Ring cap σ := { r with producers := r.producers.release }

/-- Admits one more consumer. -/
def acquireConsumer : Act (Ring cap σ) (Except Refusal Unit) := do
  let r ← get
  let (admitted, consumers) := r.consumers.acquire
  if admitted then
    set { r with consumers }
    return .ok ()
  else return .error .consumerTaken

def releaseConsumer (r : Ring cap σ) : Ring cap σ := { r with consumers := r.consumers.release }

/-! ## Producing -/

variable (here : Part W (Ring cap σ))

/-- Claims one slot. -/
def claimOne (pauses : List (Pause W)) : Act W Int64 :=
  Sequencer.claim (here.within sequencerPart) pauses 1

/-- Claims `n` slots at once. -/
def claimMany (pauses : List (Pause W)) (n : UInt64) : Act W (Except Refusal Window) := do
  match ← Sequencer.next (here.within sequencerPart) pauses n with
  | .error refusal => return .error refusal
  | .ok high =>
    let low ← Checked.sub high (← Checked.sub n.toInt64 1)
    return .ok ⟨low, high⟩

/-- Publishes a claimed window and wakes the consumers. -/
def publish (w : Window) : Act W Unit := do
  here.lift <| sequencerPart.lift <|
    if w.first = w.last then Sequencer.publish w.last
    else Sequencer.publishRange w.first w.last
  here.update fun r => { r with coordinator := r.coordinator.wakeup }

/-! ## Consuming -/

/-- Hands the next window of at most `batch` sequences to `drain`. -/
def poll (batch : UInt64) (drain : Window → Act W α) : Act W (Option α) :=
  Poller.poll (here.within sequencerPart) (here.within pollerPart) batch drain

def countFailure : Act W Unit := here.update fun r =>
  { r with sequencer := r.sequencer.count .failed }

/-- Attempts until there is work, waiting after each attempt that found none.
What others do during the waits is given by `others`. -/
def untilWork (attempt : Act W (Option α)) : List (Act W Unit) → Act W α
  | [] => do
    match ← attempt with
    | some x => return x
    | none => throw .stalled
  | other :: rest => do
    match ← attempt with
    | some x => return x
    | none =>
      other
      here.lift (coordinatorPart.lift Coordinator.consumerWait)
      untilWork attempt rest

/-! ## Views -/

variable {here}

/-- Sequences claimed or published and not yet released. -/
def length (r : Ring cap σ) : Act W UInt64 := do
  let ahead ← Checked.sub r.sequencer.cursor r.sequencer.gating
  return (max ahead 0).toUInt64

end Ring

end LapRing
