import LapRing.Journal
import LapRing.Ring

/-!
# Channels

A channel is a ring that values pass through: a producer moves a value into a
slot, and a consumer moves it out and leaves the slot empty. A slot may also
stay empty from the start, when a batch announces more values than it has, or
keep its value, when a consumer gives up in the middle of a window. Values that
reach nobody in this way are discarded sooner or later.
-/
namespace LapRing

structure Channel (cap : Capacity) (α : Type) where
  ring : Ring cap (Option α)
  /-- The values discarded so far, oldest first. -/
  discarded : Array α := #[]

namespace Channel
variable {cap : Capacity} {W α : Type}
open Text

def new (cap : Capacity) (settings : Settings) : Channel cap α where
  ring := .new settings (.fill cap none)

/-- Opens an empty channel and reports it. -/
def create (note : Notice → Act W Unit) (settings : Settings) :
    Act W (Except Refusal ((cap : Capacity) × Channel cap α)) :=
  match settings.validate with
  | .error refusal => return .error refusal
  | .ok cap => do
    note (.channelCreated settings)
    return .ok ⟨cap, .new cap settings⟩

/-- The settings of a channel with the default strategies. -/
def settings (capacity : UInt64) (producer consumer : Multiplicity) : Settings :=
  { capacity, producer, consumer }

def ringPart : Part (Channel cap α) (Ring cap (Option α)) where
  Rest := Array α
  split := fun ⟨ring, discarded⟩ => (ring, discarded)
  join := .mk

theorem lawful_ringPart : (ringPart : Part (Channel cap α) _).Lawful :=
  ⟨fun _ => rfl, fun _ _ => rfl, fun _ _ _ => rfl⟩

def length (c : Channel cap α) : Act W UInt64 := c.ring.length

def discard (value : Option α) (c : Channel cap α) : Channel cap α :=
  match value with
  | none => c
  | some value => { c with discarded := c.discarded.push value }

/-- Puts content into the slot of a sequence, and returns what was in it. -/
def exchange (s : Int64) (content : Option α) : Act (Channel cap α) (Option α) :=
  ringPart.lift <| Ring.slotsPart.lift fun slots =>
    let (before, slots) := slots.exchange s content
    .ok before slots

/-- Empties the slot of a sequence and discards its value. -/
def vacate (s : Int64) : Act (Channel cap α) Unit := do
  let left ← exchange s none
  modify (discard left)

/-- Ends the channel. The values still in slots are discarded in slot order. -/
def free (c : Channel cap α) : Channel cap α where
  ring := { c.ring with slots := .fill cap none }
  discarded := c.discarded ++ c.ring.slots.toList.filterMap id

def inspect (c : Channel cap α) : Act W String := do
  return record "Channel"
    [("config", c.ring.settings.inspect), ("len", toString (← c.length))]

def inspectProducer (c : Channel cap α) : String :=
  openRecord "Producer" [("producer", c.ring.settings.producer.name)]

def inspectConsumer (c : Channel cap α) : String :=
  openRecord "Consumer" [("consumer", c.ring.settings.consumer.name)]

end Channel

end LapRing
