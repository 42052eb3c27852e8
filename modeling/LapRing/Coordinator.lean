import LapRing.Act
import LapRing.Text.Record

/-!
# Waiting

A producer waits while the ring is full, a consumer while it is empty. Both only
retry after a wait; how they pass the time is their strategy. A blocking consumer
sleeps until it is signalled. Its signal is one latch for the whole ring: signals
that meet no sleeper merge into one, and the next wait uses it up.
-/
namespace LapRing

inductive ProducerWait
  | spinning | yielding | parking
deriving DecidableEq

def ProducerWait.name : ProducerWait → String
  | .spinning => "Spinning"
  | .yielding => "Yielding"
  | .parking => "Parking"

inductive ConsumerWait
  | spinning | yielding | parking | blocking
deriving DecidableEq

def ConsumerWait.name : ConsumerWait → String
  | .spinning => "Spinning"
  | .yielding => "Yielding"
  | .parking => "Parking"
  | .blocking => "Blocking"

/-- The strategies of both sides, and the latch if consumers block. -/
structure Coordinator where
  producer : ProducerWait := .spinning
  consumer : ConsumerWait := .spinning
  latch : Option Bool := none

namespace Coordinator
open Text

def new (producer : ProducerWait) (consumer : ConsumerWait) : Coordinator where
  producer
  consumer
  latch := if consumer = .blocking then some false else none

/-- A producer always comes back from a wait. -/
def producerWait : Act Coordinator Unit := pure ()

/-- One wait of a consumer. It stalls at a latch that nobody sets. -/
def consumerWait : Act Coordinator Unit := do
  let c ← get
  match c.latch with
  | none => pure ()
  | some true => set { c with latch := some false }
  | some false => throw .stalled

/-- Lets a sleeping consumer go on, or the next one that would sleep. -/
def wakeup (c : Coordinator) : Coordinator :=
  { c with latch := c.latch.map fun _ => true }

/-- Whether a consumer that waits now stays asleep. -/
def sleeps (c : Coordinator) : Bool := c.latch = some false

/-- One consumer waits, and another party wakes it up. Says whether the consumer
slept until then, or nothing if consumers do not sleep. -/
def waitThenWakeup : Act Coordinator (Option Bool) := do
  let c ← get
  if c.sleeps then
    set c.wakeup
    consumerWait
  else
    consumerWait
    modify wakeup
  return c.latch.map fun _ => c.sleeps

def inspect (c : Coordinator) : String :=
  let blocker :=
    match c.latch with
    | none => "None"
    | some _ => tuple "Some" (openRecord "Blocker" [])
  record "Coordinator"
    [("producer", c.producer.name), ("consumer", c.consumer.name), ("blocker", blocker)]

end Coordinator

end LapRing
