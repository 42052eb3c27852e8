import LapRing.Capacity
import LapRing.Coordinator

/-!
# Settings

The size of a ring, how many parties each side admits, how they wait, and
whether the ring keeps count of what it does. Settings may name a size that no
ring has; validation turns them into a capacity or a refusal.
-/
namespace LapRing

/-- How many parties one side of a ring admits at a time. -/
inductive Multiplicity
  | single | multi
deriving DecidableEq

def Multiplicity.name : Multiplicity → String
  | .single => "Single"
  | .multi => "Multi"

structure Settings where
  capacity : UInt64 := 65536
  producer : Multiplicity := .single
  consumer : Multiplicity := .single
  producerWait : ProducerWait := .spinning
  consumerWait : ConsumerWait := .spinning
  metrics : Bool := false
deriving DecidableEq

namespace Settings
open Text

/-- A small ring whose parties never leave the processor. -/
def lowLatency : Settings := { capacity := 4096 }

/-- A large ring for many producers, whose idle parties give way. -/
def lowCpu : Settings where
  producer := .multi
  producerWait := .yielding
  consumerWait := .blocking

def withCapacity (s : Settings) (capacity : UInt64) : Settings := { s with capacity }

def withProducer (s : Settings) (producer : Multiplicity) : Settings := { s with producer }

def withConsumer (s : Settings) (consumer : Multiplicity) : Settings := { s with consumer }

def withWait (s : Settings) (producerWait : ProducerWait) (consumerWait : ConsumerWait) :
    Settings :=
  { s with producerWait, consumerWait }

def withMetrics (s : Settings) (metrics : Bool) : Settings := { s with metrics }

def validate (s : Settings) : Except Refusal Capacity := Capacity.ofWord s.capacity

/-- The mask that cuts a sequence to a slot, for any size but zero. -/
def mask (s : Settings) : Except Fault UInt64 :=
  if s.capacity = 0 then .error .subOverflow else .ok (s.capacity - 1)

def coordinator (s : Settings) : Coordinator := .new s.producerWait s.consumerWait

def inspect (s : Settings) : String :=
  record "Config"
    [("capacity", toString s.capacity), ("producer", s.producer.name),
      ("consumer", s.consumer.name), ("producer_wait", s.producerWait.name),
      ("consumer_wait", s.consumerWait.name), ("enable_metrics", toString s.metrics)]

end Settings

/-- The largest batch of a poll, as a share of the ring. -/
inductive BatchLimit
  | full | half | quarter | eighth | sixteenth
deriving DecidableEq

namespace BatchLimit

def name : BatchLimit → String
  | .full => "Full"
  | .half => "Half"
  | .quarter => "Quarter"
  | .eighth => "Eighth"
  | .sixteenth => "Sixteenth"

/-- The share as a binary logarithm. -/
def halvings : BatchLimit → UInt64
  | .full => 0
  | .half => 1
  | .quarter => 2
  | .eighth => 3
  | .sixteenth => 4

/-- The limit for a ring of the given size, at least one. -/
def get (limit : BatchLimit) (capacity : UInt64) : UInt64 :=
  max 1 (capacity >>> limit.halvings)

end BatchLimit

end LapRing
