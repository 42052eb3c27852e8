import LapRing.Text.Record

/-!
# Tallies

Counts of what happened on a ring. They wrap around like the words they are and
are never read by the ring itself.
-/
namespace LapRing

structure Tally where
  itemsPublished : UInt64 := 0
  itemsConsumed : UInt64 := 0
  batchesConsumed : UInt64 := 0
  producerWaits : UInt64 := 0
  idlePolls : UInt64 := 0
  handlerErrors : UInt64 := 0
deriving DecidableEq

namespace Tally
open Text

def published (n : UInt64) (t : Tally) : Tally :=
  { t with itemsPublished := t.itemsPublished + n }

/-- One batch of `n` items was released. -/
def consumed (n : UInt64) (t : Tally) : Tally :=
  { t with itemsConsumed := t.itemsConsumed + n, batchesConsumed := t.batchesConsumed + 1 }

def waited (t : Tally) : Tally := { t with producerWaits := t.producerWaits + 1 }

def idle (t : Tally) : Tally := { t with idlePolls := t.idlePolls + 1 }

def failed (t : Tally) : Tally := { t with handlerErrors := t.handlerErrors + 1 }

def fields (t : Tally) : List (String × String) :=
  [("items_published", toString t.itemsPublished), ("items_consumed", toString t.itemsConsumed),
    ("batches_consumed", toString t.batchesConsumed),
    ("producer_waits", toString t.producerWaits), ("idle_polls", toString t.idlePolls),
    ("handler_errors", toString t.handlerErrors)]

/-- The counts at one moment. -/
def inspect (t : Tally) : String := record "MetricsSnapshot" t.fields

/-- The live counters. -/
def inspectLive (t : Tally) : String := record "Metrics" t.fields

end Tally

end LapRing
