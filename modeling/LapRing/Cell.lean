import LapRing.Text.Record

/-!
# Shared cells

The steps by which several parties change one cell without losing each other's
changes. Each returns what it found; none can be interrupted.
-/
namespace LapRing.Cell
variable {α : Type}

/-- Sets the cell to `new` if it holds `expected`, and says whether it did. -/
def compareAndSet [DecidableEq α] (expected new : α) : StateM α Bool := fun current =>
  if current = expected then (true, new) else (false, current)

/-- Adds to a counter, wrapping around, and returns its value from before. -/
def fetchAdd (delta : Int64) : StateM Int64 Int64 := fun current =>
  (current, current + delta)

def inspectSequence (s : Int64) : String := Text.tuple "Sequence" (toString s)

def inspectFlag (b : Bool) : String := Text.tuple "PaddedFlag" (toString b)

end LapRing.Cell
