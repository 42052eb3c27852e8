import LapRing.Cell
import LapRing.Settings

/-!
# Sides

A ring has a side for producers and one for consumers. A side for many admits
every handle that asks. A side for one admits a handle only while no other is
alive; dropping the handle frees the side.
-/
namespace LapRing

structure Side where
  multiplicity : Multiplicity
  taken : Bool := false

namespace Side

/-- Asks for a handle, and says whether one was given. -/
def acquire (side : Side) : Bool × Side :=
  match side.multiplicity with
  | .multi => (true, side)
  | .single =>
    let (admitted, taken) := Cell.compareAndSet false true side.taken
    (admitted, { side with taken })

/-- Takes a handle back. -/
def release (side : Side) : Side :=
  match side.multiplicity with
  | .multi => side
  | .single => { side with taken := false }

end Side

end LapRing
