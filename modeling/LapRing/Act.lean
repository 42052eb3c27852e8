/-!
# Actions that may be cut short

A call on a ring can end early: the ring finds one of its own promises broken,
a callback of the caller gives up, or the call would wait for a party that never
acts. What was done by then stays done, so an action keeps the state it reached
together with the reason it stopped.
-/
namespace LapRing

/-- A promise of the ring itself, found broken while it runs. -/
inductive Fault
  | addOverflow
  | subOverflow
  | overclaimed (claimed capacity gating : Int64)
  | regressed (counter : String) (old new : Int64)
  | outsideWindow (highest low available : Int64)
  | interiorNul (position : Nat) (bytes : List UInt8)
deriving DecidableEq

def Fault.message : Fault → String
  | .addOverflow => "attempt to add with overflow"
  | .subOverflow => "attempt to subtract with overflow"
  | .overclaimed claimed capacity gating =>
    s!"bounded claim violated: claimed {claimed} is more than {capacity} ahead of gating {gating}"
  | .regressed counter old new =>
    s!"monotonic progress violated: {counter} decreased from {old} to {new}"
  | .outsideWindow highest low available =>
    s!"frontier violated: highest {highest} outside window [{low}, {available}]"
  | .interiorNul position bytes =>
    let listed := ", ".intercalate (bytes.map toString)
    s!"thread name may not contain interior null bytes: NulError({position}, [{listed}])"

/-- Why an action stopped before its end. A stalled action waits for a state
that no party left in the run can bring about. -/
inductive Halt
  | fault (reason : Fault)
  | raised (text : String)
  | stalled
deriving DecidableEq

/-- An action on a world `W`. Both endings carry the world that was reached. -/
abbrev Act (W α : Type) : Type := EStateM Halt W α

namespace Act
variable {W α : Type}

/-- Runs `close` after `body`, however `body` ends. -/
def closing (body : Act W α) (close : Act W Unit) : Act W α := fun w =>
  match body w with
  | .ok x w =>
    match close w with
    | .ok _ w => .ok x w
    | .error h w => .error h w
  | .error h w =>
    match close w with
    | .ok _ w => .error h w
    | .error later w => .error later w

/-- Runs `repair` only if `body` is cut short, which stays the outcome. -/
def onHalt (body : Act W α) (repair : Act W Unit) : Act W α := fun w =>
  match body w with
  | .ok x w => .ok x w
  | .error h w =>
    match repair w with
    | .ok _ w => .error h w
    | .error later w => .error later w

/-- The ending of `body` as a value. -/
def ending (body : Act W α) : Act W (Except Halt α) := fun w =>
  match body w with
  | .ok x w => .ok (.ok x) w
  | .error h w => .ok (.error h) w

end Act

end LapRing
