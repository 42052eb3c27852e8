import LapRing.Channel.Basic
import LapRing.Handler

/-!
# Receiving

A consumer takes the values of a window out of their slots in order and hands
each to a callback. Empty slots are passed over. If the callback gives up, the
window is released with the remaining values still in their slots; nobody will
receive them any more.
-/
namespace LapRing.Channel
variable {cap : Capacity} {W α : Type} (here : Part W (Channel cap α))

/-- Hands the values of a window to `f`, and returns how many there were. -/
def drain (f : α → Int64 → Act W Unit) (w : Window) : Act W Nat :=
  w.sequences.foldlM (fun received s => do
    match ← here.lift (exchange s none) with
    | none => return received
    | some value =>
      f value s
      return received + 1) 0

def receiveCount (batch : UInt64) (f : α → Int64 → Act W Unit) : Act W (Option Nat) :=
  Ring.poll (here.within ringPart) batch (drain here f)

def stateOf : Option Nat → PollState
  | none => .idle
  | some _ => .processing

/-- Receives at most `batch` values without waiting. -/
def receive (batch : UInt64) (f : α → Act W Unit) : Act W PollState := do
  return stateOf (← receiveCount here batch fun value _ => f value)

/-- Receives at most `batch` values, waiting for the first window, and returns
how many values that window held. -/
def blockingReceive (others : List (Act W Unit)) (batch : UInt64) (f : α → Act W Unit) :
    Act W Nat :=
  Ring.untilWork (here.within ringPart) (receiveCount here batch fun value _ => f value) others

/-- Receives at most `batch` values through a handler. -/
def pollHandler (context : String) (batch : UInt64) (handler : Handler α W) :
    Act W PollState := do
  return stateOf <| ← receiveCount here batch fun value s =>
    Act.owning value <|
      handler.dispatch (Ring.countFailure (here.within ringPart)) context s

end LapRing.Channel
