import LapRing.Journal
import LapRing.Part

/-!
# Handlers

A handler receives the items of a poll one by one. It may change the item it is
given. An item that it rejects counts as consumed all the same: it is reported
once, and the poll goes on with the next.
-/
namespace LapRing

structure Handler (ε W : Type) where
  /-- Takes an item of the given context and sequence, or rejects it. -/
  onEvent : String → Int64 → Act (ε × W) (Except String Unit)
  /-- Learns of an item that was rejected, and why. -/
  onError : String → Int64 → String → Act (ε × W) Unit
  /-- Runs in a worker before its first poll. -/
  onStart : String → Act W Unit := fun _ => pure ()
  /-- Runs in a worker after its last poll. -/
  onShutdown : String → Act W Unit := fun _ => pure ()

namespace Handler
variable {ε W : Type}

/-- The handler of an action that reports what it rejects to a journal. -/
def reporting (note : Notice → Act W Unit)
    (onEvent : String → Int64 → Act (ε × W) (Except String Unit)) : Handler ε W where
  onEvent
  onError context sequence error := Act.outer (note (.handlerFailed context sequence error))

/-- Gives one item to the handler. -/
def dispatch (h : Handler ε W) (countFailure : Act W Unit) (context : String)
    (sequence : Int64) : Act (ε × W) Unit := do
  match ← h.onEvent context sequence with
  | .ok () => return ()
  | .error error =>
    Act.outer countFailure
    h.onError context sequence error

end Handler

end LapRing
