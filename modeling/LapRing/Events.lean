import LapRing.Feed
import LapRing.Handler
import LapRing.Ring

/-!
# Event rings

An event ring keeps its events in the slots for good. Publishing means changing
the event of a claimed slot in place; polling lends each event to a handler,
which may change it too. A translator that gives up leaves what it has changed,
and its claim is published all the same.
-/
namespace LapRing

/-- A ring with one event in each slot. -/
abbrev EventRing (cap : Capacity) (ε : Type) : Type := Ring cap ε

namespace EventRing
variable {cap : Capacity} {W ε A : Type}
open Text

/-- Builds a ring, calling `factory` once for each slot, in order, and reports it. -/
def create (note : Notice → Act W Unit) (settings : Settings) (factory : Nat → Act W ε) :
    Act W (Except Refusal ((cap : Capacity) × EventRing cap ε)) :=
  match settings.validate with
  | .error refusal => return .error refusal
  | .ok cap => do
    let cells ← Vector.ofFnM fun i : Fin cap.slots => factory i.val
    note (.eventRingCreated settings)
    return .ok ⟨cap, .new settings ⟨cells⟩⟩

section
variable (here : Part W (EventRing cap ε))

/-- Claims one slot, lets `translate` change its event, and publishes it. -/
def publishEvent (pauses : List (Pause W)) (translate : Int64 → Act (ε × W) Unit) :
    Act W Unit := do
  let s ← Ring.claimOne here pauses
  ((here.within (Ring.slotPart s)).lend (translate s)).closing (Ring.publish here ⟨s, s⟩)

/-- Publishes one event whose translator is given an argument. -/
def publishEventWith (pauses : List (Pause W)) (arg : A)
    (translate : Int64 → A → Act (ε × W) Unit) : Act W Unit :=
  publishEvent here pauses fun s => translate s arg

/-- Translates the events of the given sequences with the arguments from number
`k` on, until there are no more of either. -/
def translateAll (args : Feed W A) (translate : Int64 → A → Act (ε × W) Unit) :
    Nat → List Int64 → Act W Unit
  | _, [] => return ()
  | k, s :: rest => do
    match ← args.next k with
    | none => return ()
    | some arg =>
      (here.within (Ring.slotPart s)).lend (translate s arg)
      translateAll args translate (k + 1) rest

/-- Publishes one event for each argument with one claim and one publication.
Returns the announced number of arguments. -/
def publishEvents (pauses : List (Pause W)) (args : Feed W A)
    (translate : Int64 → A → Act (ε × W) Unit) : Act W (Except Refusal UInt64) := do
  if args.length = 0 then return .ok 0
  match ← Ring.claimMany here pauses args.length with
  | .error refusal => return .error refusal
  | .ok w =>
    (translateAll here args translate 0 w.sequences).closing (Ring.publish here w)
    return .ok args.length

/-- Hands the events of a window to the handler. -/
def visit (context : String) (handler : Handler ε W) (w : Window) : Act W Unit :=
  w.sequences.forM fun s =>
    (here.within (Ring.slotPart s)).lend
      (handler.dispatch (Ring.countFailure here) context s)

/-- Hands at most `batch` published events to the handler. -/
def poll (context : String) (batch : UInt64) (handler : Handler ε W) : Act W PollState := do
  match ← Ring.poll here batch (visit here context handler) with
  | none => return .idle
  | some () => return .processing

/-- Polls until there was an event to handle. -/
def blockingPoll (others : List (Act W Unit)) (context : String) (batch : UInt64)
    (handler : Handler ε W) : Act W Unit :=
  Ring.untilWork here (Ring.poll here batch (visit here context handler)) others

end

def isPublished (r : EventRing cap ε) (s : Int64) : Bool := r.sequencer.isPublished s

def inspect (r : EventRing cap ε) : String :=
  openRecord "EventRing"
    [("config", r.settings.inspect), ("sequencer", r.sequencer.inspect)]

def inspectProducer : String := openRecord "EventProducer" []

def inspectConsumer : String := openRecord "EventConsumer" []

end EventRing

end LapRing
