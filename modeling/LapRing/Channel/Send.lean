import LapRing.Channel.Basic
import LapRing.Feed

/-!
# Sending

A value is stored in a claimed slot and published. What an earlier lap left in
the slot is discarded: after the publication for a single value, at once within
a batch.

A batch claims as many slots as it announces. The slots it does not fill are
emptied, and the whole window is published even if the batch gives up.
-/
namespace LapRing.Channel
variable {cap : Capacity} {W α : Type} (here : Part W (Channel cap α))

/-- Stores a value in a claimed slot and publishes it. -/
def store (s : Int64) (value : α) : Act W Unit := do
  let stale ← here.lift (exchange s (some value))
  (Ring.publish (here.within ringPart) ⟨s, s⟩).closing (here.update (discard stale))

/-- Sends a value, waiting while the ring is full. -/
def push (pauses : List (Pause W)) (value : α) : Act W Unit := do
  let s ← Ring.claimOne (here.within ringPart) pauses
  store here s value

/-- Sends a value if a slot is free, and hands it back otherwise. -/
def tryPush (value : α) : Act W (Except α Unit) := do
  match ← here.lift (ringPart.lift (Ring.sequencerPart.lift (Sequencer.tryClaim 1))) with
  | none => return .error value
  | some s =>
    store here s value
    return .ok ()

/-- Fills the slot of `s` with the next item, and says whether there was one. -/
def fillOne (feed : Feed W α) (k : Nat) (s : Int64) : Act W Bool := do
  match ← feed.next k with
  | none => return false
  | some value =>
    let stale ← here.lift (exchange s (some value))
    let _ ← (Checked.add s 1).closing (here.update (discard stale))
    return true

/-- Fills slots with the items from number `k` on, and empties those that are
left when the feed ends or gives up. -/
def fill (feed : Feed W α) : Nat → List Int64 → Act W Unit
  | _, [] => return ()
  | k, s :: rest => do
    let vacateRest := (s :: rest).forM fun t => here.lift (vacate t)
    if ← (fillOne here feed k s).onHalt vacateRest then fill feed (k + 1) rest
    else vacateRest

/-- Sends a batch with one claim and one publication. Returns the announced
number of values. -/
def pushBatch (pauses : List (Pause W)) (feed : Feed W α) :
    Act W (Except Refusal UInt64) := do
  if feed.length = 0 then return .ok 0
  match ← Ring.claimMany (here.within ringPart) pauses feed.length with
  | .error refusal => return .error refusal
  | .ok w =>
    (fill here feed 0 w.sequences).closing (Ring.publish (here.within ringPart) w)
    return .ok feed.length

end LapRing.Channel
