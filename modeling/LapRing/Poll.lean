import LapRing.Part
import LapRing.Sequencer.Publish

/-!
# Polls

A poll opens a window on the sequences published after the consumer's position,
hands them out in order, and releases the window to the producers when it is
done with them, even if it is cut short.

A sole consumer's position is gating itself. Competing consumers share a
position of their own, which a poll moves over its window when it opens it; they
release their windows in the order in which they opened them.
-/
namespace LapRing

inductive PollState
  | idle | processing
deriving DecidableEq

def PollState.name : PollState → String
  | .idle => "Idle"
  | .processing => "Processing"

/-- A run of consecutive sequences. -/
structure Window where
  first : Int64
  last : Int64
deriving DecidableEq

namespace Window

def size (w : Window) : Nat := (w.last.toInt - w.first.toInt + 1).toNat

def sequences (w : Window) : List Int64 :=
  (List.range w.size).map fun k => w.first + Int64.ofNat k

end Window

/-- The position of the consumers of a ring. -/
inductive Poller
  | sole
  | competing (claimed : Int64)

namespace Poller
variable {cap : Capacity} {W α : Type}
open Text

def new (consumer : Multiplicity) (seq : Sequencer cap) : Poller :=
  match consumer with
  | .single => .sole
  | .multi => .competing seq.gating

def consumer : Poller → Multiplicity
  | .sole => .single
  | .competing _ => .multi

/-- The position of competing consumers. -/
def claimed? : Poller → Option Int64
  | .sole => none
  | .competing claimed => some claimed

def position (p : Poller) (seq : Sequencer cap) : Int64 := p.claimed?.getD seq.gating

/-- Moves the position of competing consumers over a window. -/
def claim (window : Window) : Poller → Poller
  | .sole => .sole
  | .competing _ => .competing window.last

def inspect : Poller → String
  | .sole => tuple "Single" (record "SingleConsumerPoller" [("_private", "()")])
  | .competing claimed =>
    tuple "Multi"
      (record "MultiConsumerPoller" [("sequence", Cell.inspectSequence claimed)])

/-- The window of at most `batch` published sequences after `position`. -/
def window (seq : Sequencer cap) (position batch : Int64) : Act W (Option Window) := do
  let first ← Checked.add position 1
  let limit ← Checked.add position batch
  let available := min seq.cursor limit
  if available < first then return none
  let highest ← seq.highestPublished first available
  let low ← Checked.sub first 1
  if highest < low ∨ available < highest then
    throw (.fault (.outsideWindow highest low available))
  if highest < first then return none
  return some ⟨first, highest⟩

/-- Opens the next window. A batch of zero opens none and is not even counted as
idle; a batch above the capacity is cut to one lap. -/
def openWindow (seq : Part W (Sequencer cap)) (poller : Part W Poller) (batch : UInt64) :
    Act W (Option Window) := do
  if batch = 0 then return none
  let s ← seq.read
  let p ← poller.read
  match ← window s (p.position s) (min batch cap.word).toInt64 with
  | none =>
    seq.update (·.count .idle)
    return none
  | some w =>
    if p.consumer = .single ∧ w.last < s.gating then
      throw (.fault (.regressed "gating" s.gating w.last))
    poller.update (·.claim w)
    return some w

/-- Releases a window. Among competing consumers it has its turn once all
windows before it are released. -/
def release (seq : Part W (Sequencer cap)) (poller : Part W Poller) (w : Window) :
    Act W Unit := do
  match ← poller.read with
  | .sole => seq.update (·.withGating w.last)
  | .competing _ =>
    let (moved, s) := (← seq.read).advanceGating w.last (← Checked.sub w.first 1)
    if moved then seq.write s else throw .stalled
  if (← seq.read).tally.isSome then
    let size ← Checked.add (← Checked.sub w.last w.first) 1
    seq.update (·.count (.consumed size.toUInt64))

/-- Hands the next window to `drain`, if there is one, and releases it. -/
def poll (seq : Part W (Sequencer cap)) (poller : Part W Poller) (batch : UInt64)
    (drain : Window → Act W α) : Act W (Option α) := do
  match ← openWindow seq poller batch with
  | none => return none
  | some w => return some (← (drain w).closing (release seq poller w))

end Poller

end LapRing
