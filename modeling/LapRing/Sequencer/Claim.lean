import LapRing.Journal
import LapRing.Part
import LapRing.Sequencer.Basic

/-!
# Claims

A claim of `n` sequences ends at the last claimed sequence plus `n`. It fits if
the sequence one lap before its end, the wrap point, has been released. A claim
that does not fit waits until gating reaches its wrap point. Shared producers
take their sequences before they wait, so that later claims come after.

What the rest of the world does during a wait is given as a list of pauses. A
claim that still has to wait after the last of them is stalled.
-/
namespace LapRing

/-- What a waiting producer sees: the sequence it needs released, and gating. -/
structure Wait where
  wrapPoint : Int64
  gating : Int64

/-- What others do while a producer waits. -/
abbrev Pause (W : Type) : Type := Wait → Act W Unit

/-- A pause that a program reports before others go on. -/
def Pause.reporting {W : Type} (note : Notice → Act W Unit) (others : Act W Unit) : Pause W :=
  fun wait => do
    note (.ringFull wait.wrapPoint wait.gating)
    others

/-- A claim that may still have to wait. -/
structure Ticket where
  high : Int64
  wrapPoint : Int64

namespace Sequencer
variable {cap : Capacity} {W : Type}

/-- The end and the wrap point of a claim of `n` after the sequence `last`. -/
def ticket (cap : Capacity) (last n : Int64) : Act W Ticket := do
  let high ← Checked.add last n
  let wrapPoint ← Checked.sub high cap.span
  return ⟨high, wrapPoint⟩

/-- Asks for the next `n` sequences. Shared producers own them from here on. -/
def request (n : Int64) : Act (Sequencer cap) Ticket := do
  let s ← get
  match s.claims with
  | .single claimed _ => ticket cap claimed n
  | .shared .. =>
    let (last, cursor) := Cell.fetchAdd n s.cursor
    set { s with cursor }
    ticket cap last n

/-- Completes a claim whose wrap point is not above `released`. -/
def redeem (t : Ticket) (released : Int64) : Act (Sequencer cap) Int64 := do
  let ahead ← Checked.sub t.high released
  if cap.span < ahead then throw (.fault (.overclaimed t.high cap.span released))
  let s ← get
  if s.producer = .single then set (s.withClaimed t.high)
  return t.high

/-- Waits until gating has reached `wrapPoint`, and returns the value it has then. -/
def awaitGating (seq : Part W (Sequencer cap)) (wrapPoint : Int64) :
    List (Pause W) → Act W Int64
  | [] => do
    let gating := (← seq.read).gating
    if wrapPoint ≤ gating then return gating
    seq.update (·.count .waited)
    throw .stalled
  | pause :: rest => do
    let gating := (← seq.read).gating
    if wrapPoint ≤ gating then return gating
    seq.update (·.count .waited)
    pause ⟨wrapPoint, gating⟩
    awaitGating seq wrapPoint rest

/-- Claims `n` sequences, waiting while they do not fit, and returns the last. -/
def claim (seq : Part W (Sequencer cap)) (pauses : List (Pause W)) (n : Int64) :
    Act W Int64 := do
  let t ← seq.lift (request n)
  let cached := (← seq.read).cached
  if t.wrapPoint ≤ cached then seq.lift (redeem t cached)
  else
    let gating ← awaitGating seq t.wrapPoint pauses
    seq.update (·.withCached gating)
    seq.lift (redeem t gating)

/-- Claims `n` sequences, from one to a whole lap. -/
def next (seq : Part W (Sequencer cap)) (pauses : List (Pause W)) (n : UInt64) :
    Act W (Except Refusal Int64) :=
  match cap.checkClaim n with
  | .error refusal => return .error refusal
  | .ok n => return .ok (← claim seq pauses n)

/-- Claims `n` sequences if they fit now. -/
def tryClaim (n : Int64) : Act (Sequencer cap) (Option Int64) := do
  let s ← get
  let t ← ticket cap s.claimed n
  if t.wrapPoint ≤ s.cached then
    set (s.withClaimed t.high)
    return some t.high
  else
    let s := s.withCached s.gating
    if t.wrapPoint ≤ s.gating then
      set (s.withClaimed t.high)
      return some t.high
    else
      set s
      return none

/-- Claims `n` sequences, from one to a whole lap, if they fit now. -/
def tryNext (n : UInt64) : Act (Sequencer cap) (Except Refusal (Option Int64)) :=
  match cap.checkClaim n with
  | .error refusal => return .error refusal
  | .ok n => return .ok (← tryClaim n)

end Sequencer

end LapRing
