import LapRing.Poll
import LapRing.Script.Hooks
import LapRing.Script.TwoParties
import LapRing.Sequencer.Claim
import LapRing.Sequencer.Handoff

/-!
# Scripts for a bare sequencer

A script is a finite list of steps. It drives one sequencer and any number of
pollers, and answers each step with what it returned and the positions after it.
A poll may run further steps for each sequence it hands out.
-/
namespace LapRing.Script.Sequencing

inductive Step
  | next (n : UInt64)
  | tryNext (n : UInt64)
  | nextOne
  | tryNextOne
  | publish (sequence : Int64)
  | publishRange (low high : Int64)
  | highestPublished (first available : Int64)
  | isPublished (sequence : Int64)
  | arePublished (sequences : List Int64)
  | publishGating (sequence : Int64)
  | advanceGating (move : Sequencer.Move)
  | awaitGating (wrapPoint : Int64)
  | info
  | metrics
  | inspect
  | poller (consumer : Multiplicity)
  | pollerAt (start : Int64)
  | pollerInfo (index : Nat)
  | poll (index : Nat) (batch : UInt64) (nested : List (Int64 × List Step))
      (raises : List Int64)
  | nextBlocked (n : UInt64) (released : Int64)
  | advanceOutOfOrder (moves : List Sequencer.Move)

/-- The answer to a step, with the state of the sequencer after it. -/
structure Entry (Reply : Type) where
  reply : Reply
  cursor : Int64
  gating : Int64
  tally : Option Tally

inductive Reply
  | done
  | refused (refusal : Refusal)
  | halted (why : Halt)
  | noHandle
  | number (n : Int64)
  | claimed (high : Option Int64)
  | flag (b : Bool)
  | flags (bs : List Bool)
  | info (capacity : UInt64) (producer : Multiplicity) (span cursor gating : Int64)
  | tally (t : Tally)
  | text (t : String)
  | consumer (c : Multiplicity)
  | pollerInfo (consumer : Multiplicity) (claimed : Option Int64) (text : String)
  | polled (state : Except Halt PollState) (drained : List Int64) (nested : List (Entry Reply))
  | nextBlocked (during : Int64) (early : Bool) (claimed : Reply)
  | advanced (during : Int64)

/-- What a script keeps beside its sequencer. -/
structure ScriptState where
  pollers : Array Poller := #[]
  journal : Journal := #[]

abbrev World (cap : Capacity) : Type := Sequencer cap × ScriptState

/-- What one poll gathers: the sequences handed out, and the nested answers. -/
structure Trail where
  drained : Array Int64 := #[]
  nested : Array (Entry Reply) := #[]

variable {cap : Capacity}

def sequencer : Part (World cap) (Sequencer cap) := .first

def script : Part (World cap) ScriptState := .second

/-- The poller of the given number, which must exist. -/
def poller (index : Nat) : Part (World cap) Poller where
  Rest := World cap
  split w := (w.2.pollers.getD index .sole, w)
  join p w := (w.1, { w.2 with pollers := w.2.pollers.setIfInBounds index p })

def note (n : Notice) : Act (World cap) Unit :=
  script.update fun d => { d with journal := d.journal.push n }

def addPoller (p : Poller) : Act (World cap) Unit :=
  script.update fun d => { d with pollers := d.pollers.push p }

def claimReply : Except Refusal Int64 → Reply
  | .error refusal => .refused refusal
  | .ok high => .number high

/-- A claim on a full ring, while which gating is set to `released`. -/
def nextBlocked (n : UInt64) (released : Int64) : Act (World cap) Reply :=
  Act.owning (none : Turn Int64) do
    let m ← callBeside .first
      (fun release =>
        Sequencer.next sequencer.beside [.reporting (fun n => Act.outer (note n)) release] n)
      (do
        let cursor := (← sequencer.beside.read).cursor
        sequencer.beside.update (·.withGating released)
        return cursor)
    return .nextBlocked m.other m.early (claimReply m.result)

/-- Moves of gating in parallel, the last of them after all others have waited. -/
def advanceOutOfOrder (moves : List Sequencer.Move) : Act (World cap) Reply := do
  let (waiting, s) := (← sequencer.read).settle moves.dropLast
  let during := s.gating
  let (stuck, s) := s.settle (waiting ++ moves.getLast?.toList)
  sequencer.write s
  if stuck.isEmpty then return .advanced during else throw .stalled

/-- Records a sequence, runs what is nested at it, and may give up. -/
def drain (hooks : Hooks Int64 (World cap) (Entry Reply)) (raises : List Int64) (s : Int64) :
    Act (Trail × World cap) Unit := do
  Part.first.update fun t : Trail => { t with drained := t.drained.push s }
  let entries ← Act.outer (hooks.run s)
  Part.first.update fun t : Trail => { t with nested := t.nested ++ entries.toArray }
  if raises.contains s then throw (.raised s!"drain panic at {s}")

def poll (index : Nat) (batch : UInt64) (hooks : Hooks Int64 (World cap) (Entry Reply))
    (raises : List Int64) : Act (World cap) Reply := do
  if (← script.read).pollers.size ≤ index then return .noHandle
  let (ending, trail) ← Act.beside ({} : Trail) <|
    Poller.poll sequencer.beside (poller index).beside batch fun w =>
      w.sequences.forM (drain hooks raises)
  let state := ending.map fun drained => if drained.isSome then .processing else .idle
  return .polled state trail.drained.toList trail.nested.toList

/-- The answer of a step, whose call may be cut short. -/
def answer (act : Act (World cap) Reply) : Act (World cap) (Entry Reply) := do
  let reply := match ← act.ending with
    | .ok reply => reply
    | .error why => .halted why
  let s ← sequencer.read
  return ⟨reply, s.cursor, s.gating, s.tally⟩

mutual

def Step.run : Step → Act (World cap) (Entry Reply)
  | .next n => answer do return claimReply (← Sequencer.next sequencer [] n)
  | .tryNext n => answer do
    match ← sequencer.lift (Sequencer.tryNext n) with
    | .error refusal => return .refused refusal
    | .ok high => return .claimed high
  | .nextOne => answer do return .number (← Sequencer.claim sequencer [] 1)
  | .tryNextOne => answer do return .claimed (← sequencer.lift (Sequencer.tryClaim 1))
  | .publish s => answer do
    sequencer.lift (Sequencer.publish s)
    return .done
  | .publishRange low high => answer do
    sequencer.lift (Sequencer.publishRange low high)
    return .done
  | .highestPublished first available => answer do
    return .number (← (← sequencer.read).highestPublished first available)
  | .isPublished s => answer do return .flag ((← sequencer.read).isPublished s)
  | .arePublished ss => answer do
    let seq ← sequencer.read
    return .flags (ss.map seq.isPublished)
  | .publishGating s => answer do
    sequencer.update (·.withGating s)
    return .done
  | .advanceGating m => answer do
    let (moved, s) := (← sequencer.read).advanceGating m.target m.observed
    sequencer.write s
    if moved then return .done else throw .stalled
  | .awaitGating wrapPoint => answer do
    return .number (← Sequencer.awaitGating sequencer wrapPoint [])
  | .info => answer do
    let s ← sequencer.read
    return .info cap.word s.producer cap.span s.cursor s.gating
  | .metrics => answer do return .tally (← sequencer.read).metrics
  | .inspect => answer do return .text (← sequencer.read).inspect
  | .poller consumer => answer do
    let p := Poller.new consumer (← sequencer.read)
    addPoller p
    return .consumer p.consumer
  | .pollerAt start => answer do
    addPoller (.competing start)
    return .done
  | .pollerInfo index => answer do
    match (← script.read).pollers[index]? with
    | none => return .noHandle
    | some p => return .pollerInfo p.consumer p.claimed? p.inspect
  | .poll index batch nested raises => answer (poll index batch (hooks nested) raises)
  | .nextBlocked n released => answer (nextBlocked n released)
  | .advanceOutOfOrder moves => answer (advanceOutOfOrder moves)

/-- Runs steps one after the other. -/
def runAll : List Step → Act (World cap) (List (Entry Reply))
  | [] => return []
  | step :: rest => do
    let entry ← step.run
    return entry :: (← runAll rest)

def hooks : List (Int64 × List Step) → Hooks Int64 (World cap) (Entry Reply)
  | [] => []
  | (s, steps) :: rest => (s, runAll steps) :: hooks rest

end

/-- What a whole script answered and reported. -/
structure Transcript where
  entries : List (Entry Reply)
  journal : Journal

def run (capacity : UInt64) (producer : Multiplicity) (metrics : Bool) (steps : List Step) :
    Except Refusal Transcript := do
  let cap ← Capacity.ofWord capacity
  let world : World cap := (.new cap producer metrics, {})
  match runAll steps world with
  | .ok entries (_, script) => return ⟨entries, script.journal⟩
  | .error _ (_, script) => return ⟨[], script.journal⟩

end LapRing.Script.Sequencing
