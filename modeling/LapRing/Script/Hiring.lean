import LapRing.Script.Working

/-!
# Scripts for a worker factory

A script makes workers with one factory, each on a ring of its own, and runs
them one at a time.
-/
namespace LapRing.Script.Hiring

inductive Step
  | limit (l : BatchLimit)
  | settings
  | inspect
  | create (raiseAt : Option Nat)
  | run (i : Nat) (values : List Int64) (handler : Working.Spec)

/-- How one run of a worker went. -/
structure Report where
  started : Working.Reply
  stopped : Working.Reply
  log : List (Call Item)
  cursor : Int64
  gating : Int64
  tally : Tally

inductive Reply
  | done
  | refused (refusal : Refusal)
  | halted (why : Halt)
  | noHandle
  | settings (s : Settings)
  | text (t : String)
  | created (worker : Worker) (capacity : UInt64)
  | ran (report : Report)

/-- A worker with its ring. -/
structure Place where
  cap : Capacity
  world : Working.World cap

structure World where
  factory : WorkerFactory
  places : Array Place := #[]
  journal : Journal := #[]

def factory : Part World WorkerFactory where
  Rest := World
  split w := (w.factory, w)
  join f w := { w with factory := f }

def note (n : Notice) : Act World Unit :=
  modify fun w => { w with journal := w.journal.push n }

section
open Working
variable {cap : Capacity}

def replyOf (act : Act (Working.World cap) Working.Reply) :
    Act (Working.World cap) Working.Reply := do
  match ← act.ending with
  | .ok reply => return reply
  | .error why => return .halted why

/-- Starts the worker, publishes the values, lets the worker handle them, and
stops it. -/
def runWorker (values : List Int64) (spec : Spec) : Act (Working.World cap) Report := do
  let started ← replyOf (Working.start 0 spec)
  settle
  if (← ring.lift Ring.acquireProducer).isOk then
    let _ ← (publish values).ending
    ring.update Ring.releaseProducer
  settle
  let stopped ← replyOf (withWorker 0 fun p => Working.shutdown 0 p)
  let log ← takeLog 0
  let s := (← ring.read).sequencer
  return { started, stopped, log, cursor := s.cursor, gating := s.gating, tally := s.metrics }

end

def create (raiseAt : Option Nat) : Act World Reply := do
  match ← WorkerFactory.create factory note (Item.factory 0 raiseAt) with
  | .error refusal => return .refused refusal
  | .ok hire =>
    let place : Place := ⟨hire.cap, hire.ring, { workers := #[{ worker := hire.worker }] }⟩
    modify fun w => { w with places := w.places.push place }
    return .created hire.worker hire.cap.word

/-- Runs the worker of a place, which reports to the journal of the script. -/
def runPlace (i : Nat) (values : List Int64) (spec : Working.Spec) : Act World Reply := do
  let w ← get
  match w.places[i]? with
  | none => return .noHandle
  | some ⟨cap, ring, script⟩ =>
    let script := { script with journal := w.journal }
    match runWorker values spec (ring, script) with
    | .error why _ => throw why
    | .ok report (ring, script) =>
      let place : Place := ⟨cap, ring, { script with journal := #[] }⟩
      set { w with journal := script.journal, places := w.places.setIfInBounds i place }
      return .ran report

def act : Step → Act World Reply
  | .limit l => do
    factory.update (·.withBatchLimit l)
    return .done
  | .settings => return .settings (← factory.read).settings
  | .inspect => return .text (← factory.read).inspect
  | .create raiseAt => create raiseAt
  | .run i values spec => runPlace i values spec

/-- Runs one step, whose call may be cut short. -/
def run1 (step : Step) : Act World Reply := do
  match ← (act step).ending with
  | .ok reply => return reply
  | .error why => return .halted why

/-- What a whole script answered and reported. -/
structure Transcript where
  replies : List Reply
  journal : Journal

def run (name : String) (settings : Settings) (steps : List Step) :
    Except Refusal Transcript := do
  let f ← WorkerFactory.new name settings
  match steps.mapM run1 { factory := f } with
  | .ok replies w => return ⟨replies, w.journal⟩
  | .error _ w => return ⟨[], w.journal⟩

end LapRing.Script.Hiring
