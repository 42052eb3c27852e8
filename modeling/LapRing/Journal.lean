import LapRing.Settings

/-!
# Journals

What a program reports about its rings while it runs: a list of notices, oldest
first, each with a level. Names of workers and contexts are quoted where the
notice carries them as values and bare where it shows them as text.
-/
namespace LapRing

inductive Notice
  | ringFull (wrapPoint gating : Int64)
  | channelCreated (settings : Settings)
  | eventRingCreated (settings : Settings)
  | workerCreated (worker : String) (capacity : UInt64)
  | workerStarted (worker : String) (batchSize : UInt64)
  | workerStopped (worker : String) (gating : Int64)
  | handlerFailed (context : String) (sequence : Int64) (error : String)
  | workerPanicked (worker : String)
deriving DecidableEq

namespace Notice
open Text

inductive Level
  | trace | debug | info | warn
deriving DecidableEq

def Level.name : Level → String
  | .trace => "TRACE"
  | .debug => "DEBUG"
  | .info => "INFO"
  | .warn => "WARN"

def level : Notice → Level
  | .ringFull .. => .trace
  | .channelCreated _ | .eventRingCreated _ | .workerCreated .. => .debug
  | .workerStarted .. | .workerStopped .. => .info
  | .handlerFailed .. | .workerPanicked _ => .warn

private def created (settings : Settings) : List (String × String) :=
  [("capacity", toString settings.capacity), ("producer", settings.producer.name),
    ("consumer", settings.consumer.name)]

def message : Notice → String
  | .ringFull .. => "ring full, producer waiting"
  | .channelCreated _ => "channel created"
  | .eventRingCreated _ => "event ring created"
  | .workerCreated .. => "worker created"
  | .workerStarted .. => "worker started"
  | .workerStopped .. => "worker stopped"
  | .handlerFailed .. => "event handler failed"
  | .workerPanicked _ => "worker panicked"

def fields : Notice → List (String × String)
  | .ringFull wrapPoint gating =>
    [("wrap_point", toString wrapPoint), ("gating", toString gating)]
  | .channelCreated settings | .eventRingCreated settings => created settings
  | .workerCreated worker capacity => [("worker", worker), ("capacity", toString capacity)]
  | .workerStarted worker batchSize =>
    [("worker", quoted worker), ("batch_size", toString batchSize)]
  | .workerStopped worker gating => [("worker", quoted worker), ("gating", toString gating)]
  | .handlerFailed context sequence error =>
    [("context", quoted context), ("sequence", toString sequence), ("error", error)]
  | .workerPanicked worker => [("worker", worker)]

/-- A notice on one line. -/
def line (n : Notice) : String :=
  let pairs := n.fields.map fun (name, value) => name ++ "=" ++ value
  " ".intercalate (n.level.name :: n.message :: pairs)

end Notice

/-- Notices, oldest first. -/
abbrev Journal : Type := Array Notice

/-- The lines of a journal, with those of level trace only if asked for. -/
def Journal.lines (journal : Journal) (traces : Bool) : List String :=
  (journal.toList.filter fun n => traces || n.level ≠ .trace).map Notice.line

end LapRing
