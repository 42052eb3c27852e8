import LapRing.Events

/-!
# Workers

A worker is a consumer of an event ring with a thread of its own. It holds a
consumer handle while it is stopped and lends it to its thread when it starts.
The thread polls as long as the worker is running; told to stop, it finishes the
batch it has begun and hands the consumer back. A thread that gives up drops the
consumer, and the worker asks for a new one when it learns of that.

A thread advances in turns, each of which runs to its end before another party
acts.
-/
namespace LapRing

/-- How far a thread has got. -/
inductive Phase
  | starting
  | polling
  | stopping
  | finished
  | gaveUp (why : Halt)
deriving DecidableEq

structure Worker where
  name : String
  batchSize : UInt64
  running : Bool := false
  /-- Whether the worker itself holds a consumer handle. -/
  holdsConsumer : Bool := true
  thread : Option Phase := none

namespace Worker
variable {cap : Capacity} {W ε : Type}
open Text

/-- Makes a stopped worker, which takes a consumer handle. -/
def new (name : String) (batchSize : UInt64) :
    Act (EventRing cap ε) (Except Refusal Worker) := do
  if batchSize = 0 then return .error (.invalidBatchSize batchSize)
  match ← Ring.acquireConsumer with
  | .error refusal => return .error refusal
  | .ok () => return .ok { name, batchSize }

def inspect (w : Worker) : String :=
  openRecord "Worker"
    [("name", quoted w.name), ("batch_size", toString w.batchSize),
      ("running", toString w.running)]

/-- The fault of starting a thread under a name with a NUL, if it has one. -/
def nameFault (name : String) : Option Fault :=
  let bytes := name.toUTF8.toList
  (bytes.findIdx? (· = 0)).map fun position => .interiorNul position bytes

/-- What a thread needs of the world: its ring, its worker and the journal. -/
structure Site (cap : Capacity) (ε W : Type) where
  ring : Part W (EventRing cap ε)
  worker : Part W Worker
  note : Notice → Act W Unit

variable (site : Site cap ε W)

/-- Starts the thread and lends it the consumer. The system spawns the thread, or
says why it does not: then the consumer is dropped and the worker asks for a new
one, both in one step. Where others run meanwhile, one of them may take the consumer
of a ring for one in between. -/
def startOn (system : Except String Unit) : Act W (Except Refusal Unit) := do
  let w ← site.worker.read
  if w.thread.isSome then return .error .workerAlreadyStarted
  if !w.holdsConsumer then return .error .consumerTaken
  let w := { w with running := true, holdsConsumer := false }
  match nameFault w.name, system with
  | some fault, _ =>
    site.worker.write w
    site.ring.update Ring.releaseConsumer
    throw (.fault fault)
  | none, .error reason =>
    site.ring.update Ring.releaseConsumer
    let holdsConsumer := (← site.ring.lift Ring.acquireConsumer).isOk
    site.worker.write { w with running := false, holdsConsumer }
    return .error (.workerSpawn reason)
  | none, .ok () =>
    site.worker.write { w with thread := some .starting }
    return .ok ()

/-- Starts the thread on a system that spawns it. -/
def start : Act W (Except Refusal Unit) := startOn site (.ok ())

def enter (phase : Phase) : Act W Unit :=
  site.worker.update ({ · with thread := some phase })

/-- Runs a piece of the thread. If it is cut short, the thread gives up, and its
consumer is dropped. -/
def guarded (piece : Act W Bool) : Act W Bool := do
  match ← piece.ending with
  | .ok moved => return moved
  | .error why =>
    enter site (.gaveUp why)
    site.ring.update Ring.releaseConsumer
    return true

/-- One turn of the thread. Says whether there was anything to do. -/
def turn (handler : Handler ε W) : Act W Bool := do
  let w ← site.worker.read
  match w.thread with
  | some .starting => guarded site do
    handler.onStart w.name
    site.note (.workerStarted w.name w.batchSize)
    enter site .polling
    return true
  | some .polling =>
    if w.running then guarded site do
      return (← EventRing.poll site.ring w.name w.batchSize handler) = .processing
    else
      enter site .stopping
      return true
  | some .stopping => guarded site do
    handler.onShutdown w.name
    site.note (.workerStopped w.name (← site.ring.read).sequencer.gating)
    enter site .finished
    return true
  | some .finished | some (.gaveUp _) | none => return false

def turns (handler : Handler ε W) : Nat → Act W Unit
  | 0 => return ()
  | n + 1 => do
    if ← turn site handler then turns handler n

/-- How a thread that has ended ended. -/
def result : Phase → Except Halt Unit
  | .gaveUp why => .error why
  | _ => .ok ()

/-- Tells the thread to stop, lets it come to its end, which takes three turns at
most, and returns how it ended. -/
def stop (handler : Handler ε W) : Act W (Option (Except Halt Unit)) := do
  site.worker.update ({ · with running := false })
  if (← site.worker.read).thread.isNone then return none
  turns site handler 3
  let w ← site.worker.read
  site.worker.write { w with thread := none }
  return w.thread.map result

/-- Stops the worker and takes its consumer back, or another one if the thread
has dropped it. Returns how the thread ended. -/
def shutdown (handler : Handler ε W) : Act W (Except Halt Unit) := do
  match ← stop site handler with
  | none => return .ok ()
  | some (.ok ()) =>
    site.worker.update ({ · with holdsConsumer := true })
    return .ok ()
  | some (.error why) =>
    let holdsConsumer := (← site.ring.lift Ring.acquireConsumer).isOk
    site.worker.update ({ · with holdsConsumer })
    return .error why

/-- Stops the worker for good and drops its consumer. -/
def drop (handler : Handler ε W) : Act W Unit := do
  match ← stop site handler with
  | some (.error _) => site.note (.workerPanicked (← site.worker.read).name)
  | some (.ok ()) => site.ring.update Ring.releaseConsumer
  | none =>
    if (← site.worker.read).holdsConsumer then site.ring.update Ring.releaseConsumer
  site.worker.update ({ · with holdsConsumer := false })

end Worker

/-- Makes workers that share settings, a name and a batch limit. Each gets a
ring of its own and a number. -/
structure WorkerFactory where
  name : String
  settings : Settings
  batchLimit : BatchLimit := .full
  count : Nat := 0

namespace WorkerFactory
variable {W ε : Type}
open Text

def new (name : String) (settings : Settings) : Except Refusal WorkerFactory := do
  let _ ← settings.validate
  return { name, settings }

def withBatchLimit (f : WorkerFactory) (batchLimit : BatchLimit) : WorkerFactory :=
  { f with batchLimit }

/-- A new worker with its ring. -/
structure Hire (ε : Type) where
  cap : Capacity
  ring : EventRing cap ε
  worker : Worker

/-- Makes a stopped worker over a fresh ring of events. -/
def create (here : Part W WorkerFactory) (note : Notice → Act W Unit)
    (factory : Nat → Act W ε) : Act W (Except Refusal (Hire ε)) := do
  let f ← here.read
  match ← EventRing.create note f.settings factory with
  | .error refusal => return .error refusal
  | .ok ⟨cap, ring⟩ =>
    here.update fun f => { f with count := f.count + 1 }
    let name := s!"{f.name}-worker-{f.count}"
    note (.workerCreated name f.settings.capacity)
    match Worker.new name (f.batchLimit.get f.settings.capacity) ring with
    | .error why _ => throw why
    | .ok (.error refusal) _ => return .error refusal
    | .ok (.ok worker) ring => return .ok ⟨cap, ring, worker⟩

def inspect (f : WorkerFactory) : String :=
  record "WorkerFactory"
    [("name", quoted f.name), ("config", f.settings.inspect),
      ("batch_limit", f.batchLimit.name), ("count", toString f.count)]

end WorkerFactory

end LapRing
