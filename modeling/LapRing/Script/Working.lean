import LapRing.Script.Handles
import LapRing.Script.Item
import LapRing.Worker

/-!
# Scripts for workers

A script drives one event ring, any number of workers on it, and handles of its
own. After every step, and whenever a step has to wait, the threads of the
workers take turns until none of them has anything to do.
-/
namespace LapRing.Script.Working

/-- A scripted handler without nested steps. -/
abbrev Spec : Type := HandlerSpec Empty

inductive Step
  | new (name : String) (batchSize : UInt64)
  | info (i : Nat)
  | start (i : Nat) (handler : Spec)
  | shutdown (i : Nat)
  | drop (i : Nat)
  | log (i : Nat)
  | mergedLog
  | waitGating (gating : Int64)
  | waitEvents (i : Nat) (count : Nat)
  | cursor
  | gating
  | metrics
  | producer
  | consumer
  | dropProducer (i : Nat)
  | dropConsumer (i : Nat)
  | poll (c : Nat) (context : String) (batch : UInt64) (handler : Spec)
  | publish (p : Nat) (values : List Int64)
  | publishEvents (p : Nat) (values : List Int64)

inductive Reply
  | done
  | refused (refusal : Refusal)
  | halted (why : Halt)
  | noHandle
  | number (n : Nat)
  | position (s : Int64)
  | info (worker : Worker) (capacity : UInt64)
  | log (calls : List (Call Item))
  | waited
  | tally (t : Tally)
  | state (s : PollState)
  | handled (result : Reply) (calls : List (Call Item))

/-- A worker, the handler of its thread, and the calls that handler received. -/
structure ScriptWorker where
  worker : Worker
  spec : Spec := {}
  log : Array (Call Item) := #[]
  dropped : Bool := false

/-- What a script keeps beside its ring. -/
structure ScriptState where
  workers : Array ScriptWorker := #[]
  producers : Handles := #[]
  consumers : Handles := #[]
  journal : Journal := #[]

abbrev World (cap : Capacity) : Type := EventRing cap Item × ScriptState

variable {cap : Capacity}

def ring : Part (World cap) (EventRing cap Item) := .first

def script : Part (World cap) ScriptState := .second

def producers : Part (World cap) Handles where
  Rest := World cap
  split w := (w.2.producers, w)
  join hs w := (w.1, { w.2 with producers := hs })

def consumers : Part (World cap) Handles where
  Rest := World cap
  split w := (w.2.consumers, w)
  join hs w := (w.1, { w.2 with consumers := hs })

def note (n : Notice) : Act (World cap) Unit :=
  script.update fun d => { d with journal := d.journal.push n }

def updateWorker (i : Nat) (f : ScriptWorker → ScriptWorker) : Act (World cap) Unit :=
  script.update fun d => { d with workers := d.workers.modify i f }

/-- The worker of the given number, which must exist. -/
def worker (i : Nat) : Part (World cap) Worker where
  Rest := World cap
  split w := ((w.2.workers[i]?.map ScriptWorker.worker).getD { name := "", batchSize := 1 }, w)
  join x w := (w.1, { w.2 with workers := w.2.workers.modify i ({ · with worker := x }) })

def site (i : Nat) : Worker.Site cap Item (World cap) := ⟨ring, worker i, note⟩

def surroundings {W : Type} (report : Call Item → Act W Unit) (note : Notice → Act W Unit) :
    Surroundings Item W where
  value := Item.value
  withValue v item := { item with value := v }
  report
  note
  hook _ := pure ()

/-- The handler of the thread of a worker, which reports to the worker's log. -/
def handler (i : Nat) (spec : Spec) : Handler Item (World cap) :=
  spec.toHandler <| surroundings
    (fun call => updateWorker i fun p => { p with log := p.log.push call }) note

/-- One turn for every thread. Says whether any of them had something to do. -/
def round : Act (World cap) Bool := do
  let workers := (← script.read).workers
  let mut moved := false
  for (p, i) in workers.zipIdx do
    if ← Worker.turn (site i) (handler i p.spec) then moved := true
  return moved

def rounds : Nat → Act (World cap) Unit
  | 0 => return ()
  | n + 1 => do
    if ← round then rounds n

/-- Lets the threads go on until all of them wait. A round in which one of them
moves either changes the phase of a thread or releases a sequence. -/
def settle : Act (World cap) Unit := do
  let (r, d) ← get
  let pending := (r.sequencer.cursor.toInt - r.sequencer.gating.toInt).toNat
  rounds (pending + 4 * d.workers.size)

/-- Uses a worker that was not dropped. -/
def withWorker (i : Nat) (act : ScriptWorker → Act (World cap) Reply) : Act (World cap) Reply := do
  match (← script.read).workers[i]? with
  | some p => if p.dropped then return .noHandle else act p
  | none => return .noHandle

/-- Empties the log of a worker. -/
def takeLog (i : Nat) : Act (World cap) (List (Call Item)) := do
  let log := (← script.read).workers[i]?.map ScriptWorker.log
  updateWorker i ({ · with log := #[] })
  return (log.getD #[]).toList

/-- The sequence of a call on an item, and whether it reports an error. -/
def callKey : Call Item → Option (Int64 × Bool)
  | .event _ s _ => some (s, false)
  | .error _ s _ _ => some (s, true)
  | .start _ | .stop _ => none

/-- Whether a call comes before another in a merged log. -/
def callLe (a b : Call Item) : Bool :=
  match callKey a, callKey b with
  | some (s, e), some (t, f) => s < t || (s = t && (!e || f))
  | _, _ => true

/-- The calls on items from all logs, by sequence, events before errors. -/
def mergedLog : Act (World cap) (List (Call Item)) := do
  let workers := (← script.read).workers
  script.update fun d => { d with workers := d.workers.map ({ · with log := #[] }) }
  let calls := workers.toList.flatMap fun p => p.log.toList
  return (calls.filter fun call => (callKey call).isSome).mergeSort callLe

def requestHandle (request : Act (EventRing cap Item) (Except Refusal Unit))
    (handles : Part (World cap) Handles) : Act (World cap) Reply := do
  match ← ring.lift request with
  | .error refusal => return .refused refusal
  | .ok () => return .number (← Handles.add handles)

def dropHandle (release : EventRing cap Item → EventRing cap Item)
    (handles : Part (World cap) Handles) (i : Nat) : Act (World cap) Reply := do
  if ← Handles.drop handles i then
    ring.update release
    return .done
  else return .noHandle

/-- Sets the value of an event to the argument. -/
def translate {W : Type} : Translator W :=
  .ofActions [fun _ arg => Translator.change ({ · with value := arg })]

/-- While a producer waits, the threads go on. -/
def pause : Pause (World cap) := .reporting note settle

def publish (values : List Int64) : Act (World cap) Unit :=
  values.forM fun v => EventRing.publishEventWith ring [pause] v translate

def start (i : Nat) (spec : Spec) : Act (World cap) Reply := do
  match ← Worker.start (site i) with
  | .error refusal => return .refused refusal
  | .ok () =>
    updateWorker i ({ · with spec })
    return .done

def shutdown (i : Nat) (p : ScriptWorker) : Act (World cap) Reply := do
  match ← Worker.shutdown (site i) (handler i p.spec) with
  | .ok () => return .done
  | .error why => return .halted why

def drop (i : Nat) (p : ScriptWorker) : Act (World cap) Reply := do
  Worker.drop (site i) (handler i p.spec)
  updateWorker i ({ · with dropped := true })
  return .log (← takeLog i)

def poll (c : Nat) (context : String) (batch : UInt64) (spec : Spec) : Act (World cap) Reply :=
  Handles.withHandle consumers c .noHandle do
    let around : Surroundings Item (Array (Call Item) × World cap) :=
      surroundings (fun call => Part.first.update (·.push call)) fun n => Act.outer (note n)
    let (ending, calls) ← Act.beside #[] <|
      EventRing.poll ring.beside context batch (spec.toHandler around)
    let result := match ending with
      | .error why => .halted why
      | .ok state => .state state
    return .handled result calls.toList

def act : Step → Act (World cap) Reply
  | .new name batchSize => do
    match ← ring.lift (Worker.new name batchSize) with
    | .error refusal => return .refused refusal
    | .ok worker =>
      let number := (← script.read).workers.size
      script.update fun d => { d with workers := d.workers.push { worker } }
      return .number number
  | .info i => withWorker i fun p => return .info p.worker cap.word
  | .start i spec => withWorker i fun _ => start i spec
  | .shutdown i => withWorker i fun p => shutdown i p
  | .drop i => withWorker i fun p => drop i p
  | .log i => withWorker i fun _ => return .log (← takeLog i)
  | .mergedLog => return .log (← mergedLog)
  | .waitGating _ => return .waited
  | .waitEvents i _ => withWorker i fun _ => return .waited
  | .cursor => return .position (← ring.read).sequencer.cursor
  | .gating => return .position (← ring.read).sequencer.gating
  | .metrics => return .tally (← ring.read).sequencer.metrics
  | .producer => requestHandle Ring.acquireProducer producers
  | .consumer => requestHandle Ring.acquireConsumer consumers
  | .dropProducer i => dropHandle Ring.releaseProducer producers i
  | .dropConsumer i => dropHandle Ring.releaseConsumer consumers i
  | .poll c context batch spec => poll c context batch spec
  | .publish p values => Handles.withHandle producers p .noHandle do
    publish values
    return .done
  | .publishEvents p values => Handles.withHandle producers p .noHandle do
    match ← EventRing.publishEvents ring [pause] (.ofList values) translate with
    | .error refusal => return .refused refusal
    | .ok n => return .number n.toNat

/-- Runs one step and lets the threads catch up. -/
def run1 (step : Step) : Act (World cap) Reply := do
  let reply := match ← (act step).ending with
    | .ok reply => reply
    | .error why => .halted why
  settle
  return reply

/-- Drops the workers that are left, in the order in which they were made. -/
def dropAll : Act (World cap) Unit := do
  for (p, i) in (← script.read).workers.zipIdx do
    unless p.dropped do Worker.drop (site i) (handler i p.spec)

/-- Runs steps one after the other, and ends all workers after the last. -/
def runAll (steps : List Step) : Act (World cap) (List Reply) := do
  let replies ← steps.mapM run1
  dropAll
  return replies

/-- What a whole script answered and reported. -/
structure Transcript where
  replies : List Reply
  journal : Journal

def run (settings : Settings) (steps : List Step) : Except Refusal Transcript :=
  let note (n : Notice) : Act Journal Unit := modify (·.push n)
  match EventRing.create note settings (Item.factory 0 none) #[] with
  | .error _ journal => .ok ⟨[], journal⟩
  | .ok (.error refusal) _ => .error refusal
  | .ok (.ok ⟨_, ring⟩) journal =>
    match runAll steps (ring, { journal }) with
    | .ok replies (_, script) => .ok ⟨replies, script.journal⟩
    | .error _ (_, script) => .ok ⟨[], script.journal⟩

end LapRing.Script.Working
