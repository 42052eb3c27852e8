import LapRing.Channel.Receive
import LapRing.Channel.Send
import LapRing.Script.Handles
import LapRing.Script.Handling
import LapRing.Script.Hooks
import LapRing.Script.TwoParties

/-!
# Scripts for a channel

A script drives one channel of integers through handles. Feeds, receivers and
handlers may run further steps on the same channel while they are called. Each
step is answered with what it returned, the positions after it, and the values
that the channel discarded since the answer before.
-/
namespace LapRing.Script.Messaging

inductive Step
  | producer
  | consumer
  | dropProducer (i : Nat)
  | dropConsumer (i : Nat)
  | clone
  | close
  | info
  | length
  | metrics
  | inspect
  | inspectProducer (i : Nat)
  | inspectConsumer (i : Nat)
  | push (p : Nat) (value : Int64)
  | tryPush (p : Nat) (value : Int64)
  | pushBatch (p : Nat) (values : List Int64) (announced : Option UInt64)
      (nested : List (Nat × List Step)) (raises : List Nat)
  | receive (c : Nat) (batch : UInt64) (nested : List (Nat × List Step)) (raises : List Nat)
  | blockingReceive (c : Nat) (batch : UInt64) (nested : List (Nat × List Step))
      (raises : List Nat)
  | pollHandler (c : Nat) (context : String) (batch : UInt64) (handler : HandlerSpec Step)
  | pushBlocked (p : Nat) (value : Int64) (c : Nat) (batch : UInt64)
  | receiveBlocked (c : Nat) (batch : UInt64) (p : Nat) (value : Int64)

/-- The positions and counts of a channel that is still open. -/
structure Status where
  cursor : Int64
  gating : Int64
  tally : Option Tally
  idleKnown : Bool

structure Entry (Reply : Type) where
  reply : Reply
  status : Option Status
  discarded : List Int64

inductive Reply
  | done
  | refused (refusal : Refusal)
  | halted (why : Halt)
  | noHandle
  | closed
  | handle (number : Nat)
  | info (settings : Settings) (capacity length : UInt64)
  | length (n : UInt64)
  | tally (t : Tally) (idleKnown : Bool)
  | text (t : String)
  | accepted
  | full (value : Int64)
  | count (n : Nat)
  | state (s : PollState)
  | pushed (result : Reply) (nested : List (Entry Reply))
  | received (result : Reply) (values : List Int64) (nested : List (Entry Reply))
  | handled (result : Reply) (calls : List (Call Int64)) (nested : List (Entry Reply))
  | pushBlocked (early : Bool) (state : Reply) (values : List Int64)
  | receiveBlocked (early : Bool) (received : Reply) (values : List Int64)

/-- What a script keeps beside its channel. -/
structure ScriptState where
  producers : Handles := #[]
  consumers : Handles := #[]
  /-- How many objects stand for the channel itself. -/
  objects : Nat := 1
  freed : Bool := false
  /-- Whether no step so far asked for a consumer that waits beside a producer. -/
  idleKnown : Bool := true
  journal : Journal := #[]

abbrev World (cap : Capacity) : Type := Channel cap Int64 × ScriptState

/-- What one step gathers while its callbacks run. -/
structure Trail where
  turn : Turn Reply := none
  values : Array Int64 := #[]
  calls : Array (Call Int64) := #[]
  nested : Array (Entry Reply) := #[]

/-- Hooks that answer with the answers of their steps. -/
abbrev Nested (Key : Type) (cap : Capacity) : Type := Hooks Key (World cap) (Entry Reply)

variable {cap : Capacity}

def channel : Part (World cap) (Channel cap Int64) := .first

def script : Part (World cap) ScriptState := .second

def ring : Part (World cap) (Ring cap (Option Int64)) := channel.within Channel.ringPart

def producers : Part (World cap) Handles where
  Rest := World cap
  split w := (w.2.producers, w)
  join hs w := (w.1, { w.2 with producers := hs })

def consumers : Part (World cap) Handles where
  Rest := World cap
  split w := (w.2.consumers, w)
  join hs w := (w.1, { w.2 with consumers := hs })

/-- What the current step has gathered. -/
def trail : Part (Trail × World cap) Trail := .first

def turn : Part (Trail × World cap) (Turn Reply) where
  Rest := Trail × World cap
  split w := (w.1.turn, w)
  join t w := ({ w.1 with turn := t }, w.2)

def note (n : Notice) : Act (World cap) Unit :=
  script.update fun d => { d with journal := d.journal.push n }

/-- Frees the ring once no object and no handle is left. -/
def freeIfUnused : Act (World cap) Unit := do
  let d ← script.read
  if d.objects = 0 && !d.producers.anyAlive && !d.consumers.anyAlive && !d.freed then
    channel.update Channel.free
    script.write { d with freed := true }

/-- Answers by `act` while an object for the channel is left. -/
def whileOpen (act : Act (World cap) Reply) : Act (World cap) Reply := do
  if (← script.read).objects = 0 then return .closed else act

def requestHandle (request : Act (Ring cap (Option Int64)) (Except Refusal Unit))
    (handles : Part (World cap) Handles) : Act (World cap) Reply :=
  whileOpen do
    match ← ring.lift request with
    | .error refusal => return .refused refusal
    | .ok () => return .handle (← Handles.add handles)

def drop (release : Ring cap (Option Int64) → Ring cap (Option Int64))
    (handles : Part (World cap) Handles) (i : Nat) : Act (World cap) Reply := do
  if ← Handles.drop handles i then
    ring.update release
    freeIfUnused
    return .done
  else return .noHandle

/-- Runs the hook of a key and gathers its answers. -/
def runNested {Key : Type} [DecidableEq Key] (hooks : Nested Key cap) (key : Key) :
    Act (Trail × World cap) Unit := do
  let entries ← Act.outer (hooks.run key)
  trail.update fun t => { t with nested := t.nested ++ entries.toArray }

def feed (values : List Int64) (announced : Option UInt64) (hooks : Nested Nat cap)
    (raises : List Nat) : Feed (Trail × World cap) Int64 :=
  let items := values.toArray
  { length := announced.getD (UInt64.ofNat items.size)
    next := fun k => do
      runNested hooks k
      if raises.contains k then throw (.raised s!"iterator panic at {k}")
      return items[k]? }

def pushBatch (p : Nat) (source : Feed (Trail × World cap) Int64) : Act (World cap) Reply :=
  Handles.withHandle producers p .noHandle do
    let (ending, t) ← Act.beside ({} : Trail) (Channel.pushBatch channel.beside [] source)
    let result : Reply := match ending with
      | .error why => .halted why
      | .ok (.error refusal) => .refused refusal
      | .ok (.ok n) => .count n.toNat
    return .pushed result t.nested.toList

/-- Records a received value, runs what is nested at its number, and may give up. -/
def receiver (hooks : Nested Nat cap) (raises : List Nat) (value : Int64) :
    Act (Trail × World cap) Unit := do
  let k ← trail.lift <| modifyGet fun t =>
    (t.values.size, { t with values := t.values.push value })
  runNested hooks k
  if raises.contains k then throw (.raised s!"receiver panic at {k}")

/-- The reply of a receiving call and what it gathered. -/
def receiving (c : Nat) (call : Act (Trail × World cap) Reply) : Act (World cap) Reply :=
  Handles.withHandle consumers c (.received .noHandle [] []) do
    let (ending, t) ← Act.beside ({} : Trail) call
    let result := match ending with
      | .error why => .halted why
      | .ok reply => reply
    return .received result t.values.toList t.nested.toList

def pollHandler (c : Nat) (context : String) (batch : UInt64) (spec : HandlerSpec Step)
    (hooks : Nested Int64 cap) : Act (World cap) Reply :=
  Handles.withHandle consumers c (.handled .noHandle [] []) do
    let around : Surroundings Int64 (Trail × World cap) :=
      { value := id
        withValue := fun v _ => v
        report := fun call => trail.update fun t => { t with calls := t.calls.push call }
        note := fun n => Act.outer (note n)
        hook := runNested hooks }
    let (ending, t) ← Act.beside ({} : Trail) <|
      Channel.pollHandler channel.beside context batch (spec.toHandler around)
    let result := match ending with
      | .error why => .halted why
      | .ok state => .state state
    return .handled result t.calls.toList t.nested.toList

/-- A push on a full ring, while which a consumer receives once. -/
def pushBlocked (p : Nat) (value : Int64) (c : Nat) (batch : UInt64) :
    Act (World cap) Reply :=
  Handles.withHandle producers p .noHandle <| Handles.withHandle consumers c .noHandle <|
    Act.owning ({} : Trail) do
      let m ← callBeside turn
        (fun receive =>
          Channel.push channel.beside [.reporting (fun n => Act.outer (note n)) receive] value)
        (do return .state (← Channel.receive channel.beside batch (receiver [] [])))
      return .pushBlocked m.early m.other (← trail.read).values.toList

/-- A waiting consumer on an empty ring, while which a producer pushes once. How
often the consumer looks in vain is not known. -/
def receiveBlocked (c : Nat) (batch : UInt64) (p : Nat) (value : Int64) :
    Act (World cap) Reply := do
  script.update ({ · with idleKnown := false })
  Handles.withHandle consumers c .noHandle <| Handles.withHandle producers p .noHandle <|
    Act.owning ({} : Trail) do
      let m ← callBeside turn
        (fun push => Channel.blockingReceive channel.beside [push] batch (receiver [] []))
        (do
          Channel.push channel.beside [] value
          return .done)
      return .receiveBlocked m.early (.count m.result) (← trail.read).values.toList

/-- The answer of a step, whose call may be cut short. -/
def answer (act : Act (World cap) Reply) : Act (World cap) (Entry Reply) := do
  let reply := match ← act.ending with
    | .ok reply => reply
    | .error why => .halted why
  let c ← channel.read
  let d ← script.read
  channel.update ({ · with discarded := #[] })
  let s := c.ring.sequencer
  let status :=
    if d.objects = 0 then none else some ⟨s.cursor, s.gating, s.tally, d.idleKnown⟩
  return ⟨reply, status, c.discarded.toList⟩

mutual

def Step.run : Step → Act (World cap) (Entry Reply)
  | .producer => answer (requestHandle Ring.acquireProducer producers)
  | .consumer => answer (requestHandle Ring.acquireConsumer consumers)
  | .dropProducer i => answer (drop Ring.releaseProducer producers i)
  | .dropConsumer i => answer (drop Ring.releaseConsumer consumers i)
  | .clone => answer <| whileOpen do
    script.update fun d => { d with objects := d.objects + 1 }
    return .done
  | .close => answer <| whileOpen do
    script.update ({ · with objects := 0 })
    freeIfUnused
    return .done
  | .info => answer <| whileOpen do
    let c ← channel.read
    return .info c.ring.settings cap.word (← c.length)
  | .length => answer <| whileOpen do return .length (← (← channel.read).length)
  | .metrics => answer <| whileOpen do
    return .tally (← ring.read).sequencer.metrics (← script.read).idleKnown
  | .inspect => answer <| whileOpen do return .text (← (← channel.read).inspect)
  | .inspectProducer i => answer <| Handles.withHandle producers i .noHandle do
    return .text (← channel.read).inspectProducer
  | .inspectConsumer i => answer <| Handles.withHandle consumers i .noHandle do
    return .text (← channel.read).inspectConsumer
  | .push p value => answer <| Handles.withHandle producers p .noHandle do
    Channel.push channel [] value
    return .done
  | .tryPush p value => answer <| Handles.withHandle producers p .noHandle do
    match ← Channel.tryPush channel value with
    | .ok () => return .accepted
    | .error value => return .full value
  | .pushBatch p values announced nested raises =>
    answer (pushBatch p (feed values announced (hooks nested) raises))
  | .receive c batch nested raises => answer <| receiving c do
    return .state (← Channel.receive channel.beside batch (receiver (hooks nested) raises))
  | .blockingReceive c batch nested raises => answer <| receiving c do
    return .count
      (← Channel.blockingReceive channel.beside [] batch (receiver (hooks nested) raises))
  | .pollHandler c context batch spec =>
    answer (pollHandler c context batch spec (specHooks spec))
  | .pushBlocked p value c batch => answer (pushBlocked p value c batch)
  | .receiveBlocked c batch p value => answer (receiveBlocked c batch p value)

/-- Runs steps one after the other. -/
def runAll : List Step → Act (World cap) (List (Entry Reply))
  | [] => return []
  | step :: rest => do
    let entry ← step.run
    return entry :: (← runAll rest)

def hooks : List (Nat × List Step) → Nested Nat cap
  | [] => []
  | (k, steps) :: rest => (k, runAll steps) :: hooks rest

def sequenceHooks : List (Int64 × List Step) → Nested Int64 cap
  | [] => []
  | (s, steps) :: rest => (s, runAll steps) :: sequenceHooks rest

def specHooks : HandlerSpec Step → Nested Int64 cap
  | ⟨_, _, _, _, _, _, _, _, _, nested⟩ => sequenceHooks nested

end

/-- What a whole script answered and reported, and the values that the channel
held on to until its end. -/
structure Transcript where
  entries : List (Entry Reply)
  journal : Journal
  leftovers : List Int64

/-- Lets go of everything that a script leaves behind. -/
def close : World cap → List Int64 × Journal
  | (c, d) => ((if d.freed then c else c.free).discarded.toList, d.journal)

def run (settings : Settings) (steps : List Step) : Except Refusal Transcript := do
  let note (n : Notice) : Act Journal Unit := modify (·.push n)
  match Channel.create note settings #[] with
  | .error _ journal => return { entries := [], leftovers := [], journal }
  | .ok (.error refusal) _ => throw refusal
  | .ok (.ok ⟨_, channel⟩) journal =>
    let (entries, world) := match runAll steps (channel, { journal }) with
      | .ok entries world => (entries, world)
      | .error _ world => ([], world)
    let (leftovers, journal) := close world
    return { entries, leftovers, journal }

end LapRing.Script.Messaging
