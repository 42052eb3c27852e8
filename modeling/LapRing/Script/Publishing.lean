import LapRing.Script.Handles
import LapRing.Script.Hooks
import LapRing.Script.Item
import LapRing.Script.TwoParties

/-!
# Scripts for an event ring

A script drives one event ring through handles. Translators and handlers may run
further steps on the same ring while they are called. Each step is answered with
what it returned, the answers of the steps nested in it, and the positions after
it.
-/
namespace LapRing.Script.Publishing

inductive Step
  | producer
  | consumer
  | dropProducer (i : Nat)
  | dropConsumer (i : Nat)
  | inspect
  | metrics
  | inspectProducer (i : Nat)
  | inspectConsumer (i : Nat)
  | info
  | isPublished (sequence : Int64)
  | arePublished (sequences : List Int64)
  | wakeup
  | publish (p : Nat) (edits : List (Edit Step))
  | publishWith (p : Nat) (arg : Int64) (edits : List (Edit Step))
  | publishEvents (p : Nat) (args : List Int64) (edits : List (Edit Step))
      (announced : Option UInt64) (raises : List Nat)
  | poll (c : Nat) (context : String) (batch : UInt64) (handler : HandlerSpec Step)
  | blockingPoll (c : Nat) (context : String) (batch : UInt64) (handler : HandlerSpec Step)
  | publishBlocked (p : Nat) (edits : List (Edit Step)) (c : Nat) (batch : UInt64)
  | pollBlocked (c : Nat) (batch : UInt64) (p : Nat) (edits : List (Edit Step))

inductive Reply
  | done
  | refused (refusal : Refusal)
  | halted (why : Halt)
  | noHandle
  | handle (number : Nat)
  | info (settings : Settings) (capacity : UInt64) (coordinator : String)
  | tally (t : Tally) (idleKnown : Bool)
  | text (t : String)
  | handleInfo (t : String) (capacity : UInt64)
  | flag (b : Bool)
  | flags (bs : List Bool)
  | count (n : Nat)
  | state (s : PollState)
  | returned
  | handled (result : Reply) (calls : List (Call Item))
  | publishBlocked (early : Bool) (state : Reply) (calls : List (Call Item))
  | pollBlocked (early : Bool) (calls : List (Call Item))

/-- The answer to a step, with the answers to the steps nested in it. -/
inductive Entry
  | mk (reply : Reply) (nested : List Entry) (cursor gating : Int64) (tally : Option Tally)
      (idleKnown : Bool)

/-- What a script keeps beside its ring. -/
structure ScriptState where
  producers : Handles := #[]
  consumers : Handles := #[]
  /-- Whether no step so far asked for a consumer that waits beside a producer. -/
  idleKnown : Bool := true
  journal : Journal := #[]

abbrev World (cap : Capacity) : Type := EventRing cap Item × ScriptState

/-- What one step gathers while its callbacks run. -/
structure Trail where
  turn : Turn Reply := none
  calls : Array (Call Item) := #[]
  nested : Array Entry := #[]

/-- The world of one step. -/
abbrev Scene (cap : Capacity) : Type := Trail × World cap

/-- Hooks that answer with the answers of their steps. -/
abbrev Nested (cap : Capacity) : Type := Hooks Int64 (World cap) Entry

variable {cap : Capacity}

def trail : Part (Scene cap) Trail := .first

def turn : Part (Scene cap) (Turn Reply) where
  Rest := Scene cap
  split w := (w.1.turn, w)
  join t w := ({ w.1 with turn := t }, w.2)

def ring : Part (Scene cap) (EventRing cap Item) := Part.first.beside

def script : Part (Scene cap) ScriptState := Part.second.beside

def producers : Part (Scene cap) Handles where
  Rest := Scene cap
  split w := (w.2.2.producers, w)
  join hs w := (w.1, w.2.1, { w.2.2 with producers := hs })

def consumers : Part (Scene cap) Handles where
  Rest := Scene cap
  split w := (w.2.2.consumers, w)
  join hs w := (w.1, w.2.1, { w.2.2 with consumers := hs })

def note (n : Notice) : Act (Scene cap) Unit :=
  script.update fun d => { d with journal := d.journal.push n }

/-- Runs nested steps and gathers their answers. -/
def runNested (hook : Act (World cap) (List Entry)) : Act (Scene cap) Unit := do
  let entries ← Act.outer hook
  trail.update fun t => { t with nested := t.nested ++ entries.toArray }

def requestHandle (request : Act (EventRing cap Item) (Except Refusal Unit))
    (handles : Part (Scene cap) Handles) : Act (Scene cap) Reply := do
  match ← ring.lift request with
  | .error refusal => return .refused refusal
  | .ok () => return .handle (← Handles.add handles)

def drop (release : EventRing cap Item → EventRing cap Item)
    (handles : Part (Scene cap) Handles) (i : Nat) : Act (Scene cap) Reply := do
  if ← Handles.drop handles i then
    ring.update release
    return .done
  else return .noHandle

def surroundings (hooks : Nested cap) : Surroundings Item (Scene cap) where
  value := Item.value
  withValue v item := { item with value := v }
  report call := trail.update fun t => { t with calls := t.calls.push call }
  note
  hook s := runNested (hooks.run s)

def publish (p : Nat) (arg : Int64) (translate : Translator (Scene cap)) :
    Act (Scene cap) Reply :=
  Handles.withHandle producers p .noHandle do
    EventRing.publishEventWith ring [] arg translate
    return .done

def feed (args : List Int64) (announced : Option UInt64) (raises : List Nat) :
    Feed (Scene cap) Int64 :=
  let items := args.toArray
  { length := announced.getD (UInt64.ofNat items.size)
    next := fun k => do
      if raises.contains k then throw (.raised s!"iterator panic at {k}")
      return items[k]? }

def publishEvents (p : Nat) (args : Feed (Scene cap) Int64)
    (translate : Translator (Scene cap)) : Act (Scene cap) Reply :=
  Handles.withHandle producers p .noHandle do
    match ← EventRing.publishEvents ring [] args fun s arg => translate s arg with
    | .error refusal => return .refused refusal
    | .ok n => return .count n.toNat

/-- The reply of a polling call, with the calls it made. -/
def polling (c : Nat) (call : Act (Scene cap) Reply) : Act (Scene cap) Reply :=
  Handles.withHandle consumers c (.handled .noHandle []) do
    let result := match ← call.ending with
      | .error why => .halted why
      | .ok reply => reply
    return .handled result (← trail.read).calls.toList

/-- A publication on a full ring, while which a consumer polls once. -/
def publishBlocked (p : Nat) (translate : Translator (Scene cap)) (c : Nat) (batch : UInt64) :
    Act (Scene cap) Reply :=
  Handles.withHandle producers p .noHandle <| Handles.withHandle consumers c .noHandle do
    let handler := ({} : HandlerSpec Step).toHandler (surroundings [])
    let m ← callBeside turn
      (fun poll => EventRing.publishEventWith ring [.reporting note poll] (0 : Int64) translate)
      (do return .state (← EventRing.poll ring "main" batch handler))
    return .publishBlocked m.early m.other (← trail.read).calls.toList

/-- A waiting consumer on an empty ring, while which a producer publishes once.
The consumer handles what was published even if the producer gives up. How often
it looks in vain is not known. -/
def pollBlocked (c : Nat) (batch : UInt64) (p : Nat) (translate : Translator (Scene cap)) :
    Act (Scene cap) Reply := do
  script.update ({ · with idleKnown := false })
  Handles.withHandle consumers c .noHandle <| Handles.withHandle producers p .noHandle do
    let handler := ({} : HandlerSpec Step).toHandler (surroundings [])
    let m ← callBeside turn
      (fun publish => EventRing.blockingPoll ring [publish] "thread" batch handler)
      (do
        EventRing.publishEventWith ring [] (0 : Int64) translate
        return .done)
    return .pollBlocked m.early (← trail.read).calls.toList

/-- The answer of a step, whose call may be cut short. -/
def answer (act : Act (Scene cap) Reply) : Act (World cap) Entry := do
  let (ending, t) ← Act.beside ({} : Trail) act
  let reply := match ending with
    | .ok reply => reply
    | .error why => .halted why
  let (r, d) ← get
  let s := r.sequencer
  return .mk reply t.nested.toList s.cursor s.gating s.tally d.idleKnown

mutual

def Step.run : Step → Act (World cap) Entry
  | .producer => answer (requestHandle Ring.acquireProducer producers)
  | .consumer => answer (requestHandle Ring.acquireConsumer consumers)
  | .dropProducer i => answer (drop Ring.releaseProducer producers i)
  | .dropConsumer i => answer (drop Ring.releaseConsumer consumers i)
  | .inspect => answer do return .text (← ring.read).inspect
  | .metrics => answer do
    return .tally (← ring.read).sequencer.metrics (← script.read).idleKnown
  | .inspectProducer i => answer <| Handles.withHandle producers i .noHandle do
    return .handleInfo EventRing.inspectProducer cap.word
  | .inspectConsumer i => answer <| Handles.withHandle consumers i .noHandle do
    return .handleInfo EventRing.inspectConsumer cap.word
  | .info => answer do
    let r ← ring.read
    return .info r.settings cap.word r.coordinator.inspect
  | .isPublished s => answer do return .flag ((← ring.read).isPublished s)
  | .arePublished ss => answer do
    let r ← ring.read
    return .flags (ss.map r.isPublished)
  | .wakeup => answer do
    ring.update fun r => { r with coordinator := r.coordinator.wakeup }
    return .done
  | .publish p edits => answer (publish p 0 (.ofActions (actions edits)))
  | .publishWith p arg edits => answer (publish p arg (.ofActions (actions edits)))
  | .publishEvents p args edits announced raises =>
    answer (publishEvents p (feed args announced raises) (.ofActions (actions edits)))
  | .poll c context batch spec => answer <| polling c do
    let handler := spec.toHandler (surroundings (specHooks spec))
    return .state (← EventRing.poll ring context batch handler)
  | .blockingPoll c context batch spec => answer <| polling c do
    let handler := spec.toHandler (surroundings (specHooks spec))
    EventRing.blockingPoll ring [] context batch handler
    return .returned
  | .publishBlocked p edits c batch =>
    answer (publishBlocked p (.ofActions (actions edits)) c batch)
  | .pollBlocked c batch p edits =>
    answer (pollBlocked c batch p (.ofActions (actions edits)))

/-- Runs steps one after the other. -/
def runAll : List Step → Act (World cap) (List Entry)
  | [] => return []
  | step :: rest => do
    let entry ← step.run
    return entry :: (← runAll rest)

def actions : List (Edit Step) → List (Translator (Scene cap))
  | [] => []
  | .run steps :: rest => .ofEdit (runNested (runAll steps)) (.run steps) :: actions rest
  | edit :: rest => .ofEdit (pure ()) edit :: actions rest

def hooks : List (Int64 × List Step) → Nested cap
  | [] => []
  | (s, steps) :: rest => (s, runAll steps) :: hooks rest

def specHooks : HandlerSpec Step → Nested cap
  | ⟨_, _, _, _, _, _, _, _, _, nested⟩ => hooks nested

end

/-- What a whole script answered and reported. -/
structure Transcript where
  factoryCalls : Nat
  outcome : Except Halt (Except Refusal (List Entry))
  journal : Journal

def run (settings : Settings) (value : Int64) (raiseAt : Option Nat) (steps : List Step) :
    Transcript :=
  let note (n : Notice) : Act (Nat × Journal) Unit := Part.second.update (·.push n)
  let factory (k : Nat) : Act (Nat × Journal) Item := do
    let item ← Item.factory value raiseAt k
    Part.first.update (· + 1)
    return item
  match EventRing.create note settings factory (0, #[]) with
  | .error why (calls, journal) => ⟨calls, .error why, journal⟩
  | .ok (.error refusal) (calls, journal) => ⟨calls, .ok (.error refusal), journal⟩
  | .ok (.ok ⟨_, ring⟩) (calls, journal) =>
    match runAll steps (ring, { journal }) with
    | .ok entries (_, script) => ⟨calls, .ok (.ok entries), script.journal⟩
    | .error why (_, script) => ⟨calls, .error why, script.journal⟩

end LapRing.Script.Publishing
