import LapRing.Channel.Receive
import LapRing.Channel.Send

/-!
# Traffic through a channel

Several producers send numbered values through one channel and several consumers
receive them. The parties take turns: every producer sends its next chunk, then
every consumer receives one batch. What was received is judged by facts that
hold for every order of turns.
-/
namespace LapRing.Script.Traffic

structure Plan where
  settings : Settings
  producers : Nat
  consumers : Nat
  /-- How many values each producer sends. -/
  each : Nat
  batch : UInt64
  /-- The size of the batches sent, or zero for single values. -/
  chunk : Nat

structure Report where
  refused : List Refusal
  count : Nat
  sum : Int
  unique : Bool
  ordered : Bool
  cursor : Int64
  gating : Int64
  length : UInt64

/-- The values received so far, by consumer. -/
abbrev World (cap : Capacity) : Type := Channel cap Int64 × Array (Array Int64)

variable {cap : Capacity}

def channel : Part (World cap) (Channel cap Int64) := .first

def ring : Part (World cap) (Ring cap (Option Int64)) := channel.within Channel.ringPart

/-- Numbers that tell which producer sent a value. -/
def spacing : Nat := 1000000

/-- Cuts a list into pieces of the given size, at most `n` of them. -/
def pieces (size : Nat) : Nat → List Int64 → List (List Int64)
  | 0, _ | _, [] => []
  | n + 1, values => values.take size :: pieces size n (values.drop size)

/-- The values of a producer in the chunks in which they are sent. -/
def chunks (plan : Plan) (producer : Nat) : Array (List Int64) :=
  let values := (List.range plan.each).map fun i => Int64.ofNat (producer * spacing + i)
  (pieces (max 1 plan.chunk) plan.each values).toArray

/-- Asks for handles, and returns how many were given and the refusals. -/
def requestHandles (request : Act (Ring cap (Option Int64)) (Except Refusal Unit)) :
    Nat → Act (World cap) (Nat × List Refusal)
  | 0 => return (0, [])
  | n + 1 => do
    let answer ← ring.lift request
    let (given, refused) ← requestHandles request n
    match answer with
    | .ok () => return (given + 1, refused)
    | .error refusal => return (given, refusal :: refused)

/-- Every consumer receives one batch. Says whether anybody found one. -/
def receiveRound (plan : Plan) (consumers : Nat) : Act (World cap) Bool := do
  let mut found := false
  for j in List.range consumers do
    let state ← Channel.receive channel plan.batch fun value =>
      Part.second.update fun received : Array (Array Int64) => received.modify j (·.push value)
    if state = .processing then found := true
  return found

/-- Receives until nothing is left, in at most the given number of rounds. -/
def drain (plan : Plan) (consumers : Nat) : Nat → Act (World cap) Unit
  | 0 => return ()
  | n + 1 => do
    if ← receiveRound plan consumers then drain plan consumers n

/-- Sends one chunk, in one batch if the plan has batches. -/
def send (plan : Plan) (pauses : List (Pause (World cap))) (chunk : List Int64) :
    Act (World cap) Unit := do
  if plan.chunk = 0 then chunk.forM (Channel.push channel pauses)
  else discard (Channel.pushBatch channel pauses (.ofList chunk))

def increasing : List Int64 → Bool
  | a :: b :: rest => a < b && increasing (b :: rest)
  | _ => true

/-- Whether one consumer got the values of every producer in the order sent. -/
def inOrder (producers : Nat) (received : List Int64) : Bool :=
  (List.range producers).all fun p =>
    increasing (received.filter fun v => v.toInt / spacing = p)

def exchange (plan : Plan) : Act (World cap) Report := do
  let (consumers, refusedConsumers) ← requestHandles Ring.acquireConsumer plan.consumers
  Part.second.write (Array.replicate consumers #[])
  let (producers, refusedProducers) ← requestHandles Ring.acquireProducer plan.producers
  let pauses := List.replicate (cap.slots + 1) fun _ => discard (receiveRound plan consumers)
  let queues := (List.range producers).map (chunks plan)
  for k in List.range (queues.headD #[]).size do
    for queue in queues do send plan pauses (queue.getD k [])
    discard (receiveRound plan consumers)
  drain plan consumers (cap.slots + 1)
  let (c, received) ← get
  let all := received.toList.flatMap Array.toList
  return {
    refused := refusedConsumers ++ refusedProducers
    count := all.length
    sum := all.foldl (fun total v => total + v.toInt) 0
    unique := increasing (all.mergeSort fun a b => a ≤ b)
    ordered := received.toList.all fun one => inOrder producers one.toList
    cursor := c.ring.sequencer.cursor
    gating := c.ring.sequencer.gating
    length := ← c.length }

/-- How the traffic went, and what was reported before it began. What waiting
producers report hangs on the order of turns and is left out. -/
structure Transcript where
  outcome : Except Halt Report
  journal : Journal

def run (plan : Plan) : Except Refusal Transcript := do
  let note (n : Notice) : Act Journal Unit := modify (·.push n)
  match Channel.create note plan.settings #[] with
  | .error why journal => return ⟨.error why, journal⟩
  | .ok (.error refusal) _ => throw refusal
  | .ok (.ok ⟨_, channel⟩) journal =>
    match exchange plan (channel, #[]) with
    | .ok report _ => return ⟨.ok report, journal⟩
    | .error why _ => return ⟨.error why, journal⟩

end LapRing.Script.Traffic
