import LapRing.Channel.Receive
import LapRing.Channel.Send
import LapRing.Events
import LapRing.Proofs.IgnoringActions

/-!
# What users do with a ring

Users call a channel or an event ring through handles, and so do the feeds, callbacks,
translators and handlers that they pass to a call, while the call goes on. A side for one
has a single handle, which is not free before its call is over. Users catch what they
raise or let it pass, and act on what they own. They keep a ledger of their own beside
the counts of the ring.
-/
namespace LapRing

namespace Act
variable {W α : Type}

/-- Catches what callers raise. A fault is let through, so that none is overlooked, and an
action that waits for ever does not come back. -/
def rescued (x : Act W α) : Act W (Except String α) := fun w =>
  match x w with
  | .ok v w => .ok (.ok v) w
  | .error (.raised text) w => .ok (.error text) w
  | .error h w => .error h w

/-- What another party does meanwhile. It keeps to itself what it raises. -/
def another (x : Act W Unit) : Act W Unit := do
  let _ ← x.rescued

end Act

/-- What the users of a ring count. -/
structure Ledger where
  /-- The sequences they asked for and were not refused. -/
  claims : ℕ := 0
  /-- The polls that found something, also those in which a callback gave up. -/
  worked : ℕ := 0
  /-- The polls for at least one sequence that found nothing. -/
  idle : ℕ := 0
  /-- The items that handlers rejected. -/
  rejected : ℕ := 0
deriving DecidableEq

namespace Ledger

def claim (n : ℕ) (b : Ledger) : Ledger := { b with claims := b.claims + n }

def work (b : Ledger) : Ledger := { b with worked := b.worked + 1 }

def rest (b : Ledger) : Ledger := { b with idle := b.idle + 1 }

def reject (b : Ledger) : Ledger := { b with rejected := b.rejected + 1 }

end Ledger

/-- Which sides of a ring have a handle that is free. -/
structure FreeHandles where
  producers : Bool := true
  consumers : Bool := true

namespace FreeHandles

/-- What is free while a producer makes a call. -/
def sending (kind : Multiplicity) (d : FreeHandles) : FreeHandles :=
  { d with producers := d.producers && kind = .multi }

/-- What is free while a consumer makes a call. -/
def receiving (kind : Multiplicity) (d : FreeHandles) : FreeHandles :=
  { d with consumers := d.consumers && kind = .multi }

end FreeHandles

/-- A ring in a world, with the ledger of its users beside it. -/
structure RingSite (cap : Capacity) (V : Type) where
  Slot : Type
  ring : Part V (Ring cap Slot)
  ledger : Part V Ledger
  lawful_ring : ring.Lawful
  lawful_ledger : ledger.Lawful
  apart : ring.Apart ledger

namespace Part
variable {V W S T U : Type}

/-- What is apart from the whole is apart from its components. -/
theorem Apart.component {p : Part V W} {r : Part V T} (h : p.Apart r) (q : Part W S) :
    (p.within q).Apart r where
  split_alter f v := h.split_alter (q.alter f) v
  join_alter f t v := h.join_alter (q.alter f) t v

theorem Apart.beside {p : Part V S} {q : Part V T} (h : p.Apart q) :
    (p.beside : Part (U × V) S).Apart (q.beside : Part (U × V) T) :=
  h.within lawful_second

end Part

namespace RingSite
variable {cap : Capacity} {V α ε A : Type}

/-- The ring of a channel. -/
def channel (here : Part V (Channel cap α)) (ledger : Part V Ledger) (hhere : here.Lawful)
    (hledger : ledger.Lawful) (apart : here.Apart ledger) : RingSite cap V where
  Slot := Option α
  ring := here.within Channel.ringPart
  ledger := ledger
  lawful_ring := hhere.within Channel.lawful_ringPart
  lawful_ledger := hledger
  apart := apart.component Channel.ringPart

/-- The same ring from a world that carries something more. -/
def beside (X : Type) (site : RingSite cap V) : RingSite cap (X × V) where
  Slot := site.Slot
  ring := site.ring.beside
  ledger := site.ledger.beside
  lawful_ring := Part.lawful_second.within site.lawful_ring
  lawful_ledger := Part.lawful_second.within site.lawful_ledger
  apart := site.apart.beside

section Counting
variable (site : RingSite cap V)

def note (f : Ledger → Ledger) : Act V Unit := site.ledger.update f

/-- Counts a poll by its ending. One that raises something had found something. -/
def counted (batch : UInt64) (worked : α → Bool) (poll : Act V α) : Act V α := do
  match ← poll.ending with
  | .ok v =>
    if worked v then site.note .work
    else if batch ≠ 0 then site.note .rest
    return v
  | .error .stalled => throw .stalled
  | .error h =>
    site.note .work
    throw h

/-- A handler that counts what it rejects. -/
def tallying (handler : Handler ε V) : Handler ε V :=
  { handler with
    onEvent := fun context s => do
      match ← handler.onEvent context s with
      | .ok () => return .ok ()
      | .error text =>
        Act.outer (site.note .reject)
        return .error text }

/-! ## Channels -/

section Channels
variable (here : Part V (Channel cap α))

def push (others : List (Act V Unit)) (value : α) : Act V Unit := do
  site.note (.claim 1)
  Channel.push here (others.map fun x _ => x.another) value

def tryPush (value : α) : Act V (Except α Unit) := do
  match ← Channel.tryPush here value with
  | .ok () =>
    site.note (.claim 1)
    return .ok ()
  | .error value => return .error value

/-- A batch is counted unless it is empty or above the capacity. -/
def pushBatch (others : List (Act V Unit)) (feed : Feed V α) : Act V (Except Refusal UInt64) := do
  if feed.length ≠ 0 ∧ feed.length ≤ cap.word then site.note (.claim feed.length.toNat)
  Channel.pushBatch here (others.map fun x _ => x.another) feed

def receive (batch : UInt64) (f : α → Act V Unit) : Act V PollState :=
  site.counted batch (· = .processing) (Channel.receive here batch f)

/-- Each attempt of a consumer that waits is a poll of its own. -/
def blockingReceive (others : List (Act V Unit)) (batch : UInt64) (f : α → Act V Unit) :
    Act V ℕ :=
  Ring.untilWork (here.within Channel.ringPart)
    (site.counted batch Option.isSome (Channel.receiveCount here batch fun value _ => f value))
    (others.map Act.another)

def pollHandler (context : String) (batch : UInt64) (handler : Handler α V) : Act V PollState :=
  site.counted batch (· = .processing)
    (Channel.pollHandler here context batch (site.tallying handler))

end Channels

/-! ## Event rings -/

def publishEvent (others : List (Act V Unit)) (translate : Int64 → Act (site.Slot × V) Unit) :
    Act V Unit := do
  site.note (.claim 1)
  EventRing.publishEvent site.ring (others.map fun x _ => x.another) translate

def publishEvents (others : List (Act V Unit)) (args : Feed V A)
    (translate : Int64 → A → Act (site.Slot × V) Unit) : Act V (Except Refusal UInt64) := do
  if args.length ≠ 0 ∧ args.length ≤ cap.word then site.note (.claim args.length.toNat)
  EventRing.publishEvents site.ring (others.map fun x _ => x.another) args translate

def poll (context : String) (batch : UInt64) (handler : Handler site.Slot V) : Act V PollState :=
  site.counted batch (· = .processing)
    (EventRing.poll site.ring context batch (site.tallying handler))

def blockingPoll (others : List (Act V Unit)) (context : String) (batch : UInt64)
    (handler : Handler site.Slot V) : Act V Unit :=
  Ring.untilWork site.ring
    (site.counted batch Option.isSome
      (Ring.poll site.ring batch (EventRing.visit site.ring context (site.tallying handler))))
    (others.map Act.another)

end Counting

end RingSite

def Sequencer.uncounted {cap : Capacity} (s : Sequencer cap) : Sequencer cap :=
  { s with tally := none }

/-- The same ring if it kept no counts. -/
def Ring.uncounted {cap : Capacity} {σ : Type} (r : Ring cap σ) : Ring cap σ :=
  { r with settings := r.settings.withMetrics false, sequencer := r.sequencer.uncounted }

/-- What users do with a ring of the given settings, as far as its sides are free. What
they raise on their own account is among `raises`. -/
inductive Usage {cap : Capacity} (settings : Settings) (raises : String → Prop) :
    {V : Type} → RingSite cap V → FreeHandles → {β : Type} → Act V β → Prop
  | done {V β : Type} {site : RingSite cap V} {d : FreeHandles} (v : β) :
      Usage settings raises site d (pure v : Act V β)
  /-- They act on anything else in the world. -/
  | own {V M β : Type} {site : RingSite cap V} {d : FreeHandles} (p : Part V M) (act : Act M β) :
      site.ring.Apart p → site.ledger.Apart p →
      (∀ m h m', act m = .error h m' → ∃ text, h = .raised text ∧ raises text) →
      Usage settings raises site d (p.lift act)
  | bind {V β γ : Type} {site : RingSite cap V} {d : FreeHandles} {x : Act V β} {f : β → Act V γ} :
      Usage settings raises site d x → (∀ v, Usage settings raises site d (f v)) →
      Usage settings raises site d (x >>= f)
  | rescue {V β : Type} {site : RingSite cap V} {d : FreeHandles} {x : Act V β} :
      Usage settings raises site d x → Usage settings raises site d x.rescued
  /-- They go on using the ring while they hold an item. -/
  | beside {V X β : Type} {site : RingSite cap V} {d : FreeHandles} {x : Act V β} :
      Usage settings raises site d x → Usage settings raises (site.beside X) d (Act.outer x)
  /-- They look at anything but the counts, and whether there are any. -/
  | look {V T : Type} {site : RingSite cap V} {d : FreeHandles} (view : Ring cap site.Slot → T) :
      (∀ r, view r.uncounted = view r) →
      Usage settings raises site d (do return view (← site.ring.read))
  | length {V : Type} {site : RingSite cap V} {d : FreeHandles} :
      Usage settings raises site d (do (← site.ring.read).length)
  | openProducer {V : Type} {site : RingSite cap V} {d : FreeHandles} :
      Usage settings raises site d (site.ring.lift Ring.acquireProducer)
  | openConsumer {V : Type} {site : RingSite cap V} {d : FreeHandles} :
      Usage settings raises site d (site.ring.lift Ring.acquireConsumer)
  | dropProducer {V : Type} {site : RingSite cap V} {d : FreeHandles} :
      Usage settings raises site d (site.ring.update Ring.releaseProducer)
  | dropConsumer {V : Type} {site : RingSite cap V} {d : FreeHandles} :
      Usage settings raises site d (site.ring.update Ring.releaseConsumer)
  | push {V α : Type} {here : Part V (Channel cap α)} {ledger : Part V Ledger} {d : FreeHandles}
      {hhere : here.Lawful} {hledger : ledger.Lawful} {apart : here.Apart ledger}
      {others : List (Act V Unit)} (value : α) : d.producers →
      (∀ x ∈ others, Usage settings raises (.channel here ledger hhere hledger apart)
        (d.sending settings.producer) x) →
      Usage settings raises (.channel here ledger hhere hledger apart) d
        (RingSite.push (.channel here ledger hhere hledger apart) here others value)
  | tryPush {V α : Type} {here : Part V (Channel cap α)} {ledger : Part V Ledger} {d : FreeHandles}
      {hhere : here.Lawful} {hledger : ledger.Lawful} {apart : here.Apart ledger} (value : α) :
      d.producers → Usage settings raises (.channel here ledger hhere hledger apart) d
        (RingSite.tryPush (.channel here ledger hhere hledger apart) here value)
  | pushBatch {V α : Type} {here : Part V (Channel cap α)} {ledger : Part V Ledger}
      {d : FreeHandles} {hhere : here.Lawful} {hledger : ledger.Lawful} {apart : here.Apart ledger}
      {others : List (Act V Unit)} {feed : Feed V α} : d.producers →
      (∀ x ∈ others, Usage settings raises (.channel here ledger hhere hledger apart)
        (d.sending settings.producer) x) →
      (∀ k, Usage settings raises (.channel here ledger hhere hledger apart)
        (d.sending settings.producer) (feed.next k)) →
      Usage settings raises (.channel here ledger hhere hledger apart) d
        (RingSite.pushBatch (.channel here ledger hhere hledger apart) here others feed)
  | receive {V α : Type} {here : Part V (Channel cap α)} {ledger : Part V Ledger} {d : FreeHandles}
      {hhere : here.Lawful} {hledger : ledger.Lawful} {apart : here.Apart ledger} (batch : UInt64)
      {f : α → Act V Unit} : d.consumers →
      (∀ value, Usage settings raises (.channel here ledger hhere hledger apart)
        (d.receiving settings.consumer) (f value)) →
      Usage settings raises (.channel here ledger hhere hledger apart) d
        (RingSite.receive (.channel here ledger hhere hledger apart) here batch f)
  | blockingReceive {V α : Type} {here : Part V (Channel cap α)} {ledger : Part V Ledger}
      {d : FreeHandles} {hhere : here.Lawful} {hledger : ledger.Lawful} {apart : here.Apart ledger}
      {others : List (Act V Unit)} (batch : UInt64) {f : α → Act V Unit} : d.consumers →
      (∀ x ∈ others, Usage settings raises (.channel here ledger hhere hledger apart)
        (d.receiving settings.consumer) x) →
      (∀ value, Usage settings raises (.channel here ledger hhere hledger apart)
        (d.receiving settings.consumer) (f value)) →
      Usage settings raises (.channel here ledger hhere hledger apart) d
        (RingSite.blockingReceive (.channel here ledger hhere hledger apart) here others batch f)
  | pollHandler {V α : Type} {here : Part V (Channel cap α)} {ledger : Part V Ledger}
      {d : FreeHandles}
      {hhere : here.Lawful} {hledger : ledger.Lawful} {apart : here.Apart ledger} (context : String)
      (batch : UInt64) {handler : Handler α V} : d.consumers →
      (∀ s, Usage settings raises ((RingSite.channel here ledger hhere hledger apart).beside α)
        (d.receiving settings.consumer) (handler.onEvent context s)) →
      (∀ s text, Usage settings raises ((RingSite.channel here ledger hhere hledger apart).beside α)
        (d.receiving settings.consumer) (handler.onError context s text)) →
      Usage settings raises (.channel here ledger hhere hledger apart) d
        (RingSite.pollHandler (.channel here ledger hhere hledger apart) here context batch handler)
  | publishEvent {V : Type} {site : RingSite cap V} {d : FreeHandles} {others : List (Act V Unit)}
      {translate : Int64 → Act (site.Slot × V) Unit} : d.producers →
      (∀ x ∈ others, Usage settings raises site (d.sending settings.producer) x) →
      (∀ s, Usage settings raises (site.beside site.Slot) (d.sending settings.producer)
        (translate s)) →
      Usage settings raises site d (site.publishEvent others translate)
  | publishEvents {V A : Type} {site : RingSite cap V} {d : FreeHandles}
      {others : List (Act V Unit)}
      {args : Feed V A} {translate : Int64 → A → Act (site.Slot × V) Unit} : d.producers →
      (∀ x ∈ others, Usage settings raises site (d.sending settings.producer) x) →
      (∀ k, Usage settings raises site (d.sending settings.producer) (args.next k)) →
      (∀ s arg, Usage settings raises (site.beside site.Slot) (d.sending settings.producer)
        (translate s arg)) →
      Usage settings raises site d (site.publishEvents others args translate)
  | poll {V : Type} {site : RingSite cap V} {d : FreeHandles} (context : String) (batch : UInt64)
      {handler : Handler site.Slot V} : d.consumers →
      (∀ s, Usage settings raises (site.beside site.Slot) (d.receiving settings.consumer)
        (handler.onEvent context s)) →
      (∀ s text, Usage settings raises (site.beside site.Slot) (d.receiving settings.consumer)
        (handler.onError context s text)) →
      Usage settings raises site d (site.poll context batch handler)
  | blockingPoll {V : Type} {site : RingSite cap V} {d : FreeHandles} {others : List (Act V Unit)}
      (context : String) (batch : UInt64) {handler : Handler site.Slot V} : d.consumers →
      (∀ x ∈ others, Usage settings raises site (d.receiving settings.consumer) x) →
      (∀ s, Usage settings raises (site.beside site.Slot) (d.receiving settings.consumer)
        (handler.onEvent context s)) →
      (∀ s text, Usage settings raises (site.beside site.Slot) (d.receiving settings.consumer)
        (handler.onError context s text)) →
      Usage settings raises site d (site.blockingPoll others context batch handler)

end LapRing
