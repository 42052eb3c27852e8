import LapRing.Channel.Receive
import LapRing.Channel.Send
import LapRing.Proofs.RunningActions

/-!
# Queues of entries

What a channel looks like from outside: a queue with room for one lap of
entries, each a value or nothing. Values are appended one by one or in batches;
a batch always appends as many entries as it announces, those it has no item for
with nothing in them. Receiving takes entries from the front and hands their
values out until the receiver gives up, which loses the rest of what was taken.
-/
namespace LapRing

/-- What came of asking a feed for a number of items. -/
structure Yield (α L : Type) where
  items : List α
  ending : Except Halt Unit
  world : L

/-- The entries that a batch of `count` makes of its items. -/
def Yield.entries {α L : Type} (y : Yield α L) (count : ℕ) : List (Option α) :=
  y.items.map some ++ List.replicate (count - y.items.length) none

/-- Asks a feed for at most `count` items, from number `k` on. -/
def Feed.gather {α L : Type} (feed : Feed L α) : ℕ → ℕ → L → Yield α L
  | _, 0, l => ⟨[], .ok (), l⟩
  | k, count + 1, l =>
    match feed.next k l with
    | .ok none l => ⟨[], .ok (), l⟩
    | .error e l => ⟨[], .error e, l⟩
    | .ok (some x) l =>
      let later := feed.gather (k + 1) count l
      ⟨x :: later.items, later.ending, later.world⟩

theorem Feed.length_items_gather {α L : Type} (feed : Feed L α) (k count : ℕ) (l : L) :
    (feed.gather k count l).items.length ≤ count := by
  induction count generalizing k l with
  | zero => exact Nat.le_refl 0
  | succ count ih =>
    simp only [gather]
    split
    · exact Nat.zero_le _
    · exact Nat.zero_le _
    · exact Nat.succ_le_succ (ih _ _)

theorem Yield.length_entries {α L : Type} {y : Yield α L} {count : ℕ}
    (h : y.items.length ≤ count) : (y.entries count).length = count := by
  simp only [entries, List.length_append, List.length_map, List.length_replicate]
  omega

/-- One side of a queue, with the number of its handles that are alive. -/
structure Party where
  multiplicity : Multiplicity
  alive : ℕ := 0

namespace Party

/-- A side for one admits nobody while a handle is alive. -/
def Admits (p : Party) : Prop := p.multiplicity = .multi ∨ p.alive = 0

instance (p : Party) : Decidable p.Admits := inferInstanceAs (Decidable (_ ∨ _))

def enter (p : Party) : Party := { p with alive := p.alive + 1 }

def leave (p : Party) : Party := { p with alive := p.alive - 1 }

end Party

/-- What a user of a channel may ask for. The feeds of batches and the callbacks
of receivers act on a world `L` of their own. -/
inductive Call (α L : Type)
  | openProducer
  | openConsumer
  | dropProducer
  | dropConsumer
  | tryPush (value : α)
  | push (value : α)
  | pushBatch (feed : Feed L α)
  | receive (batch : UInt64) (f : α → Act L Unit)

inductive Answer (α : Type)
  | opened (result : Except Refusal Unit)
  | dropped
  | tried (result : Except α Unit)
  | pushed
  | batch (result : Except Refusal UInt64)
  | received (state : PollState)

/-- A queue with room for `limit` entries. -/
structure Queue (α : Type) where
  limit : ℕ
  entries : List (Option α) := []
  /-- How many entries were ever appended. -/
  claimed : ℕ := 0
  producers : Party
  consumers : Party

namespace Queue
variable {α L : Type}

def new (limit : ℕ) (settings : Settings) : Queue α where
  limit := limit
  producers := ⟨settings.producer, 0⟩
  consumers := ⟨settings.consumer, 0⟩

def append (entries : List (Option α)) (q : Queue α) : Queue α :=
  { q with entries := q.entries ++ entries, claimed := q.claimed + entries.length }

def remove (count : ℕ) (q : Queue α) : Queue α := { q with entries := q.entries.drop count }

/-- A batch of none is done at once and one above the limit is refused. Any other
is appended in full, even if its feed gives up. -/
def appendBatch (feed : Feed L α) : Act (Queue α × L) (Except Refusal UInt64) := fun (q, l) =>
  if feed.length = 0 then .ok (.ok 0) (q, l)
  else if q.limit < feed.length.toNat then
    .ok (.error (.invalidClaim feed.length (UInt64.ofNat q.limit))) (q, l)
  else
    let count := feed.length.toNat
    let y := feed.gather 0 count l
    match y.ending with
    | .ok () => .ok (.ok feed.length) (q.append (y.entries count), y.world)
    | .error e => .error e (q.append (y.entries count), y.world)

/-- Removes at most `batch` entries and calls `f` on their values in order. All
of them are removed, even if `f` gives up. -/
def take (batch : UInt64) (f : α → Act L Unit) : Act (Queue α × L) PollState := fun (q, l) =>
  let count := min batch.toNat q.entries.length
  match ((q.entries.take count).filterMap id).forM f l with
  | .ok _ l => .ok (if count = 0 then .idle else .processing) (q.remove count, l)
  | .error e l => .error e (q.remove count, l)

/-- What the queue does with a call. -/
def serve : Call α L → Act (Queue α × L) (Answer α)
  | .openProducer => fun (q, l) =>
    if q.producers.Admits then
      .ok (.opened (.ok ())) ({ q with producers := q.producers.enter }, l)
    else .ok (.opened (.error .producerTaken)) (q, l)
  | .openConsumer => fun (q, l) =>
    if q.consumers.Admits then
      .ok (.opened (.ok ())) ({ q with consumers := q.consumers.enter }, l)
    else .ok (.opened (.error .consumerTaken)) (q, l)
  | .dropProducer => fun (q, l) => .ok .dropped ({ q with producers := q.producers.leave }, l)
  | .dropConsumer => fun (q, l) => .ok .dropped ({ q with consumers := q.consumers.leave }, l)
  | .tryPush value => fun (q, l) =>
    if q.entries.length < q.limit then .ok (.tried (.ok ())) (q.append [some value], l)
    else .ok (.tried (.error value)) (q, l)
  | .push value => fun (q, l) => .ok .pushed (q.append [some value], l)
  | .pushBatch feed => do return .batch (← appendBatch feed)
  | .receive batch f => do return .received (← take batch f)

theorem serve_pushBatch_zero {feed : Feed L α} (hzero : feed.length = 0) (q : Queue α) (l : L) :
    serve (.pushBatch feed) (q, l) = .ok (.batch (.ok 0)) (q, l) := by
  have happend : appendBatch feed (q, l) = .ok (.ok 0) (q, l) := if_pos hzero
  exact Act.bind_ok happend

theorem serve_pushBatch_tooLong {feed : Feed L α} {q : Queue α}
    (hlong : q.limit < feed.length.toNat) (l : L) :
    serve (.pushBatch feed) (q, l) =
      .ok (.batch (.error (.invalidClaim feed.length (UInt64.ofNat q.limit)))) (q, l) := by
  have hzero : feed.length ≠ 0 := by
    intro he
    rw [he] at hlong
    exact absurd hlong (Nat.not_lt_zero _)
  have happend : appendBatch feed (q, l) =
      .ok (.error (.invalidClaim feed.length (UInt64.ofNat q.limit))) (q, l) := by
    rw [appendBatch, if_neg hzero, if_pos hlong]
  exact Act.bind_ok happend

theorem serve_pushBatch {feed : Feed L α} {q : Queue α} (hzero : feed.length ≠ 0)
    (hle : feed.length.toNat ≤ q.limit) (l : L) :
    serve (.pushBatch feed) (q, l) =
      match (feed.gather 0 feed.length.toNat l).ending with
      | .ok () => .ok (.batch (.ok feed.length))
          (q.append ((feed.gather 0 feed.length.toNat l).entries feed.length.toNat),
            (feed.gather 0 feed.length.toNat l).world)
      | .error e => .error e
          (q.append ((feed.gather 0 feed.length.toNat l).entries feed.length.toNat),
            (feed.gather 0 feed.length.toNat l).world) := by
  have hshort : ¬ q.limit < feed.length.toNat := by omega
  cases hending : (feed.gather 0 feed.length.toNat l).ending with
  | ok u =>
    have happend : appendBatch feed (q, l) = .ok (.ok feed.length)
        (q.append ((feed.gather 0 feed.length.toNat l).entries feed.length.toNat),
          (feed.gather 0 feed.length.toNat l).world) := by
      simp only [appendBatch, hzero, hshort, if_false, hending]
    exact Act.bind_ok happend
  | error e =>
    have happend : appendBatch feed (q, l) = .error e
        (q.append ((feed.gather 0 feed.length.toNat l).entries feed.length.toNat),
          (feed.gather 0 feed.length.toNat l).world) := by
      simp only [appendBatch, hzero, hshort, if_false, hending]
    exact Act.bind_error happend

/-- A call needs a handle that is alive, and one that would wait for room is
made only when there is room. -/
def Permits (q : Queue α) : Call α L → Prop
  | .openProducer => True
  | .openConsumer => True
  | .dropProducer => 0 < q.producers.alive
  | .dropConsumer => 0 < q.consumers.alive
  | .tryPush _ => 0 < q.producers.alive
  | .push _ => 0 < q.producers.alive ∧ q.entries.length < q.limit
  | .pushBatch feed => 0 < q.producers.alive ∧
    (feed.length.toNat ≤ q.limit → q.entries.length + feed.length.toNat ≤ q.limit)
  | .receive .. => 0 < q.consumers.alive

instance (q : Queue α) : (call : Call α L) → Decidable (q.Permits call)
  | .openProducer | .openConsumer => inferInstanceAs (Decidable True)
  | .dropProducer | .tryPush _ => inferInstanceAs (Decidable (0 < q.producers.alive))
  | .dropConsumer | .receive .. => inferInstanceAs (Decidable (0 < q.consumers.alive))
  | .push _ => inferInstanceAs (Decidable (_ ∧ _))
  | .pushBatch _ => inferInstanceAs (Decidable (_ ∧ (_ → _)))

end Queue

section
variable {α L W : Type}

/-- Serves calls one after the other, whether or not one before was cut short. -/
def serveAll (serve : Call α L → Act W (Answer α)) :
    List (Call α L) → W → List (Except Halt (Answer α)) × W
  | [], w => ([], w)
  | call :: rest, w =>
    let (answer, w) := (serve call).outcome w
    let (answers, w) := serveAll serve rest w
    (answer :: answers, w)

/-- Each call is permitted when its turn comes, and the entries stay far from
running out of words. -/
def Queue.Legal : List (Call α L) → Queue α × L → Prop
  | [], _ => True
  | call :: rest, w =>
    w.1.Permits call ∧ ((serve call).outcome w).2.1.claimed < 2 ^ 62 ∧
      Legal rest ((serve call).outcome w).2

instance Queue.decidableLegal :
    (calls : List (Call α L)) → (w : Queue α × L) → Decidable (Queue.Legal calls w)
  | [], _ => inferInstanceAs (Decidable True)
  | call :: rest, w =>
    have := Queue.decidableLegal rest ((serve call).outcome w).2
    inferInstanceAs (Decidable (_ ∧ _ ∧ _))

theorem Queue.Legal.of_prefix {before calls : List (Call α L)} {w : Queue α × L}
    (h : Queue.Legal calls w) (hb : before <+: calls) : Queue.Legal before w := by
  induction before generalizing calls w with
  | nil => exact trivial
  | cons call before ih =>
    obtain ⟨after, rfl⟩ := hb
    obtain ⟨hcall, hroom, hrest⟩ := h
    exact ⟨hcall, hroom, ih hrest (List.prefix_append before after)⟩

end

/-- What a channel does with a call. -/
def Channel.serve {cap : Capacity} {α L : Type} (pauses : List (Pause (Channel cap α × L))) :
    Call α L → Act (Channel cap α × L) (Answer α)
  | .openProducer => do return .opened (← Part.first.lift (ringPart.lift Ring.acquireProducer))
  | .openConsumer => do return .opened (← Part.first.lift (ringPart.lift Ring.acquireConsumer))
  | .dropProducer => do
    Part.first.lift (ringPart.update Ring.releaseProducer)
    return .dropped
  | .dropConsumer => do
    Part.first.lift (ringPart.update Ring.releaseConsumer)
    return .dropped
  | .tryPush value => do return .tried (← tryPush Part.first value)
  | .push value => do
    push Part.first pauses value
    return .pushed
  | .pushBatch feed => do
    return .batch (← pushBatch Part.first pauses ⟨feed.length, fun k => Act.outer (feed.next k)⟩)
  | .receive batch f => do
    return .received (← receive Part.first batch fun value => Act.outer (f value))

end LapRing
