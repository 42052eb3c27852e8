import LapRing.Events
import LapRing.Proofs.RunningActions

/-!
# Arrays of reusable events

What an event ring looks like from outside: an array with one event for each slot
and two counters. A publication changes the events of the next sequences in place
and moves the cursor over all of them, a poll lends the events up to the cursor to
a handler and moves gating over them. Events keep what was made of them, also by a
translator or a handler that gave up.
-/
namespace LapRing

namespace Act
variable {W L R α : Type}

/-- An action on an item and its callers' world, in a world that holds more. -/
def across (act : Act (W × L) α) : Act (W × (R × L)) α := fun (x, (r, l)) =>
  match act (x, l) with
  | .ok v (x, l) => .ok v (x, (r, l))
  | .error e (x, l) => .error e (x, (r, l))

theorem across_eq (act : Act (W × L) α) (x : W) (r : R) (l : L) :
    act.across (x, (r, l)) = match act (x, l) with
      | .ok v w => .ok v (w.1, (r, w.2))
      | .error h w => .error h (w.1, (r, w.2)) := by
  rw [across]
  cases act (x, l) <;> rfl

/-- Runs actions one after the other, whether or not one before was cut short. -/
def outcomes : List (Act W α) → W → List (Except Halt α) × W
  | [], w => ([], w)
  | act :: rest, w =>
    let (ending, w) := act.outcome w
    let (endings, w) := outcomes rest w
    (ending :: endings, w)

end Act

/-- A handler whose callbacks run in a world that holds more. -/
def Handler.across {ε L R : Type} (h : Handler ε L) : Handler ε (R × L) where
  onEvent context s := Act.across (h.onEvent context s)
  onError context s error := Act.across (h.onError context s error)
  onStart context := Act.outer (h.onStart context)
  onShutdown context := Act.outer (h.onShutdown context)

/-- What a user of an event ring may ask for. Translators, arguments and handlers
act on a world `L` of their own. -/
inductive EventCall (ε A L : Type)
  | publish (translate : Int64 → Act (ε × L) Unit)
  | publishWith (arg : A) (translate : Int64 → A → Act (ε × L) Unit)
  | publishMany (args : Feed L A) (translate : Int64 → A → Act (ε × L) Unit)
  | poll (context : String) (batch : UInt64) (handler : Handler ε L)

inductive EventAnswer
  | published
  | batch (result : Except Refusal UInt64)
  | polled (state : PollState)
deriving DecidableEq

/-- The events of a ring, the last sequence published and the last one released. -/
structure EventArray (cap : Capacity) (ε : Type) where
  events : Vector ε cap.slots
  cursor : ℤ := -1
  gating : ℤ := -1

namespace EventArray
variable {cap : Capacity} {ε A L α : Type}

/-- The index of a sequence, which is the sequence modulo the number of slots. -/
def index (cap : Capacity) (t : ℤ) : Fin cap.slots :=
  ⟨(t % cap.slots).toNat, by
    have hpos := cap.slots_pos
    have hlo := Int.emod_nonneg t (show (cap.slots : ℤ) ≠ 0 by omega)
    have hhi := Int.emod_lt_of_pos t (show 0 < (cap.slots : ℤ) by omega)
    omega⟩

def event (a : EventArray cap ε) (t : ℤ) : ε := a.events[(index cap t).val]

def withEvent (t : ℤ) (x : ε) (a : EventArray cap ε) : EventArray cap ε :=
  { a with events := a.events.set (index cap t).val x }

/-- Lets an action change the event of a sequence in place. -/
def edit (t : ℤ) (act : Act (ε × L) α) : Act (EventArray cap ε × L) α := fun (a, l) =>
  match act (a.event t, l) with
  | .ok v (x, l) => .ok v (a.withEvent t x, l)
  | .error e (x, l) => .error e (a.withEvent t x, l)

/-- Moves the cursor over `n` sequences. -/
def advance (n : ℕ) : Act (EventArray cap ε × L) Unit := modify fun (a, l) =>
  ({ a with cursor := a.cursor + n }, l)

/-- Moves gating over `n` sequences. -/
def release (n : ℕ) : Act (EventArray cap ε × L) Unit := modify fun (a, l) =>
  ({ a with gating := a.gating + n }, l)

/-- The next event is translated, and counts as published however that ends. -/
def publish (translate : Int64 → Act (ε × L) Unit) : Act (EventArray cap ε × L) Unit := do
  let (a, _) ← get
  (edit (a.cursor + 1) (translate (.ofInt (a.cursor + 1)))).closing (advance 1)

/-- Translates events with the arguments from number `k` on, as far as there are any. -/
def translateAll (args : Feed L A) (translate : Int64 → A → Act (ε × L) Unit) :
    ℕ → List ℤ → Act (EventArray cap ε × L) Unit
  | _, [] => return ()
  | k, t :: rest => do
    match ← Act.outer (args.next k) with
    | none => return ()
    | some arg =>
      edit t (translate (.ofInt t) arg)
      translateAll args translate (k + 1) rest

/-- Events of the number announced count as published, with whatever arguments
there are. More than one lap is refused. -/
def publishMany (args : Feed L A) (translate : Int64 → A → Act (ε × L) Unit) :
    Act (EventArray cap ε × L) (Except Refusal UInt64) := do
  if args.length = 0 then return .ok 0
  if cap.slots < args.length.toNat then return .error (.invalidClaim args.length cap.word)
  let (a, _) ← get
  (translateAll args translate 0 (consecutive (a.cursor + 1) args.length.toNat)).closing
    (advance args.length.toNat)
  return .ok args.length

/-- Shows an event to the handler. One that it rejects is shown to it once more, with the
reason. -/
def present (handler : Handler ε L) (context : String) (s : Int64) : Act (ε × L) Unit := do
  match ← handler.onEvent context s with
  | .ok () => return ()
  | .error reason => handler.onError context s reason

/-- At most `batch` events are lent to the handler in order, until it gives up. All
of them are released in either case. -/
def poll (context : String) (batch : UInt64) (handler : Handler ε L) :
    Act (EventArray cap ε × L) PollState := do
  let (a, _) ← get
  let count := min batch.toNat (a.cursor - a.gating).toNat
  if count = 0 then return .idle
  ((consecutive (a.gating + 1) count).forM fun t =>
    edit t (present handler context (.ofInt t))).closing (release count)
  return .processing

theorem publish_eq (translate : Int64 → Act (ε × L) Unit) (a : EventArray cap ε) (l : L) :
    publish translate (a, l) =
      (edit (a.cursor + 1) (translate (.ofInt (a.cursor + 1)))).closing (advance 1) (a, l) := by
  rw [publish, Act.get_bind]

section Batches
variable {args : Feed L A} {translate : Int64 → A → Act (ε × L) Unit} {a : EventArray cap ε} {l : L}

theorem publishMany_empty (hzero : args.length = 0) :
    publishMany args translate (a, l) = .ok (.ok 0) (a, l) := by
  rw [publishMany, if_pos hzero]
  rfl

theorem publishMany_tooLong (hlong : cap.slots < args.length.toNat) :
    publishMany args translate (a, l) =
      .ok (.error (.invalidClaim args.length cap.word)) (a, l) := by
  have hzero : args.length ≠ 0 := by
    intro he
    rw [he] at hlong
    exact absurd hlong (Nat.not_lt_zero _)
  rw [publishMany, if_neg hzero, if_pos hlong]
  rfl

theorem publishMany_eq (hzero : args.length ≠ 0) (hle : args.length.toNat ≤ cap.slots) :
    publishMany args translate (a, l) =
      ((translateAll args translate 0 (consecutive (a.cursor + 1) args.length.toNat)).closing
        (advance args.length.toNat) >>= fun _ => pure (.ok args.length)) (a, l) := by
  rw [publishMany, if_neg hzero, if_neg (by omega), Act.get_bind]

end Batches

section Polls
variable {context : String} {batch : UInt64} {handler : Handler ε L} {a : EventArray cap ε} {l : L}

theorem poll_none (hnone : min batch.toNat (a.cursor - a.gating).toNat = 0) :
    poll context batch handler (a, l) = .ok .idle (a, l) := by
  rw [poll, Act.get_bind]
  simp only [hnone, if_true]
  rfl

theorem poll_some {count : ℕ} (hcount : min batch.toNat (a.cursor - a.gating).toNat = count)
    (hsome : count ≠ 0) :
    poll context batch handler (a, l) =
      (((consecutive (a.gating + 1) count).forM fun t =>
        edit t (present handler context (.ofInt t))).closing (release count) >>=
          fun _ => pure .processing) (a, l) := by
  rw [poll, Act.get_bind]
  simp only [hcount, hsome, if_false]

end Polls

/-- What the array does with a call. -/
def serve : EventCall ε A L → Act (EventArray cap ε × L) EventAnswer
  | .publish translate => do
    publish translate
    return .published
  | .publishWith arg translate => do
    publish fun s => translate s arg
    return .published
  | .publishMany args translate => do return .batch (← publishMany args translate)
  | .poll context batch handler => do return .polled (← poll context batch handler)

/-! ## What a publication counts -/

section Counting
variable {args : Feed L A} {translate : Int64 → A → Act (ε × L) Unit}

/-- The cursor is where it is said to be. -/
abbrev At (c : ℤ) (w : EventArray cap ε × L) : Prop := w.1.cursor = c

theorem leads_edit (c t : ℤ) (act : Act (ε × L) α) :
    Act.Leads (At c) (At c) (edit t act : Act (EventArray cap ε × L) α) := by
  rintro ⟨a, l⟩ h
  cases hact : act (a.event t, l) with
  | ok v w' =>
    have hrun : edit t act (a, l) = .ok v (a.withEvent t w'.1, w'.2) := by simp only [edit, hact]
    rwa [Act.outcome_ok hrun]
  | error e w' =>
    have hrun : edit t act (a, l) = .error e (a.withEvent t w'.1, w'.2) := by
      simp only [edit, hact]
    rwa [Act.outcome_error hrun]

theorem leads_translateAll (c : ℤ) (k : ℕ) (ts : List ℤ) :
    Act.Leads (At c) (At c)
      (translateAll args translate k ts : Act (EventArray cap ε × L) Unit) := by
  induction ts generalizing k with
  | nil => exact Act.leads_pure ()
  | cons t ts ih =>
    refine (Act.leads_outer (args.next k) fun a : EventArray cap ε => a.cursor = c).bind
      (fun arg => ?_) fun _ hw => hw
    cases arg with
    | none => exact Act.leads_pure ()
    | some arg => exact (leads_edit c t _).bind (fun _ => ih (k + 1)) fun _ hw => hw

theorem leads_advance (c : ℤ) (n : ℕ) :
    Act.Leads (At c) (At (c + n)) (advance n : Act (EventArray cap ε × L) Unit) := by
  intro w h
  change w.1.cursor + n = c + n
  rw [h]

theorem cursor_publish (translate : Int64 → Act (ε × L) Unit) (a : EventArray cap ε) (l : L) :
    ((publish translate).outcome (a, l)).2.1.cursor = a.cursor + 1 := by
  rw [Act.outcome_eq (publish_eq translate a l)]
  exact (leads_edit a.cursor _ _).closing (leads_advance a.cursor 1) (a, l) rfl

theorem cursor_publishMany (hle : args.length.toNat ≤ cap.slots) (a : EventArray cap ε) (l : L) :
    ((publishMany args translate).outcome (a, l)).2.1.cursor = a.cursor + args.length.toNat := by
  by_cases hzero : args.length = 0
  · rw [Act.outcome_ok (publishMany_empty hzero), hzero]
    exact (Int.add_zero a.cursor).symm
  · rw [Act.outcome_eq (publishMany_eq hzero hle), Act.outcome_bind_pure]
    exact (leads_translateAll a.cursor 0 _).closing (leads_advance a.cursor _) (a, l) rfl

end Counting

/-- A publication is made only when there is room for it. -/
def Permits (a : EventArray cap ε) : EventCall ε A L → Prop
  | .publish _ | .publishWith _ _ => a.cursor - a.gating < cap.slots
  | .publishMany args _ =>
    args.length.toNat ≤ cap.slots → a.cursor - a.gating + args.length.toNat ≤ cap.slots
  | .poll .. => True

instance (a : EventArray cap ε) : (call : EventCall ε A L) → Decidable (a.Permits call)
  | .publish _ | .publishWith _ _ => inferInstanceAs (Decidable (_ < _))
  | .publishMany _ _ => inferInstanceAs (Decidable (_ → _))
  | .poll .. => inferInstanceAs (Decidable True)

/-- Each call is permitted when its turn comes, and the sequences stay far from
running out of words. -/
def Legal : List (EventCall ε A L) → EventArray cap ε × L → Prop
  | [], _ => True
  | call :: rest, w =>
    w.1.Permits call ∧ ((serve call).outcome w).2.1.cursor + 1 < 2 ^ 62 ∧
      Legal rest ((serve call).outcome w).2

instance decidableLegal : (calls : List (EventCall ε A L)) → (w : EventArray cap ε × L) →
    Decidable (Legal calls w)
  | [], _ => inferInstanceAs (Decidable True)
  | call :: rest, w =>
    have := decidableLegal rest ((serve call).outcome w).2
    inferInstanceAs (Decidable (_ ∧ _ ∧ _))

theorem Legal.of_prefix {before calls : List (EventCall ε A L)} {w : EventArray cap ε × L}
    (h : Legal calls w) (hb : before <+: calls) : Legal before w := by
  induction before generalizing calls w with
  | nil => exact trivial
  | cons call before ih =>
    obtain ⟨after, rfl⟩ := hb
    obtain ⟨hcall, hroom, hrest⟩ := h
    exact ⟨hcall, hroom, ih hrest (List.prefix_append before after)⟩

end EventArray

/-- What an event ring does with a call. -/
def EventRing.serve {cap : Capacity} {ε A L : Type} (pauses : List (Pause (EventRing cap ε × L))) :
    EventCall ε A L → Act (EventRing cap ε × L) EventAnswer
  | .publish translate => do
    publishEvent Part.first pauses fun s => Act.across (translate s)
    return .published
  | .publishWith arg translate => do
    publishEventWith Part.first pauses arg fun s arg => Act.across (translate s arg)
    return .published
  | .publishMany args translate => do
    return .batch (← publishEvents Part.first pauses
      ⟨args.length, fun k => Act.outer (args.next k)⟩ fun s arg => Act.across (translate s arg))
  | .poll context batch handler => do
    return .polled (← poll Part.first context batch handler.across)

end LapRing
