import LapRing.Channel.Receive
import LapRing.Events
import LapRing.Proofs.HandlerPolls
import LapRing.Proofs.Receiving

/-!
# What a poll lets a handler see

A poll calls its handler for each item of its window in order, and reports each item
that is rejected before it goes on with the next. It ends at the end of the window, or
with the first callback that gives up. All the while others go on with their work, and
a callback may do their work for them.
-/
namespace LapRing

/-- A call of a handler for a sequence, with what came of it. -/
inductive HandlerCall (ε : Type)
  | event (s : Int64) (item : ε) (result : Except Halt (Except String Unit))
  | error (s : Int64) (text : String) (result : Except Halt Unit)

namespace HandlerCall
variable {ε : Type}

def sequence : HandlerCall ε → Int64
  | event s _ _ => s
  | error s _ _ => s

/-- The item was rejected, and nobody gave up on that. -/
def isRejection : HandlerCall ε → Bool
  | event _ _ (.ok (.error _)) => true
  | _ => false

end HandlerCall

/-- How many items were rejected. -/
def rejections {ε : Type} (calls : List (HandlerCall ε)) : ℕ := calls.countP HandlerCall.isRejection

/-- The calls that a handler gets for one item, and how they end. -/
inductive Dispatched {ε : Type} (s : Int64) (item : ε) :
    List (HandlerCall ε) → Except Halt Unit → Prop
  | accepted : Dispatched s item [.event s item (.ok (.ok ()))] (.ok ())
  | raised (e : Halt) : Dispatched s item [.event s item (.error e)] (.error e)
  /-- A rejected item is reported at once, and the report may be cut short as well. -/
  | rejected (text : String) (result : Except Halt Unit) :
      Dispatched s item [.event s item (.ok (.error text)), .error s text result] result

/-- The calls that a handler gets for items in order, until one call gives up. -/
inductive Trace {ε : Type} : List (Int64 × ε) → List (HandlerCall ε) → Except Halt Unit → Prop
  | done : Trace [] [] (.ok ())
  | next {s : Int64} {item : ε} {rest : List (Int64 × ε)} {calls calls' : List (HandlerCall ε)}
      {ending : Except Halt Unit} :
      Dispatched s item calls (.ok ()) → Trace rest calls' ending →
      Trace ((s, item) :: rest) (calls ++ calls') ending
  | stop {s : Int64} {item : ε} {rest : List (Int64 × ε)} {calls : List (HandlerCall ε)}
      {e : Halt} :
      Dispatched s item calls (.error e) → Trace ((s, item) :: rest) calls (.error e)

/-- The items that are seen in slots, with their sequences. -/
def items {cap : Capacity} {σ ε : Type} (see : σ → Option ε) (slots : Slots cap σ)
    (ss : List Int64) : List (Int64 × ε) :=
  ss.filterMap fun s => (see (slots.read s)).map (s, ·)

namespace Act
variable {B L ε α : Type}

/-- Notes a call and what came of it in a log that callbacks do not see. -/
def logging (entry : ε → Except Halt α → HandlerCall ε) (act : Act (ε × B × L) α) :
    Act (ε × B × List (HandlerCall ε) × L) α := fun (x, b, log, l) =>
  match act (x, b, l) with
  | .ok v (x', b, l) => .ok v (x', b, log ++ [entry x (.ok v)], l)
  | .error e (x', b, l) => .error e (x', b, log ++ [entry x (.error e)], l)

theorem outcome_logging (entry : ε → Except Halt α → HandlerCall ε) (act : Act (ε × B × L) α)
    (x : ε) (b : B) (log : List (HandlerCall ε)) (l : L) :
    (act.logging entry).outcome (x, b, log, l) =
      ((act.outcome (x, b, l)).1, (act.outcome (x, b, l)).2.1, (act.outcome (x, b, l)).2.2.1,
        log ++ [entry x (act.outcome (x, b, l)).1], (act.outcome (x, b, l)).2.2.2) := by
  simp only [outcome, logging]
  cases act (x, b, l) <;> rfl

theorem forM_eq_foldlM {W X : Type} (f : X → Act W Unit) (xs : List X) :
    xs.forM f = xs.foldlM (fun _ x => f x) () := by
  induction xs with
  | nil => rfl
  | cons x xs ih =>
    rw [List.foldlM_cons]
    exact congrArg (f x >>= ·) (funext fun _ => ih)

end Act

namespace Handler
variable {B L ε : Type}

/-- A handler whose calls are logged. -/
def logged (h : Handler ε (B × L)) : Handler ε (B × List (HandlerCall ε) × L) where
  onEvent context s := (h.onEvent context s).logging fun item result => .event s item result
  onError context s text := (h.onError context s text).logging fun _ result => .error s text result

end Handler

namespace HandlerPolls
variable {cap : Capacity} {P Q σ ε B L : Type}

/-- What is said of a ring is so. -/
structure Around (m : HandlerPolls cap P Q σ) (r : Ring cap σ) : Prop where
  sequencer : r.sequencer = m.sequencer
  poller : r.poller = m.poller
  slots : r.slots = m.slots

variable [DecidableEq P] [DecidableEq Q]

/-- While consumer `q` drains, an action may do to the ring whatever others may do. -/
def Tolerated (P : Type) [DecidableEq P] {α : Type} (q : Q) (ring : B → Ring cap σ)
    (act : Act (ε × B × L) α) : Prop :=
  ∀ (m : HandlerPolls cap P Q σ) (win : Window) (x : ε) (b : B) (l : L), m.toRingParties.Sound →
    m.visits q = .draining win → m.Around (ring b) →
    ∃ m', m.Others q m' ∧ m'.Around (ring (act.outcome (x, b, l)).2.2.1)

/-- A handler may do what it likes beside the ring, and to the ring what others may do
meanwhile: it may publish, for instance, or let other consumers go on. -/
structure Modest (P : Type) [DecidableEq P] (q : Q) (ring : B → Ring cap σ)
    (h : Handler ε (B × L)) : Prop where
  onEvent : ∀ context s, Tolerated P q ring (h.onEvent context s)
  onError : ∀ context s text, Tolerated P q ring (h.onError context s text)

/-- What consumer `q` has made of the ring since it was at `m`, while these calls were
made. Nothing else has touched the slots of the sequences that are left. -/
structure Attended (q : Q) (win : Window) (left : Set Int64) (m : HandlerPolls cap P Q σ)
    (calls : List (HandlerCall ε)) (m' : HandlerPolls cap P Q σ) : Prop where
  run : m.Run m'
  visit : m'.visits q = .draining win
  slots : ∀ s ∈ left, m'.slots.read s = m.slots.read s
  rejected : ∃ later, m'.rejected = m.rejected ++ later ∧ later.count q = rejections calls

section Attending
variable {metrics : Bool} {m m' m'' : HandlerPolls cap P Q σ} {q : Q} {win : Window}
  {left : Set Int64} {calls calls' : List (HandlerCall ε)}

namespace Attended

theorem refl (hq : m.visits q = .draining win) (left : Set Int64) :
    Attended q win left m ([] : List (HandlerCall ε)) m :=
  ⟨.refl, hq, fun _ _ => rfl, [], by simp, rfl⟩

theorem trans (h : Attended q win left m calls m') (h' : Attended q win left m' calls' m'') :
    Attended q win left m (calls ++ calls') m'' := by
  obtain ⟨later, hlater, hcount⟩ := h.rejected
  obtain ⟨later', hlater', hcount'⟩ := h'.rejected
  refine ⟨h.run.trans h'.run, h'.visit, fun s hs => (h'.slots s hs).trans (h.slots s hs),
    later ++ later', ?_, ?_⟩
  · rw [hlater', hlater, List.append_assoc]
  · rw [List.count_append, hcount, hcount', rejections, rejections, rejections, List.countP_append]

theorem fewer {left' : Set Int64} (h : Attended q win left m calls m')
    (sub : left' ⊆ left) : Attended q win left' m calls m' :=
  ⟨h.run, h.visit, fun s hs => h.slots s (sub hs), h.rejected⟩

/-- Others were at work while a call was made. -/
theorem of_others (h : m.Sound metrics) (hq : m.visits q = .draining win) (hrun : m.Others q m')
    (calm : rejections calls = 0) : Attended q win {s | s ∈ win.sequences} m calls m' := by
  have hsame := Undisturbed.run h hq hrun
  obtain ⟨others, hothers, hnone⟩ := hsame.rejected
  exact ⟨hrun.run, hsame.visit, hsame.slots, others, hothers,
    (List.count_eq_zero.mpr hnone).trans calm.symm⟩

/-- The item was rejected. -/
theorem reject (hq : m.visits q = .draining win) (left : Set Int64) (s : Int64) (item : ε)
    (text : String) :
    Attended q win left m [.event s item (.ok (.error text))]
      { m with
        sequencer := m.sequencer.count .failed
        rejected := m.rejected ++ [q] } := by
  refine ⟨.single ⟨some q, .reject q⟩, hq, fun _ _ => rfl, [q], rfl, ?_⟩
  rw [List.count_singleton_self]
  rfl

/-- The consumer has put something into a slot of its window. -/
theorem handle (hq : m.visits q = .draining win) {s : Int64} (hs : s ∈ win.sequences) (x : σ)
    (apart : ∀ t ∈ left, cap.slot s ≠ cap.slot t) :
    Attended q win left m ([] : List (HandlerCall ε)) { m with slots := m.slots.write s x } := by
  refine ⟨.single ⟨some q, .handle x hq hs⟩, hq, fun t ht => ?_, [], by simp, rfl⟩
  exact (Slots.read_write _ _ _ _).trans (if_neg (apart t ht))

end Attended

/-- An item is given to the handler, and its rejection is counted and reported. -/
theorem attended_dispatch {ring : B → Ring cap σ} {failed : B → B}
    (hfailed : ∀ b, ring (failed b) = (ring b).withSequencer ((ring b).sequencer.count .failed))
    {countFailure : Act (B × List (HandlerCall ε) × L) Unit}
    (hcount : ∀ b log l, countFailure (b, log, l) = .ok () (failed b, log, l))
    {handler : Handler ε (B × L)} (modest : Modest P q ring handler) (h : m.Sound metrics)
    (hq : m.visits q = .draining win) {b : B} (around : m.Around (ring b)) (context : String)
    (s : Int64) (item : ε) (log : List (HandlerCall ε)) (l : L) :
    ∃ x b' calls l' ending m', (handler.logged.dispatch countFailure context s).outcome
        (item, b, log, l) = (ending, x, b', log ++ calls, l') ∧
      Dispatched s item calls ending ∧ Attended q win {s | s ∈ win.sequences} m calls m' ∧
      m'.Around (ring b') := by
  obtain ⟨m₁, hrun, haround⟩ := modest.onEvent context s m win item b l h.parties hq around
  rw [Handler.dispatch, Act.outcome_bind, Handler.logged, Act.outcome_logging]
  set r := (handler.onEvent context s).outcome (item, b, l)
  obtain ⟨result, x, b₁, l₁⟩ := r
  match result with
  | .error e =>
    exact ⟨x, b₁, _, l₁, _, m₁, rfl, .raised e, .of_others h hq hrun rfl, haround⟩
  | .ok (.ok ()) =>
    exact ⟨x, b₁, _, l₁, _, m₁, rfl, .accepted, .of_others h hq hrun rfl, haround⟩
  | .ok (.error text) =>
    have hevented : Attended q win {s | s ∈ win.sequences} m ([] : List (HandlerCall ε)) m₁ :=
      .of_others h hq hrun rfl
    have hrejected := hevented.trans (.reject hevented.visit _ s item text)
    set m₂ : HandlerPolls cap P Q σ := { m₁ with
      sequencer := m₁.sequencer.count .failed
      rejected := m₁.rejected ++ [q] }
    have haround₂ : m₂.Around (ring (failed b₁)) := by
      rw [hfailed]
      exact ⟨congrArg (Sequencer.count · .failed) haround.sequencer, haround.poller, haround.slots⟩
    have hsound₂ := h.run hrejected.run
    obtain ⟨m₃, hrun₃, haround₃⟩ := modest.onError context s text m₂ win x (failed b₁) l₁
      hsound₂.parties hrejected.visit haround₂
    have hcounted : Act.outer countFailure
        (x, b₁, log ++ [HandlerCall.event s item (.ok (.error text))], l₁) =
        .ok () (x, failed b₁, log ++ [HandlerCall.event s item (.ok (.error text))], l₁) :=
      Part.lift_ok (p := Part.second) (hcount _ _ _)
    simp only
    rw [Act.outcome_eq (Act.bind_ok hcounted), Act.outcome_logging]
    set r₃ := (handler.onError context s text).outcome (x, failed b₁, l₁)
    have hreported : Attended q win {s | s ∈ win.sequences} m₂
        ([.error s text r₃.1] : List (HandlerCall ε)) m₃ :=
      .of_others hsound₂ hrejected.visit hrun₃ rfl
    refine ⟨r₃.2.1, r₃.2.2.1, _, r₃.2.2.2, _, m₃, ?_, .rejected text r₃.1,
      hrejected.trans hreported, haround₃⟩
    simp

/-- What came of giving out the items of some sequences. -/
def Tended {A : Type} (q : Q) (win : Window) (see : σ → Option ε) (ring : B → Ring cap σ)
    (ss : List Int64) (left : Set Int64) (m : HandlerPolls cap P Q σ) (log : List (HandlerCall ε))
    (r : Except Halt A × B × List (HandlerCall ε) × L) : Prop :=
  ∃ calls m', r.2.2.1 = log ++ calls ∧
    Trace (items see m.slots ss) calls (r.1.map fun _ => ()) ∧
    Attended q win left m calls m' ∧ m'.Around (ring r.2.1)

end Attending

end HandlerPolls

namespace Trace
variable {ε : Type} {xs ys : List (Int64 × ε)} {calls calls' : List (HandlerCall ε)}
  {ending : Except Halt Unit} {e : Halt}

theorem append (h : Trace xs calls (.ok ())) (h' : Trace ys calls' ending) :
    Trace (xs ++ ys) (calls ++ calls') ending := by
  generalize hok : (.ok () : Except Halt Unit) = ending at h
  induction h with
  | done => exact h'
  | next hd _ ih =>
    rw [List.append_assoc]
    exact .next hd (ih hok)
  | stop _ => simp at hok

/-- After a call that gave up there are no others. -/
theorem append_error (h : Trace xs calls (.error e)) (ys : List (Int64 × ε)) :
    Trace (xs ++ ys) calls (.error e) := by
  generalize herror : (.error e : Except Halt Unit) = ending at h
  induction h with
  | done => simp at herror
  | next hd _ ih => exact .next hd (ih herror)
  | stop hd =>
    obtain rfl := Except.error.inj herror
    exact .stop hd

end Trace

/-- The calls for one item are those for a list of it. -/
theorem Dispatched.trace {ε : Type} {s : Int64} {item : ε} {calls : List (HandlerCall ε)}
    {ending : Except Halt Unit} (h : Dispatched s item calls ending) :
    Trace [(s, item)] calls ending := by
  cases ending with
  | ok u =>
    rw [← List.append_nil calls]
    exact .next h .done
  | error e => exact .stop h

section Items
variable {cap : Capacity} {σ ε : Type} (see : σ → Option ε) {slots slots' : Slots cap σ}

theorem items_append (slots : Slots cap σ) (ss ss' : List Int64) :
    items see slots (ss ++ ss') = items see slots ss ++ items see slots ss' :=
  List.filterMap_append

theorem items_congr {ss : List Int64} (same : ∀ s ∈ ss, slots'.read s = slots.read s) :
    items see slots' ss = items see slots ss :=
  List.filterMap_congr fun s hs => by rw [same s hs]

end Items

namespace HandlerPolls
variable {cap : Capacity} {P Q σ ε B L A : Type} [DecidableEq P] [DecidableEq Q] {metrics : Bool}
  {m : HandlerPolls cap P Q σ} {q : Q} {win : Window} {see : σ → Option ε} {ring : B → Ring cap σ}

/-- Sequences of a window within one lap are served one after the other until one gives up. -/
theorem tended_fold {serve : A → Int64 → Act (B × List (HandlerCall ε) × L) A}
    (hserve : ∀ {m : HandlerPolls cap P Q σ} {s : Int64} (a : A) (b : B)
    (log : List (HandlerCall ε)) (l : L),
      m.Sound metrics → m.visits q = .draining win → s ∈ win.sequences → m.Around (ring b) →
      Tended q win see ring [s] {t | t ∈ win.sequences ∧ cap.slot s ≠ cap.slot t} m log
        ((serve a s).outcome (b, log, l)))
    {ss : List Int64} (within : ∀ s ∈ ss, s ∈ win.sequences)
    (distinct : ss.Pairwise fun s t => cap.slot s ≠ cap.slot t) (h : m.Sound metrics)
    (hq : m.visits q = .draining win) (a : A) {b : B} (around : m.Around (ring b))
    (log : List (HandlerCall ε)) (l : L) :
    Tended q win see ring ss ∅ m log ((ss.foldlM serve a).outcome (b, log, l)) := by
  induction ss generalizing m a b log l with
  | nil => exact ⟨[], m, (List.append_nil _).symm, .done, .refl hq _, around⟩
  | cons s ss ih =>
    obtain ⟨hs, hss⟩ := List.forall_mem_cons.mp within
    obtain ⟨hapart, hdistinct⟩ := List.pairwise_cons.mp distinct
    have hone := hserve a b log l h hq hs around
    rw [List.foldlM_cons, Act.outcome_bind]
    generalize (serve a s).outcome (b, log, l) = r at hone ⊢
    obtain ⟨result, b₁, log₁, l₁⟩ := r
    obtain ⟨calls, m₁, hlog, htrace, hattended, haround⟩ := hone
    have hsplit : items see m.slots (s :: ss) = items see m.slots [s] ++ items see m.slots ss :=
      items_append see m.slots [s] ss
    cases result with
    | error e =>
      refine ⟨calls, m₁, hlog, ?_, hattended.fewer (Set.empty_subset _), haround⟩
      rw [hsplit]
      exact htrace.append_error _
    | ok a₁ =>
      have hsame : ∀ t ∈ ss, m₁.slots.read t = m.slots.read t := fun t ht =>
        hattended.slots t ⟨hss t ht, hapart t ht⟩
      obtain ⟨calls', m₂, hlog', htrace', hattended', haround'⟩ :=
        ih hss hdistinct (h.run hattended.run) hattended.visit a₁ (b := b₁) haround log₁ l₁
      refine ⟨calls ++ calls', m₂, ?_, ?_, (hattended.fewer (Set.empty_subset _)).trans hattended',
        haround'⟩
      · exact hlog'.trans (by rw [show log₁ = log ++ calls from hlog, List.append_assoc])
      · rw [hsplit]
        rw [items_congr see hsame] at htrace'
        exact htrace.append htrace'

/-- A slot of an event ring is lent to the handler, and keeps what that made of it. -/
theorem tended_lend {ε : Type} {m : HandlerPolls cap P Q ε}
    {handler : Handler ε (EventRing cap ε × L)}
    (modest : Modest P q id handler) (context : String) {s : Int64} {b : EventRing cap ε}
    (log : List (HandlerCall ε)) (l : L) (h : m.Sound metrics) (hq : m.visits q = .draining win)
    (hs : s ∈ win.sequences) (around : m.Around b) :
    Tended q win some id [s] {t | t ∈ win.sequences ∧ cap.slot s ≠ cap.slot t} m log
      (((Part.first.within (Ring.slotPart s)).lend
        (handler.logged.dispatch (Ring.countFailure Part.first) context s)).outcome
          (b, log, l)) := by
  have hcount : ∀ (b : EventRing cap ε) (log : List (HandlerCall ε)) (l : L),
      Ring.countFailure Part.first (b, log, l) =
        .ok () (b.withSequencer (b.sequencer.count .failed), log, l) := fun _ _ _ => rfl
  obtain ⟨x, b', calls, l', ending, m₁, hrun, hcalls, hattended, haround⟩ :=
    attended_dispatch (fun _ => rfl) hcount modest h hq around context s (b.slots.read s) log l
  rw [Part.outcome_lend]
  change Tended q win some id [s] _ m log (_, _)
  have hitem : ((Part.first.within (Ring.slotPart s)).split (b, log, l)).1 = b.slots.read s := rfl
  rw [hitem, hrun]
  refine ⟨calls, { m₁ with slots := m₁.slots.write s x }, rfl, ?_, ?_, ?_⟩
  · rw [around.slots] at hcalls
    cases ending <;> exact hcalls.trace
  · have hkept := hattended.fewer
      (show {t | t ∈ win.sequences ∧ cap.slot s ≠ cap.slot t} ⊆ _ from fun t ht => ht.1)
    rw [← List.append_nil calls]
    exact hkept.trans (.handle hattended.visit hs x fun t ht => ht.2)
  · exact ⟨haround.sequencer, haround.poller, congrArg (Slots.write · s x) haround.slots⟩

/-- Empties the slot of `s` and gives what was there to the handler. -/
def takeOut {α : Type} (handler : Handler α (Channel cap α × List (HandlerCall α) × L))
    (context : String) (received : ℕ) (s : Int64) :
    Act (Channel cap α × List (HandlerCall α) × L) ℕ := do
  match ← Part.first.lift (Channel.exchange s none) with
  | none => return received
  | some value =>
    Act.owning value
      (handler.dispatch (Ring.countFailure (Part.first.within Channel.ringPart)) context s)
    return received + 1

/-- A slot of a channel is emptied, and the handler is given the value in it, if any. -/
theorem tended_takeOut {α : Type} {m : HandlerPolls cap P Q (Option α)}
    {handler : Handler α (Channel cap α × L)} (modest : Modest P q Channel.ring handler)
    (context : String) {s : Int64} (received : ℕ) {b : Channel cap α} (log : List (HandlerCall α))
    (l : L) (h : m.Sound metrics) (hq : m.visits q = .draining win) (hs : s ∈ win.sequences)
    (around : m.Around b.ring) :
    Tended q win id Channel.ring [s] {t | t ∈ win.sequences ∧ cap.slot s ≠ cap.slot t} m log
      ((takeOut handler.logged context received s).outcome (b, log, l)) := by
  have htake : Part.first.lift (Channel.exchange s none) (b, log, l) =
      .ok (b.ring.slots.read s) (b.withSlots (b.ring.slots.write s none), log, l) := rfl
  rw [takeOut, Act.outcome_eq (Act.bind_ok htake)]
  set m₁ : HandlerPolls cap P Q (Option α) := { m with slots := m.slots.write s none }
  have hemptied : Attended q win {t | t ∈ win.sequences ∧ cap.slot s ≠ cap.slot t} m
      ([] : List (HandlerCall α)) m₁ := .handle hq hs none fun t ht => ht.2
  have haround₁ : m₁.Around (b.withSlots (b.ring.slots.write s none)).ring :=
    ⟨around.sequencer, around.poller, congrArg (Slots.write · s none) around.slots⟩
  rw [around.slots] at haround₁ ⊢
  cases hread : m.slots.read s with
  | none =>
    have hnothing : items id m.slots [s] = [] := by simp [items, hread]
    refine ⟨[], m₁, (List.append_nil _).symm, ?_, hemptied, haround₁⟩
    rw [hnothing]
    exact .done
  | some value =>
    have hone : items id m.slots [s] = [(s, value)] := by simp [items, hread]
    have hcount : ∀ (b : Channel cap α) (log : List (HandlerCall α)) (l : L),
        Ring.countFailure (Part.first.within Channel.ringPart) (b, log, l) =
          .ok () (b.withSequencer (b.ring.sequencer.count .failed), log, l) := fun _ _ _ => rfl
    obtain ⟨x, b', calls, l', ending, m₂, hrun, hcalls, hattended, haround₂⟩ :=
      attended_dispatch (fun _ => rfl) hcount modest (h.run hemptied.run) hemptied.visit haround₁
        context s value log l
    simp only
    rw [Act.outcome_bind_pure, Act.outcome_owning_eq, hrun]
    rw [Tended, hone]
    refine ⟨calls, m₂, rfl, ?_, hemptied.trans (hattended.fewer fun t ht => ht.1), haround₂⟩
    cases ending <;> exact hcalls.trace

end HandlerPolls

end LapRing
