import LapRing.Proofs.SequenceWords
import LapRing.Worker
import Mathlib.Data.List.Flatten

/-!
# Incarnations

A worker that is started again has a new thread, and its handler sees a new
incarnation: it is told of the start, given items, and told of the stop. A callback
that gives up ends the incarnation then and there. Each incarnation goes on after
the windows of those before it.
-/
namespace LapRing

/-- A callback of a handler that was called, in a thread of a worker. -/
inductive Callback
  | start
  | event (s : ℤ)
  | error (s : ℤ)
  | stop
  /-- The callback before this gave up. -/
  | panic
deriving DecidableEq

namespace Callback

def event? : Callback → Option ℤ
  | .event s => some s
  | _ => none

def isItem : Callback → Bool
  | .event _ | .error _ => true
  | _ => false

end Callback

/-- The thread of a worker from its start. -/
structure Incarnation where
  /-- Gating when the thread was started. -/
  gating : ℤ
  /-- What the handler was called with, oldest first. -/
  calls : List Callback := []
  /-- The windows of the polls, oldest first. -/
  batches : List Window := []

namespace Incarnation

/-- The sequences that were given to the handler. -/
def handled (i : Incarnation) : List ℤ := i.calls.filterMap Callback.event?

/-- The sequences of all windows. -/
def begun (i : Incarnation) : List ℤ := i.batches.flatMap fun win => win.sequences.map Int64.toInt

/-- The end of the last window, or gating from before if there is none. -/
def reached (i : Incarnation) : ℤ := (i.batches.getLast?.map (·.last.toInt)).getD i.gating

/-- Calls on items that give the sequences `ts` to the handler. -/
structure Items (ts : List ℤ) (calls : List Callback) : Prop where
  items : ∀ c ∈ calls, c.isItem = true
  events : calls.filterMap Callback.event? = ts

/-- A thread that has begun: its handler was told of the start, given items, and
then called with `tail`. All that its polls found was given to the handler, but for
the rest of the last window if the handler gave up there. -/
structure Went (i : Incarnation) (tail : List Callback) : Prop where
  calls : ∃ items, (∀ c ∈ items, c.isItem = true) ∧ i.calls = .start :: items ++ tail
  begun : ∃ skipped, i.begun = i.handled ++ skipped ∧ (skipped ≠ [] → tail = [.panic] ∧
    ∃ win, i.batches.getLast? = some win ∧ skipped.length < win.size)

/-- An incarnation that is over: the handler was told of the stop, or gave up. -/
def Ended (i : Incarnation) : Prop := i.Went [.stop] ∨ i.Went [.panic] ∨ i.Went [.stop, .panic]

/-- An incarnation whose thread has got as far as `phase`, or is gone. -/
def At (i : Incarnation) : Option Phase → Prop
  | some .starting => i.calls = [] ∧ i.batches = []
  | some .polling | some .stopping => i.Went []
  | some .finished => i.Went [.stop]
  | some (.gaveUp _) => i.Went [.panic] ∨ i.Went [.stop, .panic]
  | none => i.Ended

def hear (calls : List Callback) (i : Incarnation) : Incarnation :=
  { i with calls := i.calls ++ calls }

def opens (win : Window) (i : Incarnation) : Incarnation :=
  { i with batches := i.batches ++ [win] }

theorem handled_hear (calls : List Callback) (i : Incarnation) :
    (i.hear calls).handled = i.handled ++ calls.filterMap Callback.event? :=
  List.filterMap_append

theorem begun_opens (win : Window) (i : Incarnation) :
    (i.opens win).begun = i.begun ++ win.sequences.map Int64.toInt := by
  simp only [begun, opens, List.flatMap_append, List.flatMap_singleton]

theorem getLast_opens (win : Window) (i : Incarnation) :
    (i.opens win).batches.getLast? = some win := by
  rw [opens, List.getLast?_append]
  rfl

theorem Items.nil : Items [] [] := ⟨nofun, rfl⟩

theorem Items.append {ts us : List ℤ} {calls calls' : List Callback} (h : Items ts calls)
    (h' : Items us calls') : Items (ts ++ us) (calls ++ calls') := by
  refine ⟨fun c hc => ?_, by rw [List.filterMap_append, h.events, h'.events]⟩
  exact (List.mem_append.mp hc).elim (h.items c) (h'.items c)

variable {i : Incarnation}

namespace Went

theorem handled_eq {tail : List Callback} (h : i.Went tail) (ht : tail ≠ [.panic]) :
    i.handled = i.begun := by
  obtain ⟨skipped, hbegun, hskipped⟩ := h.begun
  have hnone : skipped = [] := by_contra fun hne => ht (hskipped hne).1
  rw [hbegun, hnone, List.append_nil]

theorem panic_mem_iff {tail : List Callback} (h : i.Went tail) :
    .panic ∈ i.calls ↔ .panic ∈ tail := by
  obtain ⟨items, hitems, hcalls⟩ := h.calls
  have hnone : .panic ∉ items := fun hpanic => Bool.noConfusion (hitems _ hpanic)
  rw [hcalls]
  simp [hnone]

/-- The handler is told of the start. -/
theorem begins (hc : i.calls = []) (hb : i.batches = []) {tail : List Callback}
    (quiet : tail.filterMap Callback.event? = []) : (i.hear (.start :: tail)).Went tail := by
  refine ⟨⟨[], nofun, ?_⟩, [], ?_, absurd rfl⟩
  · simp only [hear, hc, List.nil_append, List.cons_append]
  · have hbegun : (i.hear (.start :: tail)).begun = [] := by
      rw [Incarnation.begun, hear, hb]
      rfl
    have hhandled : i.handled = [] := by
      rw [handled, hc]
      rfl
    rw [hbegun, handled_hear, hhandled]
    exact (congrArg (· ++ []) quiet).symm

/-- After its last item the handler is called with `tail`. -/
theorem closes (h : i.Went []) {tail : List Callback}
    (quiet : tail.filterMap Callback.event? = []) : (i.hear tail).Went tail := by
  obtain ⟨items, hitems, hcalls⟩ := h.calls
  refine ⟨⟨items, hitems, ?_⟩, [], ?_, absurd rfl⟩
  · rw [hear, hcalls, List.append_nil]
  · rw [handled_hear, quiet, List.append_nil, List.append_nil, h.handled_eq nofun]
    rfl

/-- The handler is given the items of a window. -/
theorem batch (h : i.Went []) {win : Window} {calls : List Callback}
    (given : Items (win.sequences.map Int64.toInt) calls) : ((i.opens win).hear calls).Went [] := by
  obtain ⟨items, hitems, hcalls⟩ := h.calls
  refine ⟨⟨items ++ calls, ?_, ?_⟩, [], ?_, absurd rfl⟩
  · exact fun c hc => (List.mem_append.mp hc).elim (hitems c) (given.items c)
  · simp only [hear, opens, hcalls, List.append_nil, List.cons_append]
  · rw [handled_hear, given.events, List.append_nil]
    change (i.opens win).begun = i.handled ++ _
    rw [begun_opens, h.handled_eq nofun]

/-- The handler gives up in a window. -/
theorem cut (h : i.Went []) {win : Window} {calls : List Callback} {k : ℕ} (pos : 1 ≤ k)
    (le : k ≤ win.size) (given : Items ((win.sequences.map Int64.toInt).take k) calls) :
    ((i.opens win).hear (calls ++ [.panic])).Went [.panic] := by
  obtain ⟨items, hitems, hcalls⟩ := h.calls
  refine ⟨⟨items ++ calls, ?_, ?_⟩, (win.sequences.map Int64.toInt).drop k, ?_,
    fun _ => ⟨rfl, win, ?_, ?_⟩⟩
  · exact fun c hc => (List.mem_append.mp hc).elim (hitems c) (given.items c)
  · simp only [hear, opens, hcalls, List.append_nil, List.cons_append, List.append_assoc]
  · have hpanic : [Callback.panic].filterMap Callback.event? = [] := rfl
    rw [handled_hear, List.filterMap_append, given.events, hpanic, List.append_nil,
      List.append_assoc]
    change (i.opens win).begun = i.handled ++ _
    rw [begun_opens, h.handled_eq nofun, List.take_append_drop]
  · exact getLast_opens win i
  · rw [List.length_drop, List.length_map, win.length_sequences]
    omega

end Went

/-- In whatever phase, what was handled is what the windows hold from the first on. -/
theorem At.prefix {phase : Option Phase} (h : i.At phase) :
    ∃ skipped, i.begun = i.handled ++ skipped := by
  have hwent : ∀ {tail}, i.Went tail → ∃ skipped, i.begun = i.handled ++ skipped := fun hw =>
    hw.begun.imp fun _ => And.left
  match phase, h with
  | some .starting, h => exact ⟨[], by rw [begun, handled, h.1, h.2]; rfl⟩
  | some .polling, h => exact hwent h
  | some .stopping, h => exact hwent h
  | some .finished, h => exact hwent h
  | some (.gaveUp _), h => exact h.elim hwent hwent
  | none, h => exact h.elim hwent fun h => h.elim hwent hwent

/-- Unless a callback gave up, all that the polls found was handled. -/
theorem At.handled_eq {phase : Option Phase} (h : i.At phase) (calm : .panic ∉ i.calls) :
    i.handled = i.begun := by
  have hwent : ∀ {tail}, i.Went tail → i.handled = i.begun := fun hw =>
    hw.handled_eq fun he => calm (hw.panic_mem_iff.mpr (he ▸ List.mem_singleton_self _))
  match phase, h with
  | some .starting, h => rw [begun, handled, h.1, h.2]; rfl
  | some .polling, h => exact hwent h
  | some .stopping, h => exact hwent h
  | some .finished, h => exact hwent h
  | some (.gaveUp _), h => exact h.elim hwent hwent
  | none, h => exact h.elim hwent fun h => h.elim hwent hwent

/-- A thread that gave up is over, and so is its incarnation. -/
theorem At.of_gaveUp {why : Halt} (h : i.At (some (.gaveUp why))) :
    i.Ended ∧ .panic ∈ i.calls := by
  rcases h with h | h
  · exact ⟨Or.inr (Or.inl h), h.panic_mem_iff.mpr (by simp)⟩
  · exact ⟨Or.inr (Or.inr h), h.panic_mem_iff.mpr (by simp)⟩

theorem At.of_finished (h : i.At (some .finished)) : i.Ended ∧ .panic ∉ i.calls :=
  ⟨Or.inl h, fun hpanic => absurd ((Went.panic_mem_iff h).mp hpanic) (by simp)⟩

end Incarnation

/-! ## One incarnation after the other -/

theorem nodup_consecutive (first : ℤ) (count : ℕ) : (consecutive first count).Nodup := by
  refine List.nodup_range.map ?_
  intro j k (hjk : first + j = first + k)
  exact Int.ofNat_inj.mp (by omega)

theorem front_of_consecutive {first : ℤ} {count : ℕ} {front rest : List ℤ}
    (h : consecutive first count = front ++ rest) : front = consecutive first front.length := by
  have hlength : count = front.length + rest.length := by
    have hcount := congrArg List.length h
    simpa [consecutive] using hcount
  have hfront := congrArg (List.take front.length) h
  rw [List.take_left, consecutive, ← List.map_take, List.take_range,
    Nat.min_eq_left (by omega)] at hfront
  exact hfront.symm

/-- Incarnations, the latest first, each of which went on where the one before it
left gating. The last has brought gating to `g`. -/
def Chained : List Incarnation → ℤ → Prop
  | [], g => g = -1
  | i :: older, g => g = i.reached ∧ i.gating ≤ g ∧
    i.begun = consecutive (i.gating + 1) (g - i.gating).toNat ∧ Chained older i.gating

/-- The end of the last window of all incarnations, the latest first. -/
def lastBegun (past : List Incarnation) : ℤ :=
  ((past.reverse.flatMap Incarnation.batches).getLast?.map (·.last.toInt)).getD (-1)

namespace Chained
open Incarnation
variable {past older : List Incarnation} {i : Incarnation} {g : ℤ}

theorem start_le (h : Chained past g) : -1 ≤ g := by
  induction past generalizing g with
  | nil => exact h.ge
  | cons i older ih =>
    obtain ⟨-, hle, -, holder⟩ := h
    exact (ih holder).trans hle

/-- A new incarnation goes on at gating. -/
theorem begins (h : Chained past g) : Chained ({ gating := g } :: past) g :=
  ⟨rfl, le_refl g, by simp [begun, consecutive], h⟩

theorem hear (h : Chained (i :: older) g) (calls : List Callback) :
    Chained (i.hear calls :: older) g := h

/-- The next window moves gating to its end. -/
theorem opens (h : Chained (i :: older) g) {win : Window} (first : win.first.toInt = g + 1)
    (le : win.first.toInt ≤ win.last.toInt) : Chained (i.opens win :: older) win.last.toInt := by
  obtain ⟨-, hle, hbegun, holder⟩ := h
  have hsize := win.size_eq
  refine ⟨?_, hle.trans (by omega), ?_, holder⟩
  · rw [reached, getLast_opens]
    rfl
  · rw [begun_opens, hbegun, win.map_toInt_sequences]
    change _ ++ consecutive win.first.toInt win.size = consecutive (i.gating + 1) _
    rw [show win.first.toInt = i.gating + 1 + (g - i.gating).toNat by omega, consecutive_append]
    change consecutive (i.gating + 1) _ =
      consecutive (i.gating + 1) (win.last.toInt - i.gating).toNat
    congr 1
    omega

theorem begun_eq (h : Chained past g) :
    past.reverse.flatMap begun = consecutive 0 (g + 1).toNat := by
  induction past generalizing g with
  | nil =>
    obtain rfl : g = -1 := h
    rfl
  | cons i older ih =>
    obtain ⟨-, hle, hbegun, holder⟩ := h
    have hstart := holder.start_le
    have hnext : i.gating + 1 = 0 + (i.gating + 1).toNat := by omega
    rw [List.reverse_cons, List.flatMap_append, ih holder, List.flatMap_singleton, hbegun]
    nth_rewrite 2 [hnext]
    rw [consecutive_append]
    congr 1
    omega

theorem eq_lastBegun (h : Chained past g) : g = lastBegun past := by
  induction past generalizing g with
  | nil => exact h
  | cons i older ih =>
    obtain ⟨hreached, -, -, holder⟩ := h
    rw [lastBegun, List.reverse_cons, List.flatMap_append, List.flatMap_singleton,
      List.getLast?_append, hreached, reached]
    cases i.batches.getLast? with
    | some win => rfl
    | none => exact ih holder

/-- Each incarnation went on after the windows of those before it. -/
theorem gating_eq {newer : List Incarnation} (h : Chained (newer ++ i :: older) g) :
    i.gating = lastBegun older := by
  induction newer generalizing g with
  | nil => exact h.2.2.2.eq_lastBegun
  | cons j newer ih => exact ih h.2.2.2

/-- What an incarnation handled is without a gap, from gating at its start on. -/
theorem handled_consecutive (h : Chained past g) (hi : i ∈ past) {phase : Option Phase}
    (hat : i.At phase) : i.handled = consecutive (i.gating + 1) i.handled.length := by
  obtain ⟨newer, older, rfl⟩ := List.append_of_mem hi
  have hbegun : ∃ n, i.begun = consecutive (i.gating + 1) n := by
    clear hi
    induction newer generalizing g with
    | nil => exact ⟨_, h.2.2.1⟩
    | cons j newer ih => exact ih h.2.2.2
  obtain ⟨n, hn⟩ := hbegun
  obtain ⟨skipped, hskipped⟩ := hat.prefix
  exact front_of_consecutive (hn.symm.trans hskipped)

/-- No sequence is handled twice. -/
theorem nodup_handled (h : Chained past g) (hat : ∀ i ∈ past, ∃ phase, i.At phase) :
    (past.reverse.flatMap handled).Nodup := by
  have hsub : (past.reverse.flatMap handled).Sublist (past.reverse.flatMap begun) := by
    refine List.Sublist.flatMap_right _ fun i hi => ?_
    obtain ⟨phase, hphase⟩ := hat i (List.mem_reverse.mp hi)
    obtain ⟨skipped, hskipped⟩ := hphase.prefix
    rw [hskipped]
    exact List.sublist_append_left _ _
  rw [h.begun_eq] at hsub
  exact hsub.nodup (nodup_consecutive _ _)

/-- If no callback gave up, all sequences up to gating were handled. -/
theorem handled_eq (h : Chained past g) (hat : ∀ i ∈ past, ∃ phase, i.At phase)
    (calm : ∀ i ∈ past, .panic ∉ i.calls) :
    past.reverse.flatMap handled = consecutive 0 (g + 1).toNat := by
  rw [← h.begun_eq]
  refine List.flatMap_congr fun i hi => ?_
  have hi' := List.mem_reverse.mp hi
  obtain ⟨phase, hphase⟩ := hat i hi'
  exact hphase.handled_eq (calm i hi')

end Chained

end LapRing
