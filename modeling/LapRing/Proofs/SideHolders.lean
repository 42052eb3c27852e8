import LapRing.Ring
import LapRing.Proofs.RunningActions

/-!
# Sides and their holders

A side for one keeps a single flag, and is told when a handle comes and when one
goes. The flag says whether there is a holder as long as every handle that goes is
reported once and every handle that comes was admitted.
-/
namespace LapRing

/-- On a side for one there is at most one holder, and the side is taken exactly
while there is one. -/
def Side.Tracks {α : Type} (side : Side) (holds : α → Prop) : Prop :=
  side.multiplicity = .single →
    (∀ a b, holds a → holds b → a = b) ∧ (side.taken = true ↔ ∃ a, holds a)

namespace Side
variable {α : Type} {side : Side} {holds holds' : α → Prop} {a : α}

theorem acquire_multi (h : side.multiplicity = .multi) : side.acquire = (true, side) := by
  simp only [acquire, h]

theorem acquire_single (h : side.multiplicity = .single) :
    side.acquire = (!side.taken, { side with taken := true }) := by
  cases htaken : side.taken <;> simp [acquire, h, Cell.compareAndSet, htaken]

theorem release_multi (h : side.multiplicity = .multi) : side.release = side := by
  simp only [release, h]

theorem release_single (h : side.multiplicity = .single) :
    side.release = { side with taken := false } := by
  simp only [release, h]

@[simp] theorem multiplicity_acquire (side : Side) :
    side.acquire.2.multiplicity = side.multiplicity := by
  cases h : side.multiplicity with
  | multi => rw [acquire_multi h, h]
  | single => rw [acquire_single h, ← h]

@[simp] theorem multiplicity_release (side : Side) :
    side.release.multiplicity = side.multiplicity := by
  cases h : side.multiplicity with
  | multi => rw [release_multi h, h]
  | single => rw [release_single h, ← h]

namespace Tracks

theorem admits_iff (h : side.Tracks holds) :
    side.acquire.1 = true ↔ side.multiplicity = .multi ∨ ∀ a, ¬ holds a := by
  cases hkind : side.multiplicity with
  | multi => simp [acquire_multi hkind]
  | single =>
    obtain ⟨-, htaken⟩ := h hkind
    rw [acquire_single hkind, Bool.not_eq_true', Bool.eq_false_iff, ne_eq, htaken, not_exists]
    simp

theorem acquire (h : side.Tracks holds) (admitted : side.acquire.1 = true) (comes : holds' a)
    (others : ∀ b ≠ a, holds' b ↔ holds b) : side.acquire.2.Tracks holds' := by
  intro hkind
  rw [multiplicity_acquire] at hkind
  have hnone : ∀ b, ¬ holds b := by
    refine (h.admits_iff.mp admitted).resolve_left fun hm => ?_
    rw [hkind] at hm
    exact Multiplicity.noConfusion hm
  have hsole : ∀ b, holds' b → b = a := fun b hb =>
    by_contra fun hne => hnone b ((others b hne).mp hb)
  rw [acquire_single hkind]
  exact ⟨fun b c hb hc => (hsole b hb).trans (hsole c hc).symm, iff_of_true rfl ⟨a, comes⟩⟩

theorem release (h : side.Tracks holds) (held : holds a) (goes : ¬ holds' a)
    (others : ∀ b ≠ a, holds' b ↔ holds b) : side.release.Tracks holds' := by
  intro hkind
  rw [multiplicity_release] at hkind
  obtain ⟨hunique, -⟩ := h hkind
  have hnone : ∀ b, ¬ holds' b := by
    intro b hb
    have hne : b ≠ a := fun he => goes (he ▸ hb)
    exact hne (hunique b a ((others b hne).mp hb) held)
  rw [release_single hkind]
  refine ⟨fun b _ hb => absurd hb (hnone b), ?_⟩
  simpa using hnone

/-- A holder who lets go and asks again is admitted, and all is as before. -/
theorem acquire_release (h : side.Tracks holds) (held : holds a) :
    side.release.acquire = (true, side) := by
  cases hkind : side.multiplicity with
  | multi => rw [release_multi hkind, acquire_multi hkind]
  | single =>
    obtain ⟨-, htaken⟩ := h hkind
    have hheld : side.taken = true := htaken.mpr ⟨a, held⟩
    rw [acquire_single (by rw [multiplicity_release, hkind]), release_single hkind]
    simp only [Bool.not_false, ← hheld]

end Tracks

/-- What becomes of a side when one party, which `had` a handle or not, then `has` one
or not. -/
inductive Moves (side : Side) (had has : Prop) : Side → Prop
  | still : (has ↔ had) → Moves side had has side
  | enters : side.acquire.1 = true → has → Moves side had has side.acquire.2
  | leaves : had → ¬ has → Moves side had has side.release

theorem Tracks.moves (h : side.Tracks holds) {side' : Side}
    (moves : side.Moves (holds a) (holds' a) side') (others : ∀ b ≠ a, holds' b ↔ holds b) :
    side'.Tracks holds' := by
  cases moves with
  | still same =>
    have heq : holds' = holds := by
      funext b
      by_cases hb : b = a
      · rw [hb, propext same]
      · exact propext (others b hb)
    rwa [heq]
  | enters admitted comes => exact h.acquire admitted comes others
  | leaves held goes => exact h.release held goes others

theorem Moves.multiplicity {had has : Prop} {side' : Side} (h : side.Moves had has side') :
    side'.multiplicity = side.multiplicity := by
  cases h with
  | still _ => rfl
  | enters _ _ => exact multiplicity_acquire side
  | leaves _ _ => exact multiplicity_release side

end Side

namespace Ring
variable {cap : Capacity} {σ : Type}

theorem acquireProducer_eq (r : Ring cap σ) :
    acquireProducer r =
      if r.producers.acquire.1 then .ok (.ok ()) { r with producers := r.producers.acquire.2 }
      else .ok (.error .producerTaken) r := by
  rw [acquireProducer, Act.get_bind]
  cases hadmitted : r.producers.acquire.1 <;> simp [hadmitted]

theorem acquireConsumer_eq (r : Ring cap σ) :
    acquireConsumer r =
      if r.consumers.acquire.1 then .ok (.ok ()) { r with consumers := r.consumers.acquire.2 }
      else .ok (.error .consumerTaken) r := by
  rw [acquireConsumer, Act.get_bind]
  cases hadmitted : r.consumers.acquire.1 <;> simp [hadmitted]

end Ring

end LapRing
