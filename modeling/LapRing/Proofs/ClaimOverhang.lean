import LapRing.Channel.Basic
import LapRing.Proofs.ProducerProgress

/-!
# Claims that overhang the ring

A sole producer moves the cursor when it publishes, and what it publishes lies
within a lap of gating. Shared producers move the cursor when they draw a number,
before they wait for room. So the cursor is more than a lap ahead of gating as
long as one of their claims waits for gating to reach its wrap point, and only
that long.
-/
namespace LapRing

namespace Sequencer
variable {cap : Capacity} {s : Sequencer cap}

/-- A sole producer's cursor is a published sequence. -/
theorem Standing.cursor_near {published : Set ℤ} (h : s.Standing published)
    (hsole : s.producer = .single) : s.cursor.toInt ≤ s.gating.toInt + cap.slots :=
  h.near _ ((h.mem_iff_of_single hsole).mpr (le_refl _))

end Sequencer

namespace Producers
variable {cap : Capacity} {P : Type} {c : Producers cap P}

/-- A producer waits inside a claim whose wrap point is not released yet. -/
def Overhangs (c : Producers cap P) : Prop :=
  ∃ p b, c.Waits p b ∧ c.sequencer.gating < b.ticket.wrapPoint

namespace Sound

/-- The sequences of a claim by shared producers are claimed before it waits. -/
theorem end_le_claimed (h : c.Sound) (hshared : c.sequencer.producer = .multi) {p : P}
    {b : OpenClaim}
    (hb : c.Waits p b) : b.last.toInt + b.size.toInt ≤ c.sequencer.claimed.toInt := by
  have hclaim := h.openClaim hb
  have hsize := hclaim.size
  have hpending := hclaim.shared hshared hb.2 (b.last.toInt + b.size.toInt) (by omega) (le_refl _)
  exact h.le_claimed (by simp [hpending])

/-- The last sequence claimed is more than a lap ahead only if it is pending. -/
theorem overhangs_of_claimed (h : c.Sound) (ha : c.Accounted)
    (far : c.sequencer.gating.toInt + cap.slots < c.sequencer.claimed.toInt) : c.Overhangs := by
  cases hlast : c.holder c.sequencer.claimed.toInt with
  | unclaimed => exact absurd ((h.unclaimed _).mp hlast) (lt_irrefl _)
  | published =>
    have := h.standing.near _ hlast
    omega
  | owned p =>
    have := h.near _ p hlast
    omega
  | pending p =>
    obtain ⟨b, hb, -, hend⟩ := ha.pending _ p hlast
    have hwrap := wrapPoint_eq (h.openClaim hb)
    exact ⟨p, b, hb, by rw [Int64.lt_iff_toInt_lt]; omega⟩

/-- The cursor is more than a lap ahead of gating exactly while a claim of shared
producers waits for its wrap point. -/
theorem cursor_ahead_iff (h : c.Sound) (ha : c.Accounted) :
    (cap.slots : ℤ) < c.sequencer.cursor.toInt - c.sequencer.gating.toInt ↔
      c.sequencer.producer = .multi ∧ c.Overhangs := by
  constructor
  · intro hfar
    rcases c.sequencer.shared_or_single with hshared | hsole
    · rw [Sequencer.cursor_of_shared hshared] at hfar
      exact ⟨hshared, h.overhangs_of_claimed ha (by omega)⟩
    · have := h.standing.cursor_near hsole
      omega
  · rintro ⟨hshared, p, b, hb, hwrap⟩
    have hend := h.end_le_claimed hshared hb
    rw [Int64.lt_iff_toInt_lt, wrapPoint_eq (h.openClaim hb)] at hwrap
    rw [Sequencer.cursor_of_shared hshared]
    omega

end Sound

end Producers

/-- The length of a channel is the distance between its two positions. -/
theorem Channel.length_of_positions {cap : Capacity} {W α : Type} (ch : Channel cap α) {n : ℕ}
    (hn : ch.ring.sequencer.cursor.toInt - ch.ring.sequencer.gating.toInt = n) (word : n < 2 ^ 63)
    (w : W) : ch.length w = .ok (.ofNat n) w := by
  rw [Channel.length, Ring.length, Checked.sub_exact (by omega) (by omega), pure_bind,
    Act.pure_apply, Checked.toUInt64_max_zero]
  rw [Checked.toInt_sub (by omega) (by omega), hn]

namespace RingParties
variable {cap : Capacity} {P Q : Type} {c : RingParties cap P Q} [DecidableEq P] [DecidableEq Q]
  {producer consumer : Multiplicity} {metrics : Bool}

/-- In every reachable state the length of the channel is the distance of the cursor
from gating. It is above the capacity exactly while a claim of shared producers waits
for its wrap point, and with a sole producer it never is. -/
theorem length_above_iff (h : c.Reachable producer consumer metrics) {W α : Type}
    (ch : Channel cap α) (hch : ch.ring.sequencer = c.sequencer) (w : W) :
    ∃ n : UInt64, ch.length w = .ok n w ∧
      (n.toNat : ℤ) = c.sequencer.cursor.toInt - c.sequencer.gating.toInt ∧
      (cap.slots < n.toNat ↔ c.sequencer.producer = .multi ∧ c.toProducers.Overhangs) := by
  have hproducers := h.sound.producers
  have hlo := hproducers.standing.le_cursor hproducers.standing.gating_mem
  have hstart := hproducers.standing.start_le
  have hcursor := hproducers.standing.cursor_le
  have hroom := hproducers.standing.room
  have hslots := cap.one_le_slots
  obtain ⟨n, hn⟩ := Int.eq_ofNat_of_zero_le (Int.sub_nonneg.mpr hlo)
  have hword : (UInt64.ofNat n).toNat = n := UInt64.toNat_ofNat_of_lt (show n < 2 ^ 64 by omega)
  refine ⟨.ofNat n, ch.length_of_positions (hch ▸ hn) (by omega) w, by rw [hword, hn], ?_⟩
  rw [← hproducers.cursor_ahead_iff h.accounted, hword, hn]
  exact Int.ofNat_lt.symm

/-- A second producer waits while a ring of two is full and nothing is read. -/
theorem reachable_overhang :
    ∃ c : RingParties .two ℕ ℕ, c.Reachable .multi .multi false ∧
      c.sequencer = ⟨2, -1, .shared (-1) (.new .two), none⟩ ∧
      c.stages 1 = .waiting ⟨true, 1, 1, 2, 0⟩ := by
  have htwo : Capacity.two.checkClaim 2 = .ok 2 := rfl
  have hone : Capacity.two.checkClaim 1 = .ok 1 := rfl
  have h₀ : Reachable .multi .multi false
      (new .two .multi .multi false : RingParties .two ℕ ℕ) := .refl
  have h₁ := h₀.tail (.produce (.claim (p := 0) (.draw (t := ⟨1, -1⟩) ⟨rfl, nofun⟩ htwo rfl
    (Producers.lasts_of_few _ (by decide)))))
  have h₂ := h₁.tail (.produce (.claim (p := 0) (.trust rfl (by decide))))
  have h₃ := h₂.tail (.produce (.claim (p := 0) (.redeem rfl rfl rfl)))
  have h₄ := h₃.tail (.produce (.claim (p := 1) (.draw (t := ⟨2, 0⟩) ⟨rfl, nofun⟩ hone rfl
    (Producers.lasts_of_few _ (by decide)))))
  have h₅ := h₄.tail (.produce (.claim (p := 1) (.doubt rfl (by decide))))
  exact ⟨_, h₅, rfl, rfl⟩

/-- The length of that ring is three, so a claim waits. -/
theorem length_above_iff_overhang :
    ∃ c : RingParties .two ℕ ℕ, c.Reachable .multi .multi false ∧
      ∃ ch : Channel .two ℕ, ch.ring.sequencer = c.sequencer ∧ c.toProducers.Overhangs := by
  obtain ⟨c, h, hs, -⟩ := reachable_overhang
  let empty : Channel .two ℕ := .new .two (Channel.settings 2 .multi .multi)
  let ch := { empty with ring := { empty.ring with sequencer := c.sequencer } }
  obtain ⟨n, hlength, -, habove⟩ := length_above_iff h ch rfl ()
  refine ⟨c, h, ch, rfl, (habove.mp ?_).2⟩
  have hthree : ch.length () = .ok 3 () := by
    simp only [ch, hs]
    rfl
  obtain ⟨rfl, -⟩ : (3 : UInt64) = n ∧ () = () := by simpa [hthree] using hlength
  decide

/-- The cursor is then three ahead of gating, one more than there are slots. -/
theorem cursor_above_two :
    ∃ c : RingParties .two ℕ ℕ, c.Reachable .multi .multi false ∧
      ¬ c.sequencer.cursor.toInt - c.sequencer.gating.toInt ≤ Capacity.two.slots ∧
      ∃ ch : Channel .two ℕ, ch.ring.sequencer = c.sequencer ∧ ch.length () = .ok 3 () := by
  obtain ⟨c, h, hs, -⟩ := reachable_overhang
  let empty : Channel .two ℕ := .new .two (Channel.settings 2 .multi .multi)
  refine ⟨c, h, by rw [hs]; decide,
    { empty with ring := { empty.ring with sequencer := c.sequencer } }, rfl, ?_⟩
  simp only [hs]
  rfl

end RingParties

end LapRing
