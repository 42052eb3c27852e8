import LapRing.Proofs.HandledWindows
import LapRing.Proofs.ProducerKinds
import LapRing.Proofs.EventRingArray
import Mathlib.Algebra.Order.Group.Abs
import Mathlib.Algebra.Order.Group.Int

/-!
# What rings remember of their publications

What is published stays published, but a ring of shared producers is asked for it by the flag of
a slot, and the flag tells only the newest publication in its slot. So such a ring takes back
what it said of a sequence when the next one in the same slot is published. A sole producer's
ring does not, as it tells by the cursor.
-/
namespace LapRing.Sequencer
variable {cap : Capacity}

/-- The published sequences that no later one has followed in its slot. -/
def newest (cap : Capacity) (published : Set ℤ) : Set ℤ :=
  {t ∈ published | t + cap.slots ∉ published}

namespace Standing
variable {s : Sequencer cap} {published : Set ℤ}

theorem newest_near (h : s.Standing published) {t : ℤ} (ht : t ∈ newest cap published) :
    s.gating.toInt - cap.slots < t ∧ t ≤ s.gating.toInt + cap.slots := by
  have hfree := h.lt_of_not_mem ht.2
  have hnear := h.near t ht.1
  constructor <;> omega

/-- A slot has one newest sequence. -/
theorem newest_unique (h : s.Standing published) {t u : ℤ} (ht : t ∈ newest cap published)
    (hu : u ∈ newest cap published) (hslot : t % cap.slots = u % cap.slots) : t = u := by
  have hslots := cap.one_le_slots
  obtain ⟨htlo, hthi⟩ := h.newest_near ht
  obtain ⟨hulo, huhi⟩ := h.newest_near hu
  -- They are less than two laps apart, and one lap apart the earlier is none of the newest.
  have hnext : ∀ {t u : ℤ}, t ∈ newest cap published → u ∈ newest cap published →
      t % cap.slots = u % cap.slots → u - t < 2 * cap.slots → u - t < cap.slots := by
    intro t u ht hu hslot hlt
    by_contra hle
    have hsame : t + cap.slots = u := by
      apply cap.eq_of_emod_eq
      · rw [Int.add_emod_right, hslot]
      · omega
      · omega
    exact ht.2 (hsame ▸ hu.1)
  exact cap.eq_of_emod_eq hslot (hnext hu ht hslot.symm (by omega)) (hnext ht hu hslot (by omega))

section Shared
variable (h : s.Standing published) {cached : Int64} {flags : LapFlags cap}
  (hs : s.claims = .shared cached flags)
include h hs

/-- The flag of a slot has the lap of its newest sequence. -/
theorem exists_newest (x : ℤ) : ∃ t ∈ newest cap published, t % cap.slots = x % cap.slots ∧
    flags.laps.peek x = cap.lap (.ofInt t) := by
  have hslots := cap.one_le_slots
  have hr := h.records
  simp only [Records, hs] at hr
  -- the sequence of the slot in the lap after gating
  set u := s.gating.toInt + 1 + (x - s.gating.toInt - 1) % cap.slots with hu
  have hlo := Int.emod_nonneg (x - s.gating.toInt - 1) (b := cap.slots) (by omega)
  have hhi := Int.emod_lt_of_pos (x - s.gating.toInt - 1) (b := cap.slots) (by omega)
  have hslot : u % cap.slots = x % cap.slots := by
    rw [hu, Int.add_emod_emod]
    congr 1
    omega
  obtain ⟨hshown, hbefore⟩ := hr u (by omega) (by omega)
  rw [← flags.laps.peek_congr hslot]
  by_cases hmem : u ∈ published
  · refine ⟨u, ⟨hmem, fun hnext => ?_⟩, hslot, hshown hmem⟩
    have := h.near _ hnext
    omega
  · refine ⟨u - cap.slots, ⟨h.released _ (by omega), ?_⟩, ?_, hbefore hmem⟩
    · rwa [Int.sub_add_cancel]
    · rw [Int.sub_emod_right, hslot]

theorem isAvailable_iff_newest (x : Int64) : flags.isAvailable x = true ↔
    ∃ t ∈ newest cap published, (cap.slots * 2 ^ 32 : ℤ) ∣ x.toInt - t := by
  have hslots := cap.one_le_slots
  have hle := cap.slots_le_int
  have hstart := h.start_le
  have hgating := h.gating_le
  have hroom := h.room
  have hword : ∀ t ∈ newest cap published, (Int64.ofInt t).toInt = t := by
    intro t ht
    obtain ⟨hlo, hhi⟩ := h.newest_near ht
    exact Int64.toInt_ofInt_of_le (by omega) (by omega)
  have hplace : ∀ t ∈ newest cap published,
      ((cap.slots * 2 ^ 32 : ℤ) ∣ x.toInt - t ↔
        t % cap.slots = x.toInt % cap.slots ∧ cap.lap (.ofInt t) = cap.lap x) := by
    intro t ht
    have h := cap.place_eq_iff (.ofInt t) x
    rw [cap.slot_eq_iff, hword t ht] at h
    rw [h, eq_comm, Int.emod_eq_emod_iff_emod_sub_eq_zero, Int.dvd_iff_emod_eq_zero]
    rfl
  obtain ⟨t, ht, hslot, hlap⟩ := h.exists_newest hs x.toInt
  rw [LapFlags.isAvailable, ← flags.laps.peek_toInt, hlap, decide_eq_true_iff]
  constructor
  · intro hsame
    exact ⟨t, ht, (hplace t ht).mpr ⟨hslot, hsame⟩⟩
  · rintro ⟨u, hu, hdvd⟩
    obtain ⟨huslot, hulap⟩ := (hplace u hu).mp hdvd
    rw [h.newest_unique ht hu (hslot.trans huslot.symm), hulap]

end Shared

theorem isPublished_single (h : s.Standing published) (hsingle : s.producer = .single)
    (x : Int64) : s.isPublished x = true ↔ x.toInt ∈ published := by
  have hmem := h.mem_iff_of_single hsingle (t := x.toInt)
  obtain ⟨cursor, gating, ⟨_, _⟩ | ⟨_, _⟩, tally⟩ := s
  · rw [hmem, ← Int64.le_iff_toInt_le]
    exact decide_eq_true_iff
  · contradiction

theorem isPublished_shared (h : s.Standing published) (hshared : s.producer = .multi)
    (x : Int64) : s.isPublished x = true ↔
      ∃ t ∈ newest cap published, (cap.slots * 2 ^ 32 : ℤ) ∣ x.toInt - t := by
  obtain ⟨cursor, gating, ⟨_, _⟩ | ⟨cached, flags⟩, tally⟩ := s
  · contradiction
  · exact h.isAvailable_iff_newest rfl x

/-- Closer to gating than the flags can confuse, they tell the newest sequences. -/
theorem isPublished_near (h : s.Standing published) (hshared : s.producer = .multi) {x : Int64}
    (hnear : |x.toInt - s.gating.toInt| < cap.slots * (2 ^ 32 - 1)) :
    s.isPublished x = true ↔ x.toInt ∈ newest cap published := by
  rw [h.isPublished_shared hshared]
  constructor
  · rintro ⟨t, ht, hdvd⟩
    have hbounds := h.newest_near ht
    have habs := abs_lt.mp hnear
    have hzero := Int.eq_zero_of_abs_lt_dvd hdvd (abs_lt.mpr ⟨by omega, by omega⟩)
    rwa [show x.toInt = t by omega]
  · intro hx
    exact ⟨x.toInt, hx, by simp⟩

/-- Either kind tells what is published of the sequences that are not released. -/
theorem isPublished_ahead (h : s.Standing published) {x : Int64}
    (hahead : s.gating.toInt < x.toInt)
    (hnear : x.toInt - s.gating.toInt < cap.slots * (2 ^ 32 - 1)) :
    s.isPublished x = true ↔ x.toInt ∈ published := by
  rcases s.shared_or_single with hshared | hsingle
  · rw [h.isPublished_near hshared (abs_lt.mpr ⟨by omega, hnear⟩)]
    constructor
    · exact And.left
    · intro hmem
      refine ⟨hmem, fun hnext => ?_⟩
      have := h.near _ hnext
      omega
  · exact h.isPublished_single hsingle x

end Standing

/-- If all up to a position are published, the newest ones are those of the last lap. -/
theorem mem_newest_le {c t : ℤ} : t ∈ newest cap {t | t ≤ c} ↔ c - cap.slots < t ∧ t ≤ c := by
  change t ≤ c ∧ ¬ t + cap.slots ≤ c ↔ _
  omega

end LapRing.Sequencer

namespace LapRing.HandlerPolls
variable {cap : Capacity} {P Q σ : Type} [DecidableEq P] [DecidableEq Q]
  {m m' : HandlerPolls cap P Q σ} {producer consumer : Multiplicity} {metrics : Bool}

/-- An access takes nothing back that is published, and the kind of producers stays. -/
theorem published_step (h : m.toRingParties.Sound) {who : Option Q} (hstep : Step who m m') :
    m.published ⊆ m'.published ∧ m'.sequencer.producer = m.sequencer.producer := by
  cases hstep with
  | produce hproducers =>
    exact ⟨h.producers.published_step hproducers, h.producers.producer_step hproducers⟩
  | write _ _ => exact ⟨fun _ ht => ht, rfl⟩
  | search hsearch =>
    cases hsearch with
    | scan | scanIdle | settle | lose => exact ⟨fun _ ht => ht, rfl⟩
  | handle _ _ _ => exact ⟨fun _ ht => ht, rfl⟩
  | reject _ => exact ⟨fun _ ht => ht, rfl⟩
  | release hq hs =>
    obtain ⟨-, rfl, rfl⟩ := h.release_spec hq hs
    exact ⟨fun _ ht => ht, rfl⟩

theorem published_run (h : m.Sound metrics) (hrun : m.Run m') :
    m.published ⊆ m'.published ∧ m'.sequencer.producer = m.sequencer.producer := by
  induction hrun with
  | refl => exact ⟨fun _ ht => ht, rfl⟩
  | tail hrun hstep ih =>
    obtain ⟨who, hstep⟩ := hstep
    obtain ⟨hread, hkind⟩ := published_step (h.run hrun).parties hstep
    exact ⟨ih.1.trans hread, hkind.trans ih.2⟩

theorem Reachable.producer_eq (h : m.Reachable producer consumer metrics) :
    m.sequencer.producer = producer := by
  obtain ⟨slots, hrun⟩ := h
  rw [(published_run (sound_new slots) hrun).2]
  cases producer <;> rfl

end LapRing.HandlerPolls

namespace LapRing.EventRing
open Sequencer
variable {cap : Capacity} {ε A L : Type} {r : EventRing cap ε} {published : Set ℤ}
  {kind : Multiplicity}

/-- What a ring says when it is asked for sequences, of which these are published. -/
structure Tells (kind : Multiplicity) (published : Set ℤ) (r : EventRing cap ε) : Prop where
  sole : kind = .single → ∀ s, r.isPublished s = true ↔ s.toInt ∈ published
  /-- Shared producers' flags tell the newest sequences, and what is `2 ^ 32` laps from them. -/
  shared : kind = .multi → ∀ s, r.isPublished s = true ↔
    ∃ t ∈ newest cap published, (cap.slots * 2 ^ 32 : ℤ) ∣ s.toInt - t
  near : kind = .multi → ∀ s,
    |s.toInt - r.sequencer.gating.toInt| < cap.slots * (2 ^ 32 - 1) →
      (r.isPublished s = true ↔ s.toInt ∈ published ∧ s.toInt + cap.slots ∉ published)
  ahead : ∀ s, r.sequencer.gating.toInt < s.toInt →
    s.toInt - r.sequencer.gating.toInt < cap.slots * (2 ^ 32 - 1) →
      (r.isPublished s = true ↔ s.toInt ∈ published)

theorem tells_of_standing (h : r.sequencer.Standing published)
    (hkind : r.sequencer.producer = kind) : r.Tells kind published where
  sole hsole := h.isPublished_single (hkind.trans hsole)
  shared hshared := h.isPublished_shared (hkind.trans hshared)
  near hshared _ := h.isPublished_near (hkind.trans hshared)
  ahead _ := h.isPublished_ahead

/-- A new ring with producers of this kind, after calls that are made one after the other. -/
def after (kind : Multiplicity) (settings : Settings) (cells : Vector ε cap.slots)
    (calls : List (EventCall ε A L)) (l : L) : EventRing cap ε :=
  (Act.outcomes (calls.map (serve []))
    (Ring.new { settings with producer := kind } ⟨cells⟩, l)).2.1

/-- After calls that found room all is published up to the cursor, and it is the same one for
either kind. -/
theorem told_after (settings : Settings) (cells : Vector ε cap.slots)
    (calls : List (EventCall ε A L)) {l : L}
    (legal : EventArray.Legal calls (({ events := cells } : EventArray cap ε), l)) :
    ∃ cursor : ℤ, ∀ kind, (after kind settings cells calls l).sequencer.cursor.toInt = cursor ∧
      (after kind settings cells calls l).Tells kind {t | t ≤ cursor} := by
  refine ⟨(Act.outcomes (calls.map EventArray.serve)
    (({ events := cells } : EventArray cap ε), l)).2.1.cursor, fun kind => ?_⟩
  have hkind := producer_outcomes calls
    (Ring.new { settings with producer := kind } ⟨cells⟩, l)
  obtain ⟨endings, r, a, l', hring, harray, h⟩ :=
    outcomes_agree [] calls (mirrors_new { settings with producer := kind } cells) legal
  rw [hring] at hkind
  simp only [after, hring, harray]
  refine ⟨h.cursor, ?_⟩
  rw [← h.cursor]
  apply tells_of_standing h.settled.standing
  rw [hkind]
  cases kind <;> rfl

/-- Rings of the two kinds that have published up to the same cursor agree on a sequence exactly
if it is not a lap behind the cursor. -/
theorem agree_iff {r₁ r₂ : EventRing cap ε} {c : ℤ} (h₁ : r₁.Tells .single {t | t ≤ c})
    (h₂ : r₂.Tells .multi {t | t ≤ c}) {s : Int64}
    (hnear : |s.toInt - c| < cap.slots * (2 ^ 32 - 1)) :
    r₁.isPublished s = r₂.isPublished s ↔ c - cap.slots < s.toInt := by
  have hslots := cap.one_le_slots
  have hsole : r₁.isPublished s = true ↔ s.toInt ≤ c := h₁.sole rfl s
  have hshared : r₂.isPublished s = true ↔ c - cap.slots < s.toInt ∧ s.toInt ≤ c := by
    rw [h₂.shared rfl s]
    constructor
    · rintro ⟨t, ht, hdvd⟩
      obtain ⟨hlo, hhi⟩ := mem_newest_le.mp ht
      have habs := abs_lt.mp hnear
      have hzero := Int.eq_zero_of_abs_lt_dvd hdvd (abs_lt.mpr ⟨by omega, by omega⟩)
      omega
    · intro hin
      exact ⟨s.toInt, mem_newest_le.mpr hin, by simp⟩
  rw [Bool.eq_iff_iff, hsole, hshared]
  omega

/-- What was published stays published, whatever producers and consumers do. A sole producer's
ring tells it for good, and so does a ring of shared producers for each sequence until the next
one in its slot is published; from then on it says the contrary, unless flags of 32 bits confuse
the two. So after the same calls rings of the two kinds contradict each other on what is a lap
behind the cursor. -/
theorem told_until_overwritten :
    (∀ {P Q ε : Type} [DecidableEq P] [DecidableEq Q] {producer consumer : Multiplicity}
        {metrics : Bool} {m m' : HandlerPolls cap P Q ε},
      m.Reachable producer consumer metrics → m.Run m' → m.published ⊆ m'.published ∧
        ∀ r : EventRing cap ε, m'.Around r → r.Tells producer m'.published) ∧
    ∀ {ε A L : Type} (settings : Settings) (cells : Vector ε cap.slots)
        (calls : List (EventCall ε A L)) (l : L),
      EventArray.Legal calls (({ events := cells } : EventArray cap ε), l) →
      ∃ cursor : ℤ,
        (∀ kind, (after kind settings cells calls l).sequencer.cursor.toInt = cursor ∧
          (after kind settings cells calls l).Tells kind {t | t ≤ cursor}) ∧
        ∀ s : Int64, |s.toInt - cursor| < cap.slots * (2 ^ 32 - 1) →
          ((after .single settings cells calls l).isPublished s =
              (after .multi settings cells calls l).isPublished s ↔
            cursor - cap.slots < s.toInt) := by
  constructor
  · intro P Q ε _ _ producer consumer metrics m m' h hrun
    have hread := HandlerPolls.published_run h.sound hrun
    refine ⟨hread.1, fun r around => ?_⟩
    apply tells_of_standing
    · rw [around.sequencer]
      exact (h.sound.run hrun).parties.producers.standing
    · rw [around.sequencer, hread.2, h.producer_eq]
  · intro ε A L settings cells calls l legal
    obtain ⟨cursor, htold⟩ := told_after settings cells calls legal
    exact ⟨cursor, htold, fun s => agree_iff (htold .single).2 (htold .multi).2⟩

/-- Calls that publish in the first of two slots again. -/
def lapping : List (EventCall ℕ Unit Unit) :=
  [.publish fun _ => pure (), .publish fun _ => pure (),
    .poll "a" 1 { onEvent _ _ := pure (.ok ()), onError _ _ _ := pure () },
    .publish fun _ => pure ()]

/-- After the third publication the kinds differ on the first sequence. Where shared producers
have published both slots once, their ring tells the second one and so not the one after it. -/
theorem told_until_overwritten_lapped :
    EventArray.Legal lapping (({ events := #v[0, 0] } : EventArray .two ℕ), ()) ∧
      (after .single {} #v[0, 0] lapping () : EventRing .two ℕ).isPublished 0 ≠
        (after .multi {} #v[0, 0] lapping () : EventRing .two ℕ).isPublished 0 ∧
      ∃ m : HandlerPolls .two ℕ ℕ ℕ, m.Reachable .multi .multi true ∧
        (1 : ℤ) ∈ m.published ∧ (3 : ℤ) ∉ m.published := by
  have hlegal : EventArray.Legal lapping (({ events := #v[0, 0] } : EventArray .two ℕ), ()) := by
    decide +kernel
  refine ⟨hlegal, ?_, ?_⟩
  · obtain ⟨cursor, htold, hagree⟩ :=
      (@told_until_overwritten .two).2 {} #v[0, 0] lapping () hlegal
    have hcursor : (after .multi {} #v[0, 0] lapping () : EventRing .two ℕ).sequencer.cursor.toInt
        = 2 := by decide +kernel
    obtain rfl : cursor = 2 := (htold .multi).1.symm.trans hcursor
    have hnear : |(0 : Int64).toInt - 2| < (Capacity.two.slots : ℤ) * (2 ^ 32 - 1) := by decide
    have hbehind : ¬ 2 - (Capacity.two.slots : ℤ) < (0 : Int64).toInt := by decide
    exact fun hsame => hbehind ((hagree 0 hnear).mp hsame)
  · obtain ⟨stages, holder, h⟩ := HandlerPolls.reachable_two (⟨#v[7, 8]⟩ : Slots .two ℕ)
    set r : EventRing .two ℕ := { Ring.new {} ⟨#v[7, 8]⟩ with
      sequencer := ⟨1, -1, .shared (-1) (.markRange (.new .two) 0 1), some { itemsPublished := 2 }⟩
      poller := .competing (-1) }
    have htells := (told_until_overwritten.1 h .refl).2 r ⟨rfl, rfl, rfl⟩
    have hshown : r.isPublished 1 = true := by decide +kernel
    have hnear : |(1 : Int64).toInt - r.sequencer.gating.toInt| <
        (Capacity.two.slots : ℤ) * (2 ^ 32 - 1) := by decide +kernel
    exact ⟨_, h, (htells.near rfl 1 hnear).mp hshown⟩

/-- A ring of shared producers tells the first publication, denies it after the third, and a
sole producer's ring still tells it. A fresh one tells a sequence that nobody has published. -/
theorem publication_forgotten :
    let ring (kind : Multiplicity) (calls : List (EventCall ℕ Unit Unit)) : EventRing .two ℕ :=
      after kind { capacity := 2 } #v[0, 0] calls ()
    (ring .multi (lapping.take 1)).isPublished 0 = true ∧
      (ring .multi (lapping.take 3)).isPublished 0 = true ∧
      (ring .multi lapping).isPublished 0 = false ∧
      (ring .single lapping).isPublished 0 = true ∧
      (ring .multi []).isPublished 8589934590 = true := by
  decide +kernel

end LapRing.EventRing
