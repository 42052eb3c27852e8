import LapRing.Proofs.Faultless
import Mathlib.Data.Int.Interval
import Mathlib.Data.Set.Card

/-!
# The counts of a ring account for every sequence

A new ring has published and consumed one item more than its positions say, since these
begin one before the first sequence, and it agrees with the ledger of its users in all
else. Careful actions let the counts drift nowhere, so it stays like that. A ring that
keeps no counts goes the same way without them.

Parties that act at one time publish in any order. Then the counts agree with the
sequences that are published, and with the cursor as soon as nobody holds any.
-/
namespace LapRing

namespace Checked

theorem toUInt64_of_toInt {s : Int64} {n : ℕ} (h : s.toInt = n) : s.toUInt64 = UInt64.ofNat n := by
  have hword := s.toInt_lt
  have hs : s = Int64.ofNat n := by
    rw [← Int64.toInt_inj, h, Int64.toInt_ofNat_of_lt (by omega)]
  rw [hs, Int64.toUInt64_ofNat']

theorem toNat_succ {s : Int64} (lo : -1 ≤ s.toInt) (hi : s.toInt + 1 < 2 ^ 63) :
    ((s.toUInt64 + 1).toNat : ℤ) = s.toInt + 1 := by
  obtain ⟨n, hn⟩ := Int.eq_ofNat_of_zero_le (show 0 ≤ s.toInt + 1 by omega)
  have hword : s.toUInt64 + 1 = UInt64.ofNat n := by
    rw [← toUInt64_of_toInt ((toInt_succ hi).trans hn), Int64.toUInt64_add]
    rfl
  have hnat : (UInt64.ofNat n).toNat = n := UInt64.toNat_ofNat_of_lt (show n < 2 ^ 64 by omega)
  rw [hword, hnat, hn]

end Checked

namespace Sequencer
variable {cap : Capacity} {s : Sequencer cap} {b : Ledger}

/-- The snapshot of the counts agrees with the positions and with a ledger. -/
structure Accounts (s : Sequencer cap) (b : Ledger) : Prop where
  published : (s.metrics.itemsPublished.toNat : ℤ) = s.cursor.toInt + 1
  consumed : (s.metrics.itemsConsumed.toNat : ℤ) = s.gating.toInt + 1
  ahead : ((s.metrics.itemsPublished - s.metrics.itemsConsumed).toNat : ℤ) =
    s.cursor.toInt - s.gating.toInt
  worked : s.metrics.batchesConsumed = .ofNat b.worked
  idle : s.metrics.idlePolls = .ofNat b.idle
  rejected : s.metrics.handlerErrors = .ofNat b.rejected

/-- What was consumed was published before. -/
theorem Accounts.intro (le : s.gating.toInt ≤ s.cursor.toInt)
    (published : (s.metrics.itemsPublished.toNat : ℤ) = s.cursor.toInt + 1)
    (consumed : (s.metrics.itemsConsumed.toNat : ℤ) = s.gating.toInt + 1)
    (worked : s.metrics.batchesConsumed = .ofNat b.worked)
    (idle : s.metrics.idlePolls = .ofNat b.idle)
    (rejected : s.metrics.handlerErrors = .ofNat b.rejected) : s.Accounts b := by
  refine ⟨published, consumed, ?_, worked, idle, rejected⟩
  have hle : s.metrics.itemsConsumed ≤ s.metrics.itemsPublished := by
    rw [UInt64.le_iff_toNat_le]
    omega
  rw [UInt64.toNat_sub_of_le _ _ hle]
  rw [UInt64.le_iff_toNat_le] at hle
  omega

end Sequencer

/-! ## One user after the other -/

namespace RingSite
variable {cap : Capacity} {V β : Type} {site : RingSite cap V} {settings : Settings} {w : V}

/-- A new ring has the items to its credit that lie before the first. -/
theorem Fresh.balance (h : site.Fresh settings w) (metrics : settings.metrics = true) :
    (site.ringView w).balance = some ⟨1, 1, 0, 0, 0⟩ := by
  have hclaimed := Sequencer.claimed_new cap settings.producer settings.metrics
  have hgating : (Sequencer.new cap settings.producer settings.metrics).gating = -1 := rfl
  have htally : (Sequencer.new cap settings.producer settings.metrics).tally = some {} := by
    simp [Sequencer.new, metrics]
  rw [h.ringView]
  simp only [RingView.balance, htally, hclaimed, hgating, Option.map_some]
  decide

/-- The same world if its ring had been built to keep no counts. -/
theorem Fresh.silence (h : site.Fresh settings w) :
    site.Fresh (settings.withMetrics false) (site.silence w) := by
  obtain ⟨⟨slots, hring⟩, hledger⟩ := h
  constructor
  · refine ⟨slots, ?_⟩
    rw [site.ring_silence, hring]
    cases hmetrics : settings.metrics <;>
      simp [Ring.uncounted, Sequencer.uncounted, Ring.new, Sequencer.new, hmetrics,
        Settings.withMetrics, Settings.coordinator, Poller.new]
  · rw [site.ledger_silence, hledger]

end RingSite

/-- With nothing claimed that is not published, the counts say what was done. -/
theorem RingView.Sane.accounts {cap : Capacity} {settings : Settings} {v : RingView cap}
    (h : v.Sane settings {} 0) (few : v.Few) (balance : v.balance = some ⟨1, 1, 0, 0, 0⟩) :
    v.sequencer.Accounts v.ledger := by
  have hgating := h.start_le
  have hle := h.gating_le
  have hcursor := h.cursor_ge
  have hclaimed := h.claimed_few few
  have hlevel := h.level rfl
  cases htally : v.sequencer.tally with
  | none => simp [RingView.balance, htally] at balance
  | some t =>
    have hmetrics : v.sequencer.metrics = t := by simp [Sequencer.metrics, htally]
    simp only [RingView.balance, htally, Option.map_some, Option.some.injEq, Balance.mk.injEq,
      hlevel] at balance
    simp only [UInt64.sub_eq_iff_eq_add, UInt64.zero_add] at balance
    obtain ⟨hpublished, hconsumed, hworked, hidle, hrejected⟩ := balance
    rw [hlevel] at hclaimed
    refine .intro hle ?_ ?_ ?_ ?_ ?_
    · rw [hmetrics, hpublished, UInt64.add_comm, Checked.toNat_succ hcursor (by omega)]
    · rw [hmetrics, hconsumed, UInt64.add_comm, Checked.toNat_succ hgating (by omega)]
    · rw [hmetrics, hworked]
    · rw [hmetrics, hidle]
    · rw [hmetrics, hrejected]

namespace Usage
variable {cap : Capacity} {settings : Settings} {raises : String → Prop} {V β : Type}
  {site : RingSite cap V} {x : Act V β} {w : V}

/-- As soon as everything that was begun is over, the counts of the ring are right. -/
theorem accounts (h : Usage settings raises site {} x) (fresh : site.Fresh settings w)
    (metrics : settings.metrics = true) (few : (site.ringView (x.outcome w).2).Few)
    (ended : (x.outcome w).1 ≠ .error .stalled) :
    (site.ringView (x.outcome w).2).sequencer.Accounts (site.ringView (x.outcome w).2).ledger := by
  have hmoved := (h.careful w fun _ => fresh.sane).leads few
  have hover : Act.haltOf (x.outcome w).1 ≠ some .stalled := by
    cases hending : (x.outcome w).1 with
    | ok v => simp
    | error e =>
      rw [hending] at ended
      simpa using ended
  refine hmoved.sane.accounts few ?_
  rw [hmoved.balance hover, fresh.balance metrics]
  rfl

/-- Nothing that is done notices whether the ring keeps counts. -/
theorem silent (h : Usage settings raises site {} x) (fresh : site.Fresh settings w)
    (few : (site.ringView (x.outcome w).2).Few) :
    x.outcome (site.silence w) = ((x.outcome w).1, site.silence (x.outcome w).2) :=
  (h.careful w fun _ => fresh.sane).silent few

end Usage

/-! ## Many parties at one time -/

namespace Sequencer
variable {cap : Capacity}

@[simp] theorem tally_asked (n : Int64) (s : Sequencer cap) : (s.asked n).tally = s.tally := by
  obtain ⟨_, _, _ | _, _⟩ := s <;> rfl

@[simp] theorem tally_granted (high : Int64) (s : Sequencer cap) :
    (s.granted high).tally = s.tally := by
  obtain ⟨_, _, _ | _, _⟩ := s <;> rfl

theorem tally_afterPublish (low high : Int64) (s : Sequencer cap) :
    (s.afterPublish low high).tally = s.tally.map (.published (high - low + 1).toUInt64) := by
  obtain ⟨_, _, _ | _, _⟩ := s <;> rfl

end Sequencer

namespace Producers
variable {cap : Capacity} {P : Type} {c c' : Producers cap P}

/-- The sequences published since the ring was built. -/
def reached (c : Producers cap P) : Set ℤ := {t | 0 ≤ t ∧ t ∈ c.published}

namespace Sound

theorem finite_reached (h : c.Sound) : c.reached.Finite := by
  refine (Set.finite_Icc 0 c.sequencer.claimed.toInt).subset ?_
  rintro t ⟨hstart, ht⟩
  exact ⟨hstart, h.standing.claimed t ht⟩

/-- A range that is published adds its size. -/
theorem ncard_reached_publish (h : c.Sound) {low high : Int64}
    (own : ∀ t, low.toInt ≤ t → t ≤ high.toInt → ∃ p, c.holder t = .owned p)
    (le : low.toInt ≤ high.toInt) (lo : 0 ≤ low.toInt) (s : Sequencer cap) :
    Set.ncard (reached { c with
      sequencer := s
      holder := assign .published (low.toInt - 1) high.toInt c.holder }) =
      c.reached.ncard + (high.toInt - low.toInt + 1).toNat := by
  have hunion : reached { c with
      sequencer := s
      holder := assign .published (low.toInt - 1) high.toInt c.holder } =
      c.reached ∪ Set.Icc low.toInt high.toInt := by
    ext t
    change 0 ≤ t ∧
      t ∈ {t | assign .published (low.toInt - 1) high.toInt c.holder t = .published} ↔ _
    rw [published_assign_published]
    simp only [Set.mem_union, Set.mem_ofPred_eq, reached, Set.mem_Icc]
    constructor
    · rintro ⟨hstart, hin | hold⟩
      · exact Or.inr (by omega)
      · exact Or.inl ⟨hstart, hold⟩
    · rintro (⟨hstart, hold⟩ | hin)
      · exact ⟨hstart, Or.inr hold⟩
      · exact ⟨by omega, Or.inl (by omega)⟩
  have hdisjoint : Disjoint c.reached (Set.Icc low.toInt high.toInt) := by
    rw [Set.disjoint_left]
    rintro t ⟨-, hold⟩ ⟨hlow, hhigh⟩
    obtain ⟨p, hp⟩ := own t hlow hhigh
    exact absurd (hp.symm.trans hold) (by simp)
  rw [hunion, Set.ncard_union_eq hdisjoint h.finite_reached (Set.finite_Icc _ _),
    ← Finset.coe_Icc, Set.ncard_coe_finset, Int.card_Icc]
  congr 1
  omega

variable [DecidableEq P] {p : P}

/-- Claims publish nothing. -/
theorem reached_claim (h : c.Sound) (hclaim : Claim p c c') : c'.reached = c.reached := by
  have hsame : ∀ t, c'.holder t = .published ↔ c.holder t = .published := by
    intro t
    rcases h.holder_claim hclaim t with hsame | ⟨hnext, hne⟩
    · rw [hsame]
    · refine ⟨fun he => absurd he hne, fun he => ?_⟩
      rw [he] at hnext
      cases hnext
  ext t
  exact and_congr_right fun _ => hsame t

/-- They count nothing but their waits. -/
theorem tally_claim (h : c.Sound) (hclaim : Claim p c c') :
    c'.sequencer.tally = c.sequencer.tally ∨
      c'.sequencer.tally = c.sequencer.tally.map .waited := by
  cases hclaim with
  | draw _ hn hs _ =>
    obtain ⟨-, rfl⟩ := h.request_spec hn hs
    exact Or.inl (Sequencer.tally_asked _ _)
  | redeem hp patient hs =>
    obtain ⟨-, rfl⟩ := redeem_spec (hp ▸ h.stages _) patient hs
    exact Or.inl (Sequencer.tally_granted _ _)
  | grab _ _ _ _ => exact Or.inl (Sequencer.tally_withClaimed _ _)
  | remember _ _ => exact Or.inl (Sequencer.tally_withCached _ _)
  | refuse _ _ => exact Or.inl (Sequencer.tally_withCached _ _)
  | wait _ _ => exact Or.inr rfl
  | look | trust | doubt | observe | lose => exact Or.inl rfl

end Sound

end Producers

namespace RingParties
variable {cap : Capacity} {P Q : Type} [DecidableEq P] [DecidableEq Q]

/-- A state that parties reach, with a ledger of their polls. One that finds something is
noted when it releases its window. -/
inductive Tallied (producer consumer : Multiplicity) (metrics : Bool) :
    RingParties cap P Q → Ledger → Prop
  | new : Tallied producer consumer metrics (new cap producer consumer metrics) {}
  | produce {c : RingParties cap P Q} {b : Ledger} {producers : Producers cap P} :
      Tallied producer consumer metrics c b → Producers.Step c.toProducers producers →
      Tallied producer consumer metrics { c with toProducers := producers } b
  | rest {c : RingParties cap P Q} {b : Ledger} {q : Q} {batch : UInt64} :
      Tallied producer consumer metrics c b → c.Ready q → batch ≠ 0 →
      (Poller.window c.sequencer c.position (min batch cap.word).toInt64 :
        Act (Sequencer cap) (Option Window)) c.sequencer = .ok none c.sequencer →
      Tallied producer consumer metrics { c with sequencer := c.sequencer.count .idle } b.rest
  | search {c c' : RingParties cap P Q} {b : Ledger} {q : Q} :
      Tallied producer consumer metrics c b → Search q c c' → c'.visits q ≠ c.visits q →
      Tallied producer consumer metrics c' b
  | work {c : RingParties cap P Q} {b : Ledger} {q : Q} {win : Window} {s : Sequencer cap}
      {poller : Poller} :
      Tallied producer consumer metrics c b → c.visits q = .draining win →
      Poller.release Part.first Part.second win (c.sequencer, c.poller) = .ok () (s, poller) →
      Tallied producer consumer metrics ({ c with sequencer := s, poller }.visit q .idle) b.work

variable {producer consumer : Multiplicity} {metrics : Bool}
  {c c' : RingParties cap P Q} {b : Ledger}

/-- Every reachable state has a ledger. -/
theorem Reachable.tallied (h : c.Reachable producer consumer metrics) :
    ∃ b, c.Tallied producer consumer metrics b := by
  induction h with
  | refl => exact ⟨_, .new⟩
  | tail _ hstep ih =>
    obtain ⟨b, hb⟩ := ih
    cases hstep with
    | produce hproducers => exact ⟨_, hb.produce hproducers⟩
    | release hq hs => exact ⟨_, hb.work hq hs⟩
    | search hsearch =>
      cases hsearch with
      | scanIdle hq hbatch hw => exact ⟨_, hb.rest hq hbatch hw⟩
      | scan hq hbatch hw =>
        refine ⟨_, hb.search (.scan hq hbatch hw) ?_⟩
        rw [visits_visit, hq.1]
        simp
      | settle hq hposition =>
        refine ⟨_, hb.search (.settle hq hposition) ?_⟩
        rw [visits_visit, hq]
        simp
      | lose hq =>
        refine ⟨_, hb.search (.lose hq) ?_⟩
        rw [visits_visit, hq]
        simp

theorem Tallied.reachable (h : c.Tallied producer consumer metrics b) :
    c.Reachable producer consumer metrics := by
  induction h with
  | new => exact .refl
  | produce _ hproducers ih => exact ih.tail (.produce hproducers)
  | rest _ hq hbatch hw ih => exact ih.tail (.search (.scanIdle hq hbatch hw))
  | search _ hsearch _ ih => exact ih.tail (.search hsearch)
  | work _ hq hs ih => exact ih.tail (.release hq hs)

/-- What the counts are when the polls of the ledger were made. -/
noncomputable def due (c : RingParties cap P Q) (b : Ledger) (waits : UInt64) : Tally where
  itemsPublished := .ofNat c.reached.ncard
  itemsConsumed := c.sequencer.gating.toUInt64 + 1
  batchesConsumed := .ofNat b.worked
  producerWaits := waits
  idlePolls := .ofNat b.idle
  handlerErrors := .ofNat b.rejected

/-- A ring that keeps counts has those that are due, and any other has none. -/
structure Balanced (metrics : Bool) (c : RingParties cap P Q) (b : Ledger) : Prop where
  kept : metrics = true → ∃ waits, c.sequencer.tally = some (c.due b waits)
  none : metrics = false → c.sequencer.tally = none

namespace Balanced
variable {b' : Ledger}

omit [DecidableEq P] [DecidableEq Q]

theorem new (cap : Capacity) (producer consumer : Multiplicity) (metrics : Bool) :
    Balanced metrics (RingParties.new cap producer consumer metrics : RingParties cap P Q) {} := by
  have hnobody :
      (RingParties.new cap producer consumer metrics : RingParties cap P Q).reached = ∅ := by
    ext t
    simp only [Producers.reached, Set.mem_ofPred_eq, Set.mem_empty_iff_false, iff_false, not_and]
    intro hstart (ht : (if t < 0 then Holder.published else .unclaimed) = .published)
    rw [if_neg (by omega)] at ht
    simp at ht
  have hitems : (-1 : Int64).toUInt64 + 1 = 0 := by decide
  constructor
  · rintro rfl
    refine ⟨0, ?_⟩
    unfold due
    rw [hnobody, Set.ncard_empty]
    change some ({} : Tally) = some { itemsConsumed := (-1 : Int64).toUInt64 + 1 }
    rw [hitems]
  · rintro rfl
    rfl

theorem map (h : Balanced metrics c b) {f : Tally → Tally}
    (tally : c'.sequencer.tally = c.sequencer.tally.map f)
    (step : ∀ waits, ∃ waits', f (c.due b waits) = c'.due b' waits') : Balanced metrics c' b' := by
  constructor
  · intro hmetrics
    obtain ⟨waits, hkept⟩ := h.kept hmetrics
    obtain ⟨waits', hstep⟩ := step waits
    refine ⟨waits', ?_⟩
    rw [tally, hkept, Option.map_some, hstep]
  · intro hmetrics
    rw [tally, h.none hmetrics, Option.map_none]

/-- Where nothing is published or released, the same counts are due. -/
theorem keep (h : Balanced metrics c b) (tally : c'.sequencer.tally = c.sequencer.tally)
    (gating : c'.sequencer.gating = c.sequencer.gating) (reached : c'.reached = c.reached) :
    Balanced metrics c' b := by
  refine h.map (f := id) (by rw [tally, Option.map_id]; rfl) fun waits => ⟨waits, ?_⟩
  unfold due
  rw [gating, reached]
  rfl

theorem publish (h : Balanced metrics c b) (sound : c.Sound) {low high : Int64} {s : Sequencer cap}
    (own : ∀ t, low.toInt ≤ t → t ≤ high.toInt → ∃ p, c.holder t = .owned p) (le : low ≤ high)
    (order : c.sequencer.producer = .single → low.toInt = c.sequencer.cursor.toInt + 1)
    (hs : Sequencer.publishRange low high c.sequencer = .ok () s ∨
      low = high ∧ Sequencer.publish high c.sequencer = .ok () s) :
    Balanced metrics { c with
      sequencer := s
      holder := Producers.assign .published (low.toInt - 1) high.toInt c.holder } b := by
  obtain rfl := sound.producers.publish_spec own le order hs
  rw [Int64.le_iff_toInt_le] at le
  obtain ⟨-, hlow, hword⟩ := sound.producers.publishable own le order
  have hone := Checked.toInt_one
  have hdiff : (high - low).toInt = high.toInt - low.toInt :=
    Checked.toInt_sub (by omega) (by omega)
  have hsize : (high - low + 1).toUInt64 = .ofNat (high.toInt - low.toInt + 1).toNat := by
    refine Checked.toUInt64_of_toInt ?_
    rw [Checked.toInt_succ (by omega)]
    omega
  have hreached := sound.producers.ncard_reached_publish own le hlow
    (c.sequencer.afterPublish low high)
  refine h.map (Sequencer.tally_afterPublish low high c.sequencer) fun waits => ⟨waits, ?_⟩
  simp only [due, Tally.published, hsize, hreached, UInt64.ofNat_add,
    Sequencer.gating_afterPublish]

theorem work (h : Balanced metrics c b) {win : Window}
    (turn : win.first = c.sequencer.gating + 1) {poller : Poller} {visits : Q → Visit} :
    Balanced metrics
      { c with sequencer := Poller.afterRelease win c.sequencer, poller, visits } b.work := by
  refine h.map (f := .consumed (win.last - win.first + 1).toUInt64) rfl fun waits => ⟨waits, ?_⟩
  have hitems : c.sequencer.gating.toUInt64 + 1 +
    (win.last.toUInt64 - c.sequencer.gating.toUInt64) =
      win.last.toUInt64 + 1 := by grind
  simp only [due, Tally.consumed, turn, Checked.toUInt64_after, hitems, Ledger.work,
    UInt64.ofNat_add]
  rfl

end Balanced

/-- Whatever is done next, the counts that are due are made. -/
theorem Tallied.balanced (h : c.Tallied producer consumer metrics b) : c.Balanced metrics b := by
  induction h with
  | new => exact .new cap producer consumer metrics
  | @produce c b producers hc hproducers ih =>
    have hsound := hc.reachable.sound
    cases hproducers with
    | publish own le order hs => exact ih.publish hsound own le order hs
    | claim hclaim =>
      have hgating := hsound.producers.gating_step (.claim hclaim)
      have hreached := hsound.producers.reached_claim hclaim
      rcases hsound.producers.tally_claim hclaim with htally | htally
      · exact ih.keep htally hgating hreached
      · refine ih.map htally fun waits => ⟨waits + 1, ?_⟩
        simp only [due, hgating, hreached]
        rfl
  | @rest c b q batch _ _ _ _ ih =>
    refine ih.map (f := .idle) rfl fun waits => ⟨waits, ?_⟩
    simp only [due, Tally.idle, Ledger.rest, UInt64.ofNat_add]
    rfl
  | search _ hsearch moved ih =>
    cases hsearch with
    | scanIdle _ _ _ => exact absurd rfl moved
    | scan | settle | lose => exact ih.keep rfl rfl rfl
  | @work c b q win s poller hc hq hs ih =>
    have hsound := hc.reachable.sound
    obtain ⟨hturn, rfl, rfl⟩ := hsound.release_spec hq hs
    have hvisit : c.SoundVisit (.draining win) := hq ▸ hsound.visits q
    have hle := hvisit.1.le
    have hword := win.last.toInt_lt
    refine ih.work ?_
    rw [← Int64.toInt_inj, hturn, Checked.toInt_succ (by omega)]

omit [DecidableEq P] [DecidableEq Q] in
/-- Nobody is in the middle of a claim or has sequences to publish. -/
def Unclaiming (c : RingParties cap P Q) : Prop :=
  (∀ p, c.stages p = .idle) ∧ ∀ t p, c.holder t ≠ .owned p

/-- Then everything that was claimed is published, up to the cursor. -/
theorem Reachable.published_of_unclaiming (h : c.Reachable producer consumer metrics)
    (free : c.Unclaiming) : c.sequencer.cursor = c.sequencer.claimed ∧
      ∀ t ≤ c.sequencer.cursor.toInt, t ∈ c.published := by
  have hproducers := h.sound.producers
  have hall : ∀ t ≤ c.sequencer.claimed.toInt, t ∈ c.published := by
    intro t ht
    cases hholder : c.holder t with
    | published => exact hholder
    | unclaimed =>
      have := (hproducers.unclaimed t).mp hholder
      omega
    | owned p => exact absurd hholder (free.2 t p)
    | pending p =>
      obtain ⟨b, ⟨hb, -⟩, -⟩ := h.accounted.pending t p hholder
      rw [free.1 p] at hb
      simp [Stage.openClaim?] at hb
  have hcursor := hproducers.standing.cursor_le
  have hreached := hproducers.standing.le_cursor (hall _ (le_refl _))
  have heq : c.sequencer.cursor = c.sequencer.claimed := Int64.toInt_inj.mp (by omega)
  exact ⟨heq, fun t ht => hall t (heq ▸ ht)⟩

/-- Then the counts agree with the cursor as well. -/
theorem Tallied.accounts (h : c.Tallied producer consumer true b) (free : c.Unclaiming) :
    c.sequencer.Accounts b := by
  have hsound := h.reachable.sound
  obtain ⟨hgating, hcursor, hroom, hroom'⟩ := hsound.position_bounds
  have hslots := cap.one_le_slots
  have hle := hsound.producers.standing.le_cursor hsound.producers.standing.gating_mem
  obtain ⟨hclaimed, hall⟩ := h.reachable.published_of_unclaiming free
  have hreached : c.reached = Set.Icc 0 c.sequencer.cursor.toInt := by
    ext t
    constructor
    · rintro ⟨hstart, ht⟩
      exact ⟨hstart, hsound.producers.standing.le_cursor ht⟩
    · rintro ⟨hstart, ht⟩
      exact ⟨hstart, hall t ht⟩
  have hcard : (c.reached.ncard : ℤ) = c.sequencer.cursor.toInt + 1 := by
    rw [hreached, ← Finset.coe_Icc, Set.ncard_coe_finset, Int.card_Icc]
    omega
  obtain ⟨waits, htally⟩ := h.balanced.kept rfl
  have hmetrics : c.sequencer.metrics = c.due b waits := by simp [Sequencer.metrics, htally]
  have hword : (UInt64.ofNat c.reached.ncard).toNat = c.reached.ncard :=
    UInt64.toNat_ofNat_of_lt (show c.reached.ncard < 2 ^ 64 by omega)
  refine .intro hle ?_ ?_ ?_ ?_ ?_
  · rw [hmetrics]
    simp only [due, hword, hcard]
  · rw [hmetrics]
    exact Checked.toNat_succ hgating (by omega)
  all_goals
    rw [hmetrics]
    rfl

end RingParties

/-- The counts account for every sequence. Whatever is done with a new ring through
handles, also where feeds end early and callbacks, translators or handlers give up: once
it is over, the items published and consumed are those up to the cursor and up to gating,
and the batches, the idle polls and the rejected items are those that the users noted. In
a world with the same ring built without counts all goes the same way, and its snapshot
stays zero. Parties that act at one time, in any order, are accounted for as well whenever
nobody is in the middle of a claim. -/
theorem metrics_account {cap : Capacity} {settings : Settings} :
    (∀ {V β : Type} {site : RingSite cap V} {raises : String → Prop} {x : Act V β} {w : V},
      Usage settings raises site {} x → site.Fresh settings w → settings.metrics = true →
      (site.ledger.split (x.outcome w).2).1.claims < 2 ^ 62 →
      ((x.outcome w).1 ≠ .error .stalled →
        (site.ring.split (x.outcome w).2).1.sequencer.Accounts
          (site.ledger.split (x.outcome w).2).1) ∧
      site.Fresh (settings.withMetrics false) (site.silence w) ∧
      x.outcome (site.silence w) = ((x.outcome w).1, site.silence (x.outcome w).2) ∧
      (site.ring.split (site.silence (x.outcome w).2)).1 =
        (site.ring.split (x.outcome w).2).1.uncounted ∧
      (site.ring.split (x.outcome w).2).1.uncounted.sequencer.metrics = {}) ∧
    (∀ {P Q : Type} [DecidableEq P] [DecidableEq Q] {c : RingParties cap P Q},
      (c.Reachable settings.producer settings.consumer true →
        (∃ b, c.Tallied settings.producer settings.consumer true b) ∧
        ∀ b, c.Tallied settings.producer settings.consumer true b → c.Unclaiming →
          c.sequencer.Accounts b) ∧
      (c.Reachable settings.producer settings.consumer false → c.sequencer.metrics = {})) := by
  constructor
  · intro V β site raises x w husage fresh metrics few
    refine ⟨husage.accounts fresh metrics few, fresh.silence, husage.silent fresh few, ?_, rfl⟩
    exact site.ring_silence _
  · intro P Q _ _ c
    constructor
    · exact fun h => ⟨h.tallied, fun b hb => hb.accounts⟩
    · intro h
      obtain ⟨b, hb⟩ := h.tallied
      rw [Sequencer.metrics, hb.balanced.none rfl]
      rfl

/-- A sole producer publishes one item. -/
theorem RingParties.reachable_one :
    ∃ c : RingParties .two ℕ ℕ, c.Reachable .single .single true ∧ 0 ∈ c.published ∧
      c.Unclaiming := by
  have hone : Capacity.two.checkClaim 1 = .ok 1 := rfl
  have hown : ∀ t : ℤ, (0 : Int64).toInt ≤ t → t ≤ (0 : Int64).toInt → t = 0 :=
    fun t ht ht' => Int.le_antisymm ht' ht
  have h₀ : Reachable .single .single true
    (new .two .single .single true : RingParties .two ℕ ℕ) := .refl
  have h₁ := h₀.tail (.produce (.claim (p := 0) (.draw (t := ⟨0, -2⟩) ⟨rfl, fun _ _ => rfl⟩ hone rfl
    (Producers.lasts_of_few _ (by decide)))))
  have h₂ := h₁.tail (.produce (.claim (p := 0) (.trust rfl (by decide))))
  have h₃ := h₂.tail (.produce (.claim (p := 0) (.redeem rfl rfl rfl)))
  have h₄ : Reachable .single .single true _ := h₃.tail (.produce (.publish
    (fun t (ht : (0 : Int64).toInt ≤ t) (ht' : t ≤ (0 : Int64).toInt) =>
      ⟨0, by rw [hown t ht ht']; rfl⟩) (by decide) (fun _ => rfl) (Or.inr ⟨rfl, rfl⟩)))
  refine ⟨_, h₄, rfl, ?_, ?_⟩
  · intro p
    by_cases hp : p = 0
    · subst hp
      rfl
    · exact (Function.update_of_ne hp _ _).trans
        ((Function.update_of_ne hp _ _).trans (Function.update_of_ne hp _ _))
  · intro t p ht
    have hlow : -1 < t := h₄.sound.producers.lt_of_owned ht
    have hhigh : t ≤ 0 :=
      h₄.sound.producers.le_claimed fun hnot => absurd (ht.symm.trans hnot) (by simp)
    obtain rfl : t = 0 := by omega
    exact absurd (show Holder.published = .owned p from ht) (by simp)

/-- A consumer that gave up has consumed an item and a batch, and a producer that went
on by itself has published one. -/
theorem metrics_account_dropped :
    (((LoggedChannel.once.outcome (.new { metrics := true })).2.1.ring.sequencer).Accounts
      ⟨1, 1, 0, 0⟩) ∧
    ∃ c : RingParties .two ℕ ℕ, c.Reachable .single .single true ∧ 0 ∈ c.published ∧
      ∃ b, c.sequencer.Accounts b := by
  constructor
  · have hraised : (LoggedChannel.once.outcome (.new { metrics := true })).1 =
      .error (.raised "dropped") :=
      rfl
    exact (metrics_account.1 (LoggedChannel.usage_once { metrics := true })
      (LoggedChannel.fresh_new { metrics := true }) rfl (by decide)).1 (by rw [hraised]; simp)
  · obtain ⟨c, h, hone, free⟩ := RingParties.reachable_one
    obtain ⟨⟨b, hb⟩, haccounts⟩ := (@metrics_account .two { metrics := true }).2.1 h
    exact ⟨c, h, hone, b, haccounts b hb free⟩

end LapRing
