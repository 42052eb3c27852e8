import LapRing.Proofs.Claiming
import LapRing.Proofs.WindowOpening
import Mathlib.Logic.Function.Basic

/-!
# Producers at the same time

Any number of producers make their claims at the same time, one access to the
sequencer after the other and in any order. Between two accesses a producer is
at some stage of its claim, and what it has read may be out of date by then. A
sequence belongs to nobody, to a claim that is still waiting, to a producer, or
to everybody once it is published.
-/
namespace LapRing

/-- A claim in the making: what it asks for, after which sequence, and whether it
waits for room or gives up. -/
structure OpenClaim where
  patient : Bool
  last : Int64
  size : Int64
  ticket : Ticket

/-- How far a producer has come with its claim. Between reading gating and
remembering it others may go on, and so may they before a claim is completed. -/
inductive Stage
  | idle
  | asking (openClaim : OpenClaim)
  | waiting (openClaim : OpenClaim)
  | seen (openClaim : OpenClaim) (gating : Int64)
  | cleared (openClaim : OpenClaim) (released : Int64)

inductive Holder (P : Type)
  | unclaimed
  | pending (p : P)
  | owned (p : P)
  | published

/-- How a sequence passes from one holder to the next. -/
inductive Holder.Next {P : Type} : Holder P → Holder P → Prop
  | ask (p : P) : Next .unclaimed (.pending p)
  | take (p : P) : Next .unclaimed (.owned p)
  | get (p : P) : Next (.pending p) (.owned p)
  | publish (p : P) : Next (.owned p) .published

theorem Holder.Next.of_owned {P : Type} {p : P} {h : Holder P} (hn : (owned p).Next h) :
    h = .published := by
  cases hn
  rfl

structure Producers (cap : Capacity) (P : Type) where
  sequencer : Sequencer cap
  stages : P → Stage
  holder : ℤ → Holder P

namespace Producers
variable {cap : Capacity} {P : Type}

/-- Nobody has claimed anything. -/
def new (cap : Capacity) (producer : Multiplicity) (metrics : Bool) : Producers cap P where
  sequencer := .new cap producer metrics
  stages _ := .idle
  holder t := if t < 0 then .published else .unclaimed

/-- Gives the sequences after `lo` up to `hi` to a holder. -/
def assign (h : Holder P) (lo hi : ℤ) (holder : ℤ → Holder P) : ℤ → Holder P := fun t =>
  if lo < t ∧ t ≤ hi then h else holder t

/-- A sole producer makes one claim at a time. -/
def Ready (c : Producers cap P) (p : P) : Prop :=
  c.stages p = .idle ∧ (c.sequencer.producer = .single → ∀ q, c.stages q = .idle)

/-- The words last for one more lap after `high`, as they do while fewer than
`2 ^ 62` sequences are claimed. -/
def Lasts (cap : Capacity) (high : Int64) : Prop := high.toInt + cap.slots < 2 ^ 63

instance (cap : Capacity) (high : Int64) : Decidable (Lasts cap high) :=
  inferInstanceAs (Decidable (_ < _))

theorem lasts_of_few (cap : Capacity) {high : Int64} (few : high.toInt + 1 < 2 ^ 62) :
    Lasts cap high := by
  have hslots := cap.slots_le_int
  unfold Lasts
  omega

variable [DecidableEq P]

def goTo (c : Producers cap P) (p : P) (stage : Stage) : Producers cap P :=
  { c with stages := Function.update c.stages p stage }

/-- One access of a producer that makes a claim. -/
inductive Claim (p : P) : Producers cap P → Producers cap P → Prop
  /-- A patient claim takes its number; shared producers take the sequences. -/
  | draw {c : Producers cap P} {requested : UInt64} {n : Int64} {t : Ticket} {s : Sequencer cap} :
      c.Ready p → cap.checkClaim requested = .ok n →
      Sequencer.request n c.sequencer = .ok t s → Lasts cap t.high →
      Claim p c ({ c with
        sequencer := s
        holder := assign (.pending p) c.sequencer.claimed.toInt s.claimed.toInt c.holder }.goTo p
          (.asking ⟨true, c.sequencer.claimed, n, t⟩))
  /-- A claim that does not wait reads where it would begin. -/
  | look {c : Producers cap P} {requested : UInt64} {n : Int64} {t : Ticket} :
      c.Ready p → cap.checkClaim requested = .ok n →
      (Sequencer.ticket cap c.sequencer.claimed n : Act (Sequencer cap) Ticket) c.sequencer =
        .ok t c.sequencer →
      Claim p c (c.goTo p (.asking ⟨false, c.sequencer.claimed, n, t⟩))
  /-- The remembered value of gating suffices. -/
  | trust {c : Producers cap P} {b : OpenClaim} :
      c.stages p = .asking b → b.ticket.wrapPoint ≤ c.sequencer.cached →
      Claim p c (c.goTo p (.cleared b c.sequencer.cached))
  | doubt {c : Producers cap P} {b : OpenClaim} :
      c.stages p = .asking b → ¬ b.ticket.wrapPoint ≤ c.sequencer.cached →
      Claim p c (c.goTo p (.waiting b))
  | wait {c : Producers cap P} {b : OpenClaim} :
      c.stages p = .waiting b → ¬ b.ticket.wrapPoint ≤ c.sequencer.gating →
      Claim p c { c with sequencer := c.sequencer.count .waited }
  /-- A patient claim goes on only when gating has reached its wrap point. -/
  | observe {c : Producers cap P} {b : OpenClaim} :
      c.stages p = .waiting b → (b.patient → b.ticket.wrapPoint ≤ c.sequencer.gating) →
      Claim p c (c.goTo p (.seen b c.sequencer.gating))
  /-- What was seen is remembered for all, though gating may have moved on. -/
  | remember {c : Producers cap P} {b : OpenClaim} {g : Int64} :
      c.stages p = .seen b g → b.ticket.wrapPoint ≤ g →
      Claim p c ({ c with sequencer := c.sequencer.withCached g }.goTo p (.cleared b g))
  | refuse {c : Producers cap P} {b : OpenClaim} {g : Int64} :
      c.stages p = .seen b g → ¬ b.ticket.wrapPoint ≤ g →
      Claim p c ({ c with sequencer := c.sequencer.withCached g }.goTo p .idle)
  /-- A patient claim returns with its sequences. -/
  | redeem {c : Producers cap P} {b : OpenClaim} {g high : Int64} {s : Sequencer cap} :
      c.stages p = .cleared b g → b.patient →
      Sequencer.redeem b.ticket g c.sequencer = .ok high s →
      Claim p c ({ c with
        sequencer := s
        holder := assign (.owned p) b.last.toInt high.toInt c.holder }.goTo p .idle)
  /-- A claim that does not wait takes the sequences if nobody else has done so. -/
  | grab {c : Producers cap P} {b : OpenClaim} {g : Int64} :
      c.stages p = .cleared b g → b.patient = false → c.sequencer.claimed = b.last →
      Lasts cap b.ticket.high →
      Claim p c ({ c with
        sequencer := c.sequencer.withClaimed b.ticket.high
        holder := assign (.owned p) b.last.toInt b.ticket.high.toInt c.holder }.goTo p .idle)
  | lose {c : Producers cap P} {b : OpenClaim} {g : Int64} :
      c.stages p = .cleared b g → b.patient = false → c.sequencer.claimed ≠ b.last →
      Claim p c (c.goTo p .idle)

inductive Step : Producers cap P → Producers cap P → Prop
  | claim {c c' : Producers cap P} {p : P} : Claim p c c' → Step c c'
  /-- Sequences that are owned are published, by a sole producer in the order of its
  claims. A claim may be published in several pieces, or several claims at once. -/
  | publish {c : Producers cap P} {low high : Int64} {s : Sequencer cap} :
      (∀ t, low.toInt ≤ t → t ≤ high.toInt → ∃ p, c.holder t = .owned p) → low ≤ high →
      (c.sequencer.producer = .single → low.toInt = c.sequencer.cursor.toInt + 1) →
      (Sequencer.publishRange low high c.sequencer = .ok () s ∨
        low = high ∧ Sequencer.publish high c.sequencer = .ok () s) →
      Step c { c with
        sequencer := s
        holder := assign .published (low.toInt - 1) high.toInt c.holder }

omit [DecidableEq P] in
theorem assign_of_mem {h : Holder P} {lo hi t : ℤ} (holder : ℤ → Holder P) (hlo : lo < t)
    (hhi : t ≤ hi) : assign h lo hi holder t = h := if_pos ⟨hlo, hhi⟩

omit [DecidableEq P] in
theorem assign_of_not_mem {h : Holder P} {lo hi t : ℤ} (holder : ℤ → Holder P)
    (ht : ¬ (lo < t ∧ t ≤ hi)) : assign h lo hi holder t = holder t := if_neg ht

omit [DecidableEq P]

/-- The sequences that everybody may read. -/
def published (c : Producers cap P) : Set ℤ := {t | c.holder t = .published}

/-- A claim in the making of `p` has the numbers it asked for. As long as it
lasts, nobody else takes the sequences it was given, or those it will take. -/
structure SoundOpenClaim (c : Producers cap P) (p : P) (b : OpenClaim) : Prop where
  size : 1 ≤ b.size.toInt
  size_le : b.size.toInt ≤ cap.slots
  ticket : b.ticket = Sequencer.ticketAfter cap b.last b.size
  last : -1 ≤ b.last.toInt
  last_le : b.last.toInt ≤ c.sequencer.claimed.toInt
  room : b.last.toInt + cap.slots < 2 ^ 63
  lasts : b.patient → b.last.toInt + b.size.toInt + cap.slots < 2 ^ 63
  sole : c.sequencer.producer = .single → c.sequencer.claimed = b.last
  shared : c.sequencer.producer = .multi → b.patient →
    ∀ t, b.last.toInt < t → t ≤ b.last.toInt + b.size.toInt → c.holder t = .pending p

/-- What was seen of gating was once its value, so it is never ahead of it. -/
def Observed (c : Producers cap P) (g : Int64) : Prop :=
  -1 ≤ g.toInt ∧ g.toInt ≤ c.sequencer.gating.toInt

def SoundStage (c : Producers cap P) (p : P) : Stage → Prop
  | .idle => True
  | .asking b => c.SoundOpenClaim p b
  | .waiting b => c.SoundOpenClaim p b
  | .seen b g => c.SoundOpenClaim p b ∧ c.Observed g
  | .cleared b g => c.SoundOpenClaim p b ∧ c.Observed g ∧
    b.last.toInt + b.size.toInt ≤ g.toInt + cap.slots

/-- The invariant of producers. What is owned lies within a lap of gating, so a
producer never owns a slot whose last sequence is not released. -/
structure Sound (c : Producers cap P) : Prop where
  standing : c.sequencer.Standing c.published
  unclaimed : ∀ t, c.holder t = .unclaimed ↔ c.sequencer.claimed.toInt < t
  near : ∀ t p, c.holder t = .owned p → t ≤ c.sequencer.gating.toInt + cap.slots
  stages : ∀ p, c.SoundStage p (c.stages p)
  alone : c.sequencer.producer = .single → ∀ p q, c.stages p ≠ .idle → c.stages q ≠ .idle → p = q

theorem sound_new (cap : Capacity) (producer : Multiplicity) (metrics : Bool) :
    (new cap producer metrics : Producers cap P).Sound := by
  have hclaimed : (Sequencer.new cap producer metrics).claimed.toInt = -1 := by
    cases producer <;> rfl
  have hpublished : (new cap producer metrics : Producers cap P).published = {t | t ≤ -1} := by
    ext t
    change (if t < 0 then Holder.published else .unclaimed) = .published ↔ t ≤ -1
    by_cases ht : t < 0
    · simp only [ht, if_true, true_iff]
      omega
    · simp only [ht, if_false, reduceCtorEq, false_iff]
      omega
  refine ⟨?_, ?_, ?_, fun p => trivial, fun _ p q hp => absurd rfl hp⟩
  · rw [hpublished]
    exact Sequencer.standing_new cap producer metrics
  · intro t
    change (if t < 0 then Holder.published else .unclaimed) = .unclaimed ↔
      (Sequencer.new cap producer metrics).claimed.toInt < t
    rw [hclaimed]
    by_cases ht : t < 0
    · simp only [ht, if_true, reduceCtorEq, false_iff]
      omega
    · simp only [ht, if_false, true_iff]
      omega
  · intro t p (ht : (if t < 0 then Holder.published else .unclaimed) = .owned p)
    split at ht <;> simp at ht

/-- What a step leaves alone of the claims that others are making. -/
structure Keeps (q : P) (c c' : Producers cap P) : Prop where
  producer : c'.sequencer.producer = c.sequencer.producer
  gating : c.sequencer.gating.toInt ≤ c'.sequencer.gating.toInt
  claimed : c.sequencer.claimed.toInt ≤ c'.sequencer.claimed.toInt
  sole : c.sequencer.producer = .single → c'.sequencer.claimed = c.sequencer.claimed
  pending : ∀ t, c.holder t = .pending q → c'.holder t = .pending q

section Keeping
variable {c c' : Producers cap P} {q : P}

theorem SoundOpenClaim.keep {b : OpenClaim} (h : c.SoundOpenClaim q b) (k : Keeps q c c') :
    c'.SoundOpenClaim q b := by
  refine ⟨h.size, h.size_le, h.ticket, h.last, h.last_le.trans k.claimed, h.room, h.lasts, ?_, ?_⟩
  · intro hsingle
    rw [k.producer] at hsingle
    rw [k.sole hsingle, h.sole hsingle]
  · intro hshared hpatient t ht ht'
    rw [k.producer] at hshared
    exact k.pending t (h.shared hshared hpatient t ht ht')

theorem Observed.keep {g : Int64} (h : c.Observed g) (k : Keeps q c c') : c'.Observed g :=
  ⟨h.1, h.2.trans k.gating⟩

theorem SoundStage.keep {stage : Stage} (h : c.SoundStage q stage) (k : Keeps q c c') :
    c'.SoundStage q stage := by
  cases stage with
  | idle => exact trivial
  | asking b => exact SoundOpenClaim.keep h k
  | waiting b => exact SoundOpenClaim.keep h k
  | seen b g => exact ⟨h.1.keep k, h.2.keep k⟩
  | cleared b g => exact ⟨h.1.keep k, h.2.1.keep k, h.2.2⟩

end Keeping

section Assigning
variable {c : Producers cap P} {lo hi : ℤ} {h : Holder P}

theorem published_assign (hh : h ≠ .published)
    (free : ∀ t, lo < t → t ≤ hi → c.holder t ≠ .published) :
    {t | assign h lo hi c.holder t = .published} = c.published := by
  ext t
  change assign h lo hi c.holder t = .published ↔ c.holder t = .published
  by_cases ht : lo < t ∧ t ≤ hi
  · rw [assign_of_mem _ ht.1 ht.2]
    exact ⟨fun he => absurd he hh, fun he => absurd he (free t ht.1 ht.2)⟩
  · rw [assign_of_not_mem _ ht]

theorem published_assign_published :
    {t | assign .published lo hi c.holder t = .published} =
      {t | lo + 1 ≤ t ∧ t ≤ hi} ∪ c.published := by
  ext t
  change assign .published lo hi c.holder t = .published ↔
    (lo + 1 ≤ t ∧ t ≤ hi) ∨ c.holder t = .published
  by_cases ht : lo < t ∧ t ≤ hi
  · rw [assign_of_mem _ ht.1 ht.2]
    exact ⟨fun _ => Or.inl (by omega), fun _ => rfl⟩
  · rw [assign_of_not_mem _ ht]
    exact ⟨Or.inr, fun hor => hor.resolve_left (by omega)⟩

/-- Claiming gives out the sequences after the last one claimed. -/
theorem unclaimed_assign {last high : ℤ} (hh : h ≠ .unclaimed) (le : last ≤ high)
    (hu : ∀ t, c.holder t = .unclaimed ↔ last < t) (t : ℤ) :
    assign h last high c.holder t = .unclaimed ↔ high < t := by
  by_cases ht : last < t ∧ t ≤ high
  · rw [assign_of_mem _ ht.1 ht.2]
    exact ⟨fun he => absurd he hh, fun hlt => by omega⟩
  · rw [assign_of_not_mem _ ht, hu]
    omega

end Assigning

namespace Sound
variable {c : Producers cap P}

theorem gating_le (h : c.Sound) : c.sequencer.gating.toInt ≤ c.sequencer.claimed.toInt :=
  h.standing.gating_le

theorem start_le (h : c.Sound) : -1 ≤ c.sequencer.claimed.toInt :=
  h.standing.start_le.trans h.gating_le

theorem room (h : c.Sound) : c.sequencer.claimed.toInt + cap.slots < 2 ^ 63 := h.standing.room

theorem le_claimed (h : c.Sound) {t : ℤ} (ht : c.holder t ≠ .unclaimed) :
    t ≤ c.sequencer.claimed.toInt := by
  rw [ne_eq, h.unclaimed] at ht
  omega

theorem lt_of_owned (h : c.Sound) {t : ℤ} {p : P} (ht : c.holder t = .owned p) :
    c.sequencer.gating.toInt < t := by
  refine h.standing.lt_of_not_mem ?_
  change ¬ c.holder t = .published
  rw [ht]
  simp

/-- A stage that another producer is at is kept, unless it is a sole producer's
only rival, who is idle. -/
theorem goTo [DecidableEq P] {b : Producers cap P} (h : c.Sound) {p : P} {stage : Stage}
    (stages : b.stages = c.stages) (producer : b.sequencer.producer = c.sequencer.producer)
    (standing : b.sequencer.Standing b.published)
    (unclaimed : ∀ t, b.holder t = .unclaimed ↔ b.sequencer.claimed.toInt < t)
    (near : ∀ t q, b.holder t = .owned q → t ≤ b.sequencer.gating.toInt + cap.slots)
    (own : b.SoundStage p stage)
    (turn : c.sequencer.producer = .single → ∀ q, q ≠ p → c.stages q = .idle)
    (others : ∀ q, q ≠ p → Keeps q c b ∨ c.stages q = .idle) : (b.goTo p stage).Sound := by
  have hkeep : ∀ q, Keeps q b (b.goTo p stage) := by
    intro q
    exact ⟨rfl, le_refl _, le_refl _, fun _ => rfl, fun _ ht => ht⟩
  have hstage : ∀ q, q ≠ p → (b.goTo p stage).stages q = c.stages q := by
    intro q hq
    rw [← stages]
    exact Function.update_of_ne hq _ _
  refine ⟨standing, unclaimed, near, ?_, ?_⟩
  · intro q
    by_cases hq : q = p
    · subst hq
      rw [show (b.goTo q stage).stages q = stage from Function.update_self _ _ _]
      exact own.keep (hkeep q)
    · rw [hstage q hq]
      rcases others q hq with hk | hidle
      · exact ((h.stages q).keep hk).keep (hkeep q)
      · rw [hidle]
        exact trivial
  · intro hsingle q r hq hr
    have hsole : c.sequencer.producer = .single := producer.symm.trans hsingle
    have honly : ∀ q, (b.goTo p stage).stages q ≠ .idle → q = p := by
      intro q hq
      by_contra hne
      exact hq ((hstage q hne).trans (turn hsole q hne))
    rw [honly q hq, honly r hr]

end Sound

end Producers

end LapRing
