import LapRing.Proofs.ProducerSafety
import Mathlib.Algebra.Order.Group.Abs
import Mathlib.Algebra.Order.Group.Int

/-!
# Producers and consumers of a ring

Consumers scan for a window, settle on it if nobody has moved the position in
between, drain it for as long as they like, and release it. Meanwhile producers
go on with their claims. A party uses the slots of the sequences it owns or
drains, and two parties never use the same slot.
-/
namespace LapRing

/-- What a consumer is doing: it has found a window, or it has made it its own. -/
inductive Visit
  | idle
  | scanned (win : Window)
  | draining (win : Window)

structure RingParties (cap : Capacity) (P Q : Type) extends Producers cap P where
  poller : Poller
  visits : Q → Visit

namespace RingParties
variable {cap : Capacity} {P Q : Type}

def new (cap : Capacity) (producer consumer : Multiplicity) (metrics : Bool) :
    RingParties cap P Q where
  toProducers := .new cap producer metrics
  poller := .new consumer (.new cap producer metrics)
  visits _ := .idle

def position (c : RingParties cap P Q) : Int64 := c.poller.position c.sequencer

/-- A sole consumer makes one visit at a time. -/
def Ready (c : RingParties cap P Q) (q : Q) : Prop :=
  c.visits q = .idle ∧ (c.poller.consumer = .single → ∀ r, c.visits r = .idle)

variable [DecidableEq P] [DecidableEq Q]

def visit (c : RingParties cap P Q) (q : Q) (v : Visit) : RingParties cap P Q :=
  { c with visits := Function.update c.visits q v }

omit [DecidableEq P] in
theorem visits_visit (c : RingParties cap P Q) (q : Q) (v : Visit) : (c.visit q v).visits q = v :=
  Function.update_self _ _ _

omit [DecidableEq P] in
theorem visits_visit_of_ne (c : RingParties cap P Q) {q r : Q} (v : Visit) (hr : r ≠ q) :
    (c.visit q v).visits r = c.visits r :=
  Function.update_of_ne hr _ _

omit [DecidableEq P] in
/-- While the others are idle, one consumer is alone at a visit. -/
theorem alone_visit {c : RingParties cap P Q} {q : Q} (v : Visit)
    (others : ∀ r, r ≠ q → c.visits r = .idle) {r r' : Q} (hr : (c.visit q v).visits r ≠ .idle)
    (hr' : (c.visit q v).visits r' ≠ .idle) : r = r' := by
  have honly : ∀ s, (c.visit q v).visits s ≠ .idle → s = q := by
    intro s hs
    by_contra hne
    exact hs ((c.visits_visit_of_ne v hne).trans (others s hne))
  rw [honly r hr, honly r' hr']

/-- One access of a consumer that looks for a window. -/
inductive Search (q : Q) : RingParties cap P Q → RingParties cap P Q → Prop
  | scan {c : RingParties cap P Q} {batch : UInt64} {win : Window} :
      c.Ready q → batch ≠ 0 →
      (Poller.window c.sequencer c.position (min batch cap.word).toInt64 :
        Act (Sequencer cap) (Option Window)) c.sequencer = .ok (some win) c.sequencer →
      Search q c (c.visit q (.scanned win))
  | scanIdle {c : RingParties cap P Q} {batch : UInt64} :
      c.Ready q → batch ≠ 0 →
      (Poller.window c.sequencer c.position (min batch cap.word).toInt64 :
        Act (Sequencer cap) (Option Window)) c.sequencer = .ok none c.sequencer →
      Search q c { c with sequencer := c.sequencer.count .idle }
  /-- The position is moved over the window if it is still where it was. -/
  | settle {c : RingParties cap P Q} {win : Window} :
      c.visits q = .scanned win → c.position = win.first - 1 →
      Search q c ({ c with poller := c.poller.claim win }.visit q (.draining win))
  | lose {c : RingParties cap P Q} {win : Window} :
      c.visits q = .scanned win → Search q c (c.visit q .idle)

/-- One access of one party. -/
inductive Step : RingParties cap P Q → RingParties cap P Q → Prop
  | produce {c : RingParties cap P Q} {producers : Producers cap P} :
      Producers.Step c.toProducers producers → Step c { c with toProducers := producers }
  | search {c c' : RingParties cap P Q} {q : Q} : Search q c c' → Step c c'
  | release {c : RingParties cap P Q} {q : Q} {win : Window} {s : Sequencer cap} {poller : Poller} :
      c.visits q = .draining win →
      Poller.release Part.first Part.second win (c.sequencer, c.poller) = .ok () (s, poller) →
      Step c ({ c with sequencer := s, poller }.visit q .idle)

def Reachable (producer consumer : Multiplicity) (metrics : Bool)
    (c : RingParties cap P Q) : Prop :=
  Relation.ReflTransGen Step (new cap producer consumer metrics) c

omit [DecidableEq P] [DecidableEq Q]

/-- A window that was scanned holds published sequences, and so does everything
before it. -/
structure SoundWindow (c : RingParties cap P Q) (win : Window) : Prop where
  le : win.first.toInt ≤ win.last.toInt
  start : 0 ≤ win.first.toInt
  read : ∀ t ≤ win.last.toInt, t ∈ c.published
  sole : c.poller.consumer = .single → win.first.toInt = c.sequencer.gating.toInt + 1

def SoundVisit (c : RingParties cap P Q) : Visit → Prop
  | .idle => True
  | .scanned win => c.SoundWindow win
  | .draining win => c.SoundWindow win ∧ c.sequencer.gating.toInt < win.first.toInt ∧
    (c.poller.consumer = .multi → win.last.toInt ≤ c.position.toInt)

/-- The invariant of the parties. The windows being drained lie between gating and the
position, and no two of them overlap. -/
structure Sound (c : RingParties cap P Q) : Prop where
  producers : c.toProducers.Sound
  gating_le : c.sequencer.gating.toInt ≤ c.position.toInt
  read : ∀ t ≤ c.position.toInt, t ∈ c.published
  visits : ∀ q, c.SoundVisit (c.visits q)
  apart : ∀ q r win win', q ≠ r → c.visits q = .draining win → c.visits r = .draining win' →
    win.last.toInt < win'.first.toInt ∨ win'.last.toInt < win.first.toInt
  covered : ∀ t, c.sequencer.gating.toInt < t → t ≤ c.position.toInt →
    ∃ q win, c.visits q = .draining win ∧ win.first.toInt ≤ t ∧ t ≤ win.last.toInt
  alone : c.poller.consumer = .single → ∀ q r, c.visits q ≠ .idle → c.visits r ≠ .idle → q = r

theorem sound_new (cap : Capacity) (producer consumer : Multiplicity) (metrics : Bool) :
    (new cap producer consumer metrics : RingParties cap P Q).Sound := by
  have hproducers := Producers.sound_new (P := P) cap producer metrics
  have hposition : (new cap producer consumer metrics : RingParties cap P Q).position =
      (Sequencer.new cap producer metrics).gating := by
    cases consumer <;> rfl
  refine ⟨hproducers, ?_, ?_, fun _ => trivial, ?_, ?_, fun _ q r hq => absurd rfl hq⟩
  · rw [hposition]
    exact le_refl _
  · rw [hposition]
    exact hproducers.standing.released
  · intro q r win win' _ hq
    simp [new] at hq
  · intro t ht ht'
    rw [hposition] at ht'
    exact absurd (lt_of_lt_of_le ht ht') (lt_irrefl _)

section Keeping
variable {c c' : RingParties cap P Q}

theorem SoundWindow.keep {win : Window} (h : c.SoundWindow win)
    (consumer : c'.poller.consumer = c.poller.consumer)
    (gating : c.poller.consumer = .single → c'.sequencer.gating = c.sequencer.gating)
    (read : c.published ⊆ c'.published) : c'.SoundWindow win := by
  refine ⟨h.le, h.start, fun t ht => read (h.read t ht), fun hsole => ?_⟩
  rw [consumer] at hsole
  rw [gating hsole]
  exact h.sole hsole

/-- Visits do not notice what happens as long as gating stays and nothing is taken
back. -/
theorem SoundVisit.keep {v : Visit} (h : c.SoundVisit v)
    (consumer : c'.poller.consumer = c.poller.consumer)
    (gating : c'.sequencer.gating = c.sequencer.gating)
    (position : c.position.toInt ≤ c'.position.toInt) (read : c.published ⊆ c'.published) :
    c'.SoundVisit v := by
  cases v with
  | idle => exact trivial
  | scanned win => exact SoundWindow.keep h consumer (fun _ => gating) read
  | draining win =>
    obtain ⟨hwin, hlo, hhi⟩ := h
    refine ⟨hwin.keep consumer (fun _ => gating) read, by rw [gating]; exact hlo, fun hmulti => ?_⟩
    rw [consumer] at hmulti
    exact (hhi hmulti).trans position

/-- What competing consumers have scanned or drain survives a release before it. -/
theorem SoundVisit.release {v : Visit} (hv : c.SoundVisit v) {win : Window}
    (competing : c.poller.consumer = .multi)
    (after : ∀ win', v = .draining win' → win.last.toInt < win'.first.toInt) :
    SoundVisit { c with sequencer := Poller.afterRelease win c.sequencer } v := by
  set c' : RingParties cap P Q :=
    { c with sequencer := Poller.afterRelease win c.sequencer } with hc'
  have hsame : c'.position = c.position := by
    rw [show c'.position = _ from c.poller.position_afterRelease win c.sequencer, competing]
    rfl
  have hkeep : ∀ win', c.SoundWindow win' → c'.SoundWindow win' := by
    intro win' hwin'
    refine hwin'.keep rfl (fun hsole => ?_) fun _ ht => ht
    rw [competing] at hsole
    simp at hsole
  cases v with
  | idle => exact trivial
  | scanned win' => exact hkeep win' hv
  | draining win' =>
    refine ⟨hkeep win' hv.1, after win' rfl, fun _ => ?_⟩
    rw [hsame]
    exact hv.2.2 competing

end Keeping

/-- Looking for a window interferes with no window that is being drained. -/
theorem Search.frame [DecidableEq Q] {c c' : RingParties cap P Q} {q : Q} (h : Search q c c') :
    c'.sequencer.gating = c.sequencer.gating ∧ c'.holder = c.holder ∧
      (∀ r win, c.visits r = .draining win → c'.visits r = .draining win) ∧
      ∀ r win, c'.visits r = .draining win →
        c.visits r = .draining win ∨ ∀ win', c.visits r ≠ .draining win' := by
  have hmoved : ∀ v, (∀ win, c.visits q ≠ .draining win) →
      (∀ r win, c.visits r = .draining win → (c.visit q v).visits r = .draining win) ∧
      ∀ r win, (c.visit q v).visits r = .draining win →
        c.visits r = .draining win ∨ ∀ win', c.visits r ≠ .draining win' := by
    intro v hq
    constructor
    · intro r win hr
      rwa [visits_visit_of_ne _ _ (by rintro rfl; exact hq win hr)]
    · intro r win hr
      by_cases hrq : r = q
      · exact Or.inr (hrq ▸ hq)
      · rw [visits_visit_of_ne _ _ hrq] at hr
        exact Or.inl hr
  cases h with
  | scan hq _ _ => exact ⟨rfl, rfl, hmoved _ (by simp [hq.1])⟩
  | scanIdle _ _ _ => exact ⟨rfl, rfl, fun _ _ hr => hr, fun _ _ hr => Or.inl hr⟩
  | settle hq _ => exact ⟨rfl, rfl, hmoved _ (by simp [hq])⟩
  | lose hq => exact ⟨rfl, rfl, hmoved _ (by simp [hq])⟩

namespace Sound
variable {c : RingParties cap P Q}

theorem start_le (h : c.Sound) : -1 ≤ c.sequencer.gating.toInt := h.producers.standing.start_le

theorem position_le (h : c.Sound) : c.position.toInt ≤ c.sequencer.claimed.toInt :=
  h.producers.standing.claimed _ (h.read _ (le_refl _))

theorem position_sole (hsole : c.poller.consumer = .single) : c.position = c.sequencer.gating := by
  obtain ⟨_, poller, _⟩ := c
  cases poller with
  | sole => rfl
  | competing claimed => simp [Poller.consumer] at hsole

theorem others_idle (h : c.Sound) {q : Q} (hq : c.visits q ≠ .idle) :
    c.poller.consumer = .single → ∀ r, r ≠ q → c.visits r = .idle := by
  intro hsole r hr
  by_contra hne
  exact hr (h.alone hsole r q hne hq)

/-- Producers go on while consumers are at their visits. -/
theorem produce [DecidableEq P] (h : c.Sound) {producers : Producers cap P}
    (hstep : Producers.Step c.toProducers producers) :
    { c with toProducers := producers }.Sound := by
  have hgating := h.producers.gating_step hstep
  have hread := h.producers.published_step hstep
  have hposition : RingParties.position { c with toProducers := producers } = c.position := by
    simp only [position, Poller.position, hgating]
  refine ⟨h.producers.step hstep, ?_, ?_, ?_, h.apart, ?_, h.alone⟩
  · rw [hposition]
    simp only [hgating]
    exact h.gating_le
  · rw [hposition]
    exact fun t ht => hread (h.read t ht)
  · intro q
    exact (h.visits q).keep rfl hgating (by rw [hposition]) hread
  · rw [hposition]
    simp only [hgating]
    exact h.covered

section Visits
variable {q : Q}

/-- A poll that finds nothing is only counted. -/
theorem count (h : c.Sound) (f : Tally → Tally) :
    { c with sequencer := c.sequencer.count f }.Sound :=
  ⟨h.producers.count f, h.gating_le, h.read,
    fun r => (h.visits r).keep rfl rfl (le_refl _) fun _ ht => ht, h.apart, h.covered, h.alone⟩

/-- A window is released when all before it are. -/
theorem release_spec (h : c.Sound) {win : Window} (hq : c.visits q = .draining win)
    {s : Sequencer cap} {poller : Poller}
    (hs : Poller.release Part.first Part.second win (c.sequencer, c.poller) = .ok () (s, poller)) :
    win.first.toInt = c.sequencer.gating.toInt + 1 ∧ s = Poller.afterRelease win c.sequencer ∧
      poller = c.poller := by
  have hvisit : c.SoundVisit (.draining win) := hq ▸ h.visits q
  obtain ⟨hwin, hlo, -⟩ := hvisit
  have hstart := hwin.start
  have hpos := cap.one_le_slots
  have hroom := h.producers.standing.room
  have hclaimed := h.producers.standing.claimed _ (hwin.read _ (le_refl _))
  have hturn : win.first.toInt = c.sequencer.gating.toInt + 1 := by
    by_contra hearly
    cases hkind : c.poller.consumer with
    | single => exact hearly (hwin.sole hkind)
    | multi =>
      rw [Poller.release_stalled Part.lawful_first Part.lawful_second (w := (c.sequencer, c.poller))
        hkind hearly (by omega) hwin.le] at hs
      simp at hs
  rw [Poller.release_eq Part.lawful_first Part.lawful_second (w := (c.sequencer, c.poller)) hturn
    hwin.le (by omega)] at hs
  obtain ⟨rfl, rfl⟩ : Poller.afterRelease win c.sequencer = s ∧ c.poller = poller := by
    simpa [Part.first] using hs
  exact ⟨hturn, rfl, rfl⟩

variable [DecidableEq Q]

/-- A visit that has no window of its own yet, or no more, gets in nobody's way. -/
theorem visit (h : c.Sound) {v : Visit} (hv : c.SoundVisit v) (free : ∀ win, v ≠ .draining win)
    (hq : ∀ win, c.visits q ≠ .draining win)
    (turn : c.poller.consumer = .single → ∀ r, r ≠ q → c.visits r = .idle) :
    (c.visit q v).Sound := by
  have hother : ∀ r win, (c.visit q v).visits r = .draining win → c.visits r = .draining win := by
    intro r win hr
    by_cases hrq : r = q
    · rw [hrq, visits_visit] at hr
      exact absurd hr (free win)
    · rwa [visits_visit_of_ne _ _ hrq] at hr
  refine ⟨h.producers, h.gating_le, h.read, ?_, ?_, ?_, ?_⟩
  · intro r
    by_cases hrq : r = q
    · rw [hrq, visits_visit]
      exact hv.keep rfl rfl (le_refl _) (fun _ ht => ht)
    · rw [visits_visit_of_ne _ _ hrq]
      exact (h.visits r).keep rfl rfl (le_refl _) (fun _ ht => ht)
  · intro r r' win win' hne hr hr'
    exact h.apart r r' win win' hne (hother r win hr) (hother r' win' hr')
  · intro t ht ht'
    obtain ⟨r, win, hr, hin⟩ := h.covered t ht ht'
    have hrq : r ≠ q := fun he => hq win (he ▸ hr)
    exact ⟨r, win, (c.visits_visit_of_ne v hrq).trans hr, hin⟩
  · intro hsole r r' hr hr'
    exact alone_visit v (turn hsole) hr hr'

/-- A scan finds published sequences right after the position. -/
theorem scan (h : c.Sound) (hq : c.Ready q) {batch : UInt64} (hb : batch ≠ 0) {win : Window}
    (hw : (Poller.window c.sequencer c.position (min batch cap.word).toInt64 :
      Act (Sequencer cap) (Option Window)) c.sequencer = .ok (some win) c.sequencer) :
    (c.visit q (.scanned win)).Sound := by
  have hstart := h.start_le
  have hlo := h.gating_le
  have hposition := h.position_le
  have hroom := h.producers.standing.room
  obtain ⟨hone, hlap⟩ := cap.toInt_batch_bounds hb
  obtain ⟨last, ⟨⟨hle, -, hrun⟩, -⟩, hwindow⟩ := Poller.window_eq (W := Sequencer cap)
    h.producers.standing c.position (min batch cap.word).toInt64 hlo h.read hone hlap
  rw [hwindow, Poller.windowTo] at hw
  by_cases hnone : last = c.position
  · rw [if_pos hnone] at hw
    simp at hw
  · rw [if_neg hnone] at hw
    obtain rfl : (⟨c.position + 1, last⟩ : Window) = win := by simpa using hw
    have hne : last.toInt ≠ c.position.toInt := fun he => hnone (Int64.toInt_inj.mp he)
    have hfirst : (c.position + 1).toInt = c.position.toInt + 1 := Checked.toInt_succ (by omega)
    refine h.visit ⟨by simp only [hfirst]; omega, by simp only [hfirst]; omega, ?_, ?_⟩
      (by simp) (by simp [hq.1]) (fun hsole r _ => hq.2 hsole r)
    · intro t ht
      by_cases hold : t ≤ c.position.toInt
      · exact h.read t hold
      · exact hrun t (by omega) ht
    · intro hsole
      rw [hfirst, position_sole hsole]

omit [DecidableEq Q] in
/-- The windows of others end where a window that was scanned at the position begins. -/
theorem before_scanned (h : c.Sound) {win : Window} (hq : c.visits q = .scanned win)
    (first : win.first.toInt = c.position.toInt + 1) {r : Q} {win' : Window}
    (hr : c.visits r = .draining win') : win'.last.toInt < win.first.toInt := by
  have hvisit : c.SoundVisit (.draining win') := hr ▸ h.visits r
  cases hkind : c.poller.consumer with
  | single =>
    have hne : r ≠ q := by
      rintro rfl
      rw [hq] at hr
      simp at hr
    rw [h.others_idle (by simp [hq]) hkind r hne] at hr
    simp at hr
  | multi =>
    have := hvisit.2.2 hkind
    omega

/-- A consumer that finds the position unmoved has the window for itself. -/
theorem settle (h : c.Sound) {win : Window} (hq : c.visits q = .scanned win)
    (hposition : c.position = win.first - 1) :
    ({ c with poller := c.poller.claim win }.visit q (.draining win)).Sound := by
  have hwin : c.SoundWindow win := by
    have := h.visits q
    rwa [hq] at this
  have hlo := h.gating_le
  have hstart := hwin.start
  have hle := hwin.le
  have hfirst : win.first.toInt = c.position.toInt + 1 := by
    rw [hposition, Checked.toInt_pred (by omega)]
    omega
  set c' := RingParties.visit { c with poller := c.poller.claim win } q (.draining win) with hc'
  have hself : c'.visits q = .draining win := visits_visit _ _ _
  have hother : ∀ r, r ≠ q → c'.visits r = c.visits r := fun _ hr => visits_visit_of_ne _ _ hr
  have hconsumer : c'.poller.consumer = c.poller.consumer := c.poller.consumer_claim win
  have hmoved : c'.position = if c.poller.consumer = .single then c.position else win.last :=
    c.poller.position_claim win c.sequencer
  have hforward : c.position.toInt ≤ c'.position.toInt := by
    rw [hmoved]
    split <;> omega
  refine ⟨h.producers, hlo.trans hforward, ?_, ?_, ?_, ?_, ?_⟩
  · intro t ht
    rw [hmoved] at ht
    split at ht
    · exact h.read t ht
    · exact hwin.read t ht
  · intro r
    by_cases hr : r = q
    · rw [hr, hself]
      refine ⟨hwin.keep hconsumer (fun _ => rfl) (fun _ ht => ht), ?_, fun hmulti => ?_⟩
      · change c.sequencer.gating.toInt < win.first.toInt
        omega
      · rw [hconsumer] at hmulti
        rw [hmoved, hmulti]
        exact le_refl _
    · rw [hother r hr]
      exact (h.visits r).keep hconsumer rfl hforward (fun _ ht => ht)
  · intro r r' win₁ win₂ hne h₁ h₂
    by_cases hr : r = q
    · rw [hother r' (fun he => hne (hr.trans he.symm))] at h₂
      rw [hr, hself] at h₁
      obtain rfl : win = win₁ := Visit.draining.inj h₁
      exact Or.inr (h.before_scanned hq hfirst h₂)
    · rw [hother r hr] at h₁
      by_cases hr' : r' = q
      · rw [hr', hself] at h₂
        obtain rfl : win = win₂ := Visit.draining.inj h₂
        exact Or.inl (h.before_scanned hq hfirst h₁)
      · rw [hother r' hr'] at h₂
        exact h.apart r r' win₁ win₂ hne h₁ h₂
  · intro t ht ht'
    by_cases hold : t ≤ c.position.toInt
    · obtain ⟨r, win', hr, hin⟩ := h.covered t ht hold
      have hrq : r ≠ q := by
        rintro rfl
        rw [hq] at hr
        simp at hr
      exact ⟨r, win', (hother r hrq).trans hr, hin⟩
    · refine ⟨q, win, hself, by omega, ?_⟩
      rw [hmoved] at ht'
      split at ht'
      · omega
      · exact ht'
  · intro hsole r r' hr hr'
    rw [hconsumer] at hsole
    exact alone_visit _ (h.others_idle (by simp [hq]) hsole) hr hr'

omit [DecidableEq Q] in
/-- The windows of others begin after the one right after gating. -/
theorem after_first (h : c.Sound) {win : Window} (hq : c.visits q = .draining win)
    (turn : win.first.toInt = c.sequencer.gating.toInt + 1) {r : Q} {win' : Window} (hne : q ≠ r)
    (hr : c.visits r = .draining win') : win.last.toInt < win'.first.toInt := by
  have hvisit : c.SoundVisit (.draining win') := hr ▸ h.visits r
  obtain ⟨hwin', hlo', -⟩ := hvisit
  have hle' := hwin'.le
  rcases h.apart q r win win' hne hq hr with hlt | hlt
  · exact hlt
  · omega

theorem release (h : c.Sound) {win : Window} (hq : c.visits q = .draining win)
    {s : Sequencer cap} {poller : Poller}
    (hs : Poller.release Part.first Part.second win (c.sequencer, c.poller) = .ok () (s, poller)) :
    ({ c with sequencer := s, poller }.visit q .idle).Sound := by
  have hvisit : c.SoundVisit (.draining win) := hq ▸ h.visits q
  obtain ⟨hwin, hlo, hhi⟩ := hvisit
  obtain ⟨hturn, rfl, rfl⟩ := h.release_spec hq hs
  have hle := hwin.le
  set c' := RingParties.visit
    { c with sequencer := Poller.afterRelease win c.sequencer } q .idle with hc'
  have hself : c'.visits q = .idle := visits_visit _ _ _
  have hother : ∀ r, r ≠ q → c'.visits r = c.visits r := fun _ hr => visits_visit_of_ne _ _ hr
  have hothers := h.others_idle (q := q) (by simp [hq])
  have hgating : c'.sequencer.gating = win.last := rfl
  have hmoved : c'.position = if c.poller.consumer = .single then win.last else c.position :=
    c.poller.position_afterRelease win c.sequencer
  have hnew : win.last.toInt ≤ c'.position.toInt := by
    rw [hmoved]
    cases hkind : c.poller.consumer with
    | single => exact le_refl _
    | multi => exact hhi hkind
  have hdraining : ∀ r win', c'.visits r = .draining win' → r ≠ q ∧
      c.visits r = .draining win' := by
    intro r win' hr
    have hrq : r ≠ q := by
      rintro rfl
      rw [hself] at hr
      simp at hr
    exact ⟨hrq, hother r hrq ▸ hr⟩
  refine ⟨h.producers.release (by omega) hwin.read, by rw [hgating]; exact hnew, ?_, ?_, ?_, ?_, ?_⟩
  · intro t ht
    rw [hmoved] at ht
    split at ht
    · exact hwin.read t ht
    · exact h.read t ht
  · intro r
    by_cases hr : r = q
    · rw [hr, hself]
      exact trivial
    · rw [hother r hr]
      cases hkind : c.poller.consumer with
      | single =>
        rw [hothers hkind r hr]
        exact trivial
      | multi =>
        have hkept := (h.visits r).release hkind fun _ hv => h.after_first hq hturn (Ne.symm hr) hv
        exact hkept.keep rfl rfl (le_refl _) fun _ ht => ht
  · intro r r' win₁ win₂ hne h₁ h₂
    exact h.apart r r' win₁ win₂ hne (hdraining r win₁ h₁).2 (hdraining r' win₂ h₂).2
  · intro t ht ht'
    rw [hgating] at ht
    have hold : t ≤ c.position.toInt := by
      rw [hmoved] at ht'
      split at ht' <;> omega
    obtain ⟨r, win', hr, hin⟩ := h.covered t (by omega) hold
    have hrq : r ≠ q := by
      rintro rfl
      obtain rfl : win = win' := Visit.draining.inj (hq.symm.trans hr)
      omega
    exact ⟨r, win', (hother r hrq).trans hr, hin⟩
  · intro hsole r r' hr hr'
    exact alone_visit _ (hothers hsole) hr hr'

end Visits

variable [DecidableEq P] [DecidableEq Q]

omit [DecidableEq P] in
theorem search {q : Q} {c' : RingParties cap P Q} (h : c.Sound) (hsearch : Search q c c') :
    c'.Sound := by
  cases hsearch with
  | scan hq hb hw => exact h.scan hq hb hw
  | scanIdle _ _ _ => exact h.count _
  | settle hq hposition => exact h.settle hq hposition
  | lose hq => exact h.visit trivial (by simp) (by simp [hq]) (h.others_idle (by simp [hq]))

/-- Every access keeps the invariant. -/
theorem step {c' : RingParties cap P Q} (h : c.Sound) (hstep : Step c c') : c'.Sound := by
  cases hstep with
  | produce hproducers => exact h.produce hproducers
  | search hsearch => exact h.search hsearch
  | release hq hs => exact h.release hq hs

end Sound

section Exclusion
variable {c : RingParties cap P Q}

/-- Sequences whose claims have returned and that are not released. -/
def Held (c : RingParties cap P Q) (t : ℤ) : Prop :=
  c.sequencer.gating.toInt < t ∧ (c.holder t = .published ∨ ∃ p, c.holder t = .owned p)

/-- A producer uses what it owns, a consumer what it drains. -/
def Uses (c : RingParties cap P Q) : P ⊕ Q → ℤ → Prop
  | .inl p, t => c.holder t = .owned p
  | .inr q, t => ∃ win, c.visits q = .draining win ∧ win.first.toInt ≤ t ∧ t ≤ win.last.toInt

namespace Sound

theorem held_le (h : c.Sound) {t : ℤ} (ht : c.Held t) :
    t ≤ c.sequencer.gating.toInt + cap.slots := by
  obtain ⟨-, hpublished | ⟨p, howned⟩⟩ := ht
  · exact h.producers.standing.near t hpublished
  · exact h.producers.near t p howned

theorem held_of_uses (h : c.Sound) {who : P ⊕ Q} {t : ℤ} (ht : c.Uses who t) : c.Held t := by
  cases who with
  | inl p => exact ⟨h.producers.lt_of_owned ht, Or.inr ⟨p, ht⟩⟩
  | inr q =>
    obtain ⟨win, hq, hlo, hhi⟩ := ht
    have hvisit : c.SoundVisit (.draining win) := hq ▸ h.visits q
    exact ⟨by have := hvisit.2.1; omega, Or.inl (hvisit.1.read t hhi)⟩

/-- No sequence is used by two parties. -/
theorem uses_unique (h : c.Sound) {who whose : P ⊕ Q} {t : ℤ} (ht : c.Uses who t)
    (ht' : c.Uses whose t) : who = whose := by
  have hread : ∀ q, c.Uses (.inr q) t → c.holder t = .published := by
    rintro q ⟨win, hq, -, hhi⟩
    have hvisit : c.SoundVisit (.draining win) := hq ▸ h.visits q
    exact hvisit.1.read t hhi
  cases who with
  | inl p =>
    have hp : c.holder t = .owned p := ht
    cases whose with
    | inl p' =>
      have hp' : c.holder t = .owned p' := ht'
      rw [hp] at hp'
      rw [Holder.owned.inj hp']
    | inr q' => exact absurd (hp.symm.trans (hread q' ht')) (by simp)
  | inr q =>
    cases whose with
    | inl p' =>
      have hp' : c.holder t = .owned p' := ht'
      exact absurd (hp'.symm.trans (hread q ht)) (by simp)
    | inr q' =>
      obtain ⟨win, hq, hlo, hhi⟩ := ht
      obtain ⟨win', hq', hlo', hhi'⟩ := ht'
      by_contra hne
      have hqq : q ≠ q' := fun he => hne (by rw [he])
      rcases h.apart q q' win win' hqq hq hq' with hlt | hlt <;> omega

/-- Held sequences lie within one lap, so each has a slot of its own. -/
theorem slot_ne (h : c.Sound) {t u : ℤ} (ht : c.Held t) (hu : c.Held u) (hne : t ≠ u) :
    |t - u| < cap.slots ∧ cap.slot (.ofInt t) ≠ cap.slot (.ofInt u) := by
  have hlt := ht.1
  have hlu := hu.1
  have hht := h.held_le ht
  have hhu := h.held_le hu
  refine ⟨abs_sub_lt_iff.mpr ⟨by omega, by omega⟩, fun he => hne ?_⟩
  rw [cap.slot_eq_iff, cap.toInt_ofInt_emod, cap.toInt_ofInt_emod] at he
  exact cap.eq_of_emod_eq he (by omega) (by omega)

end Sound

theorem Reachable.sound [DecidableEq P] [DecidableEq Q] {producer consumer : Multiplicity}
    {metrics : Bool} (h : c.Reachable producer consumer metrics) : c.Sound := by
  induction h with
  | refl => exact sound_new cap producer consumer metrics
  | tail _ hstep ih => exact ih.step hstep

/-- Slots are exclusive in every reachable state. Claimed sequences that are not
released differ by less than the capacity, so no two of them share a slot, and a
slot that a producer owns is neither owned by another producer nor drained by a
consumer. The remembered value of gating is never ahead of gating. -/
theorem slots_exclusive [DecidableEq P] [DecidableEq Q] {producer consumer : Multiplicity}
    {metrics : Bool} (h : c.Reachable producer consumer metrics) :
    (∀ t u, c.Held t → c.Held u → t ≠ u →
      |t - u| < cap.slots ∧ cap.slot (.ofInt t) ≠ cap.slot (.ofInt u)) ∧
    (∀ who whose t u, who ≠ whose → c.Uses who t → c.Uses whose u →
      cap.slot (.ofInt t) ≠ cap.slot (.ofInt u)) ∧
    c.sequencer.cached.toInt ≤ c.sequencer.gating.toInt := by
  have hsound := h.sound
  refine ⟨fun t u ht hu hne => hsound.slot_ne ht hu hne, ?_, hsound.producers.standing.cached_le⟩
  intro who whose t u hne ht hu
  have htu : t ≠ u := by
    rintro rfl
    exact hne (hsound.uses_unique ht hu)
  exact (hsound.slot_ne (hsound.held_of_uses ht) (hsound.held_of_uses hu) htu).2

/-- While a consumer drains sequence 0, a producer already owns sequence 1. -/
theorem slots_exclusive_two :
    ∃ c : RingParties .two ℕ ℕ, c.Reachable .multi .multi false ∧
      c.Uses (.inl 1) 1 ∧ c.Uses (.inr 0) 0 ∧
      Capacity.two.slot (.ofInt 1) ≠ Capacity.two.slot (.ofInt 0) := by
  have hone : Capacity.two.checkClaim 1 = .ok 1 := rfl
  have h₀ : Reachable .multi .multi false
      (new .two .multi .multi false : RingParties .two ℕ ℕ) := .refl
  have h₁ := h₀.tail (.produce (.claim (p := 0) (.draw (t := ⟨0, -2⟩) ⟨rfl, nofun⟩ hone rfl
    (Producers.lasts_of_few _ (by decide)))))
  have h₂ := h₁.tail (.produce (.claim (p := 0) (.trust rfl (by decide))))
  have h₃ := h₂.tail (.produce (.claim (p := 0) (.redeem rfl rfl rfl)))
  have hown : ∀ t : ℤ, (0 : Int64).toInt ≤ t → t ≤ (0 : Int64).toInt → t = 0 :=
    fun t ht ht' => Int.le_antisymm ht' ht
  have h₄ : Reachable .multi .multi false
      ⟨⟨⟨0, -1, .shared (-1) (.mark (.new .two) 0), none⟩, _, _⟩, .competing (-1), _⟩ :=
    h₃.tail (.produce (.publish (fun t ht ht' => ⟨0, by rw [hown t ht ht']; rfl⟩)
      (show (0 : Int64) ≤ 0 by decide) nofun (Or.inr ⟨rfl, rfl⟩)))
  have h₅ : Reachable .multi .multi false ⟨_, _, Function.update _ 0 (.scanned ⟨0, 0⟩)⟩ :=
    h₄.tail (.search (.scan ⟨rfl, nofun⟩ (show (1 : UInt64) ≠ 0 by decide) rfl))
  have h₆ := h₅.tail (.search (q := 0) (.settle rfl rfl))
  have h₇ := h₆.tail (.produce (.claim (p := 1) (.draw (t := ⟨1, -1⟩) ⟨rfl, nofun⟩ hone rfl
    (Producers.lasts_of_few _ (by decide)))))
  have h₈ := h₇.tail (.produce (.claim (p := 1) (.trust rfl (by decide))))
  have h₉ := h₈.tail (.produce (.claim (p := 1) (.redeem rfl rfl rfl)))
  refine ⟨_, h₉, rfl, ⟨⟨0, 0⟩, rfl, by decide, by decide⟩, ?_⟩
  exact (slots_exclusive h₉).2.1 (.inl 1) (.inr 0) 1 0 (by simp) rfl
    ⟨⟨0, 0⟩, rfl, by decide, by decide⟩
end Exclusion

end RingParties

end LapRing
