import LapRing.Handler
import LapRing.Proofs.MetricsAccount

/-!
# Polls that call handlers

The parties of a ring around its slots. Producers write to the slots they own, and while
consumers drain their windows, handlers take or change what is in the slots of these
windows and reject some of it. A consumer that drains is not disturbed by anything the
others do: its window, the slots in it and the items it rejected stay as they are.
-/
namespace LapRing

structure HandlerPolls (cap : Capacity) (P Q σ : Type) extends RingParties cap P Q where
  slots : Slots cap σ
  /-- The consumers whose handlers rejected an item, once for each item. -/
  rejected : List Q := []

namespace HandlerPolls
variable {cap : Capacity} {P Q σ : Type}

def new (producer consumer : Multiplicity) (metrics : Bool) (slots : Slots cap σ) :
    HandlerPolls cap P Q σ where
  toRingParties := .new cap producer consumer metrics
  slots := slots

variable [DecidableEq P] [DecidableEq Q]

/-- One access of a party: of a producer, or of the consumer that is named. -/
inductive Step : Option Q → HandlerPolls cap P Q σ → HandlerPolls cap P Q σ → Prop
  | produce {m : HandlerPolls cap P Q σ} {producers : Producers cap P} :
      Producers.Step m.toProducers producers → Step none m { m with toProducers := producers }
  | write {m : HandlerPolls cap P Q σ} {p : P} {s : Int64} (x : σ) :
      m.holder s.toInt = .owned p → Step none m { m with slots := m.slots.write s x }
  | search {m : HandlerPolls cap P Q σ} {q : Q} {parties : RingParties cap P Q} :
      RingParties.Search q m.toRingParties parties →
      Step (some q) m { m with toRingParties := parties }
  /-- A consumer takes an item out of its window, or makes something else of it. -/
  | handle {m : HandlerPolls cap P Q σ} {q : Q} {win : Window} {s : Int64} (x : σ) :
      m.visits q = .draining win → s ∈ win.sequences →
      Step (some q) m { m with slots := m.slots.write s x }
  | reject {m : HandlerPolls cap P Q σ} (q : Q) :
      Step (some q) m { m with
        sequencer := m.sequencer.count .failed
        rejected := m.rejected ++ [q] }
  | release {m : HandlerPolls cap P Q σ} {q : Q} {win : Window} {s : Sequencer cap}
      {poller : Poller} :
      m.visits q = .draining win →
      Poller.release Part.first Part.second win (m.sequencer, m.poller) = .ok () (s, poller) →
      Step (some q) m { m with
        toRingParties := { m.toRingParties with sequencer := s, poller }.visit q .idle }

/-- Accesses of any parties. -/
def Run : HandlerPolls cap P Q σ → HandlerPolls cap P Q σ → Prop :=
  Relation.ReflTransGen fun m m' => ∃ who, Step who m m'

/-- Accesses of all but one consumer. -/
def Others (q : Q) : HandlerPolls cap P Q σ → HandlerPolls cap P Q σ → Prop :=
  Relation.ReflTransGen fun m m' => ∃ who, who ≠ some q ∧ Step who m m'

/-- The slots of a new ring may hold anything. -/
def Reachable (producer consumer : Multiplicity) (metrics : Bool)
    (m : HandlerPolls cap P Q σ) : Prop :=
  ∃ slots, Run (new producer consumer metrics slots) m

theorem Others.run {m m' : HandlerPolls cap P Q σ} {q : Q} (h : m.Others q m') : m.Run m' := by
  induction h with
  | refl => exact .refl
  | tail _ hstep ih =>
    obtain ⟨who, -, hstep⟩ := hstep
    exact ih.tail ⟨who, hstep⟩

/-- What parties do beside the slots. -/
theorem run_of_parties {c c' : RingParties cap P Q}
    (h : Relation.ReflTransGen RingParties.Step c c') (slots : Slots cap σ) (rejected : List Q) :
    Run (⟨c, slots, rejected⟩ : HandlerPolls cap P Q σ) ⟨c', slots, rejected⟩ := by
  induction h with
  | refl => exact .refl
  | tail _ hstep ih =>
    cases hstep with
    | produce hproducers => exact ih.tail ⟨none, .produce hproducers⟩
    | search hsearch => exact ih.tail ⟨_, .search hsearch⟩
    | release hq hs => exact ih.tail ⟨_, .release hq hs⟩

omit [DecidableEq P] [DecidableEq Q]

/-- The invariant of the parties, and all that handlers rejected is counted. -/
structure Sound (metrics : Bool) (m : HandlerPolls cap P Q σ) : Prop where
  parties : m.toRingParties.Sound
  kept : metrics = true →
    ∃ t, m.sequencer.tally = some t ∧ t.handlerErrors = .ofNat m.rejected.length

variable {producer consumer : Multiplicity} {metrics : Bool} {m m' : HandlerPolls cap P Q σ} {q : Q}

theorem sound_new (slots : Slots cap σ) :
    (new producer consumer metrics slots : HandlerPolls cap P Q σ).Sound metrics := by
  refine ⟨RingParties.sound_new cap producer consumer metrics, ?_⟩
  rintro rfl
  exact ⟨{}, rfl, rfl⟩

namespace Sound

/-- What moves no count of rejected items keeps them counted. -/
theorem recount {f : Tally → Tally} (h : m.Sound metrics) (sound : m'.toRingParties.Sound)
    (tally : m'.sequencer.tally = m.sequencer.tally.map f)
    (rest : ∀ t, (f t).handlerErrors = t.handlerErrors) (rejected : m'.rejected = m.rejected) :
    m'.Sound metrics := by
  refine ⟨sound, fun hmetrics => ?_⟩
  obtain ⟨t, ht, herrors⟩ := h.kept hmetrics
  refine ⟨f t, ?_, ?_⟩
  · rw [tally, ht]
    rfl
  · rw [rest, herrors, rejected]

/-- Other counts are counts of something else. -/
theorem produce [DecidableEq P] (h : m.Sound metrics) {producers : Producers cap P}
    (hstep : Producers.Step m.toProducers producers) :
    { m with toProducers := producers }.Sound metrics := by
  have hsound := h.parties.produce hstep
  cases hstep with
  | claim hclaim =>
    rcases h.parties.producers.tally_claim hclaim with htally | htally
    · exact h.recount (f := id) hsound (by simpa using htally) (fun _ => rfl) rfl
    · exact h.recount hsound htally (fun _ => rfl) rfl
  | @publish low high s own le order hs =>
    obtain rfl := h.parties.producers.publish_spec own le order hs
    exact h.recount hsound (Sequencer.tally_afterPublish low high m.sequencer) (fun _ => rfl) rfl

theorem search [DecidableEq Q] (h : m.Sound metrics) {parties : RingParties cap P Q}
    (hsearch : RingParties.Search q m.toRingParties parties) :
    { m with toRingParties := parties }.Sound metrics := by
  have hsound := h.parties.search hsearch
  cases hsearch with
  | scanIdle _ _ _ => exact h.recount (f := .idle) hsound rfl (fun _ => rfl) rfl
  | scan _ _ _ => exact ⟨hsound, h.kept⟩
  | settle _ _ => exact ⟨hsound, h.kept⟩
  | lose _ => exact ⟨hsound, h.kept⟩

theorem reject (h : m.Sound metrics) (q : Q) :
    Sound metrics { m with
      sequencer := m.sequencer.count .failed
      rejected := m.rejected ++ [q] } := by
  refine ⟨h.parties.count _, fun hmetrics => ?_⟩
  obtain ⟨t, ht, herrors⟩ := h.kept hmetrics
  refine ⟨t.failed, ?_, ?_⟩
  · change m.sequencer.tally.map _ = _
    rw [ht]
    rfl
  · rw [List.length_append, UInt64.ofNat_add, ← herrors]
    rfl

theorem release [DecidableEq Q] (h : m.Sound metrics) {win : Window}
    (hq : m.visits q = .draining win) {s : Sequencer cap} {poller : Poller}
    (hs : Poller.release Part.first Part.second win (m.sequencer, m.poller) = .ok () (s, poller)) :
    Sound metrics { m with
      toRingParties := { m.toRingParties with sequencer := s, poller }.visit q .idle } := by
  have hsound := h.parties.release hq hs
  obtain ⟨-, rfl, rfl⟩ := h.parties.release_spec hq hs
  exact h.recount (f := .consumed (win.last - win.first + 1).toUInt64) hsound rfl (fun _ => rfl) rfl

variable [DecidableEq P] [DecidableEq Q]

theorem step {who : Option Q} (h : m.Sound metrics) (hstep : Step who m m') : m'.Sound metrics := by
  cases hstep with
  | produce hproducers => exact h.produce hproducers
  | write _ _ => exact ⟨h.parties, h.kept⟩
  | search hsearch => exact h.search hsearch
  | handle _ _ _ => exact ⟨h.parties, h.kept⟩
  | reject q => exact h.reject q
  | release hq hs => exact h.release hq hs

theorem run (h : m.Sound metrics) (hrun : m.Run m') : m'.Sound metrics := by
  induction hrun with
  | refl => exact h
  | tail _ hstep ih =>
    obtain ⟨who, hstep⟩ := hstep
    exact ih.step hstep

end Sound

theorem Reachable.sound [DecidableEq P] [DecidableEq Q]
    (h : m.Reachable producer consumer metrics) : m.Sound metrics := by
  obtain ⟨slots, hrun⟩ := h
  exact (sound_new slots).run hrun

/-! ## A consumer that drains -/

/-- What stays the same for a consumer that drains a window. -/
structure Undisturbed (q : Q) (win : Window) (m m' : HandlerPolls cap P Q σ) : Prop where
  visit : m'.visits q = .draining win
  slots : ∀ s ∈ win.sequences, m'.slots.read s = m.slots.read s
  rejected : ∃ others, m'.rejected = m.rejected ++ others ∧ q ∉ others

namespace Undisturbed
variable {win : Window} {m'' : HandlerPolls cap P Q σ}

theorem refl (hq : m.visits q = .draining win) : Undisturbed q win m m :=
  ⟨hq, fun _ _ => rfl, [], by simp, by simp⟩

theorem trans (h : Undisturbed q win m m') (h' : Undisturbed q win m' m'') :
    Undisturbed q win m m'' := by
  obtain ⟨others, hothers, hq⟩ := h.rejected
  obtain ⟨others', hothers', hq'⟩ := h'.rejected
  refine ⟨h'.visit, fun s hs => (h'.slots s hs).trans (h.slots s hs), others ++ others', ?_, ?_⟩
  · rw [hothers', hothers, List.append_assoc]
  · simp [hq, hq']

/-- Nobody else uses the slots of the window. -/
theorem write (h : m.toRingParties.Sound) (hq : m.visits q = .draining win) {who : P ⊕ Q}
    (hwho : who ≠ .inr q) {s : Int64} (hs : m.Uses who s.toInt) (x : σ) :
    Undisturbed q win m { m with slots := m.slots.write s x } := by
  refine ⟨hq, fun t ht => ?_, [], by simp, by simp⟩
  have hmem := Window.mem_sequences.mp ht
  have huses : m.Uses (.inr q) t.toInt := ⟨win, hq, hmem⟩
  have hne : s.toInt ≠ t.toInt := by
    intro he
    exact hwho (h.uses_unique hs (he ▸ huses))
  have hslot := (h.slot_ne (h.held_of_uses hs) (h.held_of_uses huses) hne).2
  rw [Int64.ofInt_toInt, Int64.ofInt_toInt] at hslot
  exact (Slots.read_write _ _ _ _).trans (if_neg hslot)

variable [DecidableEq Q]

theorem search (hq : m.visits q = .draining win) {r : Q} {parties : RingParties cap P Q}
    (hsearch : RingParties.Search r m.toRingParties parties) :
    Undisturbed q win m { m with toRingParties := parties } := by
  obtain ⟨-, -, hkept, -⟩ := hsearch.frame
  exact ⟨hkept q win hq, fun _ _ => rfl, [], by simp, by simp⟩

variable [DecidableEq P]

/-- Whatever another party does, the consumer goes on as before. -/
theorem step (h : m.toRingParties.Sound) (hq : m.visits q = .draining win) {who : Option Q}
    (hwho : who ≠ some q) (hstep : Step who m m') : Undisturbed q win m m' := by
  cases hstep with
  | produce _ => exact ⟨hq, fun _ _ => rfl, [], by simp, by simp⟩
  | @write _ p s x own =>
    have huses : m.Uses (.inl p) s.toInt := own
    exact write h hq (by simp) huses x
  | search hsearch => exact search hq hsearch
  | @handle _ r win' s x hr hs =>
    have hne : r ≠ q := fun he => hwho (congrArg some he)
    have huses : m.Uses (.inr r) s.toInt := ⟨win', hr, Window.mem_sequences.mp hs⟩
    exact write h hq (fun he => hne (Sum.inr.inj he)) huses x
  | reject r =>
    have hne : r ≠ q := fun he => hwho (congrArg some he)
    exact ⟨hq, fun _ _ => rfl, [r], rfl, by simpa using Ne.symm hne⟩
  | @release _ r _ _ _ _ _ =>
    have hne : q ≠ r := fun he => hwho (congrArg some he.symm)
    exact ⟨(RingParties.visits_visit_of_ne _ _ hne).trans hq, fun _ _ => rfl, [], by simp, by simp⟩

theorem run (h : m.Sound metrics) (hq : m.visits q = .draining win) (hrun : m.Others q m') :
    Undisturbed q win m m' := by
  induction hrun with
  | refl => exact refl hq
  | tail hrun hstep ih =>
    obtain ⟨who, hwho, hstep⟩ := hstep
    have hsound := h.run (Others.run hrun)
    exact ih.trans (step hsound.parties ih.visit hwho hstep)

end Undisturbed

/-! ## What is released is over -/

section Released
variable [DecidableEq P] [DecidableEq Q]

theorem gating_le_step (h : m.toRingParties.Sound) {who : Option Q} (hstep : Step who m m') :
    m.sequencer.gating.toInt ≤ m'.sequencer.gating.toInt := by
  cases hstep with
  | produce hproducers =>
    rw [h.producers.gating_step hproducers]
  | write _ _ => exact le_refl _
  | search hsearch => exact le_of_eq (congrArg Int64.toInt hsearch.frame.1.symm)
  | handle _ _ _ => exact le_refl _
  | reject _ => exact le_refl _
  | @release _ q win _ _ hq hs =>
    have hvisit : m.toRingParties.SoundVisit (.draining win) := hq ▸ h.visits q
    obtain ⟨hwin, hlo, -⟩ := hvisit
    obtain ⟨-, rfl, rfl⟩ := h.release_spec hq hs
    have hle := hwin.le
    change _ ≤ win.last.toInt
    omega

/-- Gating never goes back. -/
theorem gating_le_run (h : m.Sound metrics) (hrun : m.Run m') :
    m.sequencer.gating.toInt ≤ m'.sequencer.gating.toInt := by
  induction hrun with
  | refl => exact le_refl _
  | tail hrun hstep ih =>
    obtain ⟨who, hstep⟩ := hstep
    exact ih.trans (gating_le_step (h.run hrun).parties hstep)

omit [DecidableEq P] in
theorem position_le_search (h : m.toRingParties.Sound) {parties : RingParties cap P Q}
    (hsearch : RingParties.Search q m.toRingParties parties) :
    m.position.toInt ≤ parties.position.toInt := by
  cases hsearch with
  | scan _ _ _ => exact le_refl _
  | scanIdle _ _ _ => exact le_refl _
  | lose _ => exact le_refl _
  | @settle win hq hposition =>
    have hwin : m.toRingParties.SoundWindow win := by
      have := h.visits q
      rwa [hq] at this
    have hle := hwin.le
    have hstart := hwin.start
    have hfirst : m.position.toInt = win.first.toInt - 1 := by
      rw [hposition, Checked.toInt_pred (by omega)]
    change _ ≤ ((m.poller.claim win).position m.sequencer).toInt
    rw [Poller.position_claim]
    split
    · exact le_refl _
    · omega

theorem position_le_step (h : m.toRingParties.Sound) {who : Option Q} (hstep : Step who m m') :
    m.position.toInt ≤ m'.position.toInt := by
  cases hstep with
  | @produce _ producers hproducers =>
    have hgating := h.producers.gating_step hproducers
    change _ ≤ (m.poller.position producers.sequencer).toInt
    rw [Poller.position, hgating]
    exact le_refl _
  | write _ _ => exact le_refl _
  | search hsearch => exact position_le_search h hsearch
  | handle _ _ _ => exact le_refl _
  | reject _ => exact le_refl _
  | @release _ q win _ _ hq hs =>
    obtain ⟨hturn, rfl, rfl⟩ := h.release_spec hq hs
    have hvisit : m.toRingParties.SoundVisit (.draining win) := hq ▸ h.visits q
    have hle := hvisit.1.le
    change _ ≤ (m.poller.position (Poller.afterRelease win m.sequencer)).toInt
    rw [Poller.position_afterRelease]
    cases hkind : m.poller.consumer with
    | multi => exact le_refl _
    | single =>
      rw [RingParties.Sound.position_sole hkind]
      simp only [if_true]
      omega

/-- The position never goes back either. -/
theorem position_le_run (h : m.Sound metrics) (hrun : m.Run m') :
    m.position.toInt ≤ m'.position.toInt := by
  induction hrun with
  | refl => exact le_refl _
  | tail hrun hstep ih =>
    obtain ⟨who, hstep⟩ := hstep
    exact ih.trans (position_le_step (h.run hrun).parties hstep)

/-- What is up to gating is in nobody's window from then on. -/
theorem released_before (h : m.Sound metrics) (hrun : m.Run m') {r : Q} {win : Window}
    (hr : m'.visits r = .draining win) : m.sequencer.gating.toInt < win.first.toInt := by
  have hvisit : m'.toRingParties.SoundVisit (.draining win) := hr ▸ (h.run hrun).parties.visits r
  have hlo := hvisit.2.1
  have hle := gating_le_run h hrun
  omega

end Released

end HandlerPolls

end LapRing
