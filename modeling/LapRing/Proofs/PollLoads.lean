import LapRing.Proofs.PollStages

/-!
# Polls whose loads are out of date

Competing consumers poll one load at a time, and others go on between any two of
them. A poll takes the window it found if the position is still what it was, so
what it loaded before does no harm. A poll that finds nothing does not get that far.
If it is idle although the next sequence was published all the time, then it has
looked at a flag that a producer has since used again, a lap later.
-/
namespace LapRing

/-- Of competing consumers one may take published sequences right after the position. -/
theorem RingParties.Sound.seize {cap : Capacity} {P Q : Type} [DecidableEq Q]
    {c : RingParties cap P Q} (h : c.Sound) (competing : c.poller.consumer = .multi) {q : Q}
    (hq : c.visits q = .idle) {win : Window} (le : win.first.toInt ≤ win.last.toInt)
    (start : 0 ≤ win.first.toInt) (read : ∀ t ≤ win.last.toInt, t ∈ c.published)
    (hposition : c.position = win.first - 1) :
    (RingParties.visit { c with poller := c.poller.claim win } q (.draining win)).Sound := by
  have hnever : c.poller.consumer ≠ .single := by
    rw [competing]
    simp
  have hscanned : (c.visit q (.scanned win)).Sound :=
    h.visit ⟨le, start, read, fun hsole => absurd hsole hnever⟩ (by simp) (by simp [hq])
      fun hsole => absurd hsole hnever
  simpa only [RingParties.visit, Function.update_idem] using
    hscanned.settle (c.visits_visit q _) hposition

structure PollLoads (cap : Capacity) (P Q : Type) extends RingParties cap P Q where
  pollStages : Q → PollStage

namespace PollLoads
variable {cap : Capacity} {P Q : Type}

def new (cap : Capacity) (producer : Multiplicity) (metrics : Bool) : PollLoads cap P Q where
  toRingParties := .new cap producer .multi metrics
  pollStages _ := .rest

variable [DecidableEq P] [DecidableEq Q]

def setPollStage (c : PollLoads cap P Q) (q : Q) (g : PollStage) : PollLoads cap P Q :=
  { c with pollStages := Function.update c.pollStages q g }

omit [DecidableEq P] in
theorem pollStages_setPollStage (c : PollLoads cap P Q) (q : Q) (g : PollStage) :
    (c.setPollStage q g).pollStages q = g :=
  Function.update_self _ _ _

omit [DecidableEq P] in
theorem pollStages_setPollStage_of_ne (c : PollLoads cap P Q) {q r : Q} (g : PollStage)
    (hr : r ≠ q) :
    (c.setPollStage q g).pollStages r = c.pollStages r :=
  Function.update_of_ne hr _ _

/-- One access of one party. -/
inductive Step : PollLoads cap P Q → PollLoads cap P Q → Prop
  | produce {c : PollLoads cap P Q} {producers : Producers cap P} :
      Producers.Step c.toProducers producers → Step c { c with toProducers := producers }
  | begin {c : PollLoads cap P Q} {q : Q} (batch : UInt64) :
      c.visits q = .idle → c.pollStages q = .rest → batch ≠ 0 →
      Step c (c.setPollStage q (.begun (min batch cap.word).toInt64))
  | load {c : PollLoads cap P Q} {q : Q} :
      Step c (c.setPollStage q ((c.pollStages q).load c.sequencer c.position))
  /-- The position is moved over the window if it is still where it was. -/
  | take {c : PollLoads cap P Q} {q : Q} {batch : Int64} {win : Window} :
      c.pollStages q = .found batch win → c.position = win.first - 1 →
      Step c ({ c with
        toRingParties := { c.toRingParties with poller := c.poller.claim win }.visit q
          (.draining win) }.setPollStage q .rest)
  /-- Otherwise, or for no reason, the poll starts anew. -/
  | retry {c : PollLoads cap P Q} {q : Q} {batch : Int64} {win : Window} :
      c.pollStages q = .found batch win → Step c (c.setPollStage q (.begun batch))
  | idle {c : PollLoads cap P Q} {q : Q} :
      c.pollStages q = .nothing →
      Step c ({ c with
        toRingParties :=
          { c.toRingParties with sequencer := c.sequencer.count .idle } }.setPollStage q .rest)
  | release {c : PollLoads cap P Q} {q : Q} {win : Window} {s : Sequencer cap} {poller : Poller} :
      c.visits q = .draining win →
      Poller.release Part.first Part.second win (c.sequencer, c.poller) = .ok () (s, poller) →
      Step c { c with
        toRingParties := { c.toRingParties with sequencer := s, poller }.visit q .idle }

def Reachable (producer : Multiplicity) (metrics : Bool) (c : PollLoads cap P Q) : Prop :=
  Relation.ReflTransGen Step (new cap producer metrics) c

/-- What happens up to a state while `q` is at one poll and `always` holds. -/
def During (q : Q) (always : PollLoads cap P Q → Prop) :
    PollLoads cap P Q → PollLoads cap P Q → Prop :=
  Relation.ReflTransGen fun c c' => Step c c' ∧ c'.pollStages q ≠ .rest ∧ always c'

omit [DecidableEq P] [DecidableEq Q]

/-- The sequence right after the position is published. -/
def Drainable (c : PollLoads cap P Q) : Prop := c.position.toInt + 1 ∈ c.published

/-- What a poll loaded of the position was once its value, and its batch is at most a lap. -/
structure Placed (c : PollLoads cap P Q) (batch position : Int64) : Prop where
  one_le : 1 ≤ batch.toInt
  le_lap : batch.toInt ≤ cap.slots
  start : -1 ≤ position.toInt
  le : position.toInt ≤ c.position.toInt

def SoundPollStage (c : PollLoads cap P Q) : PollStage → Prop
  | .rest | .nothing => True
  | .begun batch => 1 ≤ batch.toInt ∧ batch.toInt ≤ cap.slots
  | .placed batch position => c.Placed batch position
  | .scanning batch position available next => c.Placed batch position ∧
    c.sequencer.producer = .multi ∧ position.toInt < next.toInt ∧ next.toInt ≤ available.toInt ∧
    ∀ t < next.toInt, t ∈ c.published
  | .found batch win => 1 ≤ batch.toInt ∧ batch.toInt ≤ cap.slots ∧ 0 ≤ win.first.toInt ∧
    win.first.toInt ≤ win.last.toInt ∧ ∀ t ≤ win.last.toInt, t ∈ c.published

/-- The invariant of polls between loads. What a poll has found published stays so,
however old what it loaded may be. -/
structure Sound (c : PollLoads cap P Q) : Prop where
  parties : c.toRingParties.Sound
  competing : c.poller.consumer = .multi
  pollStages : ∀ q, c.SoundPollStage (c.pollStages q)
  polling : ∀ q, c.pollStages q ≠ .rest → c.visits q = .idle

/-- The poll of `q` is about to load the flag of the first sequence after the position it
knows, but that sequence is released, and so is its slot: a producer has published the
sequence a lap later. -/
def Overtaken (c : PollLoads cap P Q) (q : Q) : Prop :=
  ∃ batch position available next, c.pollStages q = .scanning batch position available next ∧
    next = position + 1 ∧ position.toInt < c.position.toInt ∧
    next.toInt ≤ c.sequencer.gating.toInt ∧ next.toInt + cap.slots ∈ c.published

theorem sound_new (cap : Capacity) (producer : Multiplicity) (metrics : Bool) :
    (new cap producer metrics : PollLoads cap P Q).Sound :=
  ⟨RingParties.sound_new cap producer .multi metrics, rfl, fun _ => trivial,
    fun _ hq => absurd rfl hq⟩

section Keeping
variable {c c' : PollLoads cap P Q}

/-- What a poll has loaded stays true while the position goes on and nothing published is
taken back. -/
theorem SoundPollStage.keep {g : PollStage} (h : c.SoundPollStage g)
    (producer : c'.sequencer.producer = c.sequencer.producer)
    (position : c.position.toInt ≤ c'.position.toInt) (read : c.published ⊆ c'.published) :
    c'.SoundPollStage g := by
  have hplaced : ∀ batch loaded, c.Placed batch loaded → c'.Placed batch loaded :=
    fun _ _ hp => ⟨hp.one_le, hp.le_lap, hp.start, hp.le.trans position⟩
  cases g with
  | rest | nothing => exact trivial
  | begun batch => exact h
  | placed batch loaded => exact hplaced _ _ h
  | scanning batch loaded available next =>
    obtain ⟨hp, hshared, hafter, hle, hread⟩ := h
    exact ⟨hplaced _ _ hp, producer.trans hshared, hafter, hle, fun t ht => read (hread t ht)⟩
  | found batch win =>
    obtain ⟨hone, hlap, hstart, hle, hread⟩ := h
    exact ⟨hone, hlap, hstart, hle, fun t ht => read (hread t ht)⟩

end Keeping

namespace Sound
variable {c : PollLoads cap P Q} {q : Q}

theorem start_le (h : c.Sound) : -1 ≤ c.position.toInt :=
  h.parties.start_le.trans h.parties.gating_le

/-- The next sequence is a word. -/
theorem toInt_succ (h : c.Sound) {batch position : Int64} (hp : c.Placed batch position) :
    (position + 1).toInt = position.toInt + 1 := by
  have hle := hp.le
  have hposition := h.parties.position_le
  have hroom := h.parties.producers.standing.room
  have hpos := cap.one_le_slots
  exact Checked.toInt_succ (by omega)

theorem toInt_reach (h : c.Sound) {batch position : Int64} (hp : c.Placed batch position) :
    (min c.sequencer.cursor (position + batch)).toInt =
      min c.sequencer.cursor.toInt (position.toInt + batch.toInt) := by
  obtain ⟨hone, hlap, hstart, hle⟩ := hp
  have hposition := h.parties.position_le
  have hroom := h.parties.producers.standing.room
  rw [Sequencer.toInt_min, Checked.toInt_add (by omega) (by omega)]

/-- All up to the position that a poll knows is published. -/
theorem placed_read (h : c.Sound) {batch position : Int64} (hp : c.Placed batch position) :
    ∀ t ≤ position.toInt, t ∈ c.published :=
  fun t ht => h.parties.read t (ht.trans hp.le)

/-- A flag that shows a sequence is never wrong: the sequence is published, if only because
it is released by now. -/
theorem read_of_isPublished (h : c.Sound) (hshared : c.sequencer.producer = .multi) {next : Int64}
    (before : ∀ t < next.toInt, t ∈ c.published) (shows : c.sequencer.isPublished next = true) :
    next.toInt ∈ c.published := by
  by_cases hreleased : next.toInt ≤ c.sequencer.gating.toInt
  · exact h.parties.producers.standing.released _ hreleased
  · have hiff := PollStage.isPublished_iff h.parties.producers.standing hshared (by omega) before
    exact hiff.mp shows

/-- A load keeps what a poll knows, whatever happened since its last one. -/
theorem soundPollStage_load (h : c.Sound) {g : PollStage} (hg : c.SoundPollStage g) :
    c.SoundPollStage (g.load c.sequencer c.position) := by
  cases g with
  | rest | nothing => exact trivial
  | found batch win => exact hg
  | begun batch => exact ⟨hg.1, hg.2, h.start_le, le_refl _⟩
  | placed batch position =>
    have hfirst := h.toInt_succ hg
    have hreach := h.toInt_reach hg
    have hread := h.placed_read hg
    have hstart := hg.start
    simp only [PollStage.load]
    by_cases hempty : min c.sequencer.cursor (position + batch) < position + 1
    · rw [if_pos hempty]
      exact trivial
    · rw [if_neg hempty]
      rw [Int64.lt_iff_toInt_lt] at hempty
      rcases c.sequencer.shared_or_single with hshared | hsole
      · simp only [hshared]
        exact ⟨hg, hshared, by omega, by omega, fun t ht => hread t (by omega)⟩
      · simp only [hsole]
        refine ⟨hg.one_le, hg.le_lap, by simp only [hfirst]; omega, by simp only; omega, ?_⟩
        intro t (ht : t ≤ (min c.sequencer.cursor (position + batch)).toInt)
        exact (h.parties.producers.standing.mem_iff_of_single hsole).mpr (by omega)
  | scanning batch position available next =>
    obtain ⟨hplaced, hshared, hafter, hle, hread⟩ := hg
    have hfirst := h.toInt_succ hplaced
    have hstart := hplaced.start
    have hword := available.toInt_lt
    simp only [PollStage.load]
    by_cases hshows : c.sequencer.isPublished next = true
    · have hnext : ∀ t ≤ next.toInt, t ∈ c.published := by
        intro t ht
        rcases Int.lt_or_eq_of_le ht with hlt | rfl
        · exact hread t hlt
        · exact h.read_of_isPublished hshared hread hshows
      rw [if_pos hshows]
      by_cases hmore : next < available
      · rw [if_pos hmore]
        rw [Int64.lt_iff_toInt_lt] at hmore
        have hsucc : (next + 1).toInt = next.toInt + 1 := Checked.toInt_succ (by omega)
        exact ⟨hplaced, hshared, by omega, by omega, fun t ht => hnext t (by omega)⟩
      · rw [if_neg hmore]
        rw [Int64.lt_iff_toInt_lt] at hmore
        exact ⟨hplaced.one_le, hplaced.le_lap, by simp only [hfirst]; omega,
          by simp only [hfirst]; omega, fun t (ht : t ≤ available.toInt) => hnext t (by omega)⟩
    · rw [if_neg hshows]
      by_cases hbegin : next = position + 1
      · rw [if_pos hbegin]
        exact trivial
      · have hne : next.toInt ≠ position.toInt + 1 := by
          rw [← hfirst]
          exact fun he => hbegin (Int64.toInt_inj.mp he)
        have hbefore : (next - 1).toInt = next.toInt - 1 := Checked.toInt_pred (by omega)
        rw [if_neg hbegin]
        exact ⟨hplaced.one_le, hplaced.le_lap, by simp only [hfirst]; omega,
          by simp only [hfirst, hbefore]; omega,
          fun t (ht : t ≤ (next - 1).toInt) => hread t (by omega)⟩

/-- A load that finds nothing looks behind the cursor, or at a gap right after the position,
or at a slot that is used again. -/
theorem overtaken_of_nothing (h : c.Sound) (hdrain : c.Drainable)
    (pending : c.pollStages q ≠ .nothing)
    (hload : (c.pollStages q).load c.sequencer c.position = .nothing) :
    c.sequencer.producer = .multi ∧ c.Overtaken q := by
  have hg := h.pollStages q
  have hstanding := h.parties.producers.standing
  cases hq : c.pollStages q with
  | rest | begun batch | found batch win => simp [hq, PollStage.load] at hload
  | nothing => exact absurd hq pending
  | placed batch position =>
    rw [hq] at hg hload
    have hcursor := hstanding.le_cursor hdrain
    have hfirst := h.toInt_succ hg
    have hreach := h.toInt_reach hg
    have hle := hg.le
    have hone := hg.one_le
    have hmore : ¬ min c.sequencer.cursor (position + batch) < position + 1 := by
      rw [Int64.lt_iff_toInt_lt]
      omega
    simp only [PollStage.load, if_neg hmore] at hload
    split at hload <;> simp at hload
  | scanning batch position available next =>
    rw [hq] at hg hload
    obtain ⟨hplaced, hshared, hafter, hle, hread⟩ := hg
    have hfirst := h.toInt_succ hplaced
    have hstart := hplaced.start
    have hat := hplaced.le
    simp only [PollStage.load] at hload
    split at hload
    · split at hload <;> simp at hload
    split at hload
    · rename_i hshows hbegin
      have hnext : next.toInt = position.toInt + 1 := by rw [hbegin, hfirst]
      have hmem : next.toInt ∈ c.published := by
        rcases Int.lt_or_eq_of_le hat with hlt | heq
        · exact h.parties.read _ (by omega)
        · rw [hnext, heq]
          exact hdrain
      have hreleased : next.toInt ≤ c.sequencer.gating.toInt := by
        by_contra hlt
        exact hshows ((PollStage.isPublished_iff hstanding hshared (by omega) hread).mpr hmem)
      have hgating := h.parties.gating_le
      refine ⟨hshared, batch, position, available, next, hq, hbegin, by omega, hreleased, ?_⟩
      cases hs : c.sequencer.claims with
      | single claimed cached => simp [Sequencer.producer, hs] at hshared
      | shared cached flags =>
        refine hstanding.lapped_of_not_shows hs hreleased fun hshow => hshows ?_
        simp only [Sequencer.isPublished, hs]
        exact (flags.isAvailable_iff next).mpr hshow
    · simp at hload

section Steps
variable [DecidableEq Q]

omit [DecidableEq Q] in
/-- The parties go on while their polls know what they know. -/
theorem onRingParties (h : c.Sound) {parties : RingParties cap P Q} (sound : parties.Sound)
    (consumer : parties.poller.consumer = c.poller.consumer)
    (producer : parties.sequencer.producer = c.sequencer.producer)
    (position : c.position.toInt ≤ parties.position.toInt) (read : c.published ⊆ parties.published)
    (polling : ∀ r, c.pollStages r ≠ .rest → parties.visits r = .idle) :
    { c with toRingParties := parties }.Sound :=
  ⟨sound, consumer.trans h.competing,
    fun r => (h.pollStages r).keep producer position read, polling⟩

theorem setPollStage (h : c.Sound) {g : PollStage} (hg : c.SoundPollStage g)
    (polling : g ≠ .rest → c.visits q = .idle) : (c.setPollStage q g).Sound := by
  have hkeep : ∀ g, c.SoundPollStage g → (c.setPollStage q g).SoundPollStage g :=
    fun g hg => hg.keep rfl (le_refl _) fun _ ht => ht
  refine ⟨h.parties, h.competing, fun r => ?_, fun r hr => ?_⟩
  · by_cases hrq : r = q
    · subst hrq
      rw [pollStages_setPollStage]
      exact hg.keep rfl (le_refl _) fun _ ht => ht
    · rw [pollStages_setPollStage_of_ne _ _ hrq]
      exact (h.pollStages r).keep rfl (le_refl _) fun _ ht => ht
  · by_cases hrq : r = q
    · subst hrq
      rw [pollStages_setPollStage] at hr
      exact polling hr
    · rw [pollStages_setPollStage_of_ne _ _ hrq] at hr
      exact h.polling r hr

theorem take (h : c.Sound) {batch : Int64} {win : Window} (hq : c.pollStages q = .found batch win)
    (hposition : c.position = win.first - 1) :
    ({ c with
      toRingParties := { c.toRingParties with poller := c.poller.claim win }.visit q
        (.draining win) }.setPollStage q .rest).Sound := by
  have hfound : c.SoundPollStage (.found batch win) := hq ▸ h.pollStages q
  obtain ⟨-, -, hstart, hle, hread⟩ := hfound
  have hseized := h.parties.seize h.competing
    (h.polling q (by simp [hq])) hle hstart hread hposition
  have hrest : (c.setPollStage q .rest).Sound := h.setPollStage (g := .rest) trivial (by simp)
  refine hrest.onRingParties hseized (c.poller.consumer_claim win) rfl ?_ (fun _ ht => ht) ?_
  · have hmoved : (c.poller.claim win).position c.sequencer = win.last := by
      rw [c.poller.position_claim, if_neg (by rw [h.competing]; simp)]
    change c.position.toInt ≤ ((c.poller.claim win).position c.sequencer).toInt
    rw [hmoved, hposition, Checked.toInt_pred (by omega)]
    omega
  · intro r hr
    have hrq : r ≠ q := by
      rintro rfl
      exact hr (pollStages_setPollStage _ _ _)
    rw [pollStages_setPollStage_of_ne _ _ hrq] at hr
    rw [RingParties.visits_visit_of_ne _ _ hrq]
    exact h.polling r hr

theorem release (h : c.Sound) {win : Window} (hq : c.visits q = .draining win) {s : Sequencer cap}
    {poller : Poller}
    (hs : Poller.release Part.first Part.second win (c.sequencer, c.poller) = .ok () (s, poller)) :
    { c with
      toRingParties := { c.toRingParties with sequencer := s, poller }.visit q .idle }.Sound := by
  have hsound := h.parties.release hq hs
  obtain ⟨-, rfl, rfl⟩ := h.parties.release_spec hq hs
  refine h.onRingParties hsound rfl rfl ?_ (fun _ ht => ht) ?_
  · have hsame : c.poller.position (Poller.afterRelease win c.sequencer) = c.position := by
      rw [c.poller.position_afterRelease, if_neg (by rw [h.competing]; simp)]
      rfl
    exact (congrArg Int64.toInt hsame).ge
  · intro r hr
    by_cases hrq : r = q
    · rw [hrq, RingParties.visits_visit]
    · rw [RingParties.visits_visit_of_ne _ _ hrq]
      exact h.polling r hr

variable [DecidableEq P]

omit [DecidableEq Q] in
theorem produce (h : c.Sound) {producers : Producers cap P}
    (hstep : Producers.Step c.toProducers producers) :
    { c with toProducers := producers }.Sound := by
  refine h.onRingParties (h.parties.produce hstep) rfl (h.parties.producers.producer_step hstep) ?_
    (h.parties.producers.published_step hstep) h.polling
  have hgating := h.parties.producers.gating_step hstep
  simp only [RingParties.position, Poller.position, hgating, le_refl]

/-- Every access keeps the invariant. -/
theorem step {c' : PollLoads cap P Q} (h : c.Sound) (hstep : Step c c') : c'.Sound := by
  cases hstep with
  | produce hproducers => exact h.produce hproducers
  | begin _ hidle _ hb => exact h.setPollStage (cap.toInt_batch_bounds hb) fun _ => hidle
  | @load q =>
    refine h.setPollStage (h.soundPollStage_load (h.pollStages q)) fun hload =>
      h.polling q fun hrest => ?_
    rw [hrest] at hload
    exact hload rfl
  | take hq hposition => exact h.take hq hposition
  | @retry q batch win hq =>
    have hfound : c.SoundPollStage (.found batch win) := hq ▸ h.pollStages q
    exact h.setPollStage ⟨hfound.1, hfound.2.1⟩ fun _ => h.polling q (by simp [hq])
  | @idle q _ =>
    have hrest := h.setPollStage (q := q) (g := .rest) trivial (by simp)
    exact hrest.onRingParties (h.parties.count _) rfl rfl (le_refl _) (fun _ ht => ht) hrest.polling
  | release hq hs => exact h.release hq hs

theorem producer_step {c' : PollLoads cap P Q} (h : c.Sound) (hstep : Step c c') :
    c'.sequencer.producer = c.sequencer.producer := by
  cases hstep with
  | produce hproducers => exact h.parties.producers.producer_step hproducers
  | release hq hs =>
    obtain ⟨-, rfl, -⟩ := h.parties.release_spec hq hs
    rfl
  | begin | load | take | retry | idle => rfl

end Steps

end Sound

section Runs
variable [DecidableEq P] [DecidableEq Q] {c c' : PollLoads cap P Q} {q : Q}
  {producer : Multiplicity} {metrics : Bool}

theorem Reachable.sound (h : c.Reachable producer metrics) : c.Sound := by
  induction h with
  | refl => exact sound_new cap producer metrics
  | tail _ hstep ih => exact ih.step hstep

theorem Reachable.producer_eq (h : c.Reachable producer metrics) :
    c.sequencer.producer = producer := by
  induction h with
  | refl => cases producer <;> rfl
  | tail hrun hstep ih => exact (Reachable.sound hrun).producer_step hstep ▸ ih

/-- A poll finds nothing by a load of its own. -/
theorem Step.load_nothing (h : Step c c') (pending : c.pollStages q ≠ .nothing)
    (hq : c'.pollStages q = .nothing) :
    (c.pollStages q).load c.sequencer c.position = .nothing := by
  have hother : ∀ {r : Q} {g : PollStage}, g ≠ .nothing →
      Function.update c.pollStages r g q ≠ .nothing := by
    intro r g hg
    by_cases hqr : q = r
    · rwa [hqr, Function.update_self]
    · rwa [Function.update_of_ne hqr]
  cases h with
  | produce _ | release _ _ => exact absurd hq pending
  | begin _ _ _ _ | take _ _ | retry _ | idle _ => exact absurd hq (hother (by simp))
  | @load r =>
    by_cases hqr : q = r
    · subst hqr
      rwa [pollStages_setPollStage] at hq
    · rw [pollStages_setPollStage_of_ne _ _ hqr] at hq
      exact absurd hq pending

theorem During.reachable {always : PollLoads cap P Q → Prop} (h : c.Reachable producer metrics)
    (run : During q always c c') : c'.Reachable producer metrics :=
  h.trans (Relation.ReflTransGen.mono (fun _ _ hstep => hstep.1) _ _ run)

/-- A poll that is idle although the next sequence was published from its first load to
its end was overtaken: it looked at the flag of a slot that shared producers had used
again since. A sole producer's polls are never idle then. -/
theorem idle_overtaken (h : c.Reachable producer metrics) {batch : Int64}
    (begun : c.pollStages q = .begun batch) (drainable : c.Drainable)
    (run : During q Drainable c c') (idle : c'.pollStages q = .nothing) :
    producer = .multi ∧ ∃ u, During q Drainable c u ∧ During q Drainable u c' ∧ u.Overtaken q := by
  induction run with
  | refl =>
    rw [begun] at idle
    simp at idle
  | @tail b c' hrun hstep ih =>
    by_cases hdone : b.pollStages q = .nothing
    · obtain ⟨hshared, u, hcu, hub, hu⟩ := ih hdone
      exact ⟨hshared, u, hcu, hub.tail hstep, hu⟩
    · have hb := During.reachable h hrun
      have hdrain : b.Drainable := by
        cases hrun with
        | refl => exact drainable
        | tail _ hlast => exact hlast.2.2
      obtain ⟨hshared, hover⟩ :=
        hb.sound.overtaken_of_nothing hdrain hdone (hstep.1.load_nothing hdone idle)
      exact ⟨hb.producer_eq ▸ hshared, b, hrun, .single hstep, hover⟩

end Runs

/-- Two sequences are published on a ring of two. Consumer 0 loads the position, consumer 1
takes and releases sequence 0, and a producer uses its slot for sequence 2. Sequence 1 was
published all along, but consumer 0 looks at the slot of sequence 0. -/
theorem reachable_stale :
    ∃ c c' : PollLoads .two ℕ ℕ, c.Reachable .multi false ∧
      c.pollStages 0 = .begun 1 ∧ c.Drainable ∧
      During 0 Drainable c c' ∧ c'.pollStages 0 = .nothing ∧ c'.Drainable := by
  have htwo : Capacity.two.checkClaim 2 = .ok 2 := rfl
  have hone : Capacity.two.checkClaim 1 = .ok 1 := rfl
  have hown : ∀ t : ℤ, (0 : Int64).toInt ≤ t → t ≤ (1 : Int64).toInt → t = 0 ∨ t = 1 :=
    fun t (_ : 0 ≤ t) (_ : t ≤ 1) => by omega
  have hlast : ∀ t : ℤ, (2 : Int64).toInt ≤ t → t ≤ (2 : Int64).toInt → t = 2 :=
    fun t ht ht' => Int.le_antisymm ht' ht
  have h₀ : Reachable .multi false (new .two .multi false : PollLoads .two ℕ ℕ) := .refl
  have h₁ := h₀.tail (.produce (.claim (p := 0) (.draw (t := ⟨1, -1⟩) ⟨rfl, nofun⟩ htwo rfl
    (Producers.lasts_of_few _ (by decide)))))
  have h₂ := h₁.tail (.produce (.claim (p := 0) (.trust rfl (by decide))))
  have h₃ := h₂.tail (.produce (.claim (p := 0) (.redeem rfl rfl rfl)))
  have h₄ : Reachable .multi false
      ⟨⟨⟨⟨1, -1, .shared (-1) (.markRange (.new .two) 0 1), none⟩, _, _⟩, .competing (-1), _⟩, _⟩ :=
    h₃.tail (.produce (.publish
      (fun t ht ht' => ⟨0, by rcases hown t ht ht' with rfl | rfl <;> rfl⟩)
      (show (0 : Int64) ≤ 1 by decide) nofun (Or.inl rfl)))
  have h₅ := h₄.tail (.begin (q := 0) 1 rfl rfl (by decide))
  have hstart : ∀ c : PollLoads .two ℕ ℕ, c.Reachable .multi false → During 0 Drainable c c :=
    fun _ _ => .refl
  have d₁ := (hstart _ h₅).tail ⟨.load (q := 0), nofun, rfl⟩
  have d₂ := d₁.tail ⟨.begin (q := 1) 1 rfl rfl (by decide), nofun, rfl⟩
  have d₃ := d₂.tail ⟨.load (q := 1), nofun, rfl⟩
  have d₄ := d₃.tail ⟨.load (q := 1), nofun, rfl⟩
  have d₅ := d₄.tail ⟨.load (q := 1), nofun, rfl⟩
  have d₆ := d₅.tail ⟨.take (q := 1) rfl rfl, nofun, rfl⟩
  have d₇ := d₆.tail ⟨.release (q := 1) rfl rfl, nofun, rfl⟩
  have d₈ := d₇.tail ⟨.produce (.claim (p := 1) (.draw (t := ⟨2, 0⟩) ⟨rfl, nofun⟩ hone rfl
    (Producers.lasts_of_few _ (by decide)))), nofun, rfl⟩
  have d₉ := d₈.tail ⟨.produce (.claim (p := 1) (.doubt rfl (by decide))), nofun, rfl⟩
  have d₁₀ := d₉.tail ⟨.produce (.claim (p := 1) (.observe rfl fun _ => by decide)), nofun, rfl⟩
  have d₁₁ := d₁₀.tail ⟨.produce (.claim (p := 1) (.remember rfl (by decide))), nofun, rfl⟩
  have d₁₂ := d₁₁.tail ⟨.produce (.claim (p := 1) (.redeem rfl rfl rfl)), nofun, rfl⟩
  have d₁₃ := d₁₂.tail ⟨.produce (.publish
    (fun t ht ht' => ⟨1, by rw [hlast t ht ht']; rfl⟩) (show (2 : Int64) ≤ 2 by decide) nofun
    (Or.inr ⟨rfl, rfl⟩)), nofun, rfl⟩
  have d₁₄ := d₁₃.tail ⟨.load (q := 0), nofun, rfl⟩
  have d₁₅ := d₁₄.tail ⟨.load (q := 0), nofun, rfl⟩
  exact ⟨_, _, h₅, rfl, rfl, d₁₅, rfl, rfl⟩

/-- It was overtaken then. -/
theorem idle_overtaken_stale :
    ∃ c u c' : PollLoads .two ℕ ℕ, c.Reachable .multi false ∧ During 0 Drainable c u ∧
      u.Overtaken 0 ∧ During 0 Drainable u c' ∧ c'.pollStages 0 = .nothing := by
  obtain ⟨c, c', h, begun, drainable, run, idle, -⟩ := reachable_stale
  obtain ⟨-, u, hcu, huc, hu⟩ := idle_overtaken h begun drainable run idle
  exact ⟨c, u, c', h, hcu, hu, huc, idle⟩

/-- So a poll returns idle though at every instant there was a sequence to drain. -/
theorem idle_while_drainable :
    ∃ c c' c'' : PollLoads .two ℕ ℕ, c.Reachable .multi false ∧
      c.pollStages 0 = .begun 1 ∧ c.Drainable ∧
      During 0 Drainable c c' ∧ c'.pollStages 0 = .nothing ∧ Step c' c'' ∧
      c''.pollStages 0 = .rest ∧ c''.Drainable := by
  obtain ⟨c, c', h, begun, drainable, run, idle, still⟩ := reachable_stale
  exact ⟨c, c', _, h, begun, drainable, run, idle, .idle idle, pollStages_setPollStage _ _ _, still⟩

end PollLoads

end LapRing
