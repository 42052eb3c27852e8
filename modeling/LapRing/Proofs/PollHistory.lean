import LapRing.Proofs.ProducerSafety

/-!
# Polls drain the published prefix

A sequencer with one poller, while any number of producers work before and after
its polls and also from within their callbacks. Each poll hands out the
sequences from the one after gating to the end of the greatest published run
that its batch admits, and releases them all even if its callback gives up. So
the windows of a whole run are the sequences from zero on, without a gap and
without a repetition.
-/
namespace LapRing

structure PollHistory (cap : Capacity) (P L : Type) where
  producers : Producers cap P
  poller : Poller
  /-- What belongs to the callbacks. -/
  own : L
  /-- The windows of all polls, oldest first. -/
  windows : List Window := []
  /-- The sequences that callbacks were called with. -/
  handed : List ℤ := []

namespace PollHistory
variable {cap : Capacity} {P L : Type}

def new (cap : Capacity) (producer consumer : Multiplicity) (metrics : Bool) (own : L) :
    PollHistory cap P L where
  producers := .new cap producer metrics
  poller := .new consumer (.new cap producer metrics)
  own := own

def sequencerPart : Part (PollHistory cap P L) (Sequencer cap) where
  Rest := PollHistory cap P L
  split o := (o.producers.sequencer, o)
  join s o := { o with producers := { o.producers with sequencer := s } }

def pollerPart : Part (PollHistory cap P L) Poller where
  Rest := PollHistory cap P L
  split o := (o.poller, o)
  join poller o := { o with poller }

theorem lawful_sequencerPart : (sequencerPart : Part (PollHistory cap P L) _).Lawful :=
  ⟨fun _ => rfl, fun _ _ => rfl, fun _ _ _ => rfl⟩

theorem lawful_pollerPart : (pollerPart : Part (PollHistory cap P L) _).Lawful :=
  ⟨fun _ => rfl, fun _ _ => rfl, fun _ _ _ => rfl⟩

def hand (visit : Int64 → Act (PollHistory cap P L) Unit) (s : Int64) :
    Act (PollHistory cap P L) Unit := do
  modify fun o => { o with handed := o.handed ++ [s.toInt] }
  visit s

def drain (visit : Int64 → Act (PollHistory cap P L) Unit) (win : Window) :
    Act (PollHistory cap P L) Unit := do
  modify fun o => { o with windows := o.windows ++ [win] }
  win.sequences.forM (hand visit)

/-- A poll that keeps record of its window and of the calls of its callback. -/
def poll (batch : UInt64) (visit : Int64 → Act (PollHistory cap P L) Unit) :
    Act (PollHistory cap P L) (Option Unit) :=
  Poller.poll sequencerPart pollerPart batch (drain visit)

variable [DecidableEq P]

/-- A callback may do whatever producers do, and may give up, but does not poll. -/
def Modest (visit : Int64 → Act (PollHistory cap P L) Unit) : Prop :=
  ∀ s o, o.producers.Sound →
    Relation.ReflTransGen Producers.Step o.producers ((visit s).outcome o).2.producers ∧
      ((visit s).outcome o).2.poller = o.poller ∧
      ((visit s).outcome o).2.windows = o.windows ∧ ((visit s).outcome o).2.handed = o.handed

inductive Step : PollHistory cap P L → PollHistory cap P L → Prop
  | produce {o : PollHistory cap P L} {producers : Producers cap P} :
      Producers.Step o.producers producers → Step o { o with producers }
  | poll {o : PollHistory cap P L} {visit : Int64 → Act (PollHistory cap P L) Unit}
      (batch : UInt64) :
      Modest visit → Step o ((PollHistory.poll batch visit).outcome o).2

def Reachable (producer consumer : Multiplicity) (metrics : Bool) (own : L)
    (o : PollHistory cap P L) : Prop :=
  Relation.ReflTransGen Step (new cap producer consumer metrics own) o

/-- What callbacks on some sequences make of a history. They stop at the first
that gives up, and what it raised is the ending. -/
structure Drained (visit : Int64 → Act (PollHistory cap P L) Unit) (ss : List Int64)
    (o : PollHistory cap P L) (r : Except Halt Unit × PollHistory cap P L) : Prop where
  producers : Relation.ReflTransGen Producers.Step o.producers r.2.producers
  poller : r.2.poller = o.poller
  windows : r.2.windows = o.windows
  handed : ∃ k ≤ ss.length, r.2.handed = o.handed ++ (ss.take k).map Int64.toInt ∧
    (r.1 = .ok () ∧ k = ss.length ∨
      ∃ e s o₁, r.1 = .error e ∧ (ss.take k).getLast? = some s ∧ (visit s).outcome o₁ = r)

theorem drained {visit : Int64 → Act (PollHistory cap P L) Unit} (modest : Modest visit)
    (ss : List Int64) {o : PollHistory cap P L} (h : o.producers.Sound) :
    Drained visit ss o ((ss.forM (hand visit)).outcome o) := by
  induction ss generalizing o with
  | nil =>
    have hrun : ([].forM (hand visit) : Act _ Unit).outcome o = (.ok (), o) := rfl
    rw [hrun]
    exact ⟨.refl, rfl, rfl, 0, le_refl _, by simp, Or.inl ⟨rfl, rfl⟩⟩
  | cons s ss ih =>
    obtain ⟨hproducers, hpoller, hwindows, hhanded⟩ :=
      modest s { o with handed := o.handed ++ [s.toInt] } h
    cases hv : visit s { o with handed := o.handed ++ [s.toInt] } with
    | error e o₁ =>
      rw [Act.outcome_error hv] at hproducers hpoller hwindows hhanded
      have hrun : ((s :: ss).forM (hand visit)).outcome o = (.error e, o₁) :=
        Act.outcome_error (Act.bind_error hv)
      rw [hrun]
      refine ⟨hproducers, hpoller, hwindows, 1, by simp, by simpa using hhanded, Or.inr ?_⟩
      exact ⟨e, s, _, rfl, rfl, Act.outcome_error hv⟩
    | ok u o₁ =>
      rw [Act.outcome_ok hv] at hproducers hpoller hwindows hhanded
      have hrun : ((s :: ss).forM (hand visit)).outcome o = (ss.forM (hand visit)).outcome o₁ := by
        have hbind : (s :: ss).forM (hand visit) o = ss.forM (hand visit) o₁ := Act.bind_ok hv
        simp only [Act.outcome, hbind]
      rw [hrun]
      obtain ⟨hproducers', hpoller', hwindows', k, hk, hhanded', hending⟩ := ih (h.run hproducers).1
      refine ⟨hproducers.trans hproducers', hpoller'.trans hpoller, hwindows'.trans hwindows, k + 1,
        ?_, ?_, ?_⟩
      · simpa using hk
      · rw [hhanded', hhanded]
        simp
      · rcases hending with ⟨hok, hall⟩ | ⟨e, t, o₂, he, hlast, hvisit⟩
        · exact Or.inl ⟨hok, by simp [hall]⟩
        · refine Or.inr ⟨e, t, o₂, he, ?_, hvisit⟩
          rw [List.take_succ_cons, List.getLast?_cons, hlast]
          rfl

omit [DecidableEq P]

/-- Between polls the position is gating, and all up to it was handed out. -/
structure Sound (o : PollHistory cap P L) : Prop where
  producers : o.producers.Sound
  position : o.poller.position o.producers.sequencer = o.producers.sequencer.gating
  windows : (o.windows.flatMap fun win => win.sequences.map Int64.toInt) =
    consecutive 0 (o.producers.sequencer.gating.toInt + 1).toNat

theorem sound_new (cap : Capacity) (producer consumer : Multiplicity) (metrics : Bool) (own : L) :
    (new cap producer consumer metrics own : PollHistory cap P L).Sound := by
  refine ⟨Producers.sound_new cap producer metrics, ?_, rfl⟩
  cases consumer <;> rfl

/-- What a poll that finds nothing leaves: where counting is on, one more idle poll. A
batch of zero is not even counted. -/
def idled (batch : UInt64) (o : PollHistory cap P L) : PollHistory cap P L :=
  if batch = 0 then o
  else
    let tally := o.producers.sequencer.tally.map fun t => { t with idlePolls := t.idlePolls + 1 }
    { o with producers := { o.producers with sequencer := { o.producers.sequencer with tally } } }

/-- A poll whose window ends with `last`: gating is there afterwards, and callbacks
were called in order, with all of the window or up to the one that gave up. -/
structure Polled (visit : Int64 → Act (PollHistory cap P L) Unit)
    (o : PollHistory cap P L) (last : ℤ)
    (r : Except Halt (Option Unit) × PollHistory cap P L) : Prop where
  gating : r.2.producers.sequencer.gating.toInt = last
  windows : ∃ win : Window, r.2.windows = o.windows ++ [win] ∧
    win.first.toInt = o.producers.sequencer.gating.toInt + 1 ∧ win.last.toInt = last
  handed : ∃ k : ℕ, o.producers.sequencer.gating.toInt + k ≤ last ∧
    r.2.handed = o.handed ++ consecutive (o.producers.sequencer.gating.toInt + 1) k ∧
    (r.1 = .ok (some ()) ∧ o.producers.sequencer.gating.toInt + k = last ∨
      ∃ e s o₁ o₂, r.1 = .error e ∧ s.toInt = o.producers.sequencer.gating.toInt + k ∧
        (visit s).outcome o₁ = (.error e, o₂))

namespace Sound
variable {o : PollHistory cap P L}

theorem idled (h : o.Sound) (batch : UInt64) : (o.idled batch).Sound := by
  unfold PollHistory.idled
  split
  · exact h
  · exact ⟨h.producers.count _, h.position, h.windows⟩

variable [DecidableEq P]

theorem produce (h : o.Sound) {producers : Producers cap P}
    (hstep : Producers.Step o.producers producers) :
    { o with producers }.Sound := by
  have hgating := h.producers.gating_step hstep
  refine ⟨h.producers.step hstep, ?_, ?_⟩
  · have hposition := h.position
    simp only [Poller.position] at hposition ⊢
    rw [hgating, hposition]
  · simp only [hgating]
    exact h.windows

/-- What callbacks do in between does not keep a poll from releasing its window. -/
theorem polled (h : o.Sound) {visit : Int64 → Act (PollHistory cap P L) Unit}
    (modest : Modest visit) {batch : UInt64} {win : Window}
    (hopen : Poller.openWindow sequencerPart pollerPart batch o =
      .ok (some win) { o with poller := o.poller.claim win })
    (first : win.first.toInt = o.producers.sequencer.gating.toInt + 1)
    (le : win.first.toInt ≤ win.last.toInt)
    (read : ∀ t ≤ win.last.toInt, t ∈ o.producers.published) :
    Polled visit o win.last.toInt ((poll batch visit).outcome o) ∧
      ((poll batch visit).outcome o).2.Sound := by
  have hstart := h.producers.standing.start_le
  have hroom := h.producers.standing.room
  have hclaimed := h.producers.standing.claimed _ (read _ (le_refl _))
  have hpos := cap.one_le_slots
  set o₁ : PollHistory cap P L := { o with poller := o.poller.claim win } with ho₁
  have hdrained := drained modest win.sequences
    (o := { o₁ with windows := o.windows ++ [win] }) h.producers
  set r := (drain visit win).outcome o₁ with hr
  obtain ⟨hproducers, hpoller, hwindows, k, hk, hhanded, hending⟩ :
    Drained visit win.sequences { o₁ with windows := o.windows ++ [win] } r := hdrained
  obtain ⟨hsound, hgating, hgrown⟩ := h.producers.run hproducers
  have hrelease : Poller.release sequencerPart pollerPart win r.2 = .ok () _ :=
    Poller.release_eq lawful_sequencerPart lawful_pollerPart
      (by rw [first]; exact congrArg (Int64.toInt · + 1) hgating.symm) le (by omega)
  have hrun : (poll batch visit).outcome o = (r.1.map some, sequencerPart.join _ _) :=
    Poller.poll_outcome (drain visit) hopen hrelease
  rw [hrun]
  rw [win.map_toInt_take, first] at hhanded
  rw [win.length_sequences] at hk hending
  have hsize := win.size_eq
  refine ⟨⟨rfl, ⟨win, hwindows, first, rfl⟩, k, by omega, ?_, ?_⟩, ?_⟩
  · rw [← min_eq_left hk]
    exact hhanded
  · rcases hending with ⟨hok, hall⟩ | ⟨e, s, o₂, he, hlast, hvisit⟩
    · refine Or.inl ⟨by rw [hok]; rfl, by omega⟩
    · refine Or.inr ⟨e, s, o₂, r.2, by rw [he]; rfl, ?_, by rw [hvisit, ← he]⟩
      have hs : ((win.sequences.take k).map Int64.toInt).getLast? = some s.toInt := by
        rw [List.getLast?_map, hlast]
        rfl
      rw [win.map_toInt_take, min_eq_left hk] at hs
      have := last_of_consecutive hs
      omega
  · have hposition : Poller.position r.2.poller (Poller.afterRelease win r.2.producers.sequencer) =
        win.last := by
      rw [hpoller]
      exact o.poller.position_claim_afterRelease win _
    refine ⟨hsound.release ?_ fun t ht => hgrown (read t ht), hposition, ?_⟩
    · rw [hgating]
      omega
    · change (r.2.windows.flatMap _) = consecutive 0 (win.last.toInt + 1).toNat
      rw [hwindows, List.flatMap_append, h.windows, List.flatMap_singleton,
        win.map_toInt_sequences]
      change _ ++ consecutive win.first.toInt win.size = _
      rw [show win.first.toInt = 0 + (o.producers.sequencer.gating.toInt + 1).toNat by omega,
        consecutive_append, hsize, first]
      congr 1
      omega

/-- A poll finds the greatest published run that its batch admits. -/
theorem poll (h : o.Sound) {visit : Int64 → Act (PollHistory cap P L) Unit} (modest : Modest visit)
    (batch : UInt64) :
    ∃ last : ℤ, IsGreatest (publishedRuns o.producers.published o.producers.sequencer.gating.toInt
        (o.producers.sequencer.gating.toInt + min batch.toNat cap.slots)) last ∧
      ((PollHistory.poll batch visit).outcome o).2.Sound ∧
      (last = o.producers.sequencer.gating.toInt ∧
          (PollHistory.poll batch visit).outcome o = (.ok none, o.idled batch) ∨
        o.producers.sequencer.gating.toInt < last ∧
          Polled visit o last ((PollHistory.poll batch visit).outcome o)) := by
  have hread := h.producers.standing.released
  by_cases hb : batch = 0
  · have hrun : (PollHistory.poll batch visit).outcome o = (.ok none, o.idled batch) := by
      subst hb
      exact Act.outcome_ok (Poller.poll_none _ (Poller.openWindow_zero o))
    refine ⟨o.producers.sequencer.gating.toInt, ?_, ?_, Or.inl ⟨rfl, hrun⟩⟩
    · subst hb
      exact isGreatest_publishedRuns (le_refl _) (by simp) (by omega) (by simp)
    · rw [hrun]
      exact h.idled batch
  · obtain ⟨last, hgreatest, hopen⟩ := Poller.openWindow_eq lawful_sequencerPart lawful_pollerPart
      (w := o) h.producers.standing h.position (le_refl _) hread hb
    obtain ⟨hle, -, hall⟩ := hgreatest.1
    refine ⟨last.toInt, hgreatest, ?_⟩
    unfold Poller.windowTo at hopen
    by_cases hnone : last = o.producers.sequencer.gating
    · rw [if_pos hnone] at hopen
      have hrun : (PollHistory.poll batch visit).outcome o = (.ok none, o.idled batch) := by
        rw [PollHistory.idled, if_neg hb]
        exact Act.outcome_ok (Poller.poll_none _ hopen)
      rw [hrun]
      exact ⟨h.idled batch, Or.inl ⟨by rw [hnone], rfl⟩⟩
    · rw [if_neg hnone] at hopen
      have hne : last.toInt ≠ o.producers.sequencer.gating.toInt :=
        fun he => hnone (Int64.toInt_inj.mp he)
      have hlt := last.toInt_lt
      have hfirst : (o.producers.sequencer.gating + 1).toInt =
        o.producers.sequencer.gating.toInt + 1 :=
        Checked.toInt_succ (by omega)
      obtain ⟨hpolled, hsound⟩ := h.polled modest hopen hfirst
        (show (o.producers.sequencer.gating + 1).toInt ≤ last.toInt by omega) (by
          intro t ht
          by_cases hold : t ≤ o.producers.sequencer.gating.toInt
          · exact hread t hold
          · exact hall t (by omega) ht)
      exact ⟨hsound, Or.inr ⟨by omega, hpolled⟩⟩

theorem step {o' : PollHistory cap P L} (h : o.Sound) (hstep : Step o o') : o'.Sound := by
  cases hstep with
  | produce hproducers => exact h.produce hproducers
  | poll batch modest =>
    obtain ⟨_, _, hsound, _⟩ := h.poll modest batch
    exact hsound

end Sound

section Prefix
variable [DecidableEq P] {producer consumer : Multiplicity} {metrics : Bool} {own : L}
  {o : PollHistory cap P L}

theorem Reachable.sound (h : Reachable producer consumer metrics own o) : o.Sound := by
  induction h with
  | refl => exact sound_new cap producer consumer metrics own
  | tail _ hstep ih => exact ih.step hstep

/-- In every reachable state, the windows handed out so far are the sequences from
zero to gating, and the next poll drains the greatest published run after gating
that its batch admits. It is idle exactly if that run is empty, and then changes
nothing but the count of idle polls. Producers claim only while one more lap of words is
left after the claim. -/
theorem poll_drains_published (h : Reachable producer consumer metrics own o)
    {visit : Int64 → Act (PollHistory cap P L) Unit} (modest : Modest visit) (batch : UInt64) :
    (o.windows.flatMap fun win => win.sequences.map Int64.toInt) =
      consecutive 0 (o.producers.sequencer.gating.toInt + 1).toNat ∧
    ∃ last : ℤ, IsGreatest (publishedRuns o.producers.published o.producers.sequencer.gating.toInt
        (o.producers.sequencer.gating.toInt + min batch.toNat cap.slots)) last ∧
      (((poll batch visit).outcome o).1 = .ok none ↔ last = o.producers.sequencer.gating.toInt) ∧
      (last = o.producers.sequencer.gating.toInt →
        ((poll batch visit).outcome o).2 = o.idled batch) ∧
      (o.producers.sequencer.gating.toInt < last →
        Polled visit o last ((poll batch visit).outcome o)) := by
  refine ⟨h.sound.windows, ?_⟩
  obtain ⟨last, hgreatest, -, ⟨hlast, hrun⟩ | ⟨hlt, hpolled⟩⟩ := h.sound.poll modest batch
  · refine ⟨last, hgreatest, ?_, fun _ => by rw [hrun], fun hlt => by omega⟩
    simp only [hrun, hlast]
  · refine ⟨last, hgreatest, ⟨fun hidle => ?_, fun he => by omega⟩, fun he => by omega,
      fun _ => hpolled⟩
    obtain ⟨_, _, _, ⟨hok, _⟩ | ⟨_, _, _, _, he, _⟩⟩ := hpolled.handed
    · rw [hidle] at hok
      simp at hok
    · rw [hidle] at he
      simp at he

/-- A callback that gives up on sequence 0 leaves gating there. -/
theorem poll_drains_published_raised :
    ∃ (o : PollHistory .two Unit Unit) (visit : Int64 → Act (PollHistory .two Unit Unit) Unit),
      Reachable .multi .multi true () o ∧ Modest visit ∧
      ((poll 5 visit).outcome o).1 = .error (.raised "enough") ∧
      ((poll 5 visit).outcome o).2.producers.sequencer.gating.toInt = 0 := by
  have h₀ : Reachable .multi .multi true ()
      (new .two .multi .multi true () : PollHistory .two Unit Unit) := .refl
  have h₁ := h₀.tail (.produce (.claim (p := ()) (.draw (t := ⟨0, -2⟩) ⟨rfl, nofun⟩
    (show Capacity.two.checkClaim 1 = .ok 1 from rfl) rfl (Producers.lasts_of_few _ (by decide)))))
  have h₂ := h₁.tail (.produce (.claim (p := ()) (.trust rfl (by decide))))
  have h₃ := h₂.tail (.produce (.claim (p := ()) (.redeem rfl rfl rfl)))
  have hown : ∀ t : ℤ, (0 : Int64).toInt ≤ t → t ≤ (0 : Int64).toInt → t = 0 :=
    fun t ht ht' => Int.le_antisymm ht' ht
  have h₄ := h₃.tail (.produce (.publish (fun t ht ht' => ⟨(), by rw [hown t ht ht']; rfl⟩)
      (show (0 : Int64) ≤ 0 by decide) nofun (Or.inr ⟨rfl, rfl⟩)))
  have modest : Modest fun _ : Int64 =>
      (throw (.raised "enough") : Act (PollHistory .two Unit Unit) Unit) :=
    fun _ _ _ => ⟨.refl, rfl, rfl, rfl⟩
  obtain ⟨-, last, hgreatest, -, -, hpolled⟩ := poll_drains_published h₄ modest 5
  have hlo : 0 ≤ last := by
    refine hgreatest.2 ⟨by decide, by decide, fun t (ht : -1 < t) ht' => ?_⟩
    rw [show t = 0 by omega]
    rfl
  have hhi : ¬ 1 ≤ last := by
    intro hle
    have hone : Holder.unclaimed = Holder.published := hgreatest.1.2.2 1 (by decide) hle
    simp at hone
  have hlast := (hpolled (show -1 < last by omega)).gating
  exact ⟨_, _, h₄, modest, rfl, by omega⟩

end Prefix

end PollHistory

end LapRing
