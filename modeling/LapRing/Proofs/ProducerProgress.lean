import LapRing.Proofs.RingParties

/-!
# Waiting producers do not wait for each other

Shared producers take their sequences before there is room for them, so many of
them may wait far ahead of gating. The first sequence after gating decides who
can go on. It is published, and a poll finds it; or a producer owns it and can
publish it; or it belongs to a claim that still waits, and that claim has room:
it ends within a lap of gating, since no claim is larger than a lap.
-/
namespace LapRing

/-- The claim that a producer at this stage is making. -/
def Stage.openClaim? : Stage → Option OpenClaim
  | .idle => none
  | .asking b | .waiting b | .seen b _ | .cleared b _ => some b

namespace Producers
variable {cap : Capacity} {P : Type} {c : Producers cap P} {p : P}

/-- A producer is inside a claim that waits for room. -/
def Waits (c : Producers cap P) (p : P) (b : OpenClaim) : Prop :=
  (c.stages p).openClaim? = some b ∧ b.patient = true

/-- Every pending sequence is within the claim of the producer it is pending for. -/
structure Accounted (c : Producers cap P) : Prop where
  pending : ∀ t p, c.holder t = .pending p →
    ∃ b, c.Waits p b ∧ b.last.toInt < t ∧ t ≤ b.last.toInt + b.size.toInt
  seen : ∀ p b g, c.stages p = .seen b g → b.patient = true → b.ticket.wrapPoint ≤ g

theorem accounted_new (cap : Capacity) (producer : Multiplicity) (metrics : Bool) :
    (new cap producer metrics : Producers cap P).Accounted := by
  refine ⟨?_, nofun⟩
  intro t p (ht : (if t < 0 then Holder.published else .unclaimed) = .pending p)
  split at ht <;> simp at ht

namespace Accounted

theorem not_pending (h : c.Accounted) (free : ∀ b, ¬ c.Waits p b) (t : ℤ) :
    c.holder t ≠ .pending p := by
  intro ht
  obtain ⟨b, hb, -⟩ := h.pending t p ht
  exact free b hb

theorem not_pending_of_impatient (h : c.Accounted) {b : OpenClaim}
    (hb : (c.stages p).openClaim? = some b)
    (impatient : b.patient = false) (t : ℤ) : c.holder t ≠ .pending p := by
  refine h.not_pending ?_ t
  rintro b' ⟨hb', hpatient⟩
  obtain rfl : b = b' := Option.some.inj (hb.symm.trans hb')
  rw [impatient] at hpatient
  simp at hpatient

variable [DecidableEq P]

/-- What is pending for others stays so, and what is pending for `p` is within the
claim of its new stage. -/
theorem goTo (h : c.Accounted) {b : Producers cap P} {stage : Stage} (stages : b.stages = c.stages)
    (others : ∀ t q, q ≠ p → b.holder t = .pending q → c.holder t = .pending q)
    (own : ∀ t, b.holder t = .pending p →
      ∃ claim, stage.openClaim? = some claim ∧ claim.patient = true ∧
        claim.last.toInt < t ∧ t ≤ claim.last.toInt + claim.size.toInt)
    (seen : ∀ claim g, stage = .seen claim g → claim.patient = true →
      claim.ticket.wrapPoint ≤ g) :
    (b.goTo p stage).Accounted := by
  have hself : (b.goTo p stage).stages p = stage := Function.update_self _ _ _
  have hother : ∀ q, q ≠ p → (b.goTo p stage).stages q = c.stages q := by
    intro q hq
    rw [← stages]
    exact Function.update_of_ne hq _ _
  constructor
  · intro t q (ht : b.holder t = .pending q)
    by_cases hq : q = p
    · subst hq
      obtain ⟨claim, hclaim, hpatient, hin⟩ := own t ht
      exact ⟨claim, ⟨by rw [hself, hclaim], hpatient⟩, hin⟩
    · obtain ⟨claim, hclaim, hin⟩ := h.pending t q (others t q hq ht)
      exact ⟨claim, ⟨by rw [hother q hq]; exact hclaim.1, hclaim.2⟩, hin⟩
  · intro q claim g hstage
    by_cases hq : q = p
    · rw [hq, hself] at hstage
      exact seen claim g hstage
    · rw [hother q hq] at hstage
      exact h.seen q claim g hstage

/-- A producer goes on with the claim that it is making. -/
theorem goOn (h : c.Accounted) {b : OpenClaim} {stage : Stage} (s : Sequencer cap)
    (hp : (c.stages p).openClaim? = some b) (same : stage.openClaim? = some b)
    (seen : ∀ claim g, stage = .seen claim g → claim.patient = true →
      claim.ticket.wrapPoint ≤ g) :
    ({ c with sequencer := s }.goTo p stage).Accounted := by
  refine h.goTo rfl (fun _ _ _ ht => ht) (fun t ht => ?_) seen
  obtain ⟨claim, ⟨hclaim, hpatient⟩, hin⟩ := h.pending t p ht
  obtain rfl : b = claim := Option.some.inj (hp.symm.trans hclaim)
  exact ⟨b, same, hpatient, hin⟩

/-- A producer with nothing pending begins or ends a claim that does not wait. -/
theorem turn (h : c.Accounted) {stage : Stage} (s : Sequencer cap)
    (nothing : ∀ t, c.holder t ≠ .pending p)
    (seen : ∀ claim g, stage = .seen claim g → claim.patient = true →
      claim.ticket.wrapPoint ≤ g) :
    ({ c with sequencer := s }.goTo p stage).Accounted :=
  h.goTo rfl (fun _ _ _ ht => ht) (fun t ht => absurd ht (nothing t)) seen

omit [DecidableEq P] in
theorem not_pending_of_idle (h : c.Accounted) (hp : c.stages p = .idle) (t : ℤ) :
    c.holder t ≠ .pending p := by
  refine h.not_pending ?_ t
  rintro b ⟨hb, -⟩
  rw [hp] at hb
  simp [Stage.openClaim?] at hb

/-- What a claim asks for is pending within it. -/
theorem draw (h : c.Accounted) (hc : c.Sound) (hp : c.Ready p) {requested : UInt64} {n : Int64}
    {t : Ticket} {s : Sequencer cap} (hn : cap.checkClaim requested = .ok n)
    (hs : Sequencer.request n c.sequencer = .ok t s) :
    ({ c with
      sequencer := s
      holder := assign (.pending p) c.sequencer.claimed.toInt s.claimed.toInt c.holder }.goTo p
        (.asking ⟨true, c.sequencer.claimed, n, t⟩)).Accounted := by
  obtain ⟨hsize, hle⟩ := Capacity.toInt_of_checkClaim hn
  have hroom := hc.room
  obtain ⟨rfl, rfl⟩ := hc.request_spec hn hs
  have hhigh : (c.sequencer.claimed + n).toInt = c.sequencer.claimed.toInt + n.toInt :=
    Sequencer.toInt_high cap c.sequencer.claimed n hc.start_le hsize (by omega)
  have hend := Sequencer.claimed_asked_le (s := c.sequencer) (n := n) (by omega)
  refine h.goTo rfl ?_ ?_ nofun
  · intro u q hq (hu : assign _ _ _ _ u = _)
    by_cases hin : c.sequencer.claimed.toInt < u ∧ u ≤ (c.sequencer.asked n).claimed.toInt
    · rw [assign_of_mem _ hin.1 hin.2] at hu
      exact absurd (Holder.pending.inj hu).symm hq
    · rwa [assign_of_not_mem _ hin] at hu
  · intro u (hu : assign _ _ _ _ u = _)
    by_cases hin : c.sequencer.claimed.toInt < u ∧ u ≤ (c.sequencer.asked n).claimed.toInt
    · exact ⟨_, rfl, rfl, hin.1, show u ≤ c.sequencer.claimed.toInt + n.toInt by omega⟩
    · rw [assign_of_not_mem _ hin] at hu
      exact absurd hu (h.not_pending_of_idle hp.1 u)

/-- A claim that returns leaves nothing pending. -/
theorem redeem (h : c.Accounted) {b : OpenClaim} {g : Int64} (hp : c.stages p = .cleared b g)
    (s : Sequencer cap) {high : ℤ} (hhigh : high = b.last.toInt + b.size.toInt) :
    ({ c with
      sequencer := s
      holder := assign (.owned p) b.last.toInt high c.holder }.goTo p .idle).Accounted := by
  have hold : ∀ t q, assign (.owned p) b.last.toInt high c.holder t = .pending q →
      c.holder t = .pending q ∧ ¬ (b.last.toInt < t ∧ t ≤ high) := by
    intro t q ht
    by_cases hin : b.last.toInt < t ∧ t ≤ high
    · rw [assign_of_mem _ hin.1 hin.2] at ht
      simp at ht
    · rw [assign_of_not_mem _ hin] at ht
      exact ⟨ht, hin⟩
  refine h.goTo rfl (fun t q _ ht => (hold t q ht).1) (fun t ht => ?_) nofun
  obtain ⟨hpending, hout⟩ := hold t p ht
  obtain ⟨claim, ⟨hclaim, -⟩, hin⟩ := h.pending t p hpending
  rw [hp] at hclaim
  obtain rfl : b = claim := Option.some.inj hclaim
  exact absurd ⟨hin.1, by omega⟩ hout

theorem claim {c' : Producers cap P} (h : c.Accounted) (hc : c.Sound) (hclaim : Claim p c c') :
    c'.Accounted := by
  cases hclaim with
  | draw hp hn hs _ => exact h.draw hc hp hn hs
  | look hp _ _ => exact h.turn c.sequencer (h.not_pending_of_idle hp.1) nofun
  | trust hp _ => exact h.goOn c.sequencer (by rw [hp]; rfl) rfl nofun
  | doubt hp _ => exact h.goOn c.sequencer (by rw [hp]; rfl) rfl nofun
  | wait _ _ => exact ⟨h.pending, h.seen⟩
  | observe hp reached =>
    refine h.goOn c.sequencer (by rw [hp]; rfl) rfl ?_
    rintro claim g ⟨⟩ hpatient
    exact reached hpatient
  | remember hp _ => exact h.goOn _ (by rw [hp]; rfl) rfl nofun
  | refuse hp full =>
    refine h.turn _ (h.not_pending_of_impatient (by rw [hp]; rfl) ?_) nofun
    by_contra hpatient
    exact full (h.seen p _ _ hp (by simpa using hpatient))
  | redeem hp patient hs =>
    have hcleared : c.SoundStage p (.cleared _ _) := hp ▸ hc.stages p
    obtain ⟨rfl, -⟩ := Sound.redeem_spec hcleared patient hs
    exact h.redeem hp _ (Sound.high_eq hcleared.1)
  | grab hp _ _ _ =>
    have hcleared : c.SoundStage p (.cleared _ _) := hp ▸ hc.stages p
    exact h.redeem hp _ (Sound.high_eq hcleared.1)
  | lose hp impatient _ =>
    exact h.turn c.sequencer (h.not_pending_of_impatient (by rw [hp]; rfl) impatient) nofun

theorem step {c' : Producers cap P} (h : c.Accounted) (hc : c.Sound) (hstep : Step c c') :
    c'.Accounted := by
  cases hstep with
  | claim hclaim => exact h.claim hc hclaim
  | publish own _ _ _ =>
    refine ⟨fun t q (ht : assign _ _ _ _ t = _) => ?_, h.seen⟩
    unfold assign at ht
    split at ht
    · simp at ht
    · exact h.pending t q ht

end Accounted

namespace Sound
variable {b : OpenClaim}

theorem openClaim (h : c.Sound) (hb : c.Waits p b) : c.SoundOpenClaim p b := by
  have hstage := h.stages p
  have hsome := hb.1
  cases hp : c.stages p with
  | idle =>
    rw [hp] at hsome
    simp [Stage.openClaim?] at hsome
  | asking b' | waiting b' =>
    rw [hp] at hstage hsome
    obtain rfl : b' = b := Option.some.inj hsome
    exact hstage
  | seen b' g | cleared b' g =>
    rw [hp] at hstage hsome
    obtain rfl : b' = b := Option.some.inj hsome
    exact hstage.1

/-- A claim that begins right after gating, or before, has room. -/
theorem wrapPoint_le (h : c.Sound) (hb : c.Waits p b)
    (begun : b.last.toInt ≤ c.sequencer.gating.toInt) :
    b.ticket.wrapPoint ≤ c.sequencer.gating := by
  have hsize := (h.openClaim hb).size_le
  have hwrap := wrapPoint_eq (h.openClaim hb)
  rw [Int64.le_iff_toInt_le]
  omega

end Sound

end Producers

namespace RingParties
variable {cap : Capacity} {P Q : Type} {c : RingParties cap P Q}

/-- While nobody drains, the position is gating. -/
theorem Sound.position_eq (h : c.Sound) (nobody : ∀ q win, c.visits q ≠ .draining win) :
    c.position = c.sequencer.gating := by
  have hle := h.gating_le
  apply Int64.toInt_inj.mp
  by_contra hne
  obtain ⟨q, win, hq, -⟩ := h.covered (c.sequencer.gating.toInt + 1) (by omega) (by omega)
  exact nobody q win hq

/-- A poll at gating opens a window if the next sequence is published. -/
theorem Sound.openWindow (h : c.Sound) (nobody : ∀ q win, c.visits q ≠ .draining win)
    (next : c.sequencer.gating.toInt + 1 ∈ c.published) {batch : UInt64} (hb : batch ≠ 0) :
    ∃ win : Window, win.first.toInt = c.sequencer.gating.toInt + 1 ∧ win.first ≤ win.last ∧
      Poller.openWindow Part.first Part.second batch (c.sequencer, c.poller) =
        .ok (some win) (c.sequencer, c.poller.claim win) := by
  have hpos := cap.slots_pos
  have hstart := h.start_le
  have hroom := h.producers.standing.room
  have hclaimed := h.producers.standing.claimed _ next
  have hone : batch.toNat ≠ 0 := fun he => hb (UInt64.toNat_inj.mp he)
  obtain ⟨last, hgreatest, hopen⟩ := Poller.openWindow_eq Part.lawful_first Part.lawful_second
    (w := (c.sequencer, c.poller)) h.producers.standing (h.position_eq nobody) (le_refl _)
    h.producers.standing.released hb
  have hmore : c.sequencer.gating.toInt + 1 ≤ last.toInt := by
    refine hgreatest.2 ⟨by omega, ?_, fun t ht ht' => ?_⟩
    · omega
    · rw [show t = c.sequencer.gating.toInt + 1 from le_antisymm ht' ht]
      exact next
  have hne : last ≠ c.sequencer.gating := by
    rintro rfl
    omega
  have hfirst : (c.sequencer.gating + 1).toInt = c.sequencer.gating.toInt + 1 :=
    Checked.toInt_succ (by omega)
  rw [Poller.windowTo, if_neg hne] at hopen
  refine ⟨⟨c.sequencer.gating + 1, last⟩, hfirst, ?_, hopen⟩
  rw [Int64.le_iff_toInt_le, hfirst]
  exact hmore

variable [DecidableEq P] [DecidableEq Q] {producer consumer : Multiplicity} {metrics : Bool}

theorem Reachable.accounted (h : c.Reachable producer consumer metrics) :
    c.toProducers.Accounted := by
  induction h with
  | refl => exact Producers.accounted_new cap producer metrics
  | tail hrun hstep ih =>
    cases hstep with
    | produce hproducers => exact ih.step (Reachable.sound hrun).producers hproducers
    | search hsearch =>
      cases hsearch with
      | scan | scanIdle | settle | lose => exact ⟨ih.pending, ih.seen⟩
    | release _ _ => exact ⟨ih.pending, ih.seen⟩

/-- In every reachable state in which a producer waits, somebody can go on. A
producer owns sequences that it can publish, a consumer drains a window that it
can release, a claim that waits has room, or every poll finds a window. -/
theorem waiting_progress (h : c.Reachable producer consumer metrics) {p : P} {b : OpenClaim}
    (hp : c.toProducers.Waits p b) :
    (∃ t r, c.holder t = .owned r) ∨ (∃ q win, c.visits q = .draining win) ∨
    (∃ r b, c.toProducers.Waits r b ∧ b.ticket.wrapPoint ≤ c.sequencer.gating) ∨
    ∀ batch ≠ 0, ∃ win : Window,
      win.first.toInt = c.sequencer.gating.toInt + 1 ∧ win.first ≤ win.last ∧
      Poller.openWindow Part.first Part.second batch (c.sequencer, c.poller) =
        .ok (some win) (c.sequencer, c.poller.claim win) := by
  have hsound := h.sound
  by_cases hroom : ∃ r b, c.toProducers.Waits r b ∧ b.ticket.wrapPoint ≤ c.sequencer.gating
  · exact Or.inr (Or.inr (Or.inl hroom))
  by_cases hdrain : ∃ q win, c.visits q = .draining win
  · exact Or.inr (Or.inl hdrain)
  have hnobody : ∀ q win, c.visits q ≠ .draining win := fun q win hq => hdrain ⟨q, win, hq⟩
  -- without room, the claim of `p` begins later, so the sequence after gating is claimed
  have hlast := (hsound.producers.openClaim hp).last_le
  have hlater : c.sequencer.gating.toInt < b.last.toInt := by
    by_contra hle
    exact hroom ⟨p, b, hp, hsound.producers.wrapPoint_le hp (by omega)⟩
  cases hnext : c.holder (c.sequencer.gating.toInt + 1) with
  | unclaimed =>
    have := (hsound.producers.unclaimed _).mp hnext
    omega
  | pending r =>
    obtain ⟨b', hb', hfirst, -⟩ := h.accounted.pending _ r hnext
    exact absurd ⟨r, b', hb', hsound.producers.wrapPoint_le hb' (by omega)⟩ hroom
  | owned r => exact Or.inl ⟨_, r, hnext⟩
  | published =>
    exact Or.inr (Or.inr (Or.inr fun batch hb => hsound.openWindow hnobody hnext hb))

/-- A full ring that is not read yet: the second producer waits, nobody else is in
the middle of anything, and a poll finds the lap of the first. -/
theorem waiting_progress_full :
    ∃ (c : RingParties .two ℕ ℕ) (b : OpenClaim), c.Reachable .multi .multi false ∧
      c.toProducers.Waits 1 b ∧ ¬ b.ticket.wrapPoint ≤ c.sequencer.gating ∧
      ∃ win : Window, win.first.toInt = 0 ∧ win.first ≤ win.last ∧
        Poller.openWindow Part.first Part.second 1 (c.sequencer, c.poller) =
          .ok (some win) (c.sequencer, c.poller.claim win) := by
  have htwo : Capacity.two.checkClaim 2 = .ok 2 := rfl
  have h₀ : Reachable .multi .multi false
      (new .two .multi .multi false : RingParties .two ℕ ℕ) := .refl
  have h₁ := h₀.tail (.produce (.claim (p := 0) (.draw (t := ⟨1, -1⟩) ⟨rfl, nofun⟩ htwo rfl
    (Producers.lasts_of_few _ (by decide)))))
  have h₂ := h₁.tail (.produce (.claim (p := 0) (.trust rfl (by decide))))
  have h₃ := h₂.tail (.produce (.claim (p := 0) (.redeem rfl rfl rfl)))
  have hown : ∀ t : ℤ, (0 : Int64).toInt ≤ t → t ≤ (1 : Int64).toInt → t = 0 ∨ t = 1 :=
    fun t (_ : 0 ≤ t) (_ : t ≤ 1) => by omega
  have h₄ : Reachable .multi .multi false
      ⟨⟨⟨1, -1, .shared (-1) (.markRange (.new .two) 0 1), none⟩, _, _⟩, .competing (-1), _⟩ :=
    h₃.tail (.produce (.publish
      (fun t ht ht' => ⟨0, by rcases hown t ht ht' with rfl | rfl <;> rfl⟩)
      (show (0 : Int64) ≤ 1 by decide) nofun (Or.inl rfl)))
  have h₅ := h₄.tail (.produce (.claim (p := 1) (.draw (t := ⟨3, 1⟩) ⟨rfl, nofun⟩ htwo rfl
    (Producers.lasts_of_few _ (by decide)))))
  have h₆ := h₅.tail (.produce (.claim (p := 1) (.doubt rfl (by decide))))
  refine ⟨_, _, h₆, ⟨rfl, rfl⟩, by decide, ?_⟩
  rcases waiting_progress h₆ (p := 1) ⟨rfl, rfl⟩ with
    ⟨t, r, hr⟩ | ⟨q, win, hq⟩ | ⟨r, b, hr, hle⟩ | hpoll
  · change Producers.assign (.pending 1) 1 3 (Producers.assign .published (-1) 1
      (Producers.assign (.owned 0) (-1) 1
        (Producers.assign (.pending 0) (-1) 1 (Producers.new .two .multi false).holder))) t =
          .owned r at hr
    simp only [Producers.assign, Producers.new] at hr
    grind
  · simp [new] at hq
  · by_cases hone : r = 1
    · subst hone
      obtain rfl : (⟨true, 1, 2, 3, 1⟩ : OpenClaim) = b := Option.some.inj hr.1
      exact absurd hle (by decide)
    · have hsome := hr.1
      simp only [Producers.goTo, Function.update_apply, if_neg hone] at hsome
      split at hsome <;> simp [Stage.openClaim?, new, Producers.new] at hsome
  · exact hpoll 1 (by decide)

end RingParties

end LapRing
