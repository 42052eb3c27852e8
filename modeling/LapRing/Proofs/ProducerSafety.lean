import LapRing.Proofs.Producers
import Mathlib.Logic.Relation

/-!
# Producers keep their invariant

No access of a producer breaks the invariant of all of them, whatever the others
did since its last one: what it read of gating is still not ahead of gating, and
the sequences after the last one claimed are still nobody's when it takes them.
-/
namespace LapRing.Producers
variable {cap : Capacity} {P : Type} {c : Producers cap P}

namespace Sound

/-- Consumers may release what is published. -/
theorem release (h : c.Sound) {win : Window} (lo : c.sequencer.gating.toInt ≤ win.last.toInt)
    (read : ∀ t ≤ win.last.toInt, t ∈ c.published) :
    { c with sequencer := Poller.afterRelease win c.sequencer }.Sound := by
  have hkeep : ∀ q, Keeps q c { c with sequencer := Poller.afterRelease win c.sequencer } := by
    intro q
    exact ⟨rfl, lo, le_refl _, fun _ => rfl, fun _ ht => ht⟩
  refine ⟨(h.standing.withGating lo read).count _, h.unclaimed, ?_,
    fun q => (h.stages q).keep (hkeep q), h.alone⟩
  intro t q ht
  have := h.near t q ht
  change t ≤ win.last.toInt + cap.slots
  omega

/-- Counting something changes nothing else. -/
theorem count (h : c.Sound) (f : Tally → Tally) :
    { c with sequencer := c.sequencer.count f }.Sound := by
  have hkeep : ∀ q, Keeps q c { c with sequencer := c.sequencer.count f } := by
    intro q
    exact ⟨rfl, le_refl _, le_refl _, fun _ => rfl, fun _ ht => ht⟩
  exact ⟨h.standing.count f, h.unclaimed, h.near, fun q => (h.stages q).keep (hkeep q), h.alone⟩

section Accesses
variable {p : P} {b : OpenClaim} {g : Int64}

/-- While a sole producer makes a claim, it is the only one to do so. -/
theorem turn_of_stage (h : c.Sound) (hp : c.stages p ≠ .idle) :
    c.sequencer.producer = .single → ∀ q, q ≠ p → c.stages q = .idle := by
  intro hsingle q hq
  by_contra hne
  exact hq (h.alone hsingle q p hne hp)

theorem turn_of_ready (hp : c.Ready p) :
    c.sequencer.producer = .single → ∀ q, q ≠ p → c.stages q = .idle :=
  fun hsingle q _ => hp.2 hsingle q

/-- The wrap point of a claim lies one lap before its end. -/
theorem wrapPoint_eq (hb : c.SoundOpenClaim p b) :
    b.ticket.wrapPoint.toInt = b.last.toInt + b.size.toInt - cap.slots := by
  have hsize := hb.size
  have hle := hb.size_le
  have hroom := hb.room
  rw [hb.ticket, Sequencer.toInt_wrapPoint cap b.last b.size hb.last hsize (by omega)]

theorem high_eq (hb : c.SoundOpenClaim p b) :
    b.ticket.high.toInt = b.last.toInt + b.size.toInt := by
  have hsize := hb.size
  have hle := hb.size_le
  have hroom := hb.room
  rw [hb.ticket, Sequencer.toInt_high cap b.last b.size hb.last hsize (by omega)]

theorem observed_gating (h : c.Sound) : c.Observed c.sequencer.gating :=
  ⟨h.standing.start_le, le_refl _⟩

theorem observed_cached (h : c.Sound) : c.Observed c.sequencer.cached :=
  ⟨h.standing.started, h.standing.cached_le⟩

/-- A claim is cleared by any value of gating that has reached its wrap point. -/
theorem cleared (hb : c.SoundOpenClaim p b) (hg : c.Observed g) (reached : b.ticket.wrapPoint ≤ g) :
    c.SoundStage p (.cleared b g) := by
  have hwrap := wrapPoint_eq hb
  rw [Int64.le_iff_toInt_le] at reached
  exact ⟨hb, hg, by omega⟩

/-- A claim that opens after the last sequence claimed. -/
theorem soundOpenClaim_next (h : c.Sound) {n : Int64} (size : 1 ≤ n.toInt)
    (size_le : n.toInt ≤ cap.slots) {patient : Bool} {b : Producers cap P}
    (hclaimed : c.sequencer.claimed.toInt ≤ b.sequencer.claimed.toInt)
    (lasts : patient → c.sequencer.claimed.toInt + n.toInt + cap.slots < 2 ^ 63)
    (sole : b.sequencer.producer = .single → b.sequencer.claimed = c.sequencer.claimed)
    (shared : b.sequencer.producer = .multi → patient → ∀ t, c.sequencer.claimed.toInt < t →
      t ≤ c.sequencer.claimed.toInt + n.toInt → b.holder t = .pending p) :
    b.SoundOpenClaim p
      ⟨patient, c.sequencer.claimed, n, Sequencer.ticketAfter cap c.sequencer.claimed n⟩ :=
  ⟨size, size_le, rfl, h.start_le, hclaimed, h.room, lasts, sole, shared⟩

theorem seen (h : c.Sound) (hp : c.stages p = .seen b g) : c.SoundOpenClaim p b ∧ c.Observed g := by
  have hstage := h.stages p
  rwa [hp] at hstage

/-- What asking for `n` sequences gives. -/
theorem request_spec (h : c.Sound) {requested : UInt64} {n : Int64} {t : Ticket}
    {s : Sequencer cap} (hn : cap.checkClaim requested = .ok n)
    (hs : Sequencer.request n c.sequencer = .ok t s) :
    t = Sequencer.ticketAfter cap c.sequencer.claimed n ∧ s = c.sequencer.asked n := by
  obtain ⟨hsize, hle⟩ := Capacity.toInt_of_checkClaim hn
  have hroom := h.room
  rw [Sequencer.request_eq h.start_le hsize (by omega)] at hs
  obtain ⟨rfl, rfl⟩ : Sequencer.ticketAfter cap c.sequencer.claimed n = t ∧
      c.sequencer.asked n = s := by simpa using hs
  exact ⟨rfl, rfl⟩

/-- What completing a cleared claim gives. -/
theorem redeem_spec (hcleared : c.SoundStage p (.cleared b g)) (patient : b.patient)
    {high : Int64} {s : Sequencer cap}
    (hs : Sequencer.redeem b.ticket g c.sequencer = .ok high s) :
    high = b.ticket.high ∧ s = c.sequencer.granted b.ticket.high := by
  obtain ⟨hb, hg, hfits⟩ := hcleared
  have hpos := cap.one_le_slots
  have hhigh := high_eq hb
  have hlast := hb.last
  have hsize := hb.size
  have hlasts := hb.lasts patient
  rw [Sequencer.redeem_eq c.sequencer b.ticket g (by omega) (by omega)] at hs
  obtain ⟨rfl, rfl⟩ : b.ticket.high = high ∧ c.sequencer.granted b.ticket.high = s := by
    simpa using hs
  exact ⟨rfl, rfl⟩

/-- Sequences that are owned may be published: the cursor does not go back, and the
words last. -/
theorem publishable (h : c.Sound) {low high : Int64}
    (own : ∀ t, low.toInt ≤ t → t ≤ high.toInt → ∃ p, c.holder t = .owned p)
    (le : low.toInt ≤ high.toInt)
    (order : c.sequencer.producer = .single → low.toInt = c.sequencer.cursor.toInt + 1) :
    c.sequencer.Forward high ∧ 0 ≤ low.toInt ∧ high.toInt + 1 < 2 ^ 63 := by
  have hpos := cap.one_le_slots
  obtain ⟨q, hq⟩ := own low.toInt (le_refl _) le
  obtain ⟨r, hr⟩ := own high.toInt le (le_refl _)
  have hlow := h.lt_of_owned hq
  have hhigh := h.le_claimed (t := high.toInt) (by simp [hr])
  have hstart := h.standing.start_le
  have hroom := h.standing.room
  refine ⟨fun hsingle => ?_, by omega, by omega⟩
  have := order hsingle
  omega

/-- What publishing owned sequences gives. -/
theorem publish_spec (h : c.Sound) {low high : Int64} {s : Sequencer cap}
    (own : ∀ t, low.toInt ≤ t → t ≤ high.toInt → ∃ p, c.holder t = .owned p) (le : low ≤ high)
    (order : c.sequencer.producer = .single → low.toInt = c.sequencer.cursor.toInt + 1)
    (hs : Sequencer.publishRange low high c.sequencer = .ok () s ∨
      low = high ∧ Sequencer.publish high c.sequencer = .ok () s) :
    s = c.sequencer.afterPublish low high := by
  rw [Int64.le_iff_toInt_le] at le
  obtain ⟨hforward, hlow, hword⟩ := h.publishable own le order
  rcases hs with hrange | ⟨rfl, hone⟩
  · rw [Sequencer.publishRange_eq hforward hlow le hword] at hrange
    simpa using hrange.symm
  · rw [Sequencer.publish_eq hforward] at hone
    simpa using hone.symm

variable [DecidableEq P]

/-- An access that neither claims nor releases changes nothing for others. -/
theorem goTo_kept (h : c.Sound) {stage : Stage} {s : Sequencer cap}
    (producer : s.producer = c.sequencer.producer) (gating : s.gating = c.sequencer.gating)
    (claimed : s.claimed = c.sequencer.claimed) (standing : s.Standing c.published)
    (own : c.SoundStage p stage)
    (turn : c.sequencer.producer = .single → ∀ q, q ≠ p → c.stages q = .idle) :
    ({ c with sequencer := s }.goTo p stage).Sound := by
  have hkeep : ∀ q, Keeps q c { c with sequencer := s } := by
    intro q
    exact ⟨producer, by simp only [gating, le_refl], by simp only [claimed, le_refl],
      fun _ => claimed, fun _ ht => ht⟩
  refine h.goTo rfl producer standing ?_ ?_ (own.keep (hkeep p)) turn fun q _ => Or.inl (hkeep q)
  · intro t
    rw [claimed]
    exact h.unclaimed t
  · intro t q ht
    rw [gating]
    exact h.near t q ht

theorem trust (h : c.Sound) (hp : c.stages p = .asking b)
    (reached : b.ticket.wrapPoint ≤ c.sequencer.cached) :
    (c.goTo p (.cleared b c.sequencer.cached)).Sound := by
  have hb : c.SoundStage p (.asking b) := hp ▸ h.stages p
  exact h.goTo_kept (s := c.sequencer) rfl rfl rfl h.standing
    (cleared hb h.observed_cached reached) (h.turn_of_stage (by simp [hp]))

theorem doubt (h : c.Sound) (hp : c.stages p = .asking b) : (c.goTo p (.waiting b)).Sound := by
  have hb : c.SoundStage p (.asking b) := hp ▸ h.stages p
  exact h.goTo_kept (s := c.sequencer) rfl rfl rfl h.standing hb (h.turn_of_stage (by simp [hp]))

theorem observe (h : c.Sound) (hp : c.stages p = .waiting b) :
    (c.goTo p (.seen b c.sequencer.gating)).Sound := by
  have hb : c.SoundStage p (.waiting b) := hp ▸ h.stages p
  exact h.goTo_kept (s := c.sequencer) rfl rfl rfl h.standing ⟨hb, h.observed_gating⟩
    (h.turn_of_stage (by simp [hp]))

/-- Remembering an old value of gating never puts the memory ahead of gating. -/
theorem remember (h : c.Sound) (hp : c.stages p = .seen b g) {stage : Stage}
    (own : c.SoundStage p stage) :
    ({ c with sequencer := c.sequencer.withCached g }.goTo p stage).Sound := by
  obtain ⟨-, hlo, hhi⟩ := h.seen hp
  exact h.goTo_kept (Sequencer.producer_withCached _ _) (Sequencer.gating_withCached _ _)
    (Sequencer.claimed_withCached _ _) (h.standing.withCached hlo hhi) own
    (h.turn_of_stage (by simp [hp]))

theorem lose (h : c.Sound) (hp : c.stages p ≠ .idle) : (c.goTo p .idle).Sound :=
  h.goTo_kept (s := c.sequencer) rfl rfl rfl h.standing trivial (h.turn_of_stage hp)

theorem look (h : c.Sound) (hp : c.Ready p) {requested : UInt64} {n : Int64} {t : Ticket}
    (hn : cap.checkClaim requested = .ok n)
    (ht : (Sequencer.ticket cap c.sequencer.claimed n : Act (Sequencer cap) Ticket) c.sequencer =
      .ok t c.sequencer) :
    (c.goTo p (.asking ⟨false, c.sequencer.claimed, n, t⟩)).Sound := by
  obtain ⟨hsize, hle⟩ := Capacity.toInt_of_checkClaim hn
  have hroom := h.room
  rw [Sequencer.ticket_eq h.start_le hsize (by omega)] at ht
  obtain rfl : Sequencer.ticketAfter cap c.sequencer.claimed n = t := by simpa using ht
  refine h.goTo_kept (s := c.sequencer) rfl rfl rfl h.standing ?_ (turn_of_ready hp)
  exact h.soundOpenClaim_next hsize hle (le_refl _) (fun he => absurd he (by simp)) (fun _ => rfl)
    (fun _ he => absurd he (by simp))

/-- Sequences are taken after the last one claimed, so nobody else had them. -/
theorem take (h : c.Sound) {holder : Holder P} {high : Int64} {stage : Stage}
    (claimed : holder ≠ .unclaimed) (unpublished : holder ≠ .published)
    (lo : c.sequencer.claimed.toInt ≤ high.toInt) (lasts : Lasts cap high)
    (near : ∀ q, holder = .owned q → high.toInt ≤ c.sequencer.gating.toInt + cap.slots)
    (own : Producers.SoundStage { c with
      sequencer := c.sequencer.withClaimed high
      holder := assign holder c.sequencer.claimed.toInt high.toInt c.holder } p stage)
    (turn : c.sequencer.producer = .single → ∀ q, q ≠ p → c.stages q = .idle) :
    ({ c with
      sequencer := c.sequencer.withClaimed high
      holder :=
        assign holder c.sequencer.claimed.toInt high.toInt c.holder }.goTo p stage).Sound := by
  have hlasts : high.toInt + cap.slots < 2 ^ 63 := lasts
  refine h.goTo rfl (Sequencer.producer_withClaimed _ _) ?_ ?_ ?_ own turn ?_
  · have hsame : {t | assign holder c.sequencer.claimed.toInt high.toInt c.holder t = .published} =
        c.published := by
      refine published_assign unpublished fun t ht _ => ?_
      rw [(h.unclaimed t).mpr ht]
      simp
    change (c.sequencer.withClaimed high).Standing {t | assign _ _ _ _ t = .published}
    rw [hsame]
    exact h.standing.withClaimed lo (by omega)
  · simp only [Sequencer.claimed_withClaimed]
    exact unclaimed_assign claimed lo h.unclaimed
  · intro t q (ht : assign _ _ _ _ t = _)
    simp only [Sequencer.gating_withClaimed]
    by_cases hin : c.sequencer.claimed.toInt < t ∧ t ≤ high.toInt
    · rw [assign_of_mem _ hin.1 hin.2] at ht
      have := near q ht
      omega
    · rw [assign_of_not_mem _ hin] at ht
      exact h.near t q ht
  · intro q hq
    rcases c.sequencer.shared_or_single with hkind | hkind
    · refine Or.inl ⟨Sequencer.producer_withClaimed _ _, ?_, ?_, ?_, ?_⟩
      · simp only [Sequencer.gating_withClaimed, le_refl]
      · simpa only [Sequencer.claimed_withClaimed] using lo
      · intro hsingle
        rw [hkind] at hsingle
        simp at hsingle
      · intro t ht
        have hold := h.le_claimed (t := t) (by simp [ht])
        exact (assign_of_not_mem _ (by omega)).trans ht
    · exact Or.inr (turn hkind q hq)

/-- A patient claim of shared producers takes its sequences at once, a sole one's
none yet. -/
theorem draw (h : c.Sound) (hp : c.Ready p) {requested : UInt64} {n : Int64} {t : Ticket}
    {s : Sequencer cap} (hn : cap.checkClaim requested = .ok n)
    (hs : Sequencer.request n c.sequencer = .ok t s) (lasts : Lasts cap t.high) :
    ({ c with
      sequencer := s
      holder := assign (.pending p) c.sequencer.claimed.toInt s.claimed.toInt c.holder }.goTo p
        (.asking ⟨true, c.sequencer.claimed, n, t⟩)).Sound := by
  obtain ⟨hsize, hle⟩ := Capacity.toInt_of_checkClaim hn
  have hroom := h.room
  obtain ⟨rfl, rfl⟩ := h.request_spec hn hs
  have hhigh : (c.sequencer.claimed + n).toInt = c.sequencer.claimed.toInt + n.toInt :=
    Sequencer.toInt_high cap c.sequencer.claimed n h.start_le hsize (by omega)
  have hend : c.sequencer.claimed.toInt + n.toInt + cap.slots < 2 ^ 63 := hhigh ▸ lasts
  rcases c.sequencer.shared_or_single with hkind | hkind
  · rw [show c.sequencer.asked n = c.sequencer.withClaimed (c.sequencer.claimed + n) by
      simp only [Sequencer.asked, hkind]]
    simp only [Sequencer.claimed_withClaimed]
    refine h.take (by simp) (by simp) (by omega) lasts (fun q hq => absurd hq (by simp)) ?_
      (turn_of_ready hp)
    refine h.soundOpenClaim_next hsize hle ?_ (fun _ => hend) ?_ ?_
    · simp only [Sequencer.claimed_withClaimed]
      omega
    · intro hsingle
      rw [Sequencer.producer_withClaimed, hkind] at hsingle
      simp at hsingle
    · intro _ _ t ht ht'
      exact assign_of_mem _ ht (by omega)
  · have hsame : assign (.pending p) c.sequencer.claimed.toInt (c.sequencer.asked n).claimed.toInt
        c.holder = c.holder := by
      funext t
      rw [Sequencer.asked_single hkind]
      exact assign_of_not_mem _ (by omega)
    rw [hsame, Sequencer.asked_single hkind]
    refine h.goTo_kept (s := c.sequencer) rfl rfl rfl h.standing ?_ (turn_of_ready hp)
    refine h.soundOpenClaim_next hsize hle (le_refl _) (fun _ => hend) (fun _ => rfl) ?_
    intro hshared
    rw [hkind] at hshared
    simp at hshared

/-- A claim that finds nobody ahead of it takes its sequences. -/
theorem grab (h : c.Sound) (hp : c.stages p = .cleared b g) (hlast : c.sequencer.claimed = b.last)
    (lasts : Lasts cap b.ticket.high) :
    ({ c with
      sequencer := c.sequencer.withClaimed b.ticket.high
      holder :=
        assign (.owned p) b.last.toInt b.ticket.high.toInt c.holder }.goTo p .idle).Sound := by
  have hcleared : c.SoundStage p (.cleared b g) := hp ▸ h.stages p
  obtain ⟨hb, hg, hfits⟩ := hcleared
  have hhigh := high_eq hb
  have hsize := hb.size
  have hgating := hg.2
  rw [← hlast]
  exact h.take (by simp) (by simp) (by rw [hlast]; omega) lasts (fun _ _ => by omega) trivial
    (h.turn_of_stage (by simp [hp]))

/-- A patient claim owns its sequences when it returns. -/
theorem redeem (h : c.Sound) (hp : c.stages p = .cleared b g) (patient : b.patient) {high : Int64}
    {s : Sequencer cap} (hs : Sequencer.redeem b.ticket g c.sequencer = .ok high s) :
    ({ c with
      sequencer := s
      holder := assign (.owned p) b.last.toInt high.toInt c.holder }.goTo p .idle).Sound := by
  have hcleared : c.SoundStage p (.cleared b g) := hp ▸ h.stages p
  obtain ⟨hb, hg, hfits⟩ := hcleared
  have hhigh := high_eq hb
  have hsize := hb.size
  have hlasts := hb.lasts patient
  have hgating := hg.2
  obtain ⟨rfl, rfl⟩ := redeem_spec ⟨hb, hg, hfits⟩ patient hs
  rcases c.sequencer.shared_or_single with hkind | hkind
  · rw [Sequencer.granted_shared hkind]
    have hpending := hb.shared hkind patient
    refine h.goTo
      (b := { c with holder := assign (.owned p) b.last.toInt b.ticket.high.toInt c.holder })
      rfl rfl ?_ ?_ ?_ trivial (h.turn_of_stage (by simp [hp])) ?_
    · have hsame : {t | assign (.owned p) b.last.toInt b.ticket.high.toInt c.holder t =
          .published} = c.published := by
        refine published_assign (by simp) fun t ht ht' => ?_
        rw [hpending t ht (by omega)]
        simp
      change c.sequencer.Standing {t | assign _ _ _ _ t = .published}
      rw [hsame]
      exact h.standing
    · intro t
      rw [← h.unclaimed t]
      by_cases hin : b.last.toInt < t ∧ t ≤ b.ticket.high.toInt
      · simp only [assign_of_mem _ hin.1 hin.2, hpending t hin.1 (by omega), reduceCtorEq]
      · simp only [assign_of_not_mem _ hin]
    · intro t q (ht : assign _ _ _ _ t = _)
      by_cases hin : b.last.toInt < t ∧ t ≤ b.ticket.high.toInt
      · change t ≤ c.sequencer.gating.toInt + cap.slots
        omega
      · rw [assign_of_not_mem _ hin] at ht
        exact h.near t q ht
    · intro q hq
      refine Or.inl ⟨rfl, le_refl _, le_refl _, fun _ => rfl, ?_⟩
      intro t ht
      refine (assign_of_not_mem _ fun hin => ?_).trans ht
      rw [hpending t hin.1 (by omega)] at ht
      exact hq (Holder.pending.inj ht).symm
  · have hlast := hb.sole hkind
    rw [Sequencer.granted_single hkind, ← hlast]
    exact h.take (by simp) (by simp) (by rw [hlast]; omega)
      (show b.ticket.high.toInt + cap.slots < 2 ^ 63 by omega) (fun _ _ => by omega) trivial
      (h.turn_of_stage (by simp [hp]))

omit [DecidableEq P] in
/-- What is owned may be published. -/
theorem publish (h : c.Sound) {low high : Int64} {s : Sequencer cap}
    (own : ∀ t, low.toInt ≤ t → t ≤ high.toInt → ∃ p, c.holder t = .owned p) (le : low ≤ high)
    (order : c.sequencer.producer = .single → low.toInt = c.sequencer.cursor.toInt + 1)
    (hs : Sequencer.publishRange low high c.sequencer = .ok () s ∨
      low = high ∧ Sequencer.publish high c.sequencer = .ok () s) :
    { c with
      sequencer := s
      holder := assign .published (low.toInt - 1) high.toInt c.holder }.Sound := by
  obtain rfl := h.publish_spec own le order hs
  rw [Int64.le_iff_toInt_le] at le
  obtain ⟨q, hq⟩ := own low.toInt (le_refl _) le
  obtain ⟨r, hr⟩ := own high.toInt le (le_refl _)
  have hlow := h.lt_of_owned hq
  have hnear := h.near high.toInt r hr
  have hhigh := h.le_claimed (t := high.toInt) (by simp [hr])
  have hstanding := h.standing.afterPublish low high le hlow hnear hhigh order
  have hkeep : ∀ q, Keeps q c { c with
      sequencer := c.sequencer.afterPublish low high
      holder := assign .published (low.toInt - 1) high.toInt c.holder } := by
    intro q
    refine ⟨Sequencer.producer_afterPublish _ _ _, ?_, ?_, ?_, ?_⟩
    · simp only [Sequencer.gating_afterPublish, le_refl]
    · simp only [Sequencer.claimed_afterPublish, le_refl]
    · exact fun _ => Sequencer.claimed_afterPublish _ _ _
    · intro t ht
      refine (assign_of_not_mem _ fun hin => ?_).trans ht
      obtain ⟨r, hr⟩ := own t (by omega) hin.2
      rw [hr] at ht
      simp at ht
  refine ⟨?_, ?_, ?_, fun q => (h.stages q).keep (hkeep q), ?_⟩
  · change (c.sequencer.afterPublish low high).Standing {t | assign _ _ _ _ t = .published}
    rw [published_assign_published, Int.sub_add_cancel]
    exact hstanding
  · intro t
    simp only [Sequencer.claimed_afterPublish, ← h.unclaimed t]
    by_cases hin : low.toInt - 1 < t ∧ t ≤ high.toInt
    · obtain ⟨r, hr⟩ := own t (by omega) hin.2
      rw [assign_of_mem _ hin.1 hin.2, hr]
      simp
    · rw [assign_of_not_mem _ hin]
  · intro t q (ht : assign _ _ _ _ t = _)
    simp only [Sequencer.gating_afterPublish]
    by_cases hin : low.toInt - 1 < t ∧ t ≤ high.toInt
    · rw [assign_of_mem _ hin.1 hin.2] at ht
      simp at ht
    · rw [assign_of_not_mem _ hin] at ht
      exact h.near t q ht
  · simp only [Sequencer.producer_afterPublish]
    exact h.alone

theorem claim {c' : Producers cap P} (h : c.Sound) (hclaim : Claim p c c') : c'.Sound := by
  cases hclaim with
  | draw hp hn hs lasts => exact h.draw hp hn hs lasts
  | look hp hn ht => exact h.look hp hn ht
  | trust hp reached => exact h.trust hp reached
  | doubt hp _ => exact h.doubt hp
  | wait _ _ => exact h.count _
  | observe hp _ => exact h.observe hp
  | remember hp reached => exact h.remember hp (cleared (h.seen hp).1 (h.seen hp).2 reached)
  | refuse hp _ => exact h.remember hp trivial
  | redeem hp patient hs => exact h.redeem hp patient hs
  | grab hp _ hlast lasts => exact h.grab hp hlast lasts
  | lose hp _ _ => exact h.lose (by simp [hp])

/-- Every access keeps the invariant. -/
theorem step {c' : Producers cap P} (h : c.Sound) (hstep : Step c c') : c'.Sound := by
  cases hstep with
  | claim hclaim => exact h.claim hclaim
  | publish own le order hs => exact h.publish own le order hs

/-- Producers never move gating. -/
theorem gating_step {c' : Producers cap P} (h : c.Sound) (hstep : Step c c') :
    c'.sequencer.gating = c.sequencer.gating := by
  cases hstep with
  | publish own le order hs =>
    obtain rfl := h.publish_spec own le order hs
    exact Sequencer.gating_afterPublish _ _ _
  | claim hclaim =>
    cases hclaim with
    | draw _ hn hs _ =>
      obtain ⟨-, rfl⟩ := h.request_spec hn hs
      exact Sequencer.gating_asked _ _
    | redeem hp patient hs =>
      obtain ⟨-, rfl⟩ := redeem_spec (hp ▸ h.stages _) patient hs
      exact Sequencer.gating_granted _ _
    | grab _ _ _ _ => exact Sequencer.gating_withClaimed _ _
    | remember _ _ => exact Sequencer.gating_withCached _ _
    | refuse _ _ => exact Sequencer.gating_withCached _ _
    | look | trust | doubt | wait | observe | lose => rfl

theorem producer_step {c' : Producers cap P} (h : c.Sound) (hstep : Step c c') :
    c'.sequencer.producer = c.sequencer.producer := by
  cases hstep with
  | publish own le order hs =>
    obtain rfl := h.publish_spec own le order hs
    exact Sequencer.producer_afterPublish _ _ _
  | claim hclaim =>
    cases hclaim with
    | draw _ hn hs _ =>
      obtain ⟨-, rfl⟩ := h.request_spec hn hs
      exact Sequencer.producer_asked _ _
    | redeem hp patient hs =>
      obtain ⟨-, rfl⟩ := redeem_spec (hp ▸ h.stages _) patient hs
      exact Sequencer.producer_granted _ _
    | grab _ _ _ _ => exact Sequencer.producer_withClaimed _ _
    | remember _ _ => exact Sequencer.producer_withCached _ _
    | refuse _ _ => exact Sequencer.producer_withCached _ _
    | look | trust | doubt | wait | observe | lose => rfl

/-- Claims take sequences, and publish none. -/
theorem holder_claim {c' : Producers cap P} (h : c.Sound) (hclaim : Claim p c c') (t : ℤ) :
    c'.holder t = c.holder t ∨
      (c.holder t).Next (c'.holder t) ∧ c'.holder t ≠ .published := by
  cases hclaim with
  | @draw _ n _ s _ hn hs _ =>
    obtain ⟨-, rfl⟩ := h.request_spec hn hs
    by_cases hin : c.sequencer.claimed.toInt < t ∧ t ≤ (c.sequencer.asked n).claimed.toInt
    · right
      rw [(h.unclaimed t).mpr hin.1]
      change Holder.Next .unclaimed (assign _ _ _ _ t) ∧ assign _ _ _ _ t ≠ _
      rw [assign_of_mem _ hin.1 hin.2]
      exact ⟨.ask p, by simp⟩
    · exact Or.inl (assign_of_not_mem _ hin)
  | @redeem b g high s hp patient hs =>
    have hcleared : c.SoundStage p (.cleared b g) := hp ▸ h.stages p
    obtain ⟨rfl, -⟩ := redeem_spec hcleared patient hs
    have hb := hcleared.1
    have hhigh := high_eq hb
    by_cases hin : b.last.toInt < t ∧ t ≤ b.ticket.high.toInt
    · right
      change Holder.Next _ (assign _ _ _ _ t) ∧ assign _ _ _ _ t ≠ _
      rw [assign_of_mem _ hin.1 hin.2]
      refine ⟨?_, by simp⟩
      rcases c.sequencer.shared_or_single with hkind | hkind
      · rw [hb.shared hkind patient t hin.1 (by omega)]
        exact .get p
      · rw [(h.unclaimed t).mpr (by rw [hb.sole hkind]; exact hin.1)]
        exact .take p
    · exact Or.inl (assign_of_not_mem _ hin)
  | @grab b g hp _ hlast _ =>
    by_cases hin : b.last.toInt < t ∧ t ≤ b.ticket.high.toInt
    · right
      rw [(h.unclaimed t).mpr (by rw [hlast]; exact hin.1)]
      change Holder.Next .unclaimed (assign _ _ _ _ t) ∧ assign _ _ _ _ t ≠ _
      rw [assign_of_mem _ hin.1 hin.2]
      exact ⟨.take p, by simp⟩
    · exact Or.inl (assign_of_not_mem _ hin)
  | look | trust | doubt | wait | observe | remember | refuse | lose => exact Or.inl rfl

/-- A sequence is taken and published, and nothing else ever happens to it. -/
theorem holder_step {c' : Producers cap P} (h : c.Sound) (hstep : Step c c') (t : ℤ) :
    c'.holder t = c.holder t ∨ (c.holder t).Next (c'.holder t) := by
  cases hstep with
  | claim hclaim => exact (h.holder_claim hclaim t).imp_right And.left
  | @publish low high s own le _ hs =>
    by_cases hin : low.toInt - 1 < t ∧ t ≤ high.toInt
    · right
      obtain ⟨p, hp⟩ := own t (by omega) hin.2
      rw [hp]
      change Holder.Next _ (assign _ _ _ _ t)
      rw [assign_of_mem _ hin.1 hin.2]
      exact .publish p
    · exact Or.inl (assign_of_not_mem _ hin)

/-- What is published stays published. -/
theorem published_step {c' : Producers cap P} (h : c.Sound) (hstep : Step c c') :
    c.published ⊆ c'.published := by
  intro t (ht : c.holder t = .published)
  change c'.holder t = .published
  rcases h.holder_step hstep t with hsame | hnext
  · rw [hsame, ht]
  · rw [ht] at hnext
    cases hnext

/-- A run of accesses keeps the invariant, gating and what is published. -/
theorem run {c' : Producers cap P} (h : c.Sound) (hrun : Relation.ReflTransGen Step c c') :
    c'.Sound ∧ c'.sequencer.gating = c.sequencer.gating ∧ c.published ⊆ c'.published := by
  induction hrun with
  | refl => exact ⟨h, rfl, fun _ ht => ht⟩
  | tail _ hstep ih =>
    obtain ⟨hsound, hgating, hread⟩ := ih
    exact ⟨hsound.step hstep, (hsound.gating_step hstep).trans hgating,
      fun t ht => hsound.published_step hstep (hread ht)⟩

end Accesses

end Sound

end LapRing.Producers
