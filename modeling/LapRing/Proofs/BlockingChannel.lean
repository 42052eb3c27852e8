import LapRing.Channel.Receive
import LapRing.Proofs.ValueFates
import LapRing.Proofs.LentRings

/-!
# No wakeup is lost

Consumers that find nothing sleep until they are signalled, and producers signal
after each publication. All of them share one latch: signals may merge, stay
behind, or wake a consumer that finds nothing, because an earlier sequence is not
published yet. Still there is no rest with work undone. As long as the sequence
after the position is published, the latch is set, or a producer has yet to
signal, or a consumer is awake and will poll again before it sleeps.
-/
namespace LapRing

namespace RingParties
variable {cap : Capacity} {P Q : Type} {c : RingParties cap P Q}

/-- A poll finds a window or is idle, as the next sequence is published or not. -/
theorem Sound.openWindow_cases (h : c.Sound) {W : Type} {seq : Part W (Sequencer cap)}
    {poller : Part W Poller} (hseq : seq.Lawful) (hpoller : poller.Lawful) {w : W}
    (hs : (seq.split w).1 = c.sequencer) (hp : (poller.split w).1 = c.poller) {batch : UInt64}
    (hb : batch ≠ 0) :
    (c.position.toInt + 1 ∉ c.published ∧ Poller.openWindow seq poller batch w =
      .ok none (seq.join (c.sequencer.count .idle) (seq.split w).2)) ∨
    (c.position.toInt + 1 ∈ c.published ∧ ∃ win w', Poller.openWindow seq poller batch w =
      .ok (some win) w') := by
  have hpos := cap.slots_pos
  have hone : batch.toNat ≠ 0 := fun he => hb (UInt64.toNat_inj.mp he)
  obtain ⟨last, hgreatest, hopen⟩ := Poller.openWindow_eq hseq hpoller (w := w)
    (hs ▸ h.producers.standing)
    (show (poller.split w).1.position (seq.split w).1 = c.position by rw [hs, hp]; rfl)
    (hs ▸ h.gating_le) h.read hb
  obtain ⟨hle, -, hrun⟩ := hgreatest.1
  by_cases hnone : last = c.position
  · rw [Poller.windowTo, if_pos hnone, hs] at hopen
    refine Or.inl ⟨fun hnext => ?_, hopen⟩
    -- one more sequence would make a longer run
    have hmore : c.position.toInt + 1 ≤ last.toInt := by
      refine hgreatest.2 ⟨by omega, by omega, fun t ht ht' => ?_⟩
      rw [show t = c.position.toInt + 1 by omega]
      exact hnext
    rw [hnone] at hmore
    omega
  · rw [Poller.windowTo, if_neg hnone] at hopen
    have hne : last.toInt ≠ c.position.toInt := fun he => hnone (Int64.toInt_inj.mp he)
    exact Or.inr ⟨hrun _ (by omega) (by omega), _, _, hopen⟩

end RingParties

/-- Any access but a publication leaves the position and what is published, or a
consumer goes on with its visit. -/
theorem ChannelParties.Sound.still_or_visits {cap : Capacity} {P Q α : Type} [DecidableEq P]
    [DecidableEq Q] {m m' : ChannelParties cap P Q α} (h : m.Sound)
    (hstep : ChannelParties.Step m m') (unsent : m'.sent = m.sent) :
    m'.position = m.position ∧ m'.published = m.published ∨ ∃ q, m'.visits q ≠ m.visits q := by
  have hmoved : ∀ q v, m.visits q ≠ v →
      ∃ r, (m.toRingParties.visit q v).visits r ≠ m.visits r :=
    fun q v hne => ⟨q, by rw [RingParties.visits_visit]; exact hne.symm⟩
  cases hstep with
  | @claim _ producers hclaim =>
    have hgating := h.parties.producers.gating_step (.claim hclaim)
    refine Or.inl ⟨?_, Set.Subset.antisymm (fun t ht => ?_)
      (h.parties.producers.published_step (.claim hclaim))⟩
    · simp only [RingParties.position, Poller.position, hgating]
    · rcases h.parties.producers.holder_claim hclaim t with hsame | ⟨-, hne⟩
      · exact hsame.symm.trans ht
      · exact absurd ht hne
  | write _ _ _ | take _ _ => exact Or.inl ⟨rfl, rfl⟩
  | publish _ _ _ _ _ => simp at unsent
  | search hsearch =>
    cases hsearch with
    | scan hq _ _ => exact Or.inr (hmoved _ _ (by simp [hq.1]))
    | scanIdle _ _ _ => exact Or.inl ⟨rfl, rfl⟩
    | settle hq _ => exact Or.inr (hmoved _ _ (by simp [hq]))
    | lose hq => exact Or.inr (hmoved _ _ (by simp [hq]))
  | release hq _ => exact Or.inr (hmoved _ _ (by simp [hq]))

/-- A channel whose consumers sleep while there is nothing to receive. -/
structure BlockingChannel (cap : Capacity) (P Q α : Type) extends ChannelParties cap P Q α where
  coordinator : Coordinator
  /-- A producer has published and not signalled yet. -/
  owing : P → Bool
  /-- A poll of a consumer found nothing, and its wait has not come back. -/
  asleep : Q → Bool

namespace BlockingChannel
variable {cap : Capacity} {P Q α : Type}

def new (cap : Capacity) (producer consumer : Multiplicity) (wait : ProducerWait)
    (metrics : Bool) : BlockingChannel cap P Q α where
  toChannelParties := .new cap producer consumer metrics
  coordinator := .new wait .blocking
  owing _ := false
  asleep _ := false

variable [DecidableEq P] [DecidableEq Q]

inductive Step : BlockingChannel cap P Q α → BlockingChannel cap P Q α → Prop
  /-- The others go on: claims, visits, and what is put into slots and taken out.
  Whoever sleeps makes no visit. -/
  | trade {v : BlockingChannel cap P Q α} {m : ChannelParties cap P Q α} :
      ChannelParties.Step v.toChannelParties m → m.sent = v.sent →
      (∀ q, v.asleep q = true → m.visits q = v.visits q) → Step v { v with toChannelParties := m }
  | publish {v : BlockingChannel cap P Q α} {p : P} {win : Window} {m : ChannelParties cap P Q α} :
      v.owing p = false → ChannelParties.Step v.toChannelParties m → m.sent = v.sent ++ [(p, win)] →
      Step v { v with toChannelParties := m, owing := Function.update v.owing p true }
  /-- A producer signals what it has published. -/
  | signal {v : BlockingChannel cap P Q α} {p : P} : v.owing p = true →
      Step v { v with
        coordinator := v.coordinator.wakeup
        owing := Function.update v.owing p false }
  /-- A poll finds nothing, so the consumer will wait. -/
  | doze {v : BlockingChannel cap P Q α} {q : Q} {batch : UInt64} {s : Sequencer cap} :
      v.asleep q = false → v.toRingParties.Ready q → batch ≠ 0 →
      Poller.openWindow Part.first Part.second batch (v.sequencer, v.poller) =
        .ok none (s, v.poller) →
      Step v { v with sequencer := s, asleep := Function.update v.asleep q true }
  /-- The wait comes back, and the consumer will poll again. -/
  | wake {v : BlockingChannel cap P Q α} {q : Q} {c : Coordinator} :
      v.asleep q = true → Coordinator.consumerWait v.coordinator = .ok () c →
      Step v { v with coordinator := c, asleep := Function.update v.asleep q false }

def Reachable (producer consumer : Multiplicity) (wait : ProducerWait) (metrics : Bool)
    (v : BlockingChannel cap P Q α) : Prop :=
  Relation.ReflTransGen Step (new cap producer consumer wait metrics) v

omit [DecidableEq P] [DecidableEq Q]

/-- What keeps the sleepers from missing a sequence that they could receive. -/
def Alert (v : BlockingChannel cap P Q α) : Prop :=
  v.coordinator.latch = some true ∨ (∃ p, v.owing p = true) ∨ ∃ q, v.asleep q = false

structure Sound (v : BlockingChannel cap P Q α) : Prop where
  channel : v.toChannelParties.Sound
  idle : ∀ q, v.asleep q = true → v.visits q = .idle
  blocking : v.coordinator.latch ≠ none
  alert : v.position.toInt + 1 ∈ v.published → v.Alert

theorem sound_new (cap : Capacity) (producer consumer : Multiplicity) (wait : ProducerWait)
    (metrics : Bool) :
    (new cap producer consumer wait metrics : BlockingChannel cap P Q α).Sound := by
  refine ⟨ChannelParties.sound_new cap producer consumer metrics, nofun,
    by simp [new, Coordinator.new],
    fun hnext => ?_⟩
  have hparties := RingParties.sound_new (P := P) (Q := Q) cap producer consumer metrics
  have hlow := hparties.start_le.trans hparties.gating_le
  set position := (new cap producer consumer wait metrics : BlockingChannel cap P Q α).position
  change -1 ≤ position.toInt at hlow
  change (if position.toInt + 1 < 0 then Holder.published else .unclaimed) = .published at hnext
  rw [if_neg (by omega)] at hnext
  simp at hnext

namespace Sound
variable {v : BlockingChannel cap P Q α}

/-- A wait comes back only with a signal, which it uses up. -/
theorem wait_spec (h : v.Sound) {c : Coordinator}
    (hc : Coordinator.consumerWait v.coordinator = .ok () c) :
    v.coordinator.latch = some true ∧ c = { v.coordinator with latch := some false } := by
  have hblocking := h.blocking
  cases hlatch : v.coordinator.latch with
  | none => exact absurd hlatch hblocking
  | some signalled =>
    simp only [Coordinator.consumerWait, Act.get_bind, hlatch] at hc
    cases signalled with
    | false => simp at hc
    | true => exact ⟨rfl, by simpa using hc.symm⟩

/-- A poll that finds nothing is only counted, and nothing was there to be found. -/
theorem doze_spec (h : v.Sound) {batch : UInt64} (hb : batch ≠ 0) {s : Sequencer cap}
    (hs : Poller.openWindow Part.first Part.second batch (v.sequencer, v.poller) =
      .ok none (s, v.poller)) :
    s = v.sequencer.count .idle ∧ v.position.toInt + 1 ∉ v.published := by
  rcases h.channel.parties.openWindow_cases Part.lawful_first Part.lawful_second
    (w := (v.sequencer, v.poller)) rfl rfl hb with ⟨hnext, hopen⟩ | ⟨-, win, w', hopen⟩
  · rw [hopen] at hs
    have hjoin := (EStateM.Result.ok.inj hs).2
    exact ⟨(Prod.ext_iff.mp hjoin).1.symm, hnext⟩
  · rw [hopen] at hs
    simp at hs

variable [DecidableEq P] [DecidableEq Q]

theorem trade (h : v.Sound) {m : ChannelParties cap P Q α}
    (hstep : ChannelParties.Step v.toChannelParties m)
    (unsent : m.sent = v.sent) (quiet : ∀ q, v.asleep q = true → m.visits q = v.visits q) :
    { v with toChannelParties := m }.Sound := by
  refine ⟨h.channel.step hstep, fun q hq => (quiet q hq).trans (h.idle q hq), h.blocking, ?_⟩
  intro (hnext : m.position.toInt + 1 ∈ m.published)
  rcases h.channel.still_or_visits hstep unsent with ⟨hposition, hpublished⟩ | ⟨q, hq⟩
  · rw [hposition, hpublished] at hnext
    exact h.alert hnext
  · refine Or.inr (Or.inr ⟨q, ?_⟩)
    by_contra hasleep
    exact hq (quiet q (by simpa using hasleep))

theorem publish (h : v.Sound) {p : P} {win : Window} {m : ChannelParties cap P Q α}
    (hstep : ChannelParties.Step v.toChannelParties m) (sent : m.sent = v.sent ++ [(p, win)]) :
    { v with toChannelParties := m, owing := Function.update v.owing p true }.Sound := by
  have hvisits : m.visits = v.visits := by
    cases hstep with
    | publish _ _ _ _ _ => rfl
    | claim _ | write _ _ _ | search _ | take _ _ | release _ _ => simp at sent
  refine ⟨h.channel.step hstep, fun q hq => ?_, h.blocking, fun _ => ?_⟩
  · exact (congrFun hvisits q).trans (h.idle q hq)
  · exact Or.inr (Or.inl ⟨p, Function.update_self _ _ _⟩)

omit [DecidableEq Q] in
theorem signal (h : v.Sound) (p : P) :
    { v with
      coordinator := v.coordinator.wakeup
      owing := Function.update v.owing p false }.Sound := by
  obtain ⟨signalled, hlatch⟩ := Option.ne_none_iff_exists'.mp h.blocking
  have hset : v.coordinator.wakeup.latch = some true := by
    simp [Coordinator.wakeup, hlatch]
  exact ⟨h.channel, h.idle, by simp [hset], fun _ => Or.inl hset⟩

omit [DecidableEq P] in
theorem doze (h : v.Sound) {q : Q} {batch : UInt64} {s : Sequencer cap}
    (hq : v.toRingParties.Ready q) (hb : batch ≠ 0)
    (hs : Poller.openWindow Part.first Part.second batch (v.sequencer, v.poller) =
      .ok none (s, v.poller)) :
    { v with sequencer := s, asleep := Function.update v.asleep q true }.Sound := by
  obtain ⟨rfl, hnext⟩ := h.doze_spec hb hs
  refine ⟨h.channel.count _, fun r hr => ?_, h.blocking, fun hin => absurd hin hnext⟩
  by_cases hrq : r = q
  · exact hrq ▸ hq.1
  · exact h.idle r ((Function.update_of_ne hrq _ _).symm.trans hr)

omit [DecidableEq P] in
theorem wake (h : v.Sound) {q : Q} {c : Coordinator}
    (hc : Coordinator.consumerWait v.coordinator = .ok () c) :
    { v with coordinator := c, asleep := Function.update v.asleep q false }.Sound := by
  obtain ⟨-, rfl⟩ := h.wait_spec hc
  refine ⟨h.channel, fun r hr => ?_, by simp, fun _ => ?_⟩
  · have hrq : r ≠ q := by
      rintro rfl
      simp at hr
    exact h.idle r ((Function.update_of_ne hrq _ _).symm.trans hr)
  · exact Or.inr (Or.inr ⟨q, Function.update_self _ _ _⟩)

/-- The call that publishes in a ring is two steps: it publishes, then it signals. -/
theorem publish_run (h : v.Sound) {p : P} {win : Window} (hp : v.owing p = false)
    (own : ∀ t, v.holder t = .owned p ↔ win.first.toInt ≤ t ∧ t ≤ win.last.toInt)
    (le : win.first ≤ win.last)
    (written : ∀ t, win.first.toInt ≤ t → t ≤ win.last.toInt → v.wrote t ≠ none)
    (order : v.sequencer.producer = .single → win.first.toInt = v.sequencer.cursor.toInt + 1)
    {σ : Type} {r : Ring cap σ} (hr : r.sequencer = v.sequencer)
    (hc : r.coordinator = v.coordinator) :
    ∃ v', Relation.ReflTransGen Step v v' ∧ v'.owing = v.owing ∧
      Ring.publish Part.whole win r =
        .ok () { r with sequencer := v'.sequencer, coordinator := v'.coordinator } := by
  have hle := Int64.le_iff_toInt_le.mp le
  obtain ⟨hforward, hlow, hword⟩ := h.channel.parties.producers.publishable
    (fun t hlo hhi => ⟨p, (own t).mpr ⟨hlo, hhi⟩⟩) hle order
  have hpublish := ChannelParties.Step.publish (m := v.toChannelParties) own le written order
    (Or.inl (Sequencer.publishRange_eq hforward hlow hle hword))
  have hrun := (Relation.ReflTransGen.single (Step.publish hp hpublish rfl)).tail
    (.signal (p := p) (Function.update_self _ _ _))
  refine ⟨_, hrun, ?_, ?_⟩
  · rw [Function.update_idem, ← hp, Function.update_eq_self]
  · rw [← hr] at hforward ⊢
    rw [← hc]
    exact Ring.publish_eq Part.lawful_whole win hforward hlow hle hword

/-- Every step keeps somebody alert as long as there is something to receive. -/
theorem step {v' : BlockingChannel cap P Q α} (h : v.Sound) (hstep : Step v v') : v'.Sound := by
  cases hstep with
  | trade htrade unsent quiet => exact h.trade htrade unsent quiet
  | publish _ hpublish sent => exact h.publish hpublish sent
  | signal _ => exact h.signal _
  | doze _ hq hb hs => exact h.doze hq hb hs
  | wake _ hc => exact h.wake hc

end Sound

theorem Reachable.sound [DecidableEq P] [DecidableEq Q] {producer consumer : Multiplicity}
    {wait : ProducerWait} {metrics : Bool} {v : BlockingChannel cap P Q α}
    (h : v.Reachable producer consumer wait metrics) : v.Sound := by
  induction h with
  | refl => exact sound_new cap producer consumer wait metrics
  | tail _ hstep ih => exact ih.step hstep

section Rest
variable [DecidableEq P] [DecidableEq Q] {producer consumer : Multiplicity} {wait : ProducerWait}
  {metrics : Bool} {v : BlockingChannel cap P Q α}

/-- No wakeup is lost. In a reachable state in which every consumer sleeps, the
latch is clear and nobody has yet to signal, there is nothing to receive: every
poll of the channel is idle. Producers claim only while one more lap of words is left
after the claim. -/
theorem rests_only_if_idle (h : v.Reachable producer consumer wait metrics)
    (asleep : ∀ q, v.asleep q = true) (clear : v.coordinator.latch = some false)
    (signalled : ∀ p, v.owing p = false) {W : Type} {here : Part W (Channel cap α)}
    (hhere : here.Lawful) {w : W} (hs : (here.split w).1.ring.sequencer = v.sequencer)
    (hp : (here.split w).1.ring.poller = v.poller) (batch : UInt64) (f : α → Act W Unit) :
    ∃ w', Channel.receive here batch f w = .ok .idle w' := by
  have hsound := h.sound
  have hnext : v.position.toInt + 1 ∉ v.published := by
    intro hin
    rcases hsound.alert hin with hlatch | ⟨p, hp⟩ | ⟨q, hq⟩
    · rw [clear] at hlatch
      simp at hlatch
    · rw [signalled p] at hp
      simp at hp
    · rw [asleep q] at hq
      simp at hq
  have hring := hhere.within Channel.lawful_ringPart
  have hopen : ∃ w', Poller.openWindow ((here.within Channel.ringPart).within Ring.sequencerPart)
      ((here.within Channel.ringPart).within Ring.pollerPart) batch w = .ok none w' := by
    by_cases hb : batch = 0
    · rw [hb]
      exact ⟨w, Poller.openWindow_zero w⟩
    · rcases hsound.channel.parties.openWindow_cases (hring.within Ring.lawful_sequencerPart)
        (hring.within Ring.lawful_pollerPart) (w := w) hs hp hb with ⟨-, hopen⟩ | ⟨hin, -⟩
      · exact ⟨_, hopen⟩
      · exact absurd hin hnext
  obtain ⟨w', hopen⟩ := hopen
  have hcount : Channel.receiveCount here batch (fun value _ => f value) w = .ok none w' :=
    Poller.poll_none _ hopen
  refine ⟨w', ?_⟩
  rw [Channel.receive, Act.bind_ok hcount]
  rfl

/-- Sequence 1 is published and signalled before sequence 0. One consumer is woken
by it, finds nothing, and both sleep again. -/
theorem rests_only_if_idle_early :
    ∃ (v : BlockingChannel .two ℕ Bool ℕ) (c : Channel .two ℕ),
      v.Reachable .multi .multi .spinning false ∧
      (∀ q, v.asleep q = true) ∧ v.coordinator.latch = some false ∧ (∀ p, v.owing p = false) ∧
      1 ∈ v.published ∧ c.ring.sequencer = v.sequencer ∧ c.ring.poller = v.poller ∧
      ∃ c', Channel.receive Part.whole 1 (fun _ => pure ()) c = .ok .idle c' := by
  have hidle : Poller.openWindow Part.first Part.second 1
      ((⟨1, -1, .shared (-1) (.mark (.new .two) 1), none⟩ : Sequencer .two), .competing (-1)) =
    .ok none (⟨1, -1, .shared (-1) (.mark (.new .two) 1), none⟩, .competing (-1)) := rfl
  have hown : ∀ t, Producers.assign (.owned 1) 0 1 (Producers.assign (.pending 1) 0 1
      (Producers.assign (.owned 0) (-1) 0 (Producers.assign (.pending 0) (-1) 0
        (Producers.new .two .multi false).holder))) t = .owned 1 ↔
      (Window.mk 1 1).first.toInt ≤ t ∧ t ≤ (Window.mk 1 1).last.toInt := by
    intro t
    change _ ↔ (1 : ℤ) ≤ t ∧ t ≤ 1
    by_cases ht : 0 < t ∧ t ≤ 1
    · rw [Producers.assign_of_mem _ ht.1 ht.2]
      exact ⟨fun _ => by omega, fun _ => rfl⟩
    · rw [Producers.assign_of_not_mem _ ht, Producers.assign_of_not_mem _ ht]
      refine ⟨fun he => ?_, fun hin => by omega⟩
      simp only [Producers.assign, Producers.new] at he
      split_ifs at he
      simp at he
  have hwritten : ∀ t : ℤ, 1 ≤ t → t ≤ 1 →
      Function.update (fun _ : ℤ => (none : Option (ℕ × Option ℕ))) 1 (some (1, some 11)) t ≠
        none := by
    intro t hlo hhi
    obtain rfl : t = 1 := by omega
    simp
  have hone : Capacity.two.checkClaim 1 = .ok 1 := rfl
  have hbatch : (1 : UInt64) ≠ 0 := by decide
  have h₀ : Reachable .multi .multi .spinning false
      (new .two .multi .multi .spinning false : BlockingChannel .two ℕ Bool ℕ) := .refl
  have h₁ := h₀.tail (.trade (.claim (p := 0) (.draw (t := ⟨0, -2⟩) ⟨rfl, nofun⟩ hone rfl
    (Producers.lasts_of_few _ (by decide)))) rfl nofun)
  have h₂ := h₁.tail (.trade (.claim (p := 0) (.trust rfl (by decide))) rfl nofun)
  have h₃ := h₂.tail (.trade (.claim (p := 0) (.redeem rfl rfl rfl)) rfl nofun)
  have h₄ := h₃.tail (.trade (.claim (p := 1) (.draw (t := ⟨1, -1⟩) ⟨rfl, nofun⟩ hone rfl
    (Producers.lasts_of_few _ (by decide)))) rfl nofun)
  have h₅ := h₄.tail (.trade (.claim (p := 1) (.trust rfl (by decide))) rfl nofun)
  have h₆ := h₅.tail (.trade (.claim (p := 1) (.redeem rfl rfl rfl)) rfl nofun)
  have h₇ := h₆.tail (.trade (.write (p := 1) (s := 1) (some 11) rfl rfl) rfl nofun)
  have h₈ : Reachable .multi .multi .spinning false
      (⟨⟨⟨⟨⟨1, -1, .shared (-1) (.mark (.new .two) 1), none⟩, _, _⟩,
        .competing (-1), fun _ => .idle⟩, _, _, _, _, _, _⟩, _, _, fun _ => false⟩ :
          BlockingChannel .two ℕ Bool ℕ) :=
    h₇.tail (.publish (p := 1) rfl (.publish hown (by decide) hwritten nofun (Or.inr ⟨rfl, rfl⟩))
      (show _ = _ ++ [(1, Window.mk 1 1)] from rfl))
  have h₉ := h₈.tail (.doze (q := false) rfl ⟨rfl, nofun⟩ hbatch hidle)
  have h₁₀ := h₉.tail (.doze (q := true) rfl ⟨rfl, nofun⟩ hbatch hidle)
  have h₁₁ := h₁₀.tail (.signal (p := 1) rfl)
  have h₁₂ := h₁₁.tail (.wake (q := false) rfl rfl)
  have h₁₃ := h₁₂.tail (.doze (q := false) rfl ⟨rfl, nofun⟩ hbatch hidle)
  have hasleep : ∀ q : Bool, Function.update (Function.update (Function.update (Function.update
      (fun _ => false) false true) true true) false false) false true q = true := by decide
  have hsignalled : ∀ p : ℕ,
      Function.update (Function.update (fun _ => false) 1 true) 1 false p = false := by
    intro p
    rw [Function.update_idem, Function.update_apply, ite_self]
  refine ⟨_, ⟨⟨{}, ⟨1, -1, .shared (-1) (.mark (.new .two) 1), none⟩, .competing (-1),
    .fill .two none, {}, ⟨.multi, false⟩, ⟨.multi, false⟩⟩, #[]⟩, h₁₃, hasleep, rfl, hsignalled,
    rfl, rfl, rfl, ?_⟩
  exact rests_only_if_idle h₁₃ hasleep rfl hsignalled Part.lawful_whole rfl rfl 1 _

end Rest

end BlockingChannel

end LapRing
