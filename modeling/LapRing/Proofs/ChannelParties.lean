import LapRing.Proofs.RingParties

/-!
# Producers and consumers of a channel

The parties of a ring around the slots of a channel. Producers put content into the
slots they own and then publish them; consumers take the content out of the windows
they drain, one slot after the other, and may give up on the rest. Whatever the order
of these accesses, no sequence is taken twice, and what is taken is what the
claimer of the sequence put there.
-/
namespace LapRing

/-- The content of one slot, and who took it. -/
structure Taking (Q α : Type) where
  taker : Q
  sequence : ℤ
  content : Option α

structure ChannelParties (cap : Capacity) (P Q α : Type) extends RingParties cap P Q where
  slots : Slots cap (Option α)
  /-- Who put what into the slot of a sequence. -/
  wrote : ℤ → Option (P × Option α)
  /-- The windows that were published, and by whom. -/
  sent : List (P × Window)
  /-- How many slots of its window a consumer has emptied. -/
  emptied : Q → ℕ
  /-- What was taken, oldest first. -/
  taken : List (Taking Q α)
  /-- The sequences that consumers gave up on. -/
  lost : List ℤ

namespace ChannelParties
variable {cap : Capacity} {P Q α : Type}

def new (cap : Capacity) (producer consumer : Multiplicity) (metrics : Bool) :
    ChannelParties cap P Q α where
  toRingParties := .new cap producer consumer metrics
  slots := .fill cap none
  wrote _ := none
  sent := []
  emptied _ := 0
  taken := []
  lost := []

variable [DecidableEq P] [DecidableEq Q]

/-- One access of one party. -/
inductive Step : ChannelParties cap P Q α → ChannelParties cap P Q α → Prop
  | claim {m : ChannelParties cap P Q α} {p : P} {producers : Producers cap P} :
      Producers.Claim p m.toProducers producers → Step m { m with toProducers := producers }
  /-- Slots are written once in a claim. A batch that ends early writes nothing
  into the rest. -/
  | write {m : ChannelParties cap P Q α} {p : P} {s : Int64} (content : Option α) :
      m.holder s.toInt = .owned p → m.wrote s.toInt = none →
      Step m { m with
        slots := m.slots.write s content
        wrote := Function.update m.wrote s.toInt (some (p, content)) }
  /-- A producer publishes all it owns at once, when all of it is written. -/
  | publish {m : ChannelParties cap P Q α} {p : P} {win : Window} {s : Sequencer cap} :
      (∀ t, m.holder t = .owned p ↔ win.first.toInt ≤ t ∧ t ≤ win.last.toInt) →
      win.first ≤ win.last →
      (∀ t, win.first.toInt ≤ t → t ≤ win.last.toInt → m.wrote t ≠ none) →
      (m.sequencer.producer = .single → win.first.toInt = m.sequencer.cursor.toInt + 1) →
      (Sequencer.publishRange win.first win.last m.sequencer = .ok () s ∨
        win.first = win.last ∧ Sequencer.publish win.last m.sequencer = .ok () s) →
      Step m { m with
        sequencer := s
        holder := Producers.assign .published (win.first.toInt - 1) win.last.toInt m.holder
        sent := m.sent ++ [(p, win)] }
  | search {m : ChannelParties cap P Q α} {q : Q} {parties : RingParties cap P Q} :
      RingParties.Search q m.toRingParties parties → Step m { m with toRingParties := parties }
  /-- A consumer empties the next slot of its window. -/
  | take {m : ChannelParties cap P Q α} {q : Q} {win : Window} {s : Int64} :
      m.visits q = .draining win → win.sequences[m.emptied q]? = some s →
      Step m { m with
        slots := (m.slots.exchange s none).2
        emptied := Function.update m.emptied q (m.emptied q + 1)
        taken := m.taken ++ [Taking.mk q s.toInt (m.slots.exchange s none).1] }
  /-- A consumer releases its window, also when it gave up before its end. -/
  | release {m : ChannelParties cap P Q α} {q : Q} {win : Window} {s : Sequencer cap}
      {poller : Poller} :
      m.visits q = .draining win →
      Poller.release Part.first Part.second win (m.sequencer, m.poller) = .ok () (s, poller) →
      Step m { m with
        toRingParties := { m.toRingParties with sequencer := s, poller }.visit q .idle
        emptied := Function.update m.emptied q 0
        lost := m.lost ++ (win.sequences.drop (m.emptied q)).map Int64.toInt }

def Reachable (producer consumer : Multiplicity) (metrics : Bool)
    (m : ChannelParties cap P Q α) : Prop :=
  Relation.ReflTransGen Step (new cap producer consumer metrics) m

omit [DecidableEq P] [DecidableEq Q]

/-- The sequences that were taken or given up. -/
def gone (m : ChannelParties cap P Q α) : List ℤ := m.taken.map Taking.sequence ++ m.lost

/-- The sequences that consumers are done with: all up to gating, and what they
have emptied of the windows they drain. -/
def Passed (m : ChannelParties cap P Q α) (t : ℤ) : Prop :=
  0 ≤ t ∧ t ≤ m.sequencer.gating.toInt ∨
    ∃ q win, m.visits q = .draining win ∧ win.first.toInt ≤ t ∧ t < win.first.toInt + m.emptied q

/-- The invariant of the parties of a channel. A slot that was written keeps its content
until its sequence is passed. -/
structure Sound (m : ChannelParties cap P Q α) : Prop where
  parties : m.toRingParties.Sound
  writer : ∀ t p x, m.wrote t = some (p, x) →
    0 ≤ t ∧ (m.holder t = .owned p ∨ m.holder t = .published)
  kept : ∀ t p x, m.wrote t = some (p, x) → ¬ m.Passed t → m.slots.peek t = x
  sent : ∀ p win, (p, win) ∈ m.sent → ∀ t, win.first.toInt ≤ t → t ≤ win.last.toInt →
    m.holder t = .published ∧ ∃ x, m.wrote t = some (p, x)
  sender : ∀ t, 0 ≤ t → m.holder t = .published →
    ∃ p win, (p, win) ∈ m.sent ∧ win.first.toInt ≤ t ∧ t ≤ win.last.toInt
  within : ∀ q win, m.visits q = .draining win → m.emptied q ≤ win.size
  unbegun : ∀ q, (∀ win, m.visits q ≠ .draining win) → m.emptied q = 0
  once : m.gone.Nodup
  gone : ∀ t, t ∈ m.gone ↔ m.Passed t
  faithful : ∀ x ∈ m.taken, ∃ p, m.wrote x.sequence = some (p, x.content)
  own : ∀ x ∈ m.taken, x.sequence ≤ m.sequencer.gating.toInt ∨
    ∃ win, m.visits x.taker = .draining win ∧ x.sequence < win.first.toInt + m.emptied x.taker
  order : m.taken.Pairwise fun x y => x.taker = y.taker → x.sequence < y.sequence

theorem not_passed_new (cap : Capacity) (producer consumer : Multiplicity) (metrics : Bool)
    (t : ℤ) : ¬ (new cap producer consumer metrics : ChannelParties cap P Q α).Passed t := by
  rintro (⟨hlo, hhi : t ≤ -1⟩ | ⟨q, win, hq, -⟩)
  · omega
  · simp [new, RingParties.new] at hq

theorem sound_new (cap : Capacity) (producer consumer : Multiplicity) (metrics : Bool) :
    (new cap producer consumer metrics : ChannelParties cap P Q α).Sound := by
  refine ⟨RingParties.sound_new cap producer consumer metrics, nofun, nofun, nofun, ?_, nofun,
    fun _ _ => rfl, List.nodup_nil, fun t => ?_, nofun, nofun, .nil⟩
  · intro t ht (hpublished : (if t < 0 then Holder.published else .unclaimed) = .published)
    rw [if_neg (by omega)] at hpublished
    simp at hpublished
  · exact ⟨nofun, fun ht => absurd ht (not_passed_new cap producer consumer metrics t)⟩

namespace Sound
variable {m : ChannelParties cap P Q α}

theorem start_le (h : m.Sound) : -1 ≤ m.sequencer.gating.toInt := h.parties.start_le

/-- Content that is still to be taken is in a slot that is in use. -/
theorem held (h : m.Sound) {t : ℤ} {p : P} {x : Option α} (hw : m.wrote t = some (p, x))
    (ht : ¬ m.Passed t) : m.toRingParties.Held t := by
  obtain ⟨hlo, hholder⟩ := h.writer t p x hw
  have hgating : ¬ t ≤ m.sequencer.gating.toInt := fun hle => ht (Or.inl ⟨hlo, hle⟩)
  refine ⟨by omega, ?_⟩
  rcases hholder with howned | hpublished
  · exact Or.inr ⟨p, howned⟩
  · exact Or.inl hpublished

/-- A write changes no other slot in use. -/
theorem peek_write (h : m.Sound) {s : Int64} {t : ℤ} (hs : m.toRingParties.Held s.toInt)
    (ht : m.toRingParties.Held t) (hne : t ≠ s.toInt) (x : Option α) :
    (m.slots.write s x).peek t = m.slots.peek t := by
  obtain ⟨hnear, -⟩ := h.parties.slot_ne ht hs hne
  obtain ⟨hlo, hhi⟩ := abs_sub_lt_iff.mp hnear
  rw [Slots.peek_write_near m.slots s x (by omega) (by omega), if_neg hne]

/-- Nobody writes to a sequence before it is claimed. -/
theorem unwritten (h : m.Sound) {t : ℤ} (ht : m.sequencer.claimed.toInt < t) :
    m.wrote t = none := by
  by_contra hne
  obtain ⟨⟨p, x⟩, hw⟩ := Option.ne_none_iff_exists'.mp hne
  obtain ⟨-, hholder⟩ := h.writer t p x hw
  rw [(h.parties.producers.unclaimed t).mpr ht] at hholder
  simp at hholder

section Producers

theorem write (h : m.Sound) {p : P} {s : Int64} (content : Option α)
    (own : m.holder s.toInt = .owned p) (unwritten : m.wrote s.toInt = none) :
    { m with
      slots := m.slots.write s content
      wrote := Function.update m.wrote s.toInt (some (p, content)) }.Sound := by
  have hlt := h.parties.producers.lt_of_owned own
  have hstart := h.start_le
  have hheld : m.toRingParties.Held s.toInt := ⟨hlt, Or.inr ⟨p, own⟩⟩
  have hself : Function.update m.wrote s.toInt (some (p, content)) s.toInt = some (p, content) :=
    Function.update_self _ _ _
  have hother : ∀ t, t ≠ s.toInt →
      Function.update m.wrote s.toInt (some (p, content)) t = m.wrote t :=
    fun t ht => Function.update_of_ne ht _ _
  have holder : ∀ t r x, m.wrote t = some (r, x) →
      Function.update m.wrote s.toInt (some (p, content)) t = some (r, x) := by
    intro t r x hw
    rwa [hother t (by rintro rfl; rw [unwritten] at hw; simp at hw)]
  refine ⟨h.parties, ?_, ?_, ?_, h.sender, h.within, h.unbegun, h.once, h.gone, ?_, h.own, h.order⟩
  · intro t r x hw
    by_cases ht : t = s.toInt
    · subst ht
      simp only [hself, Option.some.injEq, Prod.mk.injEq] at hw
      exact ⟨by omega, Or.inl (hw.1 ▸ own)⟩
    · simp only [hother t ht] at hw
      exact h.writer t r x hw
  · intro t r x hw ht
    by_cases hts : t = s.toInt
    · subst hts
      simp only [hself, Option.some.injEq, Prod.mk.injEq] at hw
      rw [Slots.peek_toInt, Slots.read_write, if_pos rfl, hw.2]
    · simp only [hother t hts] at hw
      rw [← h.kept t r x hw ht]
      exact h.peek_write hheld (h.held hw ht) hts content
  · intro r win hsent t hlo hhi
    obtain ⟨hpublished, x, hw⟩ := h.sent r win hsent t hlo hhi
    exact ⟨hpublished, x, holder t r x hw⟩
  · intro x hx
    obtain ⟨r, hw⟩ := h.faithful x hx
    exact ⟨r, holder _ r _ hw⟩

variable [DecidableEq P]

/-- A step of a producer that touches no slot. -/
theorem produce (h : m.Sound) {producers : Producers cap P} {sent : List (P × Window)}
    (hstep : Producers.Step m.toProducers producers) (grown : ∀ e ∈ m.sent, e ∈ sent)
    (hsent : ∀ p win, (p, win) ∈ sent → (p, win) ∈ m.sent ∨
      ∀ t, win.first.toInt ≤ t → t ≤ win.last.toInt →
        producers.holder t = .published ∧ ∃ x, m.wrote t = some (p, x))
    (hsender : ∀ t, producers.holder t = .published → m.holder t = .published ∨
      ∃ p win, (p, win) ∈ sent ∧ win.first.toInt ≤ t ∧ t ≤ win.last.toInt) :
    { m with toProducers := producers, sent }.Sound := by
  have hgating := h.parties.producers.gating_step hstep
  have hread := h.parties.producers.published_step hstep
  have hpassed : ∀ t, Passed { m with toProducers := producers, sent } t ↔ m.Passed t := by
    intro t
    simp only [Passed, hgating]
  refine ⟨h.parties.produce hstep, ?_, ?_, ?_, ?_, h.within, h.unbegun, h.once, ?_, h.faithful, ?_,
    h.order⟩
  · intro t p x hw
    obtain ⟨hlo, hholder⟩ := h.writer t p x hw
    refine ⟨hlo, ?_⟩
    rcases h.parties.producers.holder_step hstep t with hsame | hnext
    · simp only [hsame]
      exact hholder
    · rcases hholder with howned | hpublished
      · exact Or.inr (howned ▸ hnext).of_owned
      · exact Or.inr (hread hpublished)
  · intro t p x hw ht
    exact h.kept t p x hw fun hp => ht ((hpassed t).mpr hp)
  · intro p win hin t hlo hhi
    rcases hsent p win hin with hold | hnew
    · obtain ⟨hpublished, hw⟩ := h.sent p win hold t hlo hhi
      exact ⟨hread hpublished, hw⟩
    · exact hnew t hlo hhi
  · intro t ht hpublished
    rcases hsender t hpublished with hold | hnew
    · obtain ⟨p, win, hin, hbounds⟩ := h.sender t ht hold
      exact ⟨p, win, grown _ hin, hbounds⟩
    · exact hnew
  · intro t
    rw [hpassed]
    exact h.gone t
  · simp only [hgating]
    exact h.own

theorem claim (h : m.Sound) {p : P} {producers : Producers cap P}
    (hclaim : Producers.Claim p m.toProducers producers) :
    { m with toProducers := producers }.Sound := by
  refine h.produce (.claim hclaim) (fun _ he => he) (fun _ _ hin => Or.inl hin) fun t ht => ?_
  rcases h.parties.producers.holder_claim hclaim t with hsame | ⟨-, hne⟩
  · exact Or.inl (hsame ▸ ht)
  · exact absurd ht hne

omit [DecidableEq P] in
/-- What is written by its owner may be published. -/
theorem sendable (h : m.Sound) {p : P} {t : ℤ} (own : m.holder t = .owned p)
    (written : m.wrote t ≠ none) : ∃ x, m.wrote t = some (p, x) := by
  obtain ⟨⟨r, x⟩, hw⟩ := Option.ne_none_iff_exists'.mp written
  obtain ⟨-, howned | hpublished⟩ := h.writer t r x hw
  · rw [own] at howned
    rw [Holder.owned.inj howned]
    exact ⟨x, hw⟩
  · rw [own] at hpublished
    simp at hpublished

theorem publish (h : m.Sound) {p : P} {win : Window} {s : Sequencer cap}
    (own : ∀ t, m.holder t = .owned p ↔ win.first.toInt ≤ t ∧ t ≤ win.last.toInt)
    (le : win.first ≤ win.last)
    (written : ∀ t, win.first.toInt ≤ t → t ≤ win.last.toInt → m.wrote t ≠ none)
    (order : m.sequencer.producer = .single → win.first.toInt = m.sequencer.cursor.toInt + 1)
    (hs : Sequencer.publishRange win.first win.last m.sequencer = .ok () s ∨
      win.first = win.last ∧ Sequencer.publish win.last m.sequencer = .ok () s) :
    { m with
      sequencer := s
      holder := Producers.assign .published (win.first.toInt - 1) win.last.toInt m.holder
      sent := m.sent ++ [(p, win)] }.Sound := by
  have hstep := Producers.Step.publish (c := m.toProducers)
    (fun t hlo hhi => ⟨p, (own t).mpr ⟨hlo, hhi⟩⟩) le order hs
  refine h.produce hstep (fun e he => List.mem_append_left _ he) ?_ ?_
  · intro r win' hin
    rcases List.mem_append.mp hin with hold | hnew
    · exact Or.inl hold
    · obtain ⟨rfl, rfl⟩ : r = p ∧ win' = win := by simpa using hnew
      refine Or.inr fun t hlo hhi => ⟨Producers.assign_of_mem _ (by omega) hhi, ?_⟩
      exact h.sendable ((own t).mpr ⟨hlo, hhi⟩) (written t hlo hhi)
  · intro t (ht : Producers.assign _ _ _ _ t = _)
    by_cases hin : win.first.toInt - 1 < t ∧ t ≤ win.last.toInt
    · exact Or.inr ⟨p, win, List.mem_append_right _ (List.mem_singleton_self _), by omega, hin.2⟩
    · rw [Producers.assign_of_not_mem _ hin] at ht
      exact Or.inl ht

end Producers

section Consumers
variable {q : Q} {win : Window}

theorem window (h : m.Sound) (hq : m.visits q = .draining win) :
    m.toRingParties.SoundWindow win ∧ m.sequencer.gating.toInt < win.first.toInt := by
  have hvisit : m.toRingParties.SoundVisit (.draining win) := hq ▸ h.parties.visits q
  exact ⟨hvisit.1, hvisit.2.1⟩

/-- What a consumer has still to empty is not passed. -/
theorem not_passed (h : m.Sound) (hq : m.visits q = .draining win) {t : ℤ}
    (lo : win.first.toInt + m.emptied q ≤ t) (hi : t ≤ win.last.toInt) : ¬ m.Passed t := by
  obtain ⟨-, hlt⟩ := h.window hq
  rintro (⟨-, hle⟩ | ⟨r, win', hr, hlo, hhi⟩)
  · omega
  · have hwithin := h.within r win' hr
    rw [win'.size_eq] at hwithin
    have huses : m.toRingParties.Uses (.inr q) t := ⟨win, hq, by omega, hi⟩
    have huses' : m.toRingParties.Uses (.inr r) t := ⟨win', hr, hlo, by omega⟩
    obtain rfl : q = r := Sum.inr.inj (h.parties.uses_unique huses huses')
    obtain rfl : win = win' := Visit.draining.inj (hq.symm.trans hr)
    omega

/-- What consumers are done with was published. -/
theorem read_of_passed (h : m.Sound) {t : ℤ} (ht : m.Passed t) : 0 ≤ t ∧ t ∈ m.published := by
  rcases ht with ⟨hlo, hhi⟩ | ⟨q, win, hq, hlo, hhi⟩
  · exact ⟨hlo, h.parties.producers.standing.released t hhi⟩
  · obtain ⟨hwin, -⟩ := h.window hq
    have hstart := hwin.start
    have hwithin := h.within q win hq
    rw [win.size_eq] at hwithin
    exact ⟨by omega, hwin.read t (by omega)⟩

/-- What a consumer finds in a slot is what was written there. -/
theorem read_eq (h : m.Sound) (hq : m.visits q = .draining win) {s : Int64}
    (hs : win.sequences[m.emptied q]? = some s) :
    ∃ p, m.wrote s.toInt = some (p, m.slots.read s) := by
  obtain ⟨hk, hs⟩ := Window.toInt_of_getElem? hs
  rw [win.size_eq] at hk
  obtain ⟨hwin, -⟩ := h.window hq
  have hstart := hwin.start
  obtain ⟨p, win', hsent, hlo, hhi⟩ := h.sender s.toInt (by omega) (hwin.read _ (by omega))
  obtain ⟨-, x, hw⟩ := h.sent p win' hsent s.toInt hlo hhi
  have hkept := h.kept s.toInt p x hw (h.not_passed hq (by omega) (by omega))
  rw [Slots.peek_toInt] at hkept
  exact ⟨p, by rw [hkept]; exact hw⟩

variable [DecidableEq Q]

theorem search (h : m.Sound) {parties : RingParties cap P Q}
    (hsearch : RingParties.Search q m.toRingParties parties) :
    { m with toRingParties := parties }.Sound := by
  obtain ⟨hgating, hholder, hkept, hnew⟩ := hsearch.frame
  have hpassed : ∀ t, Passed { m with toRingParties := parties } t ↔ m.Passed t := by
    intro t
    simp only [Passed, hgating]
    refine or_congr_right ⟨?_, ?_⟩
    · rintro ⟨r, win, hr, hlo, hhi⟩
      rcases hnew r win hr with hold | hidle
      · exact ⟨r, win, hold, hlo, hhi⟩
      · rw [h.unbegun r hidle] at hhi
        omega
    · rintro ⟨r, win, hr, hin⟩
      exact ⟨r, win, hkept r win hr, hin⟩
  refine ⟨h.parties.search hsearch, ?_, ?_, ?_, ?_, ?_, ?_, h.once, ?_, h.faithful, ?_, h.order⟩
  · simp only [hholder]
    exact h.writer
  · intro t p x hw ht
    exact h.kept t p x hw fun hp => ht ((hpassed t).mpr hp)
  · simp only [hholder]
    exact h.sent
  · simp only [hholder]
    exact h.sender
  · intro r win hr
    rcases hnew r win hr with hold | hidle
    · exact h.within r win hold
    · simp only [h.unbegun r hidle, Nat.zero_le]
  · intro r hr
    exact h.unbegun r fun win hold => hr win (hkept r win hold)
  · intro t
    rw [hpassed]
    exact h.gone t
  · intro x hx
    simp only [hgating]
    exact (h.own x hx).imp_right fun ⟨win, hr, hlt⟩ => ⟨win, hkept _ win hr, hlt⟩

omit [DecidableEq Q] in
/-- Emptying one more slot passes the sequence of that slot and no other. -/
theorem passed_take {m' : ChannelParties cap P Q α} (hq : m.visits q = .draining win) {s : Int64}
    (hs : s.toInt = win.first.toInt + m.emptied q)
    (gating : m'.sequencer.gating = m.sequencer.gating) (visits : m'.visits = m.visits)
    (self : m'.emptied q = m.emptied q + 1) (others : ∀ r, r ≠ q → m'.emptied r = m.emptied r)
    (t : ℤ) : m'.Passed t ↔ m.Passed t ∨ t = s.toInt := by
  simp only [Passed, gating, visits]
  constructor
  · rintro (hold | ⟨r, win', hr, hlo, hhi⟩)
    · exact Or.inl (Or.inl hold)
    · by_cases hrq : r = q
      · subst hrq
        obtain rfl : win = win' := Visit.draining.inj (hq.symm.trans hr)
        rw [self] at hhi
        by_cases ht : t = s.toInt
        · exact Or.inr ht
        · exact Or.inl (Or.inr ⟨r, win, hq, hlo, by omega⟩)
      · rw [others r hrq] at hhi
        exact Or.inl (Or.inr ⟨r, win', hr, hlo, hhi⟩)
  · rintro ((hold | ⟨r, win', hr, hlo, hhi⟩) | rfl)
    · exact Or.inl hold
    · refine Or.inr ⟨r, win', hr, hlo, ?_⟩
      by_cases hrq : r = q
      · rw [hrq] at hhi ⊢
        omega
      · rw [others r hrq]
        exact hhi
    · exact Or.inr ⟨q, win, hq, by omega, by omega⟩

theorem take (h : m.Sound) (hq : m.visits q = .draining win) {s : Int64}
    (hs : win.sequences[m.emptied q]? = some s) :
    { m with
      slots := (m.slots.exchange s none).2
      emptied := Function.update m.emptied q (m.emptied q + 1)
      taken := m.taken ++ [Taking.mk q s.toInt (m.slots.exchange s none).1] }.Sound := by
  obtain ⟨p, hread⟩ := h.read_eq hq hs
  obtain ⟨hk, hs⟩ := Window.toInt_of_getElem? hs
  have hsize := win.size_eq
  obtain ⟨hwin, hlt⟩ := h.window hq
  have hfresh := h.not_passed hq (t := s.toInt) (by omega) (by omega)
  set m' : ChannelParties cap P Q α := { m with
    slots := (m.slots.exchange s none).2
    emptied := Function.update m.emptied q (m.emptied q + 1)
    taken := m.taken ++ [Taking.mk q s.toInt (m.slots.exchange s none).1] } with hm'
  have hself : m'.emptied q = m.emptied q + 1 := Function.update_self _ _ _
  have hother : ∀ r, r ≠ q → m'.emptied r = m.emptied r := fun r hr => Function.update_of_ne hr _ _
  have hgrown : ∀ r, m.emptied r ≤ m'.emptied r := by
    intro r
    by_cases hr : r = q
    · rw [hr, hself]
      omega
    · rw [hother r hr]
  have hpassed : ∀ t, m'.Passed t ↔ m.Passed t ∨ t = s.toInt :=
    passed_take hq hs rfl rfl hself hother
  have hgone : m'.gone.Perm (s.toInt :: m.gone) := by
    simp only [ChannelParties.gone, hm', List.map_append, List.map_cons, List.map_nil,
      List.append_assoc,
      List.singleton_append]
    exact List.perm_middle
  refine ⟨h.parties, h.writer, ?_, h.sent, h.sender, ?_, ?_, ?_, ?_, ?_, ?_, ?_⟩
  · intro t r x hw ht
    rw [hpassed, not_or] at ht
    rw [← h.kept t r x hw ht.1]
    exact h.peek_write (h.held hread hfresh) (h.held hw ht.1) ht.2 none
  · intro r win' hr
    by_cases hrq : r = q
    · subst hrq
      obtain rfl : win = win' := Visit.draining.inj (hq.symm.trans hr)
      rw [hself]
      exact hk
    · rw [hother r hrq]
      exact h.within r win' hr
  · intro r hr
    rw [hother r (by rintro rfl; exact hr win hq)]
    exact h.unbegun r hr
  · rw [hgone.nodup_iff, List.nodup_cons, h.gone]
    exact ⟨hfresh, h.once⟩
  · intro t
    rw [hgone.mem_iff, List.mem_cons, h.gone, hpassed]
    exact or_comm
  · intro x hx
    rcases List.mem_append.mp hx with hold | hnew
    · exact h.faithful x hold
    · rw [List.mem_singleton.mp hnew]
      exact ⟨p, hread⟩
  · intro x hx
    rcases List.mem_append.mp hx with hold | hnew
    · rcases h.own x hold with hle | ⟨win', hr, hlt'⟩
      · exact Or.inl hle
      · have := hgrown x.taker
        exact Or.inr ⟨win', hr, by omega⟩
    · rw [List.mem_singleton.mp hnew]
      refine Or.inr ⟨win, hq, ?_⟩
      change s.toInt < win.first.toInt + (m'.emptied q : ℕ)
      omega
  · refine List.pairwise_append.mpr ⟨h.order, List.pairwise_singleton _ _, ?_⟩
    intro x hx y hy (htaker : x.taker = y.taker)
    rw [List.mem_singleton.mp hy] at htaker ⊢
    change x.sequence < s.toInt
    rcases h.own x hx with hle | ⟨win', hr, hlt'⟩
    · omega
    · rw [htaker] at hr hlt'
      obtain rfl : win = win' := Visit.draining.inj (hq.symm.trans hr)
      simp only at hlt'
      omega

omit [DecidableEq Q] in
/-- Releasing a window passes what was left of it. -/
theorem passed_release {m' : ChannelParties cap P Q α} (h : m.Sound)
    (hq : m.visits q = .draining win) (turn : win.first.toInt = m.sequencer.gating.toInt + 1)
    (gating : m'.sequencer.gating = win.last)
    (visits : ∀ r win', m'.visits r = .draining win' ↔ r ≠ q ∧ m.visits r = .draining win')
    (others : ∀ r, r ≠ q → m'.emptied r = m.emptied r) (t : ℤ) :
    m'.Passed t ↔ m.Passed t ∨ win.first.toInt + m.emptied q ≤ t ∧ t ≤ win.last.toInt := by
  obtain ⟨hwin, -⟩ := h.window hq
  have hstart := hwin.start
  have hle := hwin.le
  have hwithin := h.within q win hq
  rw [win.size_eq] at hwithin
  simp only [Passed, gating]
  constructor
  · rintro (⟨hlo, hhi⟩ | ⟨r, win', hr, hin⟩)
    · by_cases hdone : t ≤ m.sequencer.gating.toInt
      · exact Or.inl (Or.inl ⟨hlo, hdone⟩)
      · by_cases hk : t < win.first.toInt + m.emptied q
        · exact Or.inl (Or.inr ⟨q, win, hq, by omega, hk⟩)
        · exact Or.inr ⟨by omega, hhi⟩
    · obtain ⟨hrq, hold⟩ := (visits r win').mp hr
      rw [others r hrq] at hin
      exact Or.inl (Or.inr ⟨r, win', hold, hin⟩)
  · rintro ((⟨hlo, hhi⟩ | ⟨r, win', hr, hlo, hhi⟩) | ⟨hlo, hhi⟩)
    · exact Or.inl ⟨hlo, by omega⟩
    · by_cases hrq : r = q
      · subst hrq
        obtain rfl : win = win' := Visit.draining.inj (hq.symm.trans hr)
        exact Or.inl ⟨by omega, by omega⟩
      · exact Or.inr ⟨r, win', (visits r win').mpr ⟨hrq, hr⟩, hlo, by rw [others r hrq]; exact hhi⟩
    · exact Or.inl ⟨by omega, hhi⟩

theorem release (h : m.Sound) (hq : m.visits q = .draining win) {s : Sequencer cap}
    {poller : Poller}
    (hs : Poller.release Part.first Part.second win (m.sequencer, m.poller) = .ok () (s, poller)) :
    { m with
      toRingParties := { m.toRingParties with sequencer := s, poller }.visit q .idle
      emptied := Function.update m.emptied q 0
      lost := m.lost ++ (win.sequences.drop (m.emptied q)).map Int64.toInt }.Sound := by
  have hparties := h.parties.release hq hs
  obtain ⟨hturn, rfl, rfl⟩ := h.parties.release_spec hq hs
  obtain ⟨hwin, -⟩ := h.window hq
  have hle := hwin.le
  have hwithin := h.within q win hq
  rw [win.size_eq] at hwithin
  set m' : ChannelParties cap P Q α := { m with
    toRingParties :=
      { m.toRingParties with sequencer := Poller.afterRelease win m.sequencer }.visit q .idle
    emptied := Function.update m.emptied q 0
    lost := m.lost ++ (win.sequences.drop (m.emptied q)).map Int64.toInt } with hm'
  have hgating : m'.sequencer.gating = win.last := rfl
  have hself : m'.emptied q = 0 := Function.update_self _ _ _
  have hother : ∀ r, r ≠ q → m'.emptied r = m.emptied r := fun r hr => Function.update_of_ne hr _ _
  have hdraining : ∀ r win', m'.visits r = .draining win' ↔
      r ≠ q ∧ m.visits r = .draining win' := by
    intro r win'
    by_cases hrq : r = q
    · subst hrq
      rw [show m'.visits r = .idle from RingParties.visits_visit _ _ _]
      simp
    · rw [show m'.visits r = m.visits r from RingParties.visits_visit_of_ne _ _ hrq]
      simp [hrq]
  have hpassed : ∀ t, m'.Passed t ↔
      m.Passed t ∨ t ∈ (win.sequences.drop (m.emptied q)).map Int64.toInt := by
    intro t
    rw [h.passed_release hq hturn hgating hdraining hother, Window.mem_drop_sequences]
  have hgone : m'.gone = m.gone ++ (win.sequences.drop (m.emptied q)).map Int64.toInt :=
    (List.append_assoc _ _ _).symm
  refine ⟨hparties, h.writer, ?_, h.sent, h.sender, ?_, ?_, ?_, ?_, h.faithful, ?_, h.order⟩
  · intro t r x hw ht
    exact h.kept t r x hw fun hp => ht ((hpassed t).mpr (Or.inl hp))
  · intro r win' hr
    obtain ⟨hrq, hold⟩ := (hdraining r win').mp hr
    rw [hother r hrq]
    exact h.within r win' hold
  · intro r hr
    by_cases hrq : r = q
    · rw [hrq, hself]
    · rw [hother r hrq]
      exact h.unbegun r fun win' hold => hr win' ((hdraining r win').mpr ⟨hrq, hold⟩)
  · rw [hgone]
    refine List.Nodup.append h.once ?_ ?_
    · rw [List.map_drop]
      exact win.nodup_sequences.sublist (List.drop_sublist _ _)
    · intro t ht hrest
      obtain ⟨hlo, hhi⟩ := Window.mem_drop_sequences.mp hrest
      exact h.not_passed hq hlo hhi ((h.gone t).mp ht)
  · intro t
    rw [hgone, List.mem_append, h.gone, hpassed]
  · intro x hx
    rw [hgating]
    rcases h.own x hx with hle' | ⟨win', hr, hlt'⟩
    · exact Or.inl (by omega)
    · by_cases hrq : x.taker = q
      · rw [hrq] at hr hlt'
        obtain rfl : win = win' := Visit.draining.inj (hq.symm.trans hr)
        exact Or.inl (by omega)
      · exact Or.inr ⟨win', (hdraining _ win').mpr ⟨hrq, hr⟩, by rw [hother _ hrq]; exact hlt'⟩

end Consumers

variable [DecidableEq P] [DecidableEq Q]

/-- Every access keeps the invariant. -/
theorem step {m' : ChannelParties cap P Q α} (h : m.Sound) (hstep : Step m m') : m'.Sound := by
  cases hstep with
  | claim hclaim => exact h.claim hclaim
  | write content own unwritten => exact h.write content own unwritten
  | publish own le written order hs => exact h.publish own le written order hs
  | search hsearch => exact h.search hsearch
  | take hq hs => exact h.take hq hs
  | release hq hs => exact h.release hq hs

theorem run {m' : ChannelParties cap P Q α} (h : m.Sound) (hrun : Relation.ReflTransGen Step m m') :
    m'.Sound := by
  induction hrun with
  | refl => exact h
  | tail _ hstep ih => exact ih.step hstep

end Sound

section Delivery
variable [DecidableEq P] [DecidableEq Q] {producer consumer : Multiplicity} {metrics : Bool}
  {m : ChannelParties cap P Q α}

theorem Reachable.sound (h : m.Reachable producer consumer metrics) : m.Sound :=
  (sound_new cap producer consumer metrics).run h

/-- In every reachable state, no sequence was taken twice. What was taken is what a
producer wrote, and that producer had published its whole claim. Every consumer
takes its sequences in increasing order. Up to gating every sequence was taken,
unless the consumer that drained it gave up before; from there to the position,
each is in the window of one consumer. -/
theorem delivered_once (h : m.Reachable producer consumer metrics) :
    (m.taken.map Taking.sequence).Nodup ∧
    (∀ x ∈ m.taken, ∃ p win, (p, win) ∈ m.sent ∧
      win.first.toInt ≤ x.sequence ∧ x.sequence ≤ win.last.toInt ∧
      (∀ t, win.first.toInt ≤ t → t ≤ win.last.toInt → t ∈ m.published) ∧
      m.wrote x.sequence = some (p, x.content)) ∧
    (m.taken.Pairwise fun x y => x.taker = y.taker → x.sequence < y.sequence) ∧
    (∀ t, 0 ≤ t → t ≤ m.sequencer.gating.toInt →
      (t ∈ m.taken.map Taking.sequence ↔ t ∉ m.lost)) ∧
    (∀ t, m.sequencer.gating.toInt < t → t ≤ m.position.toInt →
      t ∈ m.published ∧ ∃! q, m.Uses (.inr q) t) := by
  have hsound := h.sound
  obtain ⟨hnodup, -, hapart⟩ := List.nodup_append'.mp hsound.once
  refine ⟨hnodup, ?_, hsound.order, ?_, ?_⟩
  · intro x hx
    obtain ⟨p, hw⟩ := hsound.faithful x hx
    have hgone : x.sequence ∈ m.gone := List.mem_append_left _ (List.mem_map_of_mem hx)
    obtain ⟨hlo, hread⟩ := hsound.read_of_passed ((hsound.gone _).mp hgone)
    obtain ⟨r, win, hsent, hin⟩ := hsound.sender _ hlo hread
    obtain ⟨-, y, hw'⟩ := hsound.sent r win hsent _ hin.1 hin.2
    obtain rfl : p = r := by simpa using congrArg (Option.map Prod.fst) (hw.symm.trans hw')
    exact ⟨p, win, hsent, hin.1, hin.2, fun t hlo hhi => (hsound.sent p win hsent t hlo hhi).1, hw⟩
  · intro t hlo hhi
    have hgone : t ∈ m.taken.map Taking.sequence ++ m.lost :=
      (hsound.gone t).mpr (Or.inl ⟨hlo, hhi⟩)
    refine ⟨fun ht hlost => hapart ht hlost, fun hlost => ?_⟩
    exact (List.mem_append.mp hgone).resolve_right hlost
  · intro t hlo hhi
    obtain ⟨q, win, hq, hin⟩ := hsound.parties.covered t hlo hhi
    have huses : m.Uses (.inr q) t := ⟨win, hq, hin⟩
    refine ⟨hsound.parties.read t hhi, q, huses, fun r hr => ?_⟩
    exact Sum.inr.inj (hsound.parties.uses_unique hr huses)

/-- Two consumers share a batch, and the one with the later sequence is first. -/
theorem delivered_once_late :
    ∃ m : ChannelParties .two ℕ ℕ ℕ, m.Reachable .multi .multi false ∧
      m.taken = [⟨1, 1, some 11⟩, ⟨0, 0, some 10⟩] ∧
      ∀ x ∈ m.taken, ∃ p, m.wrote x.sequence = some (p, x.content) := by
  set fresh : ℤ → Holder ℕ := fun t => if t < 0 then .published else .unclaimed with hfresh
  have hfree : ∀ t, fresh t ≠ .owned 0 := by
    intro t ht
    simp only [hfresh] at ht
    split at ht <;> simp at ht
  have hpending : ∀ t, Producers.assign (.pending 0) (-1) 1 fresh t ≠ .owned 0 := by
    intro t ht
    unfold Producers.assign at ht
    split at ht
    · simp at ht
    · exact hfree t ht
  have hown : ∀ t,
      Producers.assign (.owned 0) (-1) 1 (Producers.assign (.pending 0) (-1) 1 fresh) t = .owned 0 ↔
        (Window.mk 0 1).first.toInt ≤ t ∧ t ≤ (Window.mk 0 1).last.toInt := by
    intro t
    by_cases ht : -1 < t ∧ t ≤ 1
    · rw [Producers.assign_of_mem _ ht.1 ht.2]
      exact ⟨fun _ => ⟨show 0 ≤ t by omega, ht.2⟩, fun _ => rfl⟩
    · rw [Producers.assign_of_not_mem _ ht]
      exact ⟨fun he => absurd he (hpending t),
        fun hin => absurd ⟨Int.lt_of_lt_of_le (by decide) hin.1, hin.2⟩ ht⟩
  have h₀ : Reachable .multi .multi false
    (new .two .multi .multi false : ChannelParties .two ℕ ℕ ℕ) :=
    .refl
  have h₁ := h₀.tail (.claim (p := 0) (.draw (t := ⟨1, -1⟩) ⟨rfl, nofun⟩
    (show Capacity.two.checkClaim 2 = .ok 2 from rfl) rfl (Producers.lasts_of_few _ (by decide))))
  have h₂ := h₁.tail (.claim (p := 0) (.trust rfl (by decide)))
  have h₃ := h₂.tail (.claim (p := 0) (.redeem rfl rfl rfl))
  have h₄ := h₃.tail (.write (p := 0) (s := 0) (some 10) rfl rfl)
  have h₅ := h₄.tail (.write (p := 0) (s := 1) (some 11) rfl rfl)
  have hwritten : ∀ t : ℤ, 0 ≤ t → t ≤ 1 →
      Function.update (Function.update (fun _ : ℤ => (none : Option (ℕ × Option ℕ))) 0
        (some (0, some 10))) 1 (some (0, some 11)) t ≠ none := by
    intro t hlo hhi
    obtain rfl | rfl : t = 0 ∨ t = 1 := by omega
    · simp
    · simp
  have h₆ : Reachable .multi .multi false
      (⟨⟨⟨⟨1, -1, .shared (-1) (.markRange (.new .two) 0 1), none⟩, _, _⟩, .competing (-1), _⟩,
        _, _, _, _, _, _⟩ : ChannelParties .two ℕ ℕ ℕ) :=
    h₅.tail (.publish hown (by decide) hwritten nofun (Or.inl rfl))
  have hbatch : (1 : UInt64) ≠ 0 := by decide
  have h₇ := h₆.tail (.search (q := 0)
    (.scan ⟨rfl, nofun⟩ hbatch (show _ = EStateM.Result.ok (some (Window.mk 0 0)) _ from rfl)))
  have h₈ := h₇.tail (.search (q := 0) (.settle (show _ = Visit.scanned ⟨0, 0⟩ from rfl) rfl))
  have h₉ := h₈.tail (.search (q := 1)
    (.scan ⟨rfl, nofun⟩ hbatch (show _ = EStateM.Result.ok (some (Window.mk 1 1)) _ from rfl)))
  have h₁₀ := h₉.tail (.search (q := 1) (.settle (show _ = Visit.scanned ⟨1, 1⟩ from rfl) rfl))
  have h₁₁ := h₁₀.tail (.take (q := 1) (s := 1) (show _ = Visit.draining ⟨1, 1⟩ from rfl) rfl)
  have h₁₂ := h₁₁.tail (.take (q := 0) (s := 0) (show _ = Visit.draining ⟨0, 0⟩ from rfl) rfl)
  have hread₁ : ∀ slots : Slots .two (Option ℕ),
      ((slots.write 0 (some 10)).write 1 (some 11)).read 1 = some 11 := by
    intro slots
    rw [Slots.read_write, if_pos rfl]
  have hread₀ : ∀ slots : Slots .two (Option ℕ),
      (((slots.write 0 (some 10)).write 1 (some 11)).write 1 none).read 0 = some 10 := by
    intro slots
    rw [Slots.write_write, Slots.read_write, if_neg (by decide), Slots.read_write, if_pos rfl]
  refine ⟨_, h₁₂, ?_, fun x hx => ?_⟩
  · simp only [Slots.exchange, hread₁, hread₀]
    rfl
  · exact ((delivered_once h₁₂).2.1 x hx).imp fun _ hwin => hwin.elim fun _ hin => hin.2.2.2.2

end Delivery

end ChannelParties

end LapRing
