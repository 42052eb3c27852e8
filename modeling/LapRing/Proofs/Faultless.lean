import LapRing.Proofs.ClaimOverhang
import LapRing.Proofs.CarefulUsage

/-!
# No operation is at fault

A new ring is in order. So whatever users do with it through handles, nothing cuts them
short but what they raise themselves and a wait that nobody ends. It is the same for
parties that act at one time, one access after the other: no access overflows or breaks a
promise of the ring, not even one that goes by positions that have moved on since.
-/
namespace LapRing

theorem Sequencer.claimed_new (cap : Capacity) (producer : Multiplicity) (metrics : Bool) :
    (new cap producer metrics).claimed = -1 := by
  cases producer <;> rfl

namespace RingSite
variable {cap : Capacity} {V β : Type} {site : RingSite cap V} {settings : Settings} {w : V}

/-- The ring is as it was built, and nothing is in the ledger yet. -/
structure Fresh (site : RingSite cap V) (settings : Settings) (w : V) : Prop where
  ring : ∃ slots, (site.ring.split w).1 = .new settings slots
  ledger : (site.ledger.split w).1 = {}

theorem Fresh.ringView (h : site.Fresh settings w) :
    site.ringView w = ⟨.new cap settings.producer settings.metrics,
      .new settings.consumer (.new cap settings.producer settings.metrics), {}⟩ := by
  obtain ⟨⟨slots, hring⟩, hledger⟩ := h
  unfold RingSite.ringView
  rw [hring, hledger]
  rfl

/-- A new ring is in order. -/
theorem Fresh.sane (h : site.Fresh settings w) : (site.ringView w).Sane settings {} 0 := by
  have hclaimed := Sequencer.claimed_new cap settings.producer settings.metrics
  have hposition : (Poller.new settings.consumer
      (Sequencer.new cap settings.producer settings.metrics)).position
        (Sequencer.new cap settings.producer settings.metrics) = -1 := by
    cases settings.consumer <;> rfl
  rw [h.ringView]
  constructor
  · cases settings.producer <;> rfl
  · cases settings.consumer <;> rfl
  · exact le_refl _
  · exact le_refl _
  · simp only [hposition]
    exact le_refl _
  · simp only [hposition]
    exact le_refl _
  · simp only [hclaimed]
    exact le_refl _
  · simp only [hclaimed]
    decide
  · intro _
    exact hclaimed

end RingSite

/-- Whatever is done with a new ring ends well, or with what its users raised, or waits. -/
theorem Usage.cut_short {cap : Capacity} {settings : Settings} {raises : String → Prop}
    {V β : Type} {site : RingSite cap V} {x : Act V β} (h : Usage settings raises site {} x) {w : V}
    (fresh : site.Fresh settings w) (few : (site.ringView (x.outcome w).2).Few) {e : Halt}
    (he : (x.outcome w).1 = .error e) : e = .stalled ∨ ∃ text, e = .raised text ∧ raises text := by
  have hmoved := (h.careful w fun _ => fresh.sane).leads few
  refine hmoved.fair e ?_
  rw [he]
  rfl

namespace RingParties
variable {cap : Capacity} {P Q : Type} [DecidableEq P] [DecidableEq Q]

/-- One state comes after another, or is the same. -/
def Later : RingParties cap P Q → RingParties cap P Q → Prop := Relation.ReflTransGen Step

def current (c : RingParties cap P Q) : Sequencer cap × Poller := (c.sequencer, c.poller)

/-- What a party is about to do in some state, and the records it goes by. These may hold
positions of earlier states, and flags of no state at all. -/
inductive Access (producer consumer : Multiplicity) (metrics : Bool) (c : RingParties cap P Q) :
    {α : Type} → Sequencer cap × Poller → Act (Sequencer cap × Poller) α → Prop
  | request {requested : UInt64} {n : Int64} :
      cap.checkClaim requested = .ok n → c.sequencer.claimed.toInt + 1 + n.toInt < 2 ^ 62 →
      Access producer consumer metrics c c.current (Part.first.lift (Sequencer.request n))
  | tryClaim {requested : UInt64} {n : Int64} :
      cap.checkClaim requested = .ok n → c.sequencer.claimed.toInt + 1 + n.toInt < 2 ^ 62 →
      Access producer consumer metrics c c.current (Part.first.lift (Sequencer.tryClaim n))
  | redeem {p : P} {b : OpenClaim} {g : Int64} :
      c.stages p = .cleared b g → b.patient →
      Access producer consumer metrics c c.current (Part.first.lift do
        let high ← Sequencer.redeem b.ticket g
        let low ← Checked.sub high (← Checked.sub b.size 1)
        return Window.mk low high)
  /-- A batch goes on to the sequence after one that it has filled. -/
  | fill {p : P} {s : Int64} :
      c.holder s.toInt = .owned p →
      Access producer consumer metrics c c.current (Checked.add s 1)
  | publish {win : Window} :
      (∀ t, win.first.toInt ≤ t → t ≤ win.last.toInt → ∃ p, c.holder t = .owned p) →
      win.first ≤ win.last →
      (c.sequencer.producer = .single → win.first.toInt = c.sequencer.cursor.toInt + 1) →
      Access producer consumer metrics c c.current (Part.first.lift
        (if win.first = win.last then Sequencer.publish win.last
        else Sequencer.publishRange win.first win.last))
  | openWindow {before seen : RingParties cap P Q} {s : Sequencer cap} (batch : UInt64) :
      before.Reachable producer consumer metrics → Later before seen → Later seen c →
      s.gating = before.sequencer.gating → s.cursor = seen.sequencer.cursor →
      Access producer consumer metrics c (s, before.poller)
        (Poller.openWindow Part.first Part.second batch)
  | release {q : Q} {win : Window} :
      c.visits q = .draining win →
      Access producer consumer metrics c c.current
        (Poller.release Part.first Part.second win)
  | length {one other : RingParties cap P Q} {σ : Type} {r : Ring cap σ} :
      one.Reachable producer consumer metrics → Later one c →
      other.Reachable producer consumer metrics → Later other c →
      r.sequencer.cursor = one.sequencer.cursor → r.sequencer.gating = other.sequencer.gating →
      Access producer consumer metrics c c.current r.length

end RingParties

namespace Act
variable {W α : Type}

/-- The action is not cut short by a fault. -/
def Faultless (x : Act W α) (w : W) : Prop := ∀ f w', x w ≠ .error (.fault f) w'

theorem faultless_of_ok {x : Act W α} {w u : W} {v : α} (h : x w = .ok v u) : x.Faultless w := by
  intro f w'
  rw [h]
  simp

theorem faultless_of_stalled {x : Act W α} {w u : W} (h : x w = .error .stalled u) :
    x.Faultless w := by
  intro f w'
  rw [h]
  simp

theorem faultless_first {S T : Type} {x : Act S α} {s u : S} {t : T} {v : α}
    (h : x s = .ok v u) : (Part.first.lift x).Faultless (s, t) :=
  faultless_of_ok (Part.lift_ok (p := Part.first) (w := (s, t)) h)

end Act

/-- A window is opened without a fault from any records with their positions in order. -/
theorem Poller.faultless_openWindow {cap : Capacity} {W : Type} {seq : Part W (Sequencer cap)}
    {poller : Part W Poller} (hseq : seq.Lawful) (hpoller : poller.Lawful) {w : W}
    {position : Int64} (hposition : (poller.split w).1.position (seq.split w).1 = position)
    (lo : -1 ≤ position.toInt) (le : position.toInt ≤ (seq.split w).1.cursor.toInt)
    (room : (seq.split w).1.cursor.toInt + cap.slots < 2 ^ 63) (batch : UInt64) :
    (openWindow seq poller batch).Faultless w := by
  by_cases hb : batch = 0
  · subst hb
    exact Act.faultless_of_ok (openWindow_zero w)
  obtain ⟨hone, hlap⟩ := cap.toInt_batch_bounds hb
  obtain ⟨found, hrun, hfound⟩ := RingSite.window_found (W := W) lo le room hone hlap
  cases found with
  | none =>
    refine Act.faultless_of_ok (v := none)
      (u := seq.join ((seq.split w).1.count .idle) (seq.split w).2) ?_
    rw [openWindow, if_neg hb, Part.read_bind hseq, Part.read_bind hpoller, hposition, hrun,
      pure_bind]
    rfl
  | some win =>
    obtain ⟨hfirst, hle, -⟩ := hfound win rfl
    have hforward :
        ¬ ((poller.split w).1.consumer = .single ∧ win.last < (seq.split w).1.gating) := by
      rintro ⟨hsole, hback⟩
      have hgating : (poller.split w).1.position (seq.split w).1 = (seq.split w).1.gating := by
        cases hkind : (poller.split w).1 with
        | sole => rfl
        | competing claimed => simp [hkind, consumer] at hsole
      rw [Int64.lt_iff_toInt_lt, ← hgating, hposition] at hback
      omega
    refine Act.faultless_of_ok (v := some win)
      (u := poller.join ((poller.split w).1.claim win) (poller.split w).2) ?_
    rw [openWindow, if_neg hb, Part.read_bind hseq, Part.read_bind hpoller, hposition, hrun,
      pure_bind]
    simp only [hforward, if_false]
    rw [Part.update_bind]
    rfl

namespace RingParties
variable {cap : Capacity} {P Q : Type} [DecidableEq P] [DecidableEq Q] {c c' : RingParties cap P Q}
  {producer consumer : Multiplicity} {metrics : Bool}

/-- Consumers take nothing back that is published. -/
theorem Sound.published_step (h : c.Sound) (hstep : Step c c') : c.published ⊆ c'.published := by
  cases hstep with
  | produce hproducers => exact h.producers.published_step hproducers
  | search hsearch =>
    obtain ⟨-, hholder, -⟩ := hsearch.frame
    intro t ht
    exact (congrFun hholder t).trans ht
  | release _ _ => exact fun _ ht => ht

theorem Later.published (later : Later c c') (h : c.Sound) :
    c'.Sound ∧ c.published ⊆ c'.published := by
  induction later with
  | refl => exact ⟨h, fun _ ht => ht⟩
  | tail _ hstep ih => exact ⟨ih.1.step hstep, ih.2.trans (ih.1.published_step hstep)⟩

theorem Reachable.later (h : c.Reachable producer consumer metrics) (later : Later c c') :
    c'.Reachable producer consumer metrics :=
  Relation.ReflTransGen.trans h later

namespace Sound

omit [DecidableEq P] [DecidableEq Q] in
/-- A cleared claim is redeemed within a lap of gating, and begins where it should. -/
theorem faultless_redeem (h : c.Sound) {p : P} {b : OpenClaim} {g : Int64}
    (hp : c.stages p = .cleared b g) :
    (Part.first.lift do
      let high ← Sequencer.redeem b.ticket g
      let low ← Checked.sub high (← Checked.sub b.size 1)
      return Window.mk low high : Act (Sequencer cap × Poller) Window).Faultless c.current := by
  have hcleared : c.SoundStage p (.cleared b g) := hp ▸ h.producers.stages p
  obtain ⟨hb, -, hfits⟩ := hcleared
  have hhigh := Producers.Sound.high_eq hb
  have hlast := hb.last
  have hsize := hb.size
  have hle := hb.size_le
  have hroom := hb.room
  have hone := Checked.toInt_one
  have hless : (b.size - 1).toInt = b.size.toInt - 1 := Checked.toInt_pred (by omega)
  have hredeem := Sequencer.redeem_eq c.sequencer b.ticket g (by omega) (by omega)
  refine Act.faultless_first (v := ⟨b.ticket.high - (b.size - 1), b.ticket.high⟩)
    (u := c.sequencer.granted b.ticket.high) ?_
  rw [Act.bind_ok hredeem, Checked.sub_exact (by omega) (by omega), pure_bind,
    Checked.sub_exact (by omega) (by omega), pure_bind]
  rfl

omit [DecidableEq P] [DecidableEq Q] in
/-- A window is released in its turn, and waits for it until then. -/
theorem faultless_release (h : c.Sound) {q : Q} {win : Window} (hq : c.visits q = .draining win) :
    (Poller.release Part.first Part.second win).Faultless c.current := by
  have hvisit : c.SoundVisit (.draining win) := hq ▸ h.visits q
  obtain ⟨hwin, -, -⟩ := hvisit
  have hstart := hwin.start
  have hslots := cap.one_le_slots
  have hroom := h.producers.standing.room
  have hclaimed := h.producers.standing.claimed _ (hwin.read _ (le_refl _))
  by_cases hturn : win.first.toInt = c.sequencer.gating.toInt + 1
  · exact Act.faultless_of_ok (Poller.release_eq Part.lawful_first Part.lawful_second
      (w := c.current) hturn hwin.le (by omega))
  · cases hkind : c.poller.consumer with
    | single => exact absurd (hwin.sole hkind) hturn
    | multi =>
      exact Act.faultless_of_stalled (Poller.release_stalled Part.lawful_first Part.lawful_second
        (w := c.current) hkind hturn (by omega) hwin.le)

omit [DecidableEq P] [DecidableEq Q] in
/-- The positions of a ring are words above the one before the first. -/
theorem position_bounds (h : c.Sound) :
    -1 ≤ c.sequencer.gating.toInt ∧ -1 ≤ c.sequencer.cursor.toInt ∧
      c.sequencer.gating.toInt + cap.slots < 2 ^ 63 ∧
      c.sequencer.cursor.toInt + cap.slots < 2 ^ 63 := by
  have hstanding := h.producers.standing
  have hstart := hstanding.start_le
  have hle := hstanding.le_cursor hstanding.gating_mem
  have hcursor := hstanding.cursor_le
  have hroom := hstanding.room
  omega

end Sound

/-- No access of a party is cut short by a fault. -/
theorem Reachable.faultless (h : c.Reachable producer consumer metrics) {α : Type}
    {records : Sequencer cap × Poller} {act : Act (Sequencer cap × Poller) α}
    (haccess : c.Access producer consumer metrics records act) : act.Faultless records := by
  have hsound := h.sound
  have hproducers := hsound.producers
  have hstart := hproducers.start_le
  have hslots := cap.one_le_slots
  cases haccess with
  | request hn few =>
    obtain ⟨hsize, -⟩ := Capacity.toInt_of_checkClaim hn
    exact Act.faultless_first (Sequencer.request_eq hstart hsize (by omega))
  | tryClaim hn few =>
    obtain ⟨hsize, -⟩ := Capacity.toInt_of_checkClaim hn
    exact Act.faultless_first (Sequencer.tryClaim_eq hstart hsize (by omega))
  | redeem hp _ => exact hsound.faultless_redeem hp
  | @fill p s hs =>
    have hlow := hproducers.lt_of_owned hs
    have hle := hproducers.le_claimed (t := s.toInt) (by simp [hs])
    have hbounds := hsound.position_bounds
    have hroom := hproducers.standing.room
    have hone := Checked.toInt_one
    exact Act.faultless_of_ok (congrFun (Checked.add_exact (by omega) (by omega)) c.current)
  | @publish win own le order =>
    rw [Int64.le_iff_toInt_le] at le
    obtain ⟨hforward, hlow, hword⟩ := hproducers.publishable own le order
    split
    · exact Act.faultless_first (Sequencer.publish_eq hforward)
    · exact Act.faultless_first (Sequencer.publishRange_eq hforward hlow le hword)
  | @openWindow before seen s batch hbefore hseen _ hgating hcursor =>
    have hold := hbefore.sound
    obtain ⟨hnew, hread⟩ := hseen.published hold
    have hposition : before.poller.position s = before.position := by
      simp only [position, Poller.position, hgating]
    have hreached := hnew.producers.standing.le_cursor (hread (hold.read _ (le_refl _)))
    have hbounds := hnew.position_bounds
    have hlow := hold.start_le.trans hold.gating_le
    refine Poller.faultless_openWindow Part.lawful_first Part.lawful_second
      (w := (s, before.poller)) hposition hlow ?_ ?_ batch
    · exact hcursor ▸ hreached
    · change s.cursor.toInt + cap.slots < 2 ^ 63
      rw [hcursor]
      omega
  | release hq => exact hsound.faultless_release hq
  | @length one other _ r hone _ hother _ hcursor hgating =>
    have hlow := hone.sound.position_bounds
    have hhigh := hother.sound.position_bounds
    refine Act.faultless_of_ok (v := (max (r.sequencer.cursor - r.sequencer.gating) 0).toUInt64)
      (u := c.current) ?_
    rw [Ring.length, hcursor, hgating, Checked.sub_exact (by omega) (by omega)]
    rfl

end RingParties

/-! ## A consumer that gives up -/

/-- A channel of two numbers, its ledger, and a list of the numbers that arrived. -/
abbrev LoggedChannel : Type := Channel .two ℕ × Ledger × List ℕ

namespace LoggedChannel

def ledger : Part LoggedChannel Ledger := Part.second.within Part.first

def arrived : Part LoggedChannel (List ℕ) := Part.second.within Part.second

def container : RingSite .two LoggedChannel :=
  .channel Part.first ledger Part.lawful_first (Part.lawful_second.within Part.lawful_first)
    ⟨fun _ _ => rfl, fun _ _ _ => rfl⟩

def new (settings : Settings) : LoggedChannel := (.new .two settings, {}, [])

/-- Takes note of a number and gives up. -/
def drop (value : ℕ) : Act (List ℕ) Unit := do
  modify (value :: ·)
  throw (.raised "dropped")

/-- A number is sent, and its consumer gives up. -/
def once : Act LoggedChannel PollState := do
  container.push Part.first [] 7
  container.receive Part.first 1 fun value => arrived.lift (drop value)

theorem usage_once (settings : Settings) :
    Usage settings (· = "dropped") container {} once := by
  refine .bind (.push 7 rfl (by simp)) fun _ => .receive 1 rfl fun value => ?_
  refine .own arrived (drop value) ⟨fun _ _ => rfl, fun _ _ _ => rfl⟩
    ⟨fun _ _ => rfl, fun _ _ _ => rfl⟩ ?_
  intro m h m' hdrop
  have hraised : .raised "dropped" = h ∧ value :: m = m' := by simpa [drop] using hdrop
  exact ⟨"dropped", hraised.1.symm, rfl⟩

theorem fresh_new (settings : Settings) : container.Fresh settings (new settings) :=
  ⟨⟨_, rfl⟩, rfl⟩

end LoggedChannel

/-- No operation of a ring is at fault while fewer than `2 ^ 62` sequences are claimed.
Whatever its users do with a new ring through handles, however they nest their calls and
whatever their callbacks raise, what cuts them short is something they raised themselves
or a wait that nobody ends. And whenever parties act at the same time, the next access of
each of them is made without a fault. -/
theorem never_at_fault {cap : Capacity} {settings : Settings} :
    (∀ {V β : Type} {site : RingSite cap V} {raises : String → Prop} {x : Act V β} {w : V},
      Usage settings raises site {} x → site.Fresh settings w →
      (site.ledger.split (x.outcome w).2).1.claims < 2 ^ 62 → ∀ e, (x.outcome w).1 = .error e →
        e = .stalled ∨ ∃ text, e = .raised text ∧ raises text) ∧
    (∀ {P Q : Type} [DecidableEq P] [DecidableEq Q] {c : RingParties cap P Q},
      c.Reachable settings.producer settings.consumer settings.metrics →
      ∀ {α : Type} {records : Sequencer cap × Poller} {act : Act (Sequencer cap × Poller) α},
        c.Access settings.producer settings.consumer settings.metrics records act →
        act.Faultless records) := by
  constructor
  · intro V β site raises x w husage fresh few e he
    exact husage.cut_short fresh few he
  · intro P Q _ _ c h α records act haccess
    exact h.faultless haccess

/-- A consumer gives up in the middle of a poll, and a producer is about to make a claim. -/
theorem never_at_fault_dropped :
    (∃ e, (LoggedChannel.once.outcome (.new {})).1 = .error e ∧
      (e = .stalled ∨ ∃ text, e = .raised text ∧ text = "dropped")) ∧
    ∃ c : RingParties .two ℕ ℕ, c.Reachable .single .single false ∧
      (Part.first.lift (Sequencer.request 2)).Faultless c.current := by
  constructor
  · have hraised : (LoggedChannel.once.outcome (.new {})).1 = .error (.raised "dropped") := rfl
    exact ⟨_, hraised, never_at_fault.1 (LoggedChannel.usage_once {}) (LoggedChannel.fresh_new {})
      (by decide) _ hraised⟩
  · have htwo : Capacity.two.checkClaim 2 = .ok 2 := rfl
    have hreach : RingParties.Reachable .single .single false
        (.new .two .single .single false : RingParties .two ℕ ℕ) := .refl
    exact ⟨_, hreach, (@never_at_fault .two {}).2 hreach (.request htwo (by decide))⟩

end LapRing
