import LapRing.Proofs.LentRings
import LapRing.Proofs.RingLedger

/-!
# Actions that keep a ring in order

A ring is in order if its positions lie in their order and every claim is in the ledger.
An action is careful if it keeps a ring in order, leaves alone the sides that are not
free, lets out nothing but what its callers raise, and lets the counts drift no further
from what they count. Careful actions are put together to careful actions, also where
one is cut short and another has to close after it.
-/
namespace LapRing

/-- How far the counts of a ring are from what they count. -/
structure Balance where
  published : UInt64
  consumed : UInt64
  worked : UInt64
  idle : UInt64
  rejected : UInt64
deriving DecidableEq

namespace Balance

/-- After `n` items were claimed, and not yet published. -/
def claim (n : UInt64) (b : Balance) : Balance := { b with published := b.published - n }

def publish (n : UInt64) (b : Balance) : Balance := { b with published := b.published + n }

/-- After a batch was counted, and not yet noted. -/
def work (b : Balance) : Balance := { b with worked := b.worked + 1 }

def noteWork (b : Balance) : Balance := { b with worked := b.worked - 1 }

def rest (b : Balance) : Balance := { b with idle := b.idle + 1 }

def noteRest (b : Balance) : Balance := { b with idle := b.idle - 1 }

def reject (b : Balance) : Balance := { b with rejected := b.rejected + 1 }

def noteReject (b : Balance) : Balance := { b with rejected := b.rejected - 1 }

theorem publish_claim (n : UInt64) : publish n ∘ claim n = id := by
  funext b
  simp [publish, claim]

theorem noteWork_work : noteWork ∘ work = id := by
  funext b
  simp [noteWork, work]

theorem noteRest_rest : noteRest ∘ rest = id := by
  funext b
  simp [noteRest, rest]

theorem reject_noteReject : reject ∘ noteReject = id := by
  funext b
  simp [reject, noteReject]

end Balance

namespace RingView
variable {cap : Capacity}

/-- The balance of a ring that keeps counts. -/
def balance (v : RingView cap) : Option Balance :=
  v.sequencer.tally.map fun t =>
    { published := t.itemsPublished - v.sequencer.claimed.toUInt64
      consumed := t.itemsConsumed - v.sequencer.gating.toUInt64
      worked := t.batchesConsumed - UInt64.ofNat v.ledger.worked
      idle := t.idlePolls - UInt64.ofNat v.ledger.idle
      rejected := t.handlerErrors - UInt64.ofNat v.ledger.rejected }

/-- The ring is in order. All sequences claimed are in the ledger but for `owed`, and
published if a producer is free to claim the next. -/
structure Sane (settings : Settings) (d : FreeHandles) (owed : ℤ) (v : RingView cap) : Prop where
  producer : v.sequencer.producer = settings.producer
  consumer : v.poller.consumer = settings.consumer
  start_le : -1 ≤ v.sequencer.gating.toInt
  gating_le : v.sequencer.gating.toInt ≤ v.sequencer.cursor.toInt
  position : -1 ≤ (v.poller.position v.sequencer).toInt
  position_le : (v.poller.position v.sequencer).toInt ≤ v.sequencer.cursor.toInt
  cursor_le : v.sequencer.cursor.toInt ≤ v.sequencer.claimed.toInt
  claimed_lt : v.sequencer.claimed.toInt < v.ledger.claims + owed
  level : d.producers → v.sequencer.claimed = v.sequencer.cursor

/-- What stays as it is or grows while others act. -/
structure Kept (d : FreeHandles) (v v' : RingView cap) : Prop where
  claims_le : v.ledger.claims ≤ v'.ledger.claims
  cursor_le : v.sequencer.cursor.toInt ≤ v'.sequencer.cursor.toInt
  producing : d.producers = false →
    v'.sequencer.claimed = v.sequencer.claimed ∧ v'.sequencer.cursor = v.sequencer.cursor
  consuming : d.consumers = false →
    v'.sequencer.gating = v.sequencer.gating ∧ v'.poller = v.poller

namespace Kept
variable {d d' : FreeHandles} {v v' v'' : RingView cap}

theorem refl (v : RingView cap) : Kept d v v :=
  ⟨le_refl _, le_refl _, fun _ => ⟨rfl, rfl⟩, fun _ => ⟨rfl, rfl⟩⟩

theorem trans (h : Kept d v v') (h' : Kept d v' v'') : Kept d v v'' where
  claims_le := h.claims_le.trans h'.claims_le
  cursor_le := h.cursor_le.trans h'.cursor_le
  producing hd := by
    rw [(h'.producing hd).1, (h'.producing hd).2]
    exact h.producing hd
  consuming hd := by
    rw [(h'.consuming hd).1, (h'.consuming hd).2]
    exact h.consuming hd

/-- With more sides free, less has to be left alone. -/
theorem free (h : Kept d' v v') (hp : d.producers = false → d'.producers = false)
    (hc : d.consumers = false → d'.consumers = false) : Kept d v v' where
  claims_le := h.claims_le
  cursor_le := h.cursor_le
  producing hd := h.producing (hp hd)
  consuming hd := h.consuming (hc hd)

theorem sending {kind : Multiplicity} (h : Kept (d.sending kind) v v') : Kept d v v' := by
  refine h.free (fun hd => ?_) id
  simp [FreeHandles.sending, hd]

theorem receiving {kind : Multiplicity} (h : Kept (d.receiving kind) v v') : Kept d v v' := by
  refine h.free id fun hd => ?_
  simp [FreeHandles.receiving, hd]

end Kept

namespace Sane
variable {settings : Settings} {d : FreeHandles} {owed : ℤ} {v : RingView cap}

/-- Producers may go on as long as gating stays where it is. -/
theorem forward {d' : FreeHandles} {owed' : ℤ} {s : Sequencer cap} (h : Sane settings d owed v)
    (producer : s.producer = v.sequencer.producer) (gating : s.gating = v.sequencer.gating)
    (ahead : v.sequencer.cursor.toInt ≤ s.cursor.toInt)
    (cursor_le : s.cursor.toInt ≤ s.claimed.toInt)
    (claimed_lt : s.claimed.toInt < v.ledger.claims + owed')
    (level : d'.producers → s.claimed = s.cursor) :
    Sane settings d' owed' { v with sequencer := s } := by
  have hposition : v.poller.position s = v.poller.position v.sequencer := by
    simp [Poller.position, gating]
  constructor
  · exact producer.trans h.producer
  · exact h.consumer
  · simpa only [gating] using h.start_le
  · simpa only [gating] using h.gating_le.trans ahead
  · simpa only [hposition] using h.position
  · simpa only [hposition] using h.position_le.trans ahead
  · exact cursor_le
  · exact claimed_lt
  · exact level

theorem sending (h : Sane settings d owed v) : Sane settings (d.sending settings.producer) owed v :=
  { h with level := fun hd => h.level (by simp_all [FreeHandles.sending]) }

theorem receiving (h : Sane settings d owed v) :
    Sane settings (d.receiving settings.consumer) owed v :=
  { h with level := h.level }

/-- Shared producers move the cursor when they claim, so it matters not who is free. -/
theorem of_shared (h : Sane settings d owed v) (hshared : v.sequencer.producer = .multi)
    (d' : FreeHandles) : Sane settings d' owed v :=
  { h with level := fun _ => (Sequencer.cursor_of_shared hshared).symm }

/-- A producer that claimed nothing in the end leaves the next one free. -/
theorem of_sending {u : RingView cap} (h : Sane settings d owed v) {owed' : ℤ}
    (hu : Sane settings (d.sending settings.producer) owed' u)
    (kept : Kept (d.sending settings.producer) v u) : Sane settings d owed' u := by
  rcases u.sequencer.shared_or_single with hshared | hsole
  · exact hu.of_shared hshared d
  · have hspare : (d.sending settings.producer).producers = false := by
      simp [FreeHandles.sending, ← hu.producer, hsole]
    obtain ⟨hclaimed, hcursor⟩ := kept.producing hspare
    exact { hu with level := fun hd => by rw [hclaimed, hcursor, h.level hd] }

theorem of_receiving {kind : Multiplicity} (h : Sane settings (d.receiving kind) owed v) :
    Sane settings d owed v :=
  { h with level := h.level }

/-- Claims may be noted before they are made. -/
theorem owe (h : Sane settings d owed v) {more : ℤ} (le : owed ≤ more) : Sane settings d more v :=
  { h with claimed_lt := lt_of_lt_of_le h.claimed_lt (by omega) }

theorem claimed_ge (h : Sane settings d owed v) : -1 ≤ v.sequencer.claimed.toInt :=
  h.start_le.trans (h.gating_le.trans h.cursor_le)

theorem cursor_ge (h : Sane settings d owed v) : -1 ≤ v.sequencer.cursor.toInt :=
  h.start_le.trans h.gating_le

theorem claimed_few (h : Sane settings d owed v) (hfew : v.Few) :
    v.sequencer.claimed.toInt < 2 ^ 62 + owed := by
  have hlt := h.claimed_lt
  unfold Few at hfew
  omega

/-- What the sequencer remembers of gating is none of the order. -/
theorem withCached (h : Sane settings d owed v) (seen : Int64) :
    Sane settings d owed { v with sequencer := v.sequencer.withCached seen } := by
  have hposition : v.poller.position (v.sequencer.withCached seen) =
      v.poller.position v.sequencer := by
    simp [Poller.position]
  constructor
  · simpa using h.producer
  · exact h.consumer
  · simpa using h.start_le
  · simpa using h.gating_le
  · simpa only [hposition] using h.position
  · simpa only [hposition, Sequencer.cursor_withCached] using h.position_le
  · simpa using h.cursor_le
  · simpa using h.claimed_lt
  · simpa using h.level

theorem count (h : Sane settings d owed v) (f : Tally → Tally) :
    Sane settings d owed { v with sequencer := v.sequencer.count f } :=
  ⟨h.producer, h.consumer, h.start_le, h.gating_le, h.position, h.position_le, h.cursor_le,
    h.claimed_lt, h.level⟩

end Sane

end RingView

namespace Act
variable {β γ : Type}

/-- What cut an action short, if anything did. -/
def haltOf : Except Halt β → Option Halt
  | .ok _ => none
  | .error h => some h

@[simp] theorem haltOf_ok (v : β) : haltOf (.ok v : Except Halt β) = none := rfl

@[simp] theorem haltOf_error (h : Halt) : haltOf (.error h : Except Halt β) = some h := rfl

theorem haltOf_afterwards (e : Except Halt β) (c : Except Halt Unit) :
    haltOf (afterwards e c) = (haltOf c).or (haltOf e) := by
  cases c <;> rfl

end Act

/-- From `v` on an action was careful: the counts have drifted by `shift`, unless it
waits for ever, and it was cut short by nothing but what its callers raise. -/
structure Moved {cap : Capacity} (settings : Settings) (raises : String → Prop) (d d' : FreeHandles)
    (owed : ℤ) (shift : Balance → Balance) (v : RingView cap) (halt : Option Halt)
    (v' : RingView cap) : Prop where
  sane : v'.Sane settings d' owed
  kept : RingView.Kept d v v'
  balance : halt ≠ some .stalled → v'.balance = v.balance.map shift
  fair : ∀ h, halt = some h → h = .stalled ∨ ∃ text, h = .raised text ∧ raises text

/-- Nothing is raised. -/
abbrev quiet : String → Prop := fun _ => False

namespace Moved
variable {cap : Capacity} {settings : Settings} {raises : String → Prop} {d d' d'' : FreeHandles}
  {owed owed' : ℤ} {shift shift' : Balance → Balance} {v v' v'' : RingView cap} {halt : Option Halt}

theorem refl (h : v.Sane settings d owed) : Moved settings raises d d owed id v none v where
  sane := h
  kept := .refl v
  balance _ := by simp
  fair := nofun

theorem stalled (h : v.Sane settings d owed) :
    Moved settings raises d d owed id v (some .stalled) v where
  sane := h
  kept := .refl v
  balance hh := absurd rfl hh
  fair _ hh := Or.inl (Option.some.inj hh).symm

theorem trans (h : Moved settings raises d d' owed shift v none v')
    (h' : Moved settings raises d d'' owed' shift' v' halt v'') :
    Moved settings raises d d'' owed' (shift' ∘ shift) v halt v'' where
  sane := h'.sane
  kept := h.kept.trans h'.kept
  balance hh := by
    rw [h'.balance hh, h.balance (by simp), Option.map_map]
  fair := h'.fair

theorem few (h : Moved settings raises d d' owed shift v halt v') (hfew : v'.Few) : v.Few :=
  lt_of_le_of_lt h.kept.claims_le hfew

/-- What closes an action raises nothing, and then that action has ended as it did. -/
theorem closed (h : Moved settings raises d d' owed shift v halt v') {later : Option Halt}
    (h' : Moved settings quiet d d'' owed' shift' v' later v'') :
    Moved settings raises d d'' owed' (shift' ∘ shift) v (later.or halt) v'' where
  sane := h'.sane
  kept := h.kept.trans h'.kept
  balance hh := by
    cases later with
    | none => rw [h'.balance (by simp), h.balance hh, Option.map_map]
    | some e =>
      rcases h'.fair e rfl with rfl | ⟨_, _, hnot⟩
      · exact absurd rfl hh
      · exact hnot.elim
  fair e he := by
    cases later with
    | none => exact h.fair e he
    | some l => exact (h'.fair e he).imp_right fun ⟨_, _, hnot⟩ => hnot.elim

theorem resane (h : Moved settings raises d d' owed shift v halt v')
    (hsane : v'.Sane settings d'' owed) : Moved settings raises d d'' owed shift v halt v' :=
  { h with sane := hsane }

theorem keep (h : Moved settings raises d' d'' owed shift v halt v')
    (hkept : RingView.Kept d' v v' → RingView.Kept d v v') :
    Moved settings raises d d'' owed shift v halt v' :=
  { h with kept := hkept h.kept }

theorem loosen (h : Moved settings quiet d d' owed shift v halt v') :
    Moved settings raises d d' owed shift v halt v' :=
  { h with fair := fun e he => (h.fair e he).imp_right fun ⟨_, _, hnot⟩ => hnot.elim }

/-- A wait without end says nothing about the counts. -/
theorem adrift (h : Moved settings raises d d' owed shift v (some .stalled) v') :
    Moved settings raises d d' owed shift' v (some .stalled) v' :=
  { h with balance := fun hh => absurd rfl hh }

/-- What raises nothing is cut short by a wait without end. -/
theorem gaveUp {e : Halt} (h : Moved settings quiet d d' owed shift v (some e) v') :
    Moved settings quiet d d' owed shift' v (some e) v' := by
  rcases h.fair e rfl with rfl | ⟨_, _, hnot⟩
  · exact h.adrift
  · exact hnot.elim

/-- After what was raised, its callers may go on and let it out later. -/
theorem caught {e : Halt} (h : Moved settings raises d d' owed shift v (some e) v')
    (hne : e ≠ .stalled) : Moved settings raises d d' owed shift v none v' :=
  ⟨h.sane, h.kept, fun _ => h.balance (by simpa using hne), nofun⟩

theorem thrown (h : Moved settings raises d d' owed shift v none v') {e : Halt}
    (fair : e = .stalled ∨ ∃ text, e = .raised text ∧ raises text) :
    Moved settings raises d d' owed shift v (some e) v' :=
  ⟨h.sane, h.kept, fun _ => h.balance (by simp), fun _ he => Option.some.inj he ▸ fair⟩

theorem reshift (h : Moved settings raises d d' owed shift v halt v') (heq : shift = shift') :
    Moved settings raises d d' owed shift' v halt v' :=
  heq ▸ h

end Moved

/-- However it is begun in a ring in order, the action is careful. -/
def RingSite.Careful {cap : Capacity} {V β : Type} (site : RingSite cap V) (settings : Settings)
    (raises : String → Prop) (d : FreeHandles) (x : Act V β) : Prop :=
  ∀ w, ((site.ringView w).Few → (site.ringView w).Sane settings d 0) →
    site.Brings x w fun e v => Moved settings raises d d 0 id (site.ringView w) (Act.haltOf e) v

namespace RingSite
variable {cap : Capacity} {V β γ ι : Type} {site : RingSite cap V} {settings : Settings}
  {raises : String → Prop} {d d' : FreeHandles}

namespace Careful
variable {x : Act V β}

theorem pure (v : β) : site.Careful settings raises d (Pure.pure v) :=
  fun _ h => .pure fun hfew => .refl (h hfew)

theorem bind {f : β → Act V γ} (hx : site.Careful settings raises d x)
    (hf : ∀ v, site.Careful settings raises d (f v)) :
    site.Careful settings raises d (x >>= f) := by
  intro w h
  refine (hx w h).bind (fun v w' hw' => ?_) fun _ _ _ he => he
  refine (hf v w' fun hfew => (hw' hfew).sane).weaken fun hfew e u hu => ?_
  exact (hw' hfew).trans hu

theorem closing {close : Act V Unit} (hx : site.Careful settings raises d x)
    (hclose : site.Careful settings quiet d close) :
    site.Careful settings raises d (x.closing close) := by
  intro w h
  refine (hx w h).closing fun e w' hw' => ?_
  refine (hclose w' fun hfew => (hw' hfew).sane).weaken fun hfew c u hu => ?_
  rw [Act.haltOf_afterwards]
  exact (hw' hfew).closed hu

theorem onHalt {repair : Act V Unit} (hx : site.Careful settings raises d x)
    (hrepair : site.Careful settings quiet d repair) :
    site.Careful settings raises d (x.onHalt repair) := by
  intro w h
  refine (hx w h).onHalt (fun _ _ _ hu => hu) fun e w' hw' => ?_
  refine (hrepair w' fun hfew => (hw' hfew).sane).weaken fun hfew c u hu => ?_
  rw [Act.haltOf_afterwards]
  exact (hw' hfew).closed hu

theorem loosen (hx : site.Careful settings quiet d x) : site.Careful settings raises d x :=
  fun w h => (hx w h).weaken fun _ _ _ hu => hu.loosen

theorem forM {f : ι → Act V Unit} (hf : ∀ i, site.Careful settings raises d (f i))
    (items : List ι) :
    site.Careful settings raises d (items.forM f) := by
  induction items with
  | nil => exact pure ()
  | cons i items ih => exact (hf i).bind fun _ => ih

theorem foldlM {f : γ → ι → Act V γ} (hf : ∀ c i, site.Careful settings raises d (f c i))
    (items : List ι) (c : γ) : site.Careful settings raises d (items.foldlM f c) := by
  induction items generalizing c with
  | nil => exact pure c
  | cons i items ih =>
    rw [List.foldlM_cons]
    exact (hf c i).bind ih

theorem rescued (hx : site.Careful settings raises d x) :
    site.Careful settings quiet d x.rescued := by
  intro w h
  refine (hx w h).rescued fun _ e u hu => ?_
  rcases e with e | v
  · rcases hu.fair e rfl with rfl | ⟨text, rfl, -⟩
    · exact ⟨hu.sane, hu.kept, fun hh => absurd rfl hh,
        fun _ he => Or.inl (Option.some.inj he).symm⟩
    · exact ⟨hu.sane, hu.kept, fun _ => hu.balance (by simp), nofun⟩
  · exact ⟨hu.sane, hu.kept, hu.balance, nofun⟩

/-- What can be done while a consumer is busy can be done at any time. -/
theorem of_receiving (hx : site.Careful settings raises (d.receiving settings.consumer) x) :
    site.Careful settings raises d x := by
  intro w h
  refine (hx w fun hfew => (h hfew).receiving).weaken fun _ e u hu => ?_
  exact (hu.keep RingView.Kept.receiving).resane hu.sane.of_receiving

theorem another {y : Act V Unit} (hy : site.Careful settings raises d y) :
    site.Careful settings quiet d y.another :=
  hy.rescued.bind fun _ => pure ()

theorem outer {X : Type} (hx : site.Careful settings raises d x) :
    (site.beside X).Careful settings raises d (Act.outer x) :=
  fun ⟨own, w⟩ h => (hx w h).outer own

theorem owning {X : Type} {own : X} {y : Act (X × V) β}
    (hy : (site.beside X).Careful settings raises d y) :
    site.Careful settings raises d (Act.owning own y) :=
  fun w h => .owning (hy (own, w) h)

theorem lend {s : Int64} {act : Act (site.Slot × V) β}
    (h : (site.beside site.Slot).Careful settings raises d act) :
    site.Careful settings raises d ((site.ring.within (Ring.slotPart s)).lend act) :=
  fun _ hw => .lend (h _ hw)

theorem own {M : Type} {p : Part V M} {act : Act M β} (hring : site.ring.Apart p)
    (hledger : site.ledger.Apart p)
    (hact : ∀ m h m', act m = .error h m' → ∃ text, h = .raised text ∧ raises text) :
    site.Careful settings raises d (p.lift act) := by
  intro w h
  refine .own hring hledger fun hfew => ?_
  have hsame : Moved settings raises d d 0 id _ none _ := .refl (h hfew)
  refine ⟨hsame.sane, hsame.kept, fun _ => hsame.balance (by simp), fun e he => ?_⟩
  cases hrun : act (p.split w).1 with
  | ok b m =>
    rw [Act.outcome_ok hrun] at he
    simp at he
  | error e' m =>
    rw [Act.outcome_error hrun] at he
    obtain rfl : e' = e := by simpa using he
    exact Or.inr (hact _ _ _ hrun)

/-- What leaves the sequencer and the poller of a ring alone is careful. -/
theorem lift {act : Act (Ring cap site.Slot) β}
    (h : ∀ r, (∀ h, Act.haltOf (act.outcome r).1 = some h → h = .stalled) ∧
      (act.outcome r).2.sequencer = r.sequencer ∧ (act.outcome r).2.poller = r.poller ∧
      act.outcome r.uncounted = ((act.outcome r).1, (act.outcome r).2.uncounted)) :
    site.Careful settings raises d (site.ring.lift act) := by
  intro w hw
  obtain ⟨hhalt, hsequencer, hpoller, hsilent⟩ := h (site.ring.split w).1
  refine .lift fun hfew => ⟨?_, hsilent⟩
  rw [hsequencer, hpoller]
  have hsame : Moved settings raises d d 0 id _ none _ := .refl (hw hfew)
  exact ⟨hsame.sane, hsame.kept, fun _ => hsame.balance (by simp), fun e he => Or.inl (hhalt e he)⟩

end Careful

end RingSite

end LapRing
