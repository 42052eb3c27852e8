import LapRing.Proofs.RingUsage

/-!
# What an action brings about in a ring and in the ledger

What keeps a ring in order can be told from its sequencer, its poller and the ledger of
its users. An action brings such a view about while few sequences are claimed, and the same
action in a world without counts ends alike, in the same world without counts. Claims in
the ledger only grow, so that few claims at the end were few all along.
-/
namespace LapRing

/-- What is seen of a ring and of the ledger of its users. -/
structure RingView (cap : Capacity) where
  sequencer : Sequencer cap
  poller : Poller
  ledger : Ledger

/-- Fewer sequences were claimed than half the words that sequences have. -/
def RingView.Few {cap : Capacity} (v : RingView cap) : Prop := v.ledger.claims < 2 ^ 62

namespace Part
variable {V S T : Type} {p : Part V S} {q : Part V T}

/-- What is joined in one place leaves what is apart from it. -/
theorem Apart.split_join (h : p.Apart q) (hp : p.Lawful) (t : T) (w : V) :
    (p.split (q.join t (q.split w).2)).1 = (p.split w).1 := by
  have hsame : p.alter (fun _ => (p.split w).1) w = w := alter_eq_self hp rfl
  have hjoin := h.join_alter (fun _ => (p.split w).1) t w
  rw [hsame] at hjoin
  rw [hjoin, Part.split_alter hp]

end Part

namespace Act
variable {L W β : Type}

/-- What comes of an ending when something is done after it. -/
def afterwards (ending : Except Halt β) : Except Halt Unit → Except Halt β
  | .ok () => ending
  | .error h => .error h

theorem outcome_closing_eq (x : Act W β) (close : Act W Unit) (w : W) :
    (x.closing close).outcome w =
      (afterwards (x.outcome w).1 (close.outcome (x.outcome w).2).1,
        (close.outcome (x.outcome w).2).2) := by
  rw [Act.outcome_closing]
  rcases x.outcome w with ⟨_ | _, w'⟩ <;> rcases close.outcome w' with ⟨_ | _, _⟩ <;> rfl

theorem outcome_ending (x : Act W β) (w : W) :
    x.ending.outcome w = (.ok (x.outcome w).1, (x.outcome w).2) :=
  outcome_ok (ending_apply x w)

/-- What comes of an action whose callers catch what they raise. -/
def caught : Except Halt β → Except Halt (Except String β)
  | .ok v => .ok (.ok v)
  | .error (.raised text) => .ok (.error text)
  | .error h => .error h

theorem outcome_rescued (x : Act W β) (w : W) :
    x.rescued.outcome w = (caught (x.outcome w).1, (x.outcome w).2) := by
  rcases h : x w with _ | ⟨_ | _ | _, _⟩ <;> simp [outcome, rescued, caught, h]

theorem outcome_outer (x : Act W β) (l : L) (w : W) :
    (outer x).outcome (l, w) = ((x.outcome w).1, (l, (x.outcome w).2)) :=
  Part.outcome_lift x (l, w)

theorem outcome_owning_eq (own : L) (x : Act (L × W) β) (w : W) :
    (owning own x).outcome w = ((x.outcome (own, w)).1, (x.outcome (own, w)).2.2) := by
  cases h : x (own, w) <;> simp [outcome, owning, h]

end Act

namespace RingSite
variable {cap : Capacity} {V β γ : Type}

def ringView (site : RingSite cap V) (w : V) : RingView cap where
  sequencer := (site.ring.split w).1.sequencer
  poller := (site.ring.split w).1.poller
  ledger := (site.ledger.split w).1

/-- The world in which the ring keeps no counts. -/
def silence (site : RingSite cap V) (w : V) : V := site.ring.alter Ring.uncounted w

/-- From `w` the action brings about `post`, as far as few sequences are claimed. -/
structure Brings (site : RingSite cap V) (x : Act V β) (w : V)
    (post : Except Halt β → RingView cap → Prop) : Prop where
  claims_le : (site.ringView w).ledger.claims ≤ (site.ringView (x.outcome w).2).ledger.claims
  leads : (site.ringView (x.outcome w).2).Few → post (x.outcome w).1 (site.ringView (x.outcome w).2)
  silent : (site.ringView (x.outcome w).2).Few →
    x.outcome (site.silence w) = ((x.outcome w).1, site.silence (x.outcome w).2)

theorem ledger_silence (site : RingSite cap V) (w : V) :
    (site.ledger.split (site.silence w)).1 = (site.ledger.split w).1 :=
  site.apart.split_alter _ _

theorem ring_silence (site : RingSite cap V) (w : V) :
    (site.ring.split (site.silence w)).1 = (site.ring.split w).1.uncounted :=
  Part.split_alter site.lawful_ring _ _

theorem silence_beside {X : Type} (site : RingSite cap V) (own : X) (w : V) :
    (site.beside X).silence (own, w) = (own, site.silence w) := rfl

theorem ringView_alter (site : RingSite cap V)
    (f : Ring cap site.Slot → Ring cap site.Slot) (w : V) :
    site.ringView (site.ring.alter f w) = ⟨(f (site.ring.split w).1).sequencer,
      (f (site.ring.split w).1).poller, (site.ringView w).ledger⟩ := by
  unfold ringView
  rw [Part.split_alter site.lawful_ring, site.apart.split_alter]

theorem silence_alter (site : RingSite cap V) {f : Ring cap site.Slot → Ring cap site.Slot}
    (comm : ∀ r, f r.uncounted = (f r).uncounted) (w : V) :
    site.ring.alter f (site.silence w) = site.silence (site.ring.alter f w) := by
  rw [silence, silence, Part.alter_alter site.lawful_ring, Part.alter_alter site.lawful_ring]
  congr 1
  funext r
  exact comm r

namespace Brings
variable {site : RingSite cap V} {x : Act V β} {w : V} {P Q : Except Halt β → RingView cap → Prop}

/-- What is few at the end was few before. -/
theorem few (h : site.Brings x w P) (hfew : (site.ringView (x.outcome w).2).Few) :
    (site.ringView w).Few :=
  lt_of_le_of_lt h.claims_le hfew

theorem weaken (h : site.Brings x w P)
    (hpq : (site.ringView w).Few → ∀ e v, P e v → Q e v) : site.Brings x w Q where
  claims_le := h.claims_le
  leads hfew := hpq (h.few hfew) _ _ (h.leads hfew)
  silent := h.silent

/-- An action that leaves the ledger alone. -/
theorem leaf (hledger : (site.ledger.split (x.outcome w).2).1 = (site.ledger.split w).1)
    (h : (site.ringView w).Few → Q (x.outcome w).1 (site.ringView (x.outcome w).2) ∧
      x.outcome (site.silence w) = ((x.outcome w).1, site.silence (x.outcome w).2)) :
    site.Brings x w Q := by
  have hsame : (site.ringView (x.outcome w).2).ledger = (site.ringView w).ledger := hledger
  have hfew : (site.ringView (x.outcome w).2).Few → (site.ringView w).Few := by
    intro hfew
    rwa [RingView.Few, hsame] at hfew
  constructor
  · rw [hsame]
  · exact fun hf => (h (hfew hf)).1
  · exact fun hf => (h (hfew hf)).2

theorem pure {v : β} (h : (site.ringView w).Few → Q (.ok v) (site.ringView w)) :
    site.Brings (Pure.pure v) w Q :=
  leaf rfl fun hfew => ⟨h hfew, rfl⟩

theorem throw {e : Halt} (h : (site.ringView w).Few → Q (.error e) (site.ringView w)) :
    site.Brings (MonadExcept.throw e) w Q :=
  leaf rfl fun hfew => ⟨h hfew, rfl⟩

theorem bind {f : β → Act V γ} {R : Except Halt γ → RingView cap → Prop}
    (hx : site.Brings x w P)
    (hf : ∀ v w', ((site.ringView w').Few → P (.ok v) (site.ringView w')) → site.Brings (f v) w' R)
    (herror : (site.ringView w).Few → ∀ e v, P (.error e) v → R (.error e) v) :
    site.Brings (x >>= f) w R := by
  have hbind := Act.outcome_bind x f w
  have hbind' := Act.outcome_bind x f (site.silence w)
  cases hrun : x.outcome w with
  | mk ending w' =>
    have hle := hx.claims_le
    have hleads := hx.leads
    have hsilent := hx.silent
    rw [hrun] at hbind hle hleads hsilent
    cases ending with
    | error e =>
      simp only at hbind hle hleads hsilent
      constructor
      · rw [hbind]
        exact hle
      · rw [hbind]
        intro hfew
        exact herror (lt_of_le_of_lt hle hfew) _ _ (hleads hfew)
      · rw [hbind, hbind']
        intro hfew
        rw [hsilent hfew]
    | ok v =>
      simp only at hbind hle hleads hsilent
      have hnext := hf v w' hleads
      constructor
      · rw [hbind]
        exact hle.trans hnext.claims_le
      · rw [hbind]
        exact hnext.leads
      · rw [hbind, hbind']
        intro hfew
        rw [hsilent (hnext.few hfew)]
        exact hnext.silent hfew

theorem closing {close : Act V Unit} (hx : site.Brings x w P)
    (hclose : ∀ e w', ((site.ringView w').Few → P e (site.ringView w')) →
      site.Brings close w' fun c v => Q (Act.afterwards e c) v) :
    site.Brings (x.closing close) w Q := by
  have hrun := Act.outcome_closing_eq x close w
  have hnext := hclose _ _ hx.leads
  constructor
  · rw [hrun]
    exact hx.claims_le.trans hnext.claims_le
  · rw [hrun]
    exact hnext.leads
  · rw [hrun]
    intro hfew
    rw [Act.outcome_closing_eq, hx.silent (hnext.few hfew), hnext.silent hfew]

theorem onHalt {repair : Act V Unit} (hx : site.Brings x w P)
    (hok : (site.ringView w).Few → ∀ v u, P (.ok v) u → Q (.ok v) u)
    (hrepair : ∀ e w', ((site.ringView w').Few → P (.error e) (site.ringView w')) →
      site.Brings repair w' fun c v => Q (Act.afterwards (.error e) c) v) :
    site.Brings (x.onHalt repair) w Q := by
  have hhalt := Act.outcome_onHalt x repair w
  have hhalt' := Act.outcome_onHalt x repair (site.silence w)
  cases hrun : x.outcome w with
  | mk ending w' =>
    have hle := hx.claims_le
    have hleads := hx.leads
    have hsilent := hx.silent
    rw [hrun] at hhalt hle hleads hsilent
    cases ending with
    | ok v =>
      simp only at hhalt hle hleads hsilent
      constructor
      · rw [hhalt]
        exact hle
      · rw [hhalt]
        intro hfew
        exact hok (lt_of_le_of_lt hle hfew) _ _ (hleads hfew)
      · rw [hhalt, hhalt']
        intro hfew
        rw [hsilent hfew]
    | error e =>
      simp only at hhalt hle hleads hsilent
      have hnext := hrepair e w' hleads
      have hrun' : (x.onHalt repair).outcome w =
          (Act.afterwards (.error e) (repair.outcome w').1, (repair.outcome w').2) := by
        rw [hhalt]
        rcases repair.outcome w' with ⟨_ | _, _⟩ <;> rfl
      constructor
      · rw [hrun']
        exact hle.trans hnext.claims_le
      · rw [hrun']
        exact hnext.leads
      · rw [hrun', hhalt']
        intro hfew
        rw [hsilent (hnext.few hfew)]
        simp only [hnext.silent hfew]
        rcases repair.outcome w' with ⟨_ | _, _⟩ <;> rfl

/-- A checked word that there is while few sequences are claimed. -/
theorem word {value : ℤ} {fault : Fault} {R : Except Halt Int64 → RingView cap → Prop}
    (h : (site.ringView w).Few → (Int64.ofInt value).toInt = value ∧
      R (.ok (Int64.ofInt value)) (site.ringView w)) :
    site.Brings (Checked.word value fault) w R := by
  unfold Checked.word
  dsimp only
  split
  · exact pure fun hfew => (h hfew).2
  · rename_i hinexact
    exact throw fun hfew => absurd (h hfew).1 hinexact

theorem sub_bind {a b : Int64} {k : Int64 → Act V β}
    (h : (site.ringView w).Few → -2 ^ 63 ≤ a.toInt - b.toInt ∧ a.toInt - b.toInt < 2 ^ 63)
    (hk : site.Brings (k (a - b)) w Q) : site.Brings (Checked.sub a b >>= k) w Q := by
  by_cases hexact : (a - b).toInt = a.toInt - b.toInt
  · rwa [Checked.sub_eq hexact, pure_bind]
  · have hinexact : (Int64.ofInt (a.toInt - b.toInt)).toInt ≠ a.toInt - b.toInt := by
      rwa [Int64.toInt_ofInt, ← Int64.toInt_sub]
    have hthrow : (Checked.sub a b >>= k) = MonadExcept.throw (.fault .subOverflow) := by
      funext v
      rw [Checked.sub, Checked.word, if_neg hinexact]
      exact Act.throw_bind _ _ _
    rw [hthrow]
    exact throw fun hfew => absurd (Checked.toInt_sub (h hfew).1 (h hfew).2) hexact

/-- What is done with the ending of an action. -/
theorem ending_bind {f : Except Halt β → Act V γ} {R : Except Halt γ → RingView cap → Prop}
    (hx : site.Brings x w P)
    (hf : ∀ e w', ((site.ringView w').Few → P e (site.ringView w')) → site.Brings (f e) w' R) :
    site.Brings (x.ending >>= f) w R := by
  have hending : site.Brings x.ending w fun e v => ∃ r, e = .ok r ∧ P r v := by
    constructor
    · rw [Act.outcome_ending]
      exact hx.claims_le
    · rw [Act.outcome_ending]
      exact fun hfew => ⟨_, rfl, hx.leads hfew⟩
    · rw [Act.outcome_ending, Act.outcome_ending]
      intro hfew
      rw [hx.silent hfew]
  refine hending.bind (fun r w' hr => hf r w' fun hfew => ?_) ?_
  · obtain ⟨e, he, hp⟩ := hr hfew
    cases he
    exact hp
  · rintro - e v ⟨r, he, -⟩
    simp at he

theorem rescued {R : Except Halt (Except String β) → RingView cap → Prop} (hx : site.Brings x w P)
    (hpr : (site.ringView w).Few → ∀ e v, P e v → R (Act.caught e) v) :
    site.Brings x.rescued w R := by
  constructor
  · rw [Act.outcome_rescued]
    exact hx.claims_le
  · rw [Act.outcome_rescued]
    exact fun hfew => hpr (hx.few hfew) _ _ (hx.leads hfew)
  · rw [Act.outcome_rescued, Act.outcome_rescued]
    intro hfew
    rw [hx.silent hfew]

/-! ## Actions with something beside the world -/

theorem outer {X : Type} (own : X) (hx : site.Brings x w P) :
    (site.beside X).Brings (Act.outer x) (own, w) P := by
  constructor
  · rw [Act.outcome_outer]
    exact hx.claims_le
  · rw [Act.outcome_outer]
    exact hx.leads
  · rw [Act.outcome_outer, silence_beside, Act.outcome_outer]
    intro hfew
    rw [hx.silent hfew]
    rfl

theorem owning {X : Type} {own : X} {y : Act (X × V) β}
    (hy : (site.beside X).Brings y (own, w) P) : site.Brings (Act.owning own y) w P := by
  constructor
  · rw [Act.outcome_owning_eq]
    exact hy.claims_le
  · rw [Act.outcome_owning_eq]
    exact hy.leads
  · rw [Act.outcome_owning_eq, Act.outcome_owning_eq, ← silence_beside]
    intro hfew
    rw [hy.silent hfew]
    rfl

/-! ## Actions on the ring and on the ledger -/

/-- What is done to the ring alone. -/
theorem lift {act : Act (Ring cap site.Slot) β}
    (h : (site.ringView w).Few →
      Q (act.outcome (site.ring.split w).1).1
        ⟨(act.outcome (site.ring.split w).1).2.sequencer,
          (act.outcome (site.ring.split w).1).2.poller, (site.ringView w).ledger⟩ ∧
      act.outcome (site.ring.split w).1.uncounted =
        ((act.outcome (site.ring.split w).1).1,
          (act.outcome (site.ring.split w).1).2.uncounted)) :
    site.Brings (site.ring.lift act) w Q := by
  have hout := Part.outcome_lift (p := site.ring) act w
  have hledger : (site.ledger.split ((site.ring.lift act).outcome w).2).1 =
      (site.ledger.split w).1 := by
    rw [hout]
    have hsame := site.apart.split_alter
      (fun _ => (act.outcome (site.ring.split w).1).2) w
    exact hsame
  refine leaf hledger fun hfew => ?_
  obtain ⟨hpost, hact⟩ := h hfew
  have hring : (site.ring.split (site.ring.join (act.outcome (site.ring.split w).1).2
      (site.ring.split w).2)).1 = (act.outcome (site.ring.split w).1).2 :=
    site.lawful_ring.split_join _ _
  constructor
  · have hview : site.ringView ((site.ring.lift act).outcome w).2 =
        ⟨(act.outcome (site.ring.split w).1).2.sequencer,
          (act.outcome (site.ring.split w).1).2.poller, (site.ringView w).ledger⟩ := by
      unfold ringView
      rw [hledger, hout, hring]
    rw [hview, hout]
    exact hpost
  · rw [Part.outcome_lift, ring_silence, hact, hout]
    simp only [silence, Part.alter, site.lawful_ring.join_join, site.lawful_ring.split_join]

theorem lift_sequencer {act : Act (Sequencer cap) β}
    (h : (site.ringView w).Few →
      Q (act.outcome (site.ringView w).sequencer).1
        { site.ringView w with sequencer := (act.outcome (site.ringView w).sequencer).2 } ∧
      act.outcome (site.ringView w).sequencer.uncounted =
        ((act.outcome (site.ringView w).sequencer).1,
          (act.outcome (site.ringView w).sequencer).2.uncounted)) :
    site.Brings ((site.ring.within Ring.sequencerPart).lift act) w Q := by
  rw [Part.lift_within]
  refine lift fun hfew => ?_
  obtain ⟨hpost, hact⟩ := h hfew
  rw [Part.outcome_lift, Part.outcome_lift]
  constructor
  · exact hpost
  · have hsplit : (Ring.sequencerPart.split (site.ring.split w).1.uncounted).1 =
        (site.ringView w).sequencer.uncounted := rfl
    rw [hsplit, hact]
    rfl

theorem update_sequencer {f : Sequencer cap → Sequencer cap}
    {R : Except Halt Unit → RingView cap → Prop}
    (comm : ∀ s, f s.uncounted = (f s).uncounted)
    (h : (site.ringView w).Few →
      R (.ok ()) { site.ringView w with sequencer := f (site.ringView w).sequencer }) :
    site.Brings ((site.ring.within Ring.sequencerPart).update f) w R := by
  refine lift_sequencer fun hfew => ⟨h hfew, ?_⟩
  change (_, f (site.ringView w).sequencer.uncounted) = _
  rw [comm]
  rfl

theorem update_bind {f : Sequencer cap → Sequencer cap} {k : Unit → Act V β}
    (comm : ∀ s, f s.uncounted = (f s).uncounted)
    (hk : ∀ w', ((site.ringView w').Few →
        site.ringView w' = { site.ringView w with sequencer := f (site.ringView w).sequencer }) →
      site.Brings (k ()) w' Q) :
    site.Brings ((site.ring.within Ring.sequencerPart).update f >>= k) w Q := by
  have hupdate : site.Brings ((site.ring.within Ring.sequencerPart).update f) w fun e v =>
      e = .ok () ∧ v = { site.ringView w with sequencer := f (site.ringView w).sequencer } :=
    update_sequencer comm fun _ => ⟨rfl, rfl⟩
  refine hupdate.bind (fun _ w' hw' => hk w' fun hfew => (hw' hfew).2) ?_
  rintro - e v ⟨he, -⟩
  simp at he

/-- What is done with the ring that was read, unless it looks at the counts. -/
theorem read_ring {k : Ring cap site.Slot → Act V β} (blind : ∀ r, k r.uncounted = k r)
    (h : site.Brings (k (site.ring.split w).1) w Q) : site.Brings (site.ring.read >>= k) w Q := by
  have hread : ∀ w, (site.ring.read >>= k).outcome w = (k (site.ring.split w).1).outcome w :=
    fun w => Act.outcome_eq (Part.read_bind site.lawful_ring k w)
  constructor
  · rw [hread]
    exact h.claims_le
  · rw [hread]
    exact h.leads
  · rw [hread, hread, ring_silence, blind]
    exact h.silent

theorem read_bind {T : Type} {q : Part (Ring cap site.Slot) T} (hq : q.Lawful) {k : T → Act V β}
    (blind : ∀ r : Ring cap site.Slot, k (q.split r.uncounted).1 = k (q.split r).1)
    (h : site.Brings (k (q.split (site.ring.split w).1).1) w Q) :
    site.Brings ((site.ring.within q).read >>= k) w Q := by
  have hread : ((site.ring.within q).read >>= k) =
      site.ring.read >>= fun r => k (q.split r).1 := by
    funext v
    rw [Part.read_bind (site.lawful_ring.within hq), Part.read_bind site.lawful_ring]
    rfl
  rw [hread]
  exact read_ring blind h

/-- The ledger is written without a look at the ring. -/
theorem note {f : Ledger → Ledger} {R : Except Halt Unit → RingView cap → Prop}
    (grows : ∀ b, b.claims ≤ (f b).claims)
    (h : (site.ringView w).Few →
      R (.ok ()) { site.ringView w with ledger := f (site.ringView w).ledger }) :
    site.Brings (site.note f) w R := by
  have hout : (site.note f).outcome w =
      (.ok (), site.ledger.join (f (site.ledger.split w).1) (site.ledger.split w).2) := rfl
  have hring := site.apart.split_join site.lawful_ring (f (site.ledger.split w).1) w
  have hview : site.ringView ((site.note f).outcome w).2 =
      { site.ringView w with ledger := f (site.ringView w).ledger } := by
    rw [hout]
    unfold ringView
    rw [hring, site.lawful_ledger.split_join]
  constructor
  · rw [hview]
    exact grows _
  · rw [hview, hout]
    exact fun hfew => h (lt_of_le_of_lt (grows _) hfew)
  · intro _
    exact site.apart.ignores_lift Ring.uncounted (modify f) w

/-- Whatever is apart from the ring and the ledger leaves both alone. -/
theorem own {M : Type} {p : Part V M} {act : Act M β} (hring : site.ring.Apart p)
    (hledger : site.ledger.Apart p)
    (h : (site.ringView w).Few → Q (act.outcome (p.split w).1).1 (site.ringView w)) :
    site.Brings (p.lift act) w Q := by
  have hout := Part.outcome_lift (p := p) act w
  have hsame := hledger.split_join site.lawful_ledger (act.outcome (p.split w).1).2 w
  refine leaf (by rw [hout, hsame]) fun hfew => ?_
  constructor
  · have hview : site.ringView ((p.lift act).outcome w).2 = site.ringView w := by
      rw [hout]
      unfold ringView
      rw [hring.split_join site.lawful_ring, hsame]
    rw [hview, hout]
    exact h hfew
  · exact hring.ignores_lift Ring.uncounted act w

/-- What is lent of a slot and put back is no part of the view. -/
theorem lend {s : Int64} {act : Act (site.Slot × V) β}
    (h : (site.beside site.Slot).Brings act ((site.ring.split w).1.slots.read s, w) Q) :
    site.Brings ((site.ring.within (Ring.slotPart s)).lend act) w Q := by
  have hout := Part.outcome_lend (p := site.ring.within (Ring.slotPart s)) act
  have hsplit : ∀ w, ((site.ring.within (Ring.slotPart s)).split w).1 =
      (site.ring.split w).1.slots.read s := fun _ => rfl
  have hjoin : ∀ (e : site.Slot) (u : V), (site.ring.within (Ring.slotPart s)).join e
      ((site.ring.within (Ring.slotPart s)).split u).2 =
      site.ring.alter (fun r => { r with slots := r.slots.write s e }) u := fun _ _ => rfl
  have hview : ∀ (e : site.Slot) (u : V), site.ringView ((site.ring.within (Ring.slotPart s)).join e
      ((site.ring.within (Ring.slotPart s)).split u).2) = site.ringView u := by
    intro e u
    rw [hjoin, ringView_alter]
    rfl
  have hsilence : ∀ (e : site.Slot) (u : V),
      (site.ring.within (Ring.slotPart s)).join e
        ((site.ring.within (Ring.slotPart s)).split (site.silence u)).2 =
      site.silence ((site.ring.within (Ring.slotPart s)).join e
        ((site.ring.within (Ring.slotPart s)).split u).2) := by
    intro e u
    rw [hjoin, hjoin]
    exact site.silence_alter (f := fun r => { r with slots := r.slots.write s e }) (fun _ => rfl) u
  constructor
  · rw [hout, hview]
    exact h.claims_le
  · rw [hout, hview]
    exact h.leads
  · rw [hout, hout, hview, hsplit, hsplit, ring_silence]
    intro hfew
    have hsilent := h.silent hfew
    rw [silence_beside] at hsilent
    change ((act.outcome ((site.ring.split w).1.slots.read s, site.silence w)).1, _) = _
    rw [show (site.ring.split w).1.uncounted.slots.read s =
        (site.ring.split w).1.slots.read s from rfl, hsilent]
    exact Prod.ext rfl (hsilence _ _)

end Brings

end RingSite

end LapRing
