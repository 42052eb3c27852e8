import LapRing.Proofs.EventArray
import LapRing.Proofs.LentRings

/-!
# An event ring is an array of reusable events

The slots of an event ring hold the events of an array at the same indices, and
its cursor and gating are the counters. A call that changes events in the ring
changes the same ones in the array, in the same order and as far as it goes, and
what was claimed or opened is published or released in the end.
-/
namespace LapRing

namespace Act
variable {R A L α β : Type} {pre mid post : R → A → Prop} {x : Act (R × L) α} {y : Act (A × L) α}

/-- Two actions end alike and do the same to their callers' world, and take what
they act on from `pre` to `post`. -/
def Matches (pre post : R → A → Prop) (x : Act (R × L) α) (y : Act (A × L) α) : Prop :=
  ∀ r a l, pre r a → ∃ r' a' l', post r' a' ∧
    ((∃ v, x (r, l) = .ok v (r', l') ∧ y (a, l) = .ok v (a', l')) ∨
      ∃ e, x (r, l) = .error e (r', l') ∧ y (a, l) = .error e (a', l'))

theorem matches_pure (v : α) : Matches mid mid (pure v : Act (R × L) α) (pure v) := by
  intro r a l h
  exact ⟨r, a, l, h, Or.inl ⟨v, rfl, rfl⟩⟩

theorem Matches.bind (hx : Matches pre mid x y) {f : α → Act (R × L) β} {g : α → Act (A × L) β}
    (hf : ∀ v, Matches mid mid (f v) (g v)) : Matches pre mid (x >>= f) (y >>= g) := by
  intro r a l h
  obtain ⟨r₁, a₁, l₁, h₁, ⟨v, hx₁, hy₁⟩ | ⟨e, hx₁, hy₁⟩⟩ := hx r a l h
  · rw [bind_ok hx₁, bind_ok hy₁]
    exact hf v r₁ a₁ l₁ h₁
  · rw [bind_error hx₁, bind_error hy₁]
    exact ⟨r₁, a₁, l₁, h₁, Or.inr ⟨e, rfl, rfl⟩⟩

/-- Endings that always go through take both sides to what holds afterwards. -/
theorem Matches.closing (hx : Matches pre mid x y) {close : Act (R × L) Unit}
    {close' : Act (A × L) Unit}
    (hclose : ∀ r a l, mid r a → ∃ r' a', close (r, l) = .ok () (r', l) ∧
      close' (a, l) = .ok () (a', l) ∧ post r' a') :
    Matches pre post (x.closing close) (y.closing close') := by
  intro r a l h
  obtain ⟨r₁, a₁, l₁, h₁, hending⟩ := hx r a l h
  obtain ⟨r', a', hr, ha, hpost⟩ := hclose r₁ a₁ l₁ h₁
  refine ⟨r', a', l₁, hpost, ?_⟩
  rcases hending with ⟨v, hx₁, hy₁⟩ | ⟨e, hx₁, hy₁⟩
  · exact Or.inl ⟨v, closing_ok hx₁ hr, closing_ok hy₁ ha⟩
  · exact Or.inr ⟨e, closing_error hx₁ hr, closing_error hy₁ ha⟩

/-- What concerns the callers' world alone is the same on both sides. -/
theorem matches_outer (act : Act L α) :
    Matches mid mid (Act.outer act : Act (R × L) α) (Act.outer act) := by
  intro r a l h
  cases hact : act l with
  | ok v l' => exact ⟨r, a, l', h, Or.inl ⟨v, Part.lift_ok hact, Part.lift_ok hact⟩⟩
  | error e l' => exact ⟨r, a, l', h, Or.inr ⟨e, Part.lift_error hact, Part.lift_error hact⟩⟩

theorem Matches.outcome (hx : Matches pre post x y) {r : R} {a : A} (l : L) (h : pre r a) :
    ∃ (ending : Except Halt α) (r' : R) (a' : A) (l' : L),
      Act.outcome x (r, l) = (ending, (r', l')) ∧
        Act.outcome y (a, l) = (ending, (a', l')) ∧ post r' a' := by
  obtain ⟨r', a', l', hpost, ⟨v, hr, ha⟩ | ⟨e, hr, ha⟩⟩ := hx r a l h
  · exact ⟨.ok v, r', a', l', outcome_ok hr, outcome_ok ha, hpost⟩
  · exact ⟨.error e, r', a', l', outcome_error hr, outcome_error ha, hpost⟩

theorem matches_forM {ι κ : Type} (key : ι → κ) (items : List ι) {f : ι → Act (R × L) Unit}
    {g : κ → Act (A × L) Unit} (h : ∀ i, Matches mid mid (f i) (g (key i))) :
    Matches mid mid (items.forM f) ((items.map key).forM g) := by
  induction items with
  | nil => exact matches_pure ()
  | cons i items ih => exact (h i).bind fun _ => ih

end Act

namespace EventRing
open Sequencer
variable {cap : Capacity} {ε A L β : Type} {r : EventRing cap ε} {a : EventArray cap ε}

abbrev here : Part (EventRing cap ε × L) (EventRing cap ε) := Part.first

abbrev slotAt (s : Int64) : Part (EventRing cap ε × L) ε := here.within (Ring.slotPart s)

/-- Between calls the ring has the events and the counters of the array. -/
structure Mirrors (r : EventRing cap ε) (a : EventArray cap ε) : Prop where
  settled : r.sequencer.Settled
  position : r.poller.position r.sequencer = r.sequencer.gating
  cursor : r.sequencer.cursor.toInt = a.cursor
  gating : r.sequencer.gating.toInt = a.gating
  events : r.slots.cells = a.events

/-- After a claim of `n` on the sequencer `s`, which is not published yet. -/
structure Claimed (s : Sequencer cap) (n : Int64) (r : EventRing cap ε) (a : EventArray cap ε) :
    Prop where
  sequencer : r.sequencer = s.admitted n
  position : r.poller.position s = s.gating
  cursor : s.cursor.toInt = a.cursor
  gating : s.gating.toInt = a.gating
  events : r.slots.cells = a.events

/-- After a window was opened, which is not released yet. -/
structure Opened (win : Window) (r : EventRing cap ε) (a : EventArray cap ε) : Prop where
  settled : r.sequencer.Settled
  poller : ∃ p : Poller, r.poller = p.claim win
  first : win.first.toInt = a.gating + 1
  le : win.first.toInt ≤ win.last.toInt
  reached : win.last.toInt ≤ a.cursor
  cursor : r.sequencer.cursor.toInt = a.cursor
  gating : r.sequencer.gating.toInt = a.gating
  events : r.slots.cells = a.events

theorem index_toInt (s : Int64) : EventArray.index cap s.toInt = cap.slot s := by
  have hslot := cap.slot_eq s
  ext
  simp only [EventArray.index]
  omega

/-- The event of a slot is the event of the array at that index. -/
theorem read_eq (events : r.slots.cells = a.events) (s : Int64) :
    r.slots.read s = a.event s.toInt := by
  simp only [Slots.read, EventArray.event, index_toInt, events]

theorem write_eq (events : r.slots.cells = a.events) (s : Int64) (x : ε) :
    (r.slots.write s x).cells = (a.withEvent s.toInt x).events := by
  simp only [Slots.write, EventArray.withEvent, index_toInt, events]

/-- The array has the events of the ring, and may get any others along with it. -/
structure Tracks (rel : EventRing cap ε → EventArray cap ε → Prop) : Prop where
  events : ∀ {r a}, rel r a → r.slots.cells = a.events
  change : ∀ {r a}, rel r a → ∀ (slots : Slots cap ε) (events : Vector ε cap.slots),
    slots.cells = events → rel { r with slots } { a with events }

theorem tracks_claimed (s : Sequencer cap) (n : Int64) :
    Tracks (Claimed s n : EventRing cap ε → EventArray cap ε → Prop) where
  events h := h.events
  change h _ _ he := ⟨h.sequencer, h.position, h.cursor, h.gating, he⟩

theorem tracks_opened (win : Window) :
    Tracks (Opened win : EventRing cap ε → EventArray cap ε → Prop) where
  events h := h.events
  change h _ _ he := ⟨h.settled, h.poller, h.first, h.le, h.reached, h.cursor, h.gating, he⟩

section Editing
variable {rel : EventRing cap ε → EventArray cap ε → Prop}

/-- Lending a slot to an action that leaves the ring in relation is an edit of the
event with the same index. -/
theorem matches_lend (hrel : Tracks rel) (s : Int64) {x : Act (ε × (EventRing cap ε × L)) β}
    {y : Act (ε × L) β}
    (hx : ∀ e r l, ∃ r' e' l', r'.slots = r.slots ∧ (∀ a, rel r a → rel r' a) ∧
      ((∃ v, x (e, (r, l)) = .ok v (e', (r', l')) ∧ y (e, l) = .ok v (e', l')) ∨
        ∃ h, x (e, (r, l)) = .error h (e', (r', l')) ∧ y (e, l) = .error h (e', l'))) :
    Act.Matches rel rel ((slotAt s).lend x) (EventArray.edit s.toInt y) := by
  intro r a l h
  have hread := read_eq (hrel.events h) s
  obtain ⟨r', e', l', hslots, hkept, hending⟩ := hx (r.slots.read s) r l
  refine ⟨{ r' with slots := r'.slots.write s e' }, a.withEvent s.toInt e', l', ?_, ?_⟩
  · apply hrel.change (hkept a h)
    rw [hslots]
    exact write_eq (hrel.events h) s e'
  · rcases hending with ⟨v, hx, hy⟩ | ⟨h, hx, hy⟩
    · refine Or.inl ⟨v, Part.lend_ok (p := slotAt s) (w := (r, l)) hx, ?_⟩
      rw [EventArray.edit, ← hread, hy]
    · refine Or.inr ⟨h, Part.lend_error (p := slotAt s) (w := (r, l)) hx, ?_⟩
      rw [EventArray.edit, ← hread, hy]

/-- A translator changes the event of its sequence. -/
theorem matches_translate (hrel : Tracks rel) (s : Int64) (translate : Act (ε × L) β) :
    Act.Matches rel rel ((slotAt s).lend translate.across) (EventArray.edit s.toInt translate) := by
  apply matches_lend hrel
  intro e r l
  rw [Act.across_eq]
  cases translate (e, l) with
  | ok v w => exact ⟨r, w.1, w.2, rfl, fun _ hr => hr, Or.inl ⟨v, rfl, rfl⟩⟩
  | error h w => exact ⟨r, w.1, w.2, rfl, fun _ hr => hr, Or.inr ⟨h, rfl, rfl⟩⟩

/-- Arguments are used up in the order of their events. -/
theorem matches_translateAll (hrel : Tracks rel) (args : Feed L A)
    (translate : Int64 → A → Act (ε × L) Unit) (k : ℕ) (ss : List Int64) :
    Act.Matches rel rel
      (translateAll here ⟨args.length, fun k => Act.outer (args.next k)⟩
        (fun s arg => Act.across (translate s arg)) k ss)
      (EventArray.translateAll args translate k (ss.map Int64.toInt)) := by
  induction ss generalizing k with
  | nil => exact Act.matches_pure ()
  | cons s ss ih =>
    rw [List.map_cons, translateAll, EventArray.translateAll]
    apply (Act.matches_outer (args.next k)).bind
    intro arg
    cases arg with
    | none => exact Act.matches_pure ()
    | some arg =>
      rw [Int64.ofInt_toInt]
      exact (matches_translate hrel s (translate s arg)).bind fun _ => ih (k + 1)

/-- A handler sees the event of its sequence, and a rejection is counted in the ring. -/
theorem matches_present (hrel : Tracks rel)
    (count : ∀ r a, rel r a → rel (r.withSequencer (r.sequencer.count .failed)) a)
    (handler : Handler ε L) (context : String) (s : Int64) :
    Act.Matches rel rel
      ((slotAt s).lend (handler.across.dispatch (Ring.countFailure here) context s))
      (EventArray.edit s.toInt (EventArray.present handler context s)) := by
  apply matches_lend hrel
  intro e r l
  have honEvent := Act.across_eq (handler.onEvent context s) e r l
  unfold Handler.dispatch EventArray.present
  cases hevent : handler.onEvent context s (e, l) with
  | error h w =>
    rw [hevent] at honEvent
    exact ⟨r, w.1, w.2, rfl, fun _ hr => hr,
      Or.inr ⟨h, Act.bind_error honEvent, Act.bind_error hevent⟩⟩
  | ok result w =>
    rw [hevent] at honEvent
    cases result with
    | ok u =>
      exact ⟨r, w.1, w.2, rfl, fun _ hr => hr,
        Or.inl ⟨(), Act.bind_ok honEvent, Act.bind_ok hevent⟩⟩
    | error text =>
      set counted := r.withSequencer (r.sequencer.count .failed) with hcounted
      have hcount : Act.outer (Ring.countFailure here) (w.1, (r, w.2)) =
          .ok () (w.1, (counted, w.2)) := rfl
      have honError := Act.across_eq (handler.onError context s text) w.1 counted w.2
      cases herror : handler.onError context s text w with
      | ok v w' =>
        rw [herror] at honError
        refine ⟨counted, w'.1, w'.2, rfl, count r, Or.inl ⟨v, ?_, ?_⟩⟩
        · exact (Act.bind_ok honEvent).trans ((Act.bind_ok hcount).trans honError)
        · exact (Act.bind_ok hevent).trans herror
      | error h w' =>
        rw [herror] at honError
        refine ⟨counted, w'.1, w'.2, rfl, count r, Or.inr ⟨h, ?_, ?_⟩⟩
        · exact (Act.bind_ok honEvent).trans ((Act.bind_ok hcount).trans honError)
        · exact (Act.bind_ok hevent).trans herror

theorem sequences_eq {win : Window} {first : ℤ} {count : ℕ} (hfirst : win.first.toInt = first)
    (hsize : win.size = count) : win.sequences.map Int64.toInt = consecutive first count := by
  rw [Window.map_toInt_sequences, hsize, hfirst]
  rfl

/-- A window is visited in the order of its sequences. -/
theorem matches_visit (win : Window) (handler : Handler ε L) (context : String) :
    Act.Matches (Opened win) (Opened win)
      (visit here context handler.across win : Act (EventRing cap ε × L) Unit)
      ((win.sequences.map Int64.toInt).forM fun t =>
        EventArray.edit t (EventArray.present handler context (.ofInt t))) := by
  apply Act.matches_forM
  intro s
  rw [Int64.ofInt_toInt]
  apply matches_present (tracks_opened win)
  intro r a h
  exact { h with settled := h.settled.count _ }

end Editing

section Calls
variable {pauses : List (Pause (EventRing cap ε × L))}

theorem Mirrors.claimed (h : r.Mirrors a) (n : Int64) :
    Claimed r.sequencer n (r.withSequencer (r.sequencer.admitted n)) a :=
  ⟨rfl, h.position, h.cursor, h.gating, h.events⟩

/-- Publication moves the cursor over the claim. -/
theorem publish_claimed {s : Sequencer cap} (hs : s.Settled) {n : Int64} {count : ℕ}
    (hn : n.toInt = count) (pos : 1 ≤ count)
    (fits : s.cursor.toInt + count ≤ s.gating.toInt + cap.slots)
    (room : s.cursor.toInt + count + cap.slots < 2 ^ 63) (r : EventRing cap ε)
    (a : EventArray cap ε) (l : L) (h : Claimed s n r a) :
    ∃ (r' : EventRing cap ε) (a' : EventArray cap ε),
      Ring.publish here (nextWindow s n) (r, l) = .ok () (r', l) ∧
        EventArray.advance count (a, l) = .ok () (a', l) ∧ r'.Mirrors a' := by
  have hstart := hs.start_le
  have hle := hs.gating_le
  have hfirst := hs.toInt_first (n := n) (by omega) (by omega)
  have hlast : (s.cursor + n).toInt = s.cursor.toInt + n.toInt :=
    hs.toInt_last (by omega) (by omega)
  have hend : (nextWindow s n).last.toInt = s.cursor.toInt + n.toInt := hlast
  have hforward : r.sequencer.Forward (nextWindow s n).last := by
    rw [h.sequencer]
    exact forward_admitted n (by omega)
  obtain ⟨hsettled, hmoved⟩ := hs.admitted_published (n := n) (by omega) (by omega) (by omega)
  rw [← h.sequencer] at hsettled hmoved
  have hsame : (r.afterPublish (nextWindow s n)).sequencer.gating = s.gating := by
    simp only [Ring.afterPublish, gating_afterPublish, h.sequencer, gating_admitted]
  refine ⟨r.afterPublish (nextWindow s n), { a with cursor := a.cursor + count }, ?_, rfl,
    hsettled, ?_, ?_, ?_, h.events⟩
  · exact Ring.publish_eq Part.lawful_first (w := (r, l)) _ hforward (by omega) (by omega)
      (by omega)
  · rw [hsame, ← h.position]
    simp only [Poller.position, hsame]
    rfl
  · have hcursor := h.cursor
    simp only [Ring.afterPublish, hmoved]
    omega
  · rw [hsame, h.gating]

theorem claimOne_here (h : r.Mirrors a) (fits : a.cursor - a.gating < cap.slots)
    (room : a.cursor + 2 < 2 ^ 62) (l : L) :
    Ring.claimOne here pauses (r, l) = .ok (r.sequencer.cursor + 1)
      (r.withSequencer (r.sequencer.admitted 1), l) := by
  have hcursor := h.cursor
  have hgating := h.gating
  have hone := Checked.toInt_one
  refine Ring.claim_eq Part.lawful_first (w := (r, l)) (n := 1) h.settled (le_refl 1) ?_ ?_ pauses
  · change r.sequencer.cursor.toInt + 1 ≤ r.sequencer.gating.toInt + cap.slots
    omega
  · change r.sequencer.cursor.toInt + 1 + 1 < 2 ^ 63
    omega

theorem claimMany_here (h : r.Mirrors a) {n : UInt64} (pos : 1 ≤ n.toNat) (le : n.toNat ≤ cap.slots)
    (fits : a.cursor - a.gating + n.toNat ≤ cap.slots) (room : a.cursor + n.toNat + 1 < 2 ^ 62)
    (l : L) :
    Ring.claimMany here pauses n (r, l) = .ok (.ok (nextWindow r.sequencer n.toInt64))
      (r.withSequencer (r.sequencer.admitted n.toInt64), l) := by
  have hcursor := h.cursor
  have hgating := h.gating
  refine Ring.claimMany_eq Part.lawful_first (w := (r, l)) h.settled pos le ?_ ?_ pauses
  · change r.sequencer.cursor.toInt + n.toNat ≤ r.sequencer.gating.toInt + cap.slots
    omega
  · change r.sequencer.cursor.toInt + n.toNat + 1 < 2 ^ 63
    omega

/-- One event is translated and published. -/
theorem matches_publish (translate : Int64 → Act (ε × L) Unit) :
    Act.Matches
      (fun r a => Mirrors r a ∧ a.cursor - a.gating < cap.slots ∧ a.cursor + 2 < 2 ^ 62) Mirrors
      (publishEvent here pauses fun s => (translate s).across) (EventArray.publish translate) := by
  rintro r a l ⟨h, fits, room⟩
  have hslots := cap.slots_le_int
  have hcursor := h.cursor
  have hgating := h.gating
  have hone : (1 : Int64).toInt = (1 : ℕ) := Checked.toInt_one
  have hnext : (r.sequencer.cursor + 1).toInt = a.cursor + 1 := by
    rw [Checked.toInt_succ (by omega), hcursor]
  have hpublish := fun (r : EventRing cap ε) (a : EventArray cap ε) (l : L) =>
    publish_claimed h.settled hone (le_refl 1) (by omega) (by omega) r a l
  rw [nextWindow_one] at hpublish
  have hring : publishEvent here pauses (fun s => (translate s).across) (r, l) =
      ((slotAt (r.sequencer.cursor + 1)).lend (translate (r.sequencer.cursor + 1)).across).closing
        (Ring.publish here ⟨r.sequencer.cursor + 1, r.sequencer.cursor + 1⟩)
        (r.withSequencer (r.sequencer.admitted 1), l) :=
    Act.bind_ok (claimOne_here h fits room l)
  have harray : EventArray.publish translate (a, l) =
      (EventArray.edit (r.sequencer.cursor + 1).toInt (translate (r.sequencer.cursor + 1))).closing
        (EventArray.advance 1) (a, l) := by
    rw [EventArray.publish_eq, ← hnext, Int64.ofInt_toInt]
  rw [hring, harray]
  have hall := (matches_translate (tracks_claimed r.sequencer 1) (r.sequencer.cursor + 1)
    (translate (r.sequencer.cursor + 1))).closing hpublish
  exact hall _ a l (h.claimed 1)

/-- Events of the number announced are published with one claim. -/
theorem matches_publishMany (args : Feed L A) (translate : Int64 → A → Act (ε × L) Unit) :
    Act.Matches
      (fun r a => Mirrors r a ∧ (args.length.toNat ≤ cap.slots →
        a.cursor - a.gating + args.length.toNat ≤ cap.slots ∧
          a.cursor + args.length.toNat + 1 < 2 ^ 62)) Mirrors
      (publishEvents here pauses ⟨args.length, fun k => Act.outer (args.next k)⟩
        fun s arg => (translate s arg).across) (EventArray.publishMany args translate) := by
  rintro r a l ⟨h, hfit⟩
  by_cases hzero : args.length = 0
  · refine ⟨r, a, l, h, Or.inl ⟨.ok 0, ?_, EventArray.publishMany_empty hzero⟩⟩
    rw [publishEvents, if_pos hzero]
    rfl
  by_cases hlong : cap.slots < args.length.toNat
  · have hmany : Ring.claimMany here pauses args.length (r, l) =
        .ok (.error (.invalidClaim args.length cap.word)) (r, l) :=
      Ring.claimMany_tooLong hlong pauses
    refine ⟨r, a, l, h, Or.inl ⟨_, ?_, EventArray.publishMany_tooLong hlong⟩⟩
    rw [publishEvents, if_neg hzero, Act.bind_ok hmany]
    rfl
  have hslots := cap.slots_le_int
  have hcursor := h.cursor
  have hgating := h.gating
  have hle : args.length.toNat ≤ cap.slots := by omega
  obtain ⟨fits, room⟩ := hfit hle
  have hpos : 1 ≤ args.length.toNat := by
    have : args.length.toNat ≠ 0 := fun he => hzero (UInt64.toNat_inj.mp he)
    omega
  have hn : args.length.toInt64.toInt = args.length.toNat := cap.toInt_toInt64 hle
  set win := nextWindow r.sequencer args.length.toInt64 with hwin
  have hfirst : win.first.toInt = a.cursor + 1 := by
    rw [hwin, h.settled.toInt_first (by omega) (by omega), hcursor]
  have hsize : win.size = args.length.toNat := by
    have hlast := h.settled.toInt_last (n := args.length.toInt64) (by omega) (by omega)
    rw [← hwin] at hlast
    rw [Window.size_eq]
    omega
  have hpublish := fun (r : EventRing cap ε) (a : EventArray cap ε) (l : L) =>
    publish_claimed h.settled hn hpos (by omega) (by omega) r a l
  have hall := (matches_translateAll (tracks_claimed r.sequencer args.length.toInt64) args translate
    0 win.sequences).closing hpublish
  rw [sequences_eq hfirst hsize] at hall
  have hring : publishEvents here pauses ⟨args.length, fun k => Act.outer (args.next k)⟩
      (fun s arg => (translate s arg).across) (r, l) =
      ((translateAll here ⟨args.length, fun k => Act.outer (args.next k)⟩
        (fun s arg => (translate s arg).across) 0 win.sequences).closing (Ring.publish here win) >>=
          fun _ => pure (.ok args.length))
        (r.withSequencer (r.sequencer.admitted args.length.toInt64), l) := by
    rw [publishEvents, if_neg hzero, Act.bind_ok (claimMany_here h hpos hle fits room l)]
  rw [hring, EventArray.publishMany_eq hzero hle]
  exact (hall.bind fun _ => Act.matches_pure _) _ a l (h.claimed _)

/-- A release moves gating over the window. -/
theorem release_opened {win : Window} {count : ℕ} (hsize : win.size = count)
    (r : EventRing cap ε) (a : EventArray cap ε) (l : L) (h : Opened win r a) :
    ∃ (r' : EventRing cap ε) (a' : EventArray cap ε),
      Poller.release (here.within Ring.sequencerPart) (here.within Ring.pollerPart) win (r, l) =
        .ok () (r', l) ∧
      EventArray.release count (a, l) = .ok () (a', l) ∧ r'.Mirrors a' := by
  have hcursor := h.cursor
  have hgating := h.gating
  have hfirst := h.first
  have hle := h.le
  have hreached := h.reached
  have hstart := h.settled.start_le
  have hroom := h.settled.room
  have hpos := cap.one_le_slots
  rw [Window.size_eq] at hsize
  refine ⟨r.withSequencer (Poller.afterRelease win r.sequencer),
    { a with gating := a.gating + count }, ?_, rfl, ?_, ?_, hcursor, ?_, h.events⟩
  · refine Ring.release_eq Part.lawful_first (w := (r, l)) ?_ hle (by omega)
    change win.first.toInt = r.sequencer.gating.toInt + 1
    omega
  · exact h.settled.afterRelease (by omega) (by omega)
  · obtain ⟨p, hp⟩ := h.poller
    change r.poller.position (Poller.afterRelease win r.sequencer) = win.last
    rw [hp, Poller.position_claim_afterRelease]
  · change win.last.toInt = a.gating + count
    omega

theorem openWindow_here (h : r.Mirrors a) {batch : UInt64} (hb : batch ≠ 0) (l : L) :
    ∃ last : Int64, last.toInt = a.gating + r.ahead batch ∧
      Poller.openWindow (here.within Ring.sequencerPart) (here.within Ring.pollerPart) batch
          (r, l) =
        match Poller.windowTo r.sequencer.gating last with
        | none => .ok none (r.withSequencer (r.sequencer.count .idle), l)
        | some win => .ok (some win) ({ r with poller := r.poller.claim win }, l) := by
  have hopen := Ring.openWindow_eq Part.lawful_first (w := (r, l)) h.settled h.position hb
  rw [← h.gating]
  exact hopen

/-- A poll lends the events up to the cursor that its batch admits. -/
theorem matches_poll (context : String) (batch : UInt64) (handler : Handler ε L) :
    Act.Matches Mirrors Mirrors
      (poll here context batch handler.across : Act (EventRing cap ε × L) PollState)
      (EventArray.poll context batch handler) := by
  intro r a l h
  have hcursor := h.cursor
  have hgating := h.gating
  have hle := h.settled.gating_le
  have hroom := h.settled.room
  have hpos := cap.one_le_slots
  have hahead : min batch.toNat (a.cursor - a.gating).toNat = r.ahead batch := by
    rw [Ring.ahead, hcursor, hgating]
  by_cases hb : batch = 0
  · refine ⟨r, a, l, h, Or.inl ⟨.idle, ?_, EventArray.poll_none (by simp [hb])⟩⟩
    rw [hb]
    rfl
  obtain ⟨last, hlast, hopen⟩ := openWindow_here h hb l
  by_cases hnone : r.ahead batch = 0
  · have hsame : last = r.sequencer.gating := Int64.toInt_inj.mp (by omega)
    rw [Poller.windowTo, if_pos hsame] at hopen
    refine ⟨r.withSequencer (r.sequencer.count .idle), a, l,
      { h with settled := h.settled.count _ }, Or.inl ⟨.idle, ?_, EventArray.poll_none (by omega)⟩⟩
    exact Act.bind_ok (Poller.poll_none _ hopen)
  · have hmore : last ≠ r.sequencer.gating := by
      rintro rfl
      omega
    rw [Poller.windowTo, if_neg hmore] at hopen
    set win : Window := ⟨r.sequencer.gating + 1, last⟩
    have hend : win.last.toInt = a.gating + r.ahead batch := hlast
    have hfirst : win.first.toInt = a.gating + 1 := by
      rw [← hgating]
      exact Checked.toInt_succ (by omega)
    have hsize : win.size = r.ahead batch := by
      rw [Window.size_eq]
      omega
    have hopened : Opened win { r with poller := r.poller.claim win } a :=
      ⟨h.settled, ⟨r.poller, rfl⟩, hfirst, by omega, by omega, hcursor, hgating, h.events⟩
    have hclosing : Act.Matches (Opened win) Mirrors
        ((visit here context handler.across win).closing
          (Poller.release (here.within Ring.sequencerPart) (here.within Ring.pollerPart) win) :
          Act (EventRing cap ε × L) Unit) _ :=
      (matches_visit win handler context).closing (release_opened hsize)
    rw [sequences_eq hfirst hsize] at hclosing
    have hring : (poll here context batch handler.across : Act (EventRing cap ε × L) PollState)
        (r, l) =
        ((visit here context handler.across win).closing (Poller.release
          (here.within Ring.sequencerPart) (here.within Ring.pollerPart) win) >>=
            fun _ => pure .processing) ({ r with poller := r.poller.claim win }, l) := by
      rw [poll, Ring.poll, Poller.poll, bind_assoc, Act.bind_ok hopen]
      simp only [bind_assoc, pure_bind]
    have hall := hclosing.bind fun _ => Act.matches_pure PollState.processing
    rw [hring, EventArray.poll_some hahead hnone]
    exact hall _ a l hopened

/-- What the array permits, the ring does the same way. -/
theorem serve_outcome (pauses : List (Pause (EventRing cap ε × L))) (call : EventCall ε A L)
    (l : L) (h : r.Mirrors a) (permitted : a.Permits call)
    (room : ((EventArray.serve call).outcome (a, l)).2.1.cursor + 1 < 2 ^ 62) :
    ∃ (ending : Except Halt EventAnswer) (r' : EventRing cap ε) (a' : EventArray cap ε) (l' : L),
      (serve pauses call).outcome (r, l) = (ending, (r', l')) ∧
        (EventArray.serve call).outcome (a, l) = (ending, (a', l')) ∧ r'.Mirrors a' := by
  cases call with
  | publish translate =>
    simp only [EventArray.serve, Act.outcome_bind_pure, EventArray.cursor_publish] at room
    exact ((matches_publish translate).bind fun _ => Act.matches_pure _).outcome l
      ⟨h, permitted, by omega⟩
  | publishWith arg translate =>
    simp only [EventArray.serve, Act.outcome_bind_pure, EventArray.cursor_publish] at room
    exact ((matches_publish fun s => translate s arg).bind fun _ => Act.matches_pure _).outcome l
      ⟨h, permitted, by omega⟩
  | publishMany args translate =>
    refine ((matches_publishMany args translate).bind fun _ => Act.matches_pure _).outcome l
      ⟨h, fun hle => ⟨permitted hle, ?_⟩⟩
    simp only [EventArray.serve, Act.outcome_bind_pure, EventArray.cursor_publishMany hle] at room
    exact room
  | poll context batch handler =>
    exact ((matches_poll context batch handler).bind fun _ => Act.matches_pure _).outcome l h

/-- Permitted calls one after the other have the same outcomes on both. -/
theorem outcomes_agree (pauses : List (Pause (EventRing cap ε × L)))
    (calls : List (EventCall ε A L)) {l : L} (h : r.Mirrors a)
    (legal : EventArray.Legal calls (a, l)) :
    ∃ (endings : List (Except Halt EventAnswer)) (r' : EventRing cap ε) (a' : EventArray cap ε)
      (l' : L),
      Act.outcomes (calls.map (serve pauses)) (r, l) = (endings, (r', l')) ∧
        Act.outcomes (calls.map EventArray.serve) (a, l) = (endings, (a', l')) ∧ r'.Mirrors a' := by
  induction calls generalizing r a l with
  | nil => exact ⟨[], r, a, l, rfl, rfl, h⟩
  | cons call rest ih =>
    obtain ⟨permitted, room, hrest⟩ := legal
    obtain ⟨ending, r₁, a₁, l₁, hr, ha, h₁⟩ := serve_outcome pauses call l h permitted room
    rw [ha] at hrest
    obtain ⟨endings, r', a', l', hrs, has, h'⟩ := ih h₁ hrest
    refine ⟨ending :: endings, r', a', l', ?_, ?_, h'⟩
    · simp only [List.map_cons, Act.outcomes, hr, hrs]
    · simp only [List.map_cons, Act.outcomes, ha, has]

end Calls

theorem mirrors_new (settings : Settings) (cells : Vector ε cap.slots) :
    Mirrors (Ring.new settings ⟨cells⟩) { events := cells } := by
  refine ⟨Sequencer.settled_new _ _ _, ?_, rfl, rfl, rfl⟩
  change (Poller.new settings.consumer _).position _ = _
  cases settings.consumer <;> rfl

/-- An event ring refines an array of reusable events. However many handles either
side admits, and whatever translators and handlers make of the events before they
return or give up, calls that find room get the answers of the array and leave
their callers' world as the array does. After each of them the slots hold its
events, and cursor and gating are its counters. -/
theorem refines_array {W : Type} (note : Notice → Act W Unit) (settings : Settings)
    (factory : ℕ → Act W ε) {cells : Vector ε cap.slots} {w w₁ w₂ : W}
    (hcap : settings.validate = .ok cap)
    (hcells : (Vector.ofFnM fun i : Fin cap.slots => factory i.val) w = .ok cells w₁)
    (hnote : note (.eventRingCreated settings) w₁ = .ok () w₂) :
    ∃ r : EventRing cap ε, create note settings factory w = .ok (.ok ⟨cap, r⟩) w₂ ∧
      ∀ (pauses : List (Pause (EventRing cap ε × L))) (calls before : List (EventCall ε A L))
        (l : L),
        EventArray.Legal calls (({ events := cells } : EventArray cap ε), l) → before <+: calls →
        let ring := Act.outcomes (before.map (serve pauses)) (r, l)
        let array := Act.outcomes (before.map EventArray.serve)
          (({ events := cells } : EventArray cap ε), l)
        ring.1 = array.1 ∧ ring.2.2 = array.2.2 ∧ ring.2.1.slots.cells = array.2.1.events ∧
          ring.2.1.sequencer.cursor.toInt = array.2.1.cursor ∧
          ring.2.1.sequencer.gating.toInt = array.2.1.gating := by
  refine ⟨.new settings ⟨cells⟩, ?_, ?_⟩
  · rw [create, hcap]
    exact (Act.bind_ok hcells).trans (Act.bind_ok hnote)
  · intro pauses calls before l legal hb ring array
    obtain ⟨endings, r, a, l', hring, harray, h⟩ :=
      outcomes_agree pauses before (mirrors_new settings cells) (legal.of_prefix hb)
    simp only [ring, array, hring, harray]
    exact ⟨trivial, trivial, h.events, h.cursor, h.gating⟩

/-- A translator that gives up keeps what it wrote, a batch with one argument for two
events leaves the second as it was, and a handler that gives up has seen and changed
only the first. -/
theorem refines_array_short_batch :
    let settings : Settings := { capacity := 2, producer := .multi, consumer := .multi }
    let factory : ℕ → Act Unit (List ℕ) := fun i => pure [i]
    let add : ℕ → Act (List ℕ × List ℕ) Unit := fun x => modify fun (event, l) => (x :: event, l)
    let quit : Act (List ℕ × List ℕ) Unit := throw (.raised "full")
    let see : Handler (List ℕ) (List ℕ) :=
      { onEvent _ _ := do
          modify fun (event, l) => (7 :: event, l ++ event)
          return .ok ()
        onError _ _ _ := quit }
    let tire : Handler (List ℕ) (List ℕ) :=
      { onEvent _ _ := do
          add 8
          throw (.raised "tired")
        onError _ _ _ := quit }
    let calls : List (EventCall (List ℕ) ℕ (List ℕ)) :=
      [.publish fun _ => do add 5; quit, .poll "a" 9 see,
        .publishMany ⟨2, fun k => pure (if k = 0 then some 6 else none)⟩ fun _ => add,
        .poll "a" 9 tire, .publishWith 4 fun _ => add, .poll "a" 9 see]
    settings.validate = .ok Capacity.two ∧
      EventArray.Legal calls (({ events := #v[[0], [1]] } : EventArray Capacity.two (List ℕ)), []) ∧
      ∃ r : EventRing Capacity.two (List ℕ),
        create (fun _ => pure ()) settings factory () = .ok (.ok ⟨Capacity.two, r⟩) () ∧
          (Act.outcomes (calls.map (serve [])) (r, [])).2.2 = [5, 0, 4, 8, 6, 1] := by
  intro settings factory add quit see tire calls
  have hcap : settings.validate = .ok Capacity.two := by
    simp [settings, Settings.validate, Capacity.ofWord, Capacity.two, Nat.log2_def]
  have hlegal : EventArray.Legal calls
      (({ events := #v[[0], [1]] } : EventArray Capacity.two (List ℕ)), []) := by decide +kernel
  have hcells : (Vector.ofFnM fun i : Fin Capacity.two.slots => factory i.val) () =
      .ok #v[[0], [1]] () := by
    rw [Vector.ofFnM_pure]
    rfl
  obtain ⟨r, hcreate, hrun⟩ :=
    refines_array (fun _ => pure ()) settings factory hcap hcells rfl
  refine ⟨hcap, hlegal, r, hcreate, (hrun [] calls calls [] hlegal List.prefix_rfl).2.1.trans ?_⟩
  decide +kernel

end EventRing

end LapRing
