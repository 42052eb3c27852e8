import LapRing.Proofs.SendCalls
import LapRing.Proofs.RingUsage
import LapRing.Proofs.RingLedger

/-!
# Sends from inside a receive

A consumer's callback sends through the channel it was called from, whenever and as often
as it likes. Meanwhile the window is half emptied and gating is still where it was. A log
is kept of the values that arrive and of what the callback tries to send. The receive is
compared, slot by slot, with one whose callback sends nothing and gives up at the same
value: what was accepted so far can be sent to the other channel afterwards.
-/
namespace LapRing

namespace Act
variable {W β : Type}

theorem Raises.outcome {x : Act W β} (h : x.Raises) {w : W} {e : Halt}
    (he : (x.outcome w).1 = .error e) : ∃ text, e = .raised text := by
  cases hrun : x w with
  | ok v w' => simp [outcome_ok hrun] at he
  | error e' w' =>
    rw [outcome_error hrun] at he
    obtain rfl := Except.error.inj he
    exact h hrun

/-- Only what was raised is caught. -/
theorem caught_error {ending : Except Halt β} {e : Halt} (h : ∀ text, e ≠ .raised text) :
    caught ending = .error e ↔ ending = .error e := by
  rcases ending with (_ | text | _) | _
  · simp [caught]
  · simp [caught, (h text).symm]
  · simp [caught]
  · simp [caught]

end Act

/-- What was to be sent, the cursor at that time, and whether it was accepted. -/
structure Attempt (α : Type) where
  sendCall : SendCall α Unit
  cursor : Int64
  accepted : Bool

/-- There is room for it before anything more is released than `gating`. -/
def Attempt.Fits {α : Type} (cap : Capacity) (gating : Int64) (a : Attempt α) : Prop :=
  a.cursor.toInt + a.sendCall.size.toNat - gating.toInt ≤ cap.slots

/-- The values that arrive during a receive and the attempts to send something. -/
structure CallbackLog (α : Type) where
  heard : List α := []
  attempts : List (Attempt α) := []

namespace CallbackLog
variable {α : Type}

def hear (value : α) (d : CallbackLog α) : CallbackLog α := { d with heard := d.heard ++ [value] }

def attempt (a : Attempt α) (d : CallbackLog α) : CallbackLog α :=
  { d with attempts := d.attempts ++ [a] }

/-- What was accepted, in order. -/
def accepted (d : CallbackLog α) : List (SendCall α Unit) :=
  (d.attempts.filter (·.accepted)).map (·.sendCall)

/-- What claims anything was accepted exactly if it fitted. -/
def Fair (cap : Capacity) (gating : Int64) (d : CallbackLog α) : Prop :=
  ∀ a ∈ d.attempts, 0 < a.sendCall.size.toNat → (a.accepted = true ↔ a.Fits cap gating)

/-- Something waits that does not fit. -/
def Overdue (cap : Capacity) (gating : Int64) (d : CallbackLog α) : Prop :=
  ∃ a ∈ d.attempts, a.sendCall.Waits ∧ ¬ a.Fits cap gating

theorem fair_new (cap : Capacity) (gating : Int64) : ({} : CallbackLog α).Fair cap gating :=
  fun _ ha => absurd ha List.not_mem_nil

theorem accepted_attempt (a : Attempt α) (d : CallbackLog α) :
    (d.attempt a).accepted = if a.accepted then d.accepted ++ [a.sendCall] else d.accepted := by
  cases h : a.accepted <;> simp [accepted, attempt, h]

theorem Fair.attempt {cap : Capacity} {gating : Int64} {d : CallbackLog α} (h : d.Fair cap gating)
    {a : Attempt α}
    (ha : 0 < a.sendCall.size.toNat → (a.accepted = true ↔ a.Fits cap gating)) :
    (d.attempt a).Fair cap gating := by
  intro b hb
  rcases List.mem_append.mp hb with hold | hnew
  · exact h b hold
  · obtain rfl := List.mem_singleton.mp hnew
    exact ha

end CallbackLog

/-- The next claim begins after the cursor, and the words last for four more laps. -/
structure Sequencer.Calm {cap : Capacity} (s : Sequencer cap) : Prop where
  level : ∃ published, s.Level published
  room : s.cursor.toInt + 4 * cap.slots < 2 ^ 63

namespace Sequencer.Calm
variable {cap : Capacity} {s : Sequencer cap}

theorem gating_le (h : s.Calm) : s.gating.toInt ≤ s.cursor.toInt := by
  obtain ⟨published, hlevel⟩ := h.level
  exact hlevel.gating_le

theorem room_gating (h : s.Calm) : s.gating.toInt + 2 * cap.slots < 2 ^ 63 := by
  have hgating := h.gating_le
  have hroom := h.room
  omega

end Sequencer.Calm

namespace Channel
open Sequencer (gating_withCached)
variable {cap : Capacity} {α β L M : Type}

/-- A callback sends something, and it is noted what came of it. -/
def send (p : SendCall α L) : Act (Channel cap α × (L × CallbackLog α)) (Answer α) :=
  fun (c, l, d) =>
  let note (ending : Except Halt (Answer α)) : CallbackLog α :=
    d.attempt ⟨p.recorded l, c.ring.sequencer.cursor, SendCall.accepted ending⟩
  match Channel.serve [] p.call (c, l) with
  | .ok answer (c, l) => .ok answer (c, l, note (.ok answer))
  | .error e (c, l) => .error e (c, l, note (.error e))

/-- What a callback does that sends through the channel and otherwise acts on what it
owns. -/
inductive Sends : {β : Type} → Act (Channel cap α × (L × CallbackLog α)) β → Prop
  | done {β : Type} (v : β) : Sends (pure v)
  | own {β : Type} (act : Act L β) : act.Raises → Sends (Act.outer (Part.first.lift act))
  | bind {β γ : Type} {x : Act (Channel cap α × (L × CallbackLog α)) β}
      {f : β → Act (Channel cap α × (L × CallbackLog α)) γ} :
      Sends x → (∀ v, Sends (f v)) → Sends (x >>= f)
  | rescue {β : Type} {x : Act (Channel cap α × (L × CallbackLog α)) β} : Sends x → Sends x.rescued
  | send (p : SendCall α L) : p.Honest → Sends (send p)

/-- The callback `f`, with each value noted that it is called with. -/
def heeding (f : α → Act (Channel cap α × (L × CallbackLog α)) Unit) (value : α) :
    Act (Channel cap α × (L × CallbackLog α)) Unit := do
  Act.outer (Part.second.update (·.hear value))
  f value

/-- A callback that notes each value and sends nothing. It gives up at the value of the
given number, if there is one. -/
def listening (stop : Option (ℕ × Halt)) (value : α) : Act (List α) Unit := do
  modify (· ++ [value])
  match stop with
  | none => return ()
  | some (count, e) => if (← get).length = count then throw e

/-- Where a callback gives up that ends the same way after so many values. -/
def stopOf (ending : Except Halt β) (count : ℕ) : Option (ℕ × Halt) :=
  match ending with
  | .ok _ => none
  | .error e => some (count, e)

theorem stopOf_map (g : β → M) (ending : Except Halt β) (count : ℕ) :
    stopOf (ending.map g) count = stopOf ending count := by
  cases ending <;> rfl

theorem outcome_send (p : SendCall α L) (c : Channel cap α) (l : L) (d : CallbackLog α) :
    (send p).outcome (c, l, d) =
      (((Channel.serve [] p.call).outcome (c, l)).1,
        ((Channel.serve [] p.call).outcome (c, l)).2.1,
        ((Channel.serve [] p.call).outcome (c, l)).2.2,
        d.attempt ⟨p.recorded l, c.ring.sequencer.cursor,
          SendCall.accepted ((Channel.serve [] p.call).outcome (c, l)).1⟩) := by
  cases h : Channel.serve [] p.call (c, l) with
  | ok answer w =>
    rw [Act.outcome_ok h]
    refine Act.outcome_ok ?_
    simp only [send, h]
  | error e w =>
    rw [Act.outcome_error h]
    refine Act.outcome_error ?_
    simp only [send, h]

/-- While `y` was emptied without any sends, the attempts in the log made `x`. -/
structure Abreast (y x : Channel cap α) (d : CallbackLog α) : Prop where
  alike : x.Alike (y.afterSendCalls d.accepted)
  fits : y.Fits d.accepted
  honest : ∀ p ∈ d.accepted, p.Honest
  level : ∃ published, x.ring.sequencer.Level published

/-- What a callback keeps that began with the log `d`, and ends this way. -/
structure Kept (y : Channel cap α) (d : CallbackLog α) (ending : Except Halt β)
    (w : Channel cap α × (L × CallbackLog α)) : Prop where
  heard : w.2.2.heard = d.heard
  gating : w.1.ring.sequencer.gating = y.ring.sequencer.gating
  fair : w.2.2.Fair cap y.ring.sequencer.gating
  safe : ∀ reason, ending ≠ .error (.fault reason)
  overdue : ending = .error .stalled → w.2.2.Overdue cap y.ring.sequencer.gating
  abreast : ending ≠ .error .stalled → Abreast y w.1 w.2.2

section Callbacks
variable {y x : Channel cap α} {l : L} {d : CallbackLog α}

theorem Abreast.positions (h : Abreast y x d) (calm : y.ring.sequencer.Calm) :
    x.ring.sequencer.gating = y.ring.sequencer.gating ∧
      x.ring.sequencer.cursor.toInt =
        y.ring.sequencer.cursor.toInt + SendCall.total d.accepted := by
  obtain ⟨published, hlevel⟩ := calm.level
  obtain ⟨-, hcursor, hgating, -⟩ := h.alike.views
  obtain ⟨hgating', hcursor', -⟩ := level_afterSendCalls hlevel h.fits calm.room_gating
  exact ⟨hgating.trans hgating', by rw [hcursor, hcursor']⟩

/-- What is accepted as well can be put off as well. -/
theorem Abreast.accept (h : Abreast y x d) (calm : y.ring.sequencer.Calm) {p : SendCall α L}
    (fits : p.size = 0 ∨ x.ring.sequencer.cursor.toInt + p.size.toNat ≤
      x.ring.sequencer.gating.toInt + cap.slots) (l : L) {s : Int64} :
    Abreast y (x.afterSendCall l p) (d.attempt ⟨p.recorded l, s, true⟩) := by
  obtain ⟨hgating, hcursor⟩ := h.positions calm
  obtain ⟨published, hlevel⟩ := h.level
  obtain ⟨-, -, published', -, hlevel'⟩ := level_afterSendCall hlevel fits
    (by rw [hgating]; exact calm.room_gating) l
  have haccepted : (d.attempt ⟨p.recorded l, s, true⟩).accepted = d.accepted ++ [p.recorded l] :=
    CallbackLog.accepted_attempt _ d
  refine ⟨?_, ?_, ?_, published', hlevel'⟩
  · rw [haccepted, afterSendCalls_snoc, afterSendCall_recorded]
    exact alike_afterSendCall h.alike l p
  · rw [haccepted]
    have hold := h.fits
    simp only [Fits, SendCall.total_append, SendCall.total_cons, SendCall.size_recorded,
      SendCall.total_nil] at hold ⊢
    rw [hgating, hcursor] at fits
    rcases fits with hnone | hroomy
    · have hsize : p.size.toNat = 0 := by simp [hnone]
      omega
    · omega
  · rw [haccepted]
    intro q hq
    rcases List.mem_append.mp hq with hold | hnew
    · exact h.honest q hold
    · obtain rfl := List.mem_singleton.mp hnew
      exact p.honest_recorded l

/-- What is refused leaves nothing to be put off. -/
theorem Abreast.refuse (h : Abreast y x d) {seen : Int64}
    (past : seen = x.ring.sequencer.cached ∨ seen = x.ring.sequencer.gating)
    (p : SendCall α Unit) (s : Int64) :
    Abreast y (x.withCached seen) (d.attempt ⟨p, s, false⟩) := by
  obtain ⟨published, hlevel⟩ := h.level
  have hsame : (d.attempt ⟨p, s, false⟩).accepted = d.accepted := CallbackLog.accepted_attempt _ d
  refine ⟨?_, ?_, ?_, published, hlevel.remember past⟩
  · rw [hsame]
    exact (alike_withCached seen x).trans h.alike
  · rw [hsame]
    exact h.fits
  · rw [hsame]
    exact h.honest

/-- One attempt is noted as it should be, and what it makes of the channel can be put off. -/
theorem kept_send (h : Abreast y x d) (calm : y.ring.sequencer.Calm)
    (fair : d.Fair cap y.ring.sequencer.gating) {p : SendCall α L} (honest : p.Honest) (l : L) :
    Kept y d ((send p).outcome (x, l, d)).1 ((send p).outcome (x, l, d)).2 := by
  obtain ⟨hgating, hcursor⟩ := h.positions calm
  obtain ⟨published, hlevel⟩ := h.level
  have hroom := calm.room
  have hroom' := calm.room_gating
  have hold := h.fits
  rw [outcome_send]
  by_cases hfits : p.size = 0 ∨ x.ring.sequencer.cursor.toInt + p.size.toNat ≤
      x.ring.sequencer.gating.toInt + cap.slots
  · obtain ⟨ending, l', hserve, haccepted⟩ := serve_accepting hlevel honest hfits
      (by rw [hgating]; exact hroom') l
    obtain ⟨hgating', -⟩ := level_afterSendCall hlevel hfits (by rw [hgating]; exact hroom') l
    rw [hserve, haccepted]
    constructor
    · rfl
    · exact hgating'.trans hgating
    · refine fair.attempt fun hpos => ⟨fun _ => ?_, fun _ => rfl⟩
      rw [SendCall.size_recorded] at hpos
      have hroomy := hfits.resolve_left fun hzero => by simp [hzero] at hpos
      rw [hgating] at hroomy
      simp only [Attempt.Fits, SendCall.size_recorded]
      omega
    · rintro reason rfl
      simp [SendCall.accepted] at haccepted
    · rintro rfl
      simp [SendCall.accepted] at haccepted
    · exact fun _ => h.accept calm hfits l
  · obtain ⟨hsize, hfull⟩ := not_or.mp hfits
    have hpos := p.pos_of_size hsize
    have hunfit : ¬ Attempt.Fits cap y.ring.sequencer.gating
        ⟨p.recorded l, x.ring.sequencer.cursor, false⟩ := by
      rw [← hgating]
      simp only [Attempt.Fits, SendCall.size_recorded]
      omega
    have hfair : (d.attempt ⟨p.recorded l, x.ring.sequencer.cursor, false⟩).Fair cap
        y.ring.sequencer.gating :=
      fair.attempt fun _ => ⟨fun he => by simp at he, fun he => absurd he hunfit⟩
    have hcursor' : x.ring.sequencer.cursor.toInt + 2 * cap.slots < 2 ^ 63 := by
      have hle : y.ring.sequencer.gating.toInt ≤ y.ring.sequencer.cursor.toInt := calm.gating_le
      rcases hold with hnone | hroomy <;> omega
    obtain ⟨answer, seen, hseen, hserve, hrefused⟩ | ⟨hserve, hwaits⟩ :=
      serve_full hlevel hpos (by omega) hcursor' l
    · rw [hserve, hrefused]
      refine ⟨rfl, ?_, hfair, nofun, nofun, fun _ => h.refuse hseen _ _⟩
      exact (gating_withCached _ _).trans hgating
    · rw [hserve]
      refine ⟨rfl, (gating_waiting _ x).trans hgating, hfair, nofun, fun _ => ?_,
        fun hne => absurd rfl hne⟩
      exact ⟨_, List.mem_append_right _ (List.mem_singleton_self _),
        by rw [SendCall.waits_recorded]; exact hwaits, hunfit⟩

/-- Whatever a callback does that sends, it keeps. -/
theorem Sends.kept {β : Type} {act : Act (Channel cap α × (L × CallbackLog α)) β} (h : Sends act)
    (calm : y.ring.sequencer.Calm) {x : Channel cap α} {d : CallbackLog α} (abreast : Abreast y x d)
    (fair : d.Fair cap y.ring.sequencer.gating) (l : L) :
    Kept y d (act.outcome (x, l, d)).1 (act.outcome (x, l, d)).2 := by
  induction h generalizing x l d with
  | done v => exact ⟨rfl, (abreast.positions calm).1, fair, nofun, nofun, fun _ => abreast⟩
  | own act raises =>
    have hrun : (Act.outer (Part.first.lift act)).outcome (x, l, d) =
        ((act.outcome l).1, x, (act.outcome l).2, d) := by
      rw [Act.outcome_outer, Part.outcome_lift]
      rfl
    rw [hrun]
    refine ⟨rfl, (abreast.positions calm).1, fair, fun reason he => ?_, fun he => ?_,
      fun _ => abreast⟩
    · obtain ⟨text, htext⟩ := raises.outcome he
      simp at htext
    · obtain ⟨text, htext⟩ := raises.outcome he
      simp at htext
  | bind hx hf ihx ihf =>
    have hfirst := ihx abreast fair l
    rw [Act.outcome_bind]
    rcases hrun : Act.outcome _ (x, l, d) with ⟨e | v, x', l', d'⟩
    · rw [hrun] at hfirst
      refine ⟨hfirst.heard, hfirst.gating, hfirst.fair, fun reason he => ?_, fun hstalled => ?_,
        fun hstalled => ?_⟩
      · exact hfirst.safe reason (by rw [Except.error.inj he])
      · exact hfirst.overdue (by rw [Except.error.inj hstalled])
      · exact hfirst.abreast fun he => hstalled (by rw [Except.error.inj he])
    · rw [hrun] at hfirst
      have hrest := ihf v (hfirst.abreast nofun) hfirst.fair l'
      exact { hrest with heard := hrest.heard.trans hfirst.heard }
  | rescue hx ih =>
    have hwithin := ih abreast fair l
    rw [Act.outcome_rescued]
    refine ⟨hwithin.heard, hwithin.gating, hwithin.fair, fun reason he => ?_, fun hstalled => ?_,
      fun hstalled => ?_⟩
    · exact hwithin.safe reason ((Act.caught_error (by simp)).mp he)
    · exact hwithin.overdue ((Act.caught_error (by simp)).mp hstalled)
    · exact hwithin.abreast fun he => hstalled ((Act.caught_error (by simp)).mpr he)
  | send p honest => exact kept_send abreast calm fair honest l

end Callbacks

/-! ## Slot by slot -/

/-- Empties one slot, and hands out its value to a callback that may use the channel. -/
def handing (f : α → Act (Channel cap α × M) Unit) (received : ℕ) (s : Int64) :
    Act (Channel cap α × M) ℕ := do
  match ← here.lift (exchange s none) with
  | none => return received
  | some value =>
    f value
    return received + 1

theorem drain_handing (f : α → Act (Channel cap α × M) Unit) (win : Window) :
    drain (here : Part (Channel cap α × M) _) (fun value _ => f value) win =
      win.sequences.foldlM (handing f) 0 := rfl

theorem outcome_handing (f : α → Act (Channel cap α × M) Unit) (n : ℕ) (s : Int64)
    (c : Channel cap α) (m : M) :
    (handing f n s).outcome (c, m) =
      match c.ring.slots.read s with
      | none => (.ok n, (c.empty s, m))
      | some value => (((f value).outcome (c.empty s, m)).1.map fun _ => n + 1,
          ((f value).outcome (c.empty s, m)).2) := by
  have htake : here.lift (exchange s none) (c, m) = .ok (c.ring.slots.read s) (c.empty s, m) := rfl
  rw [handing, Act.outcome_eq (Act.bind_ok htake)]
  cases c.ring.slots.read s with
  | none => rfl
  | some value => exact Act.outcome_bind_pure (f value) (fun _ => n + 1) (c.empty s, m)

theorem outcome_heeding (f : α → Act (Channel cap α × (L × CallbackLog α)) Unit) (value : α)
    (c : Channel cap α) (l : L) (d : CallbackLog α) :
    (heeding f value).outcome (c, l, d) = (f value).outcome (c, l, d.hear value) :=
  Act.outcome_eq (Act.bind_ok rfl)

theorem outcome_listening (stop : Option (ℕ × Halt)) (value : α) (c : Channel cap α)
    (heard : List α) :
    (Act.outer (listening stop value)).outcome (c, heard) =
      (match stop with
        | none => .ok ()
        | some (count, e) => if heard.length + 1 = count then .error e else .ok (),
        (c, heard ++ [value])) := by
  rw [Act.outcome_outer]
  rcases stop with _ | ⟨count, e⟩
  · rfl
  · have hrun : listening (some (count, e)) value heard =
        (if (heard ++ [value]).length = count then throw e else pure () : Act (List α) Unit)
          (heard ++ [value]) := rfl
    rw [Act.outcome_eq hrun, List.length_append, List.length_singleton]
    by_cases hstop : heard.length + 1 = count
    · simp only [hstop, if_true]
      rfl
    · simp only [hstop, if_false]
      rfl

/-- A callback gives up at the last value before its end. -/
theorem outcome_listening_last {e : Halt} {count : ℕ} {heard : List α}
    (last : count = heard.length + 1) (value : α) (c : Channel cap α) :
    (Act.outer (listening (some (count, e)) value)).outcome (c, heard) =
      (.error e, (c, heard ++ [value])) := by
  rw [outcome_listening]
  simp only [last, if_true]

/-- A callback that is called too early for its end goes on. -/
theorem outcome_listening_before {ending : Except Halt β} {count : ℕ} {heard : List α}
    (before : ∀ e, ending = .error e → heard.length + 1 < count) (value : α) (c : Channel cap α) :
    (Act.outer (listening (stopOf ending count) value)).outcome (c, heard) =
      (.ok (), (c, heard ++ [value])) := by
  rw [outcome_listening]
  cases ending with
  | ok v => rfl
  | error e =>
    have hne : heard.length + 1 ≠ count := (before e rfl).ne
    simp only [stopOf, if_neg hne]

section Draining
variable {y x : Channel cap α} {d : CallbackLog α} {s : Int64}

theorem Abreast.hear (h : Abreast y x d) (value : α) : Abreast y x (d.hear value) :=
  ⟨h.alike, h.fits, h.honest, h.level⟩

/-- A slot that is not released yet has the same in it, and may be emptied in both. -/
theorem Abreast.empty (h : Abreast y x d) (calm : y.ring.sequencer.Calm)
    (lo : y.ring.sequencer.gating.toInt < s.toInt) (le : s.toInt ≤ y.ring.sequencer.cursor.toInt) :
    x.ring.slots.read s = y.ring.slots.read s ∧ Abreast (y.empty s) (x.empty s) d := by
  obtain ⟨published, hlevel⟩ := calm.level
  obtain ⟨hempty, hread⟩ := empty_afterSendCalls hlevel h.fits calm.room_gating lo le
  refine ⟨?_, ?_, h.fits, h.honest, h.level⟩
  · rw [h.alike.views.1, hread]
  · rw [← hempty]
    exact alike_empty h.alike s

/-- What comes of handing out slots to a callback that sends, beside one that listens and
ends the same way. -/
structure Drained (y : Channel cap α) (d : CallbackLog α) (ss : List Int64) (n : ℕ)
    (ending : Except Halt ℕ) (w : Channel cap α × (L × CallbackLog α)) : Prop where
  gating : w.1.ring.sequencer.gating = y.ring.sequencer.gating
  fair : w.2.2.Fair cap y.ring.sequencer.gating
  safe : ∀ reason, ending ≠ .error (.fault reason)
  overdue : ending = .error .stalled → w.2.2.Overdue cap y.ring.sequencer.gating
  heard : d.heard.length ≤ w.2.2.heard.length
  gaveUp : ∀ e, ending = .error e → d.heard.length < w.2.2.heard.length
  listened : ending ≠ .error .stalled → ∃ y' : Channel cap α,
    y'.ring.sequencer = y.ring.sequencer ∧ y'.ring.poller = y.ring.poller ∧
      Abreast y' w.1 w.2.2 ∧
      (ss.foldlM (handing fun value =>
        Act.outer (listening (stopOf ending w.2.2.heard.length) value)) n).outcome (y, d.heard) =
        (ending, (y', w.2.2.heard))

/-- A window is handed out alike, whether the callback sends anything or not. -/
theorem drained {f : α → Act (Channel cap α × (L × CallbackLog α)) Unit}
    (sends : ∀ value, Sends (f value)) (calm : y.ring.sequencer.Calm) {ss : List Int64}
    (inside : ∀ s ∈ ss, y.ring.sequencer.gating.toInt < s.toInt ∧
      s.toInt ≤ y.ring.sequencer.cursor.toInt) (abreast : Abreast y x d)
    (fair : d.Fair cap y.ring.sequencer.gating) (n : ℕ) (l : L) :
    Drained y d ss n ((ss.foldlM (handing (heeding f)) n).outcome (x, l, d)).1
      ((ss.foldlM (handing (heeding f)) n).outcome (x, l, d)).2 := by
  induction ss generalizing y x d n l with
  | nil => exact ⟨(abreast.positions calm).1, fair, nofun, nofun, le_refl _, nofun,
      fun _ => ⟨y, rfl, rfl, abreast, rfl⟩⟩
  | cons s ss ih =>
    obtain ⟨⟨hlo, hle⟩, hinside⟩ := List.forall_mem_cons.mp inside
    obtain ⟨hsame, hempty⟩ := abreast.empty calm hlo hle
    rw [List.foldlM_cons, Act.outcome_bind, outcome_handing, hsame]
    cases hread : y.ring.slots.read s with
    | none =>
      have hrest := ih (y := y.empty s) calm hinside hempty fair n l
      refine { hrest with listened := fun hne => ?_ }
      obtain ⟨y', hsequencer, hpoller, habreast, hlistened⟩ := hrest.listened hne
      refine ⟨y', hsequencer, hpoller, habreast, ?_⟩
      rw [List.foldlM_cons, Act.outcome_bind, outcome_handing, hread]
      exact hlistened
    | some value =>
      have hkept := (sends value).kept (y := y.empty s) calm (hempty.hear value) fair l
      simp only [outcome_heeding]
      rcases hrun : (f value).outcome (x.empty s, l, d.hear value) with ⟨e | u, x', l', d'⟩
      · rw [hrun] at hkept
        have hheard : d'.heard = d.heard ++ [value] := hkept.heard
        have hlength : d'.heard.length = d.heard.length + 1 := by simp [hheard]
        have hgrown : d.heard.length < d'.heard.length := by omega
        refine ⟨hkept.gating, hkept.fair, fun reason he => ?_, fun hstalled => ?_, ?_,
          fun _ _ => ?_, fun hne => ?_⟩
        · exact hkept.safe reason (by rw [Except.error.inj he])
        · exact hkept.overdue (by rw [Except.error.inj hstalled])
        · exact hgrown.le
        · exact hgrown
        · refine ⟨y.empty s, rfl, rfl,
            hkept.abreast fun he => hne (by rw [Except.error.inj he]; rfl), ?_⟩
          rw [List.foldlM_cons, Act.outcome_bind, outcome_handing, hread]
          simp only [Except.map, stopOf]
          rw [outcome_listening_last hlength, hheard]
      · rw [hrun] at hkept
        have hheard : d'.heard = d.heard ++ [value] := hkept.heard
        have hlength : d'.heard.length = d.heard.length + 1 := by simp [hheard]
        have hgrown : d.heard.length < d'.heard.length := by omega
        have hrest := ih (y := y.empty s) calm hinside (hkept.abreast nofun) hkept.fair (n + 1) l'
        refine { hrest with heard := ?_, gaveUp := fun e he => ?_, listened := fun hne => ?_ }
        · exact hgrown.le.trans hrest.heard
        · exact hgrown.trans (hrest.gaveUp e he)
        · obtain ⟨y', hsequencer, hpoller, habreast, hlistened⟩ := hrest.listened hne
          refine ⟨y', hsequencer, hpoller, habreast, ?_⟩
          rw [List.foldlM_cons, Act.outcome_bind, outcome_handing, hread]
          simp only
          rw [outcome_listening_before fun e he => hlength ▸ hrest.gaveUp e he]
          rw [hheard] at hlistened
          exact hlistened

end Draining

end Channel

end LapRing
