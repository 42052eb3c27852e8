import LapRing.Proofs.ObliviousCalls
import LapRing.Sequencer.Handoff

/-!
# Nobody notices what is remembered

Two runs may differ in which value of gating producers remember. As long as gating does
not go back, they stay alike from there on: each call is answered the same, and nothing
but what is remembered differs after it. So an attempt that finds no room, and a claim
that is refused, leave no trace.
-/
namespace LapRing

namespace Act
variable {W V α : Type}

/-- What came of actions made one after the other, with how the world looks after each. -/
def journal (view : W → V) : List (Act W α) → W → List (Except Halt α × V)
  | [], _ => []
  | act :: rest, w =>
    ((act.outcome w).1, view (act.outcome w).2) :: journal view rest (act.outcome w).2

/-- Every action goes from one world to the next in an admitted way. -/
def Keeping (admitted : W → W → Prop) : List (Act W α) → W → Prop
  | [], _ => True
  | act :: rest, w => admitted w (act.outcome w).2 ∧ Keeping admitted rest (act.outcome w).2

instance decidableKeeping (admitted : W → W → Prop) [DecidableRel admitted] :
    (acts : List (Act W α)) → (w : W) → Decidable (Keeping admitted acts w)
  | [], _ => inferInstanceAs (Decidable True)
  | act :: rest, w =>
    have := decidableKeeping admitted rest (act.outcome w).2
    inferInstanceAs (Decidable (_ ∧ _))

/-- All answers of the action have the property. -/
def Yields (P : α → Prop) (x : Act W α) : Prop := ∀ ⦃w a w'⦄, x w = .ok a w' → P a

theorem yields_pure {P : α → Prop} {a : α} (h : P a) : Yields P (pure a : Act W α) := by
  rintro w b w' hrun
  obtain ⟨rfl, -⟩ := EStateM.Result.ok.inj hrun
  exact h

theorem yields_bind {β : Type} {P : β → Prop} {x : Act W α} {f : α → Act W β}
    (h : ∀ a, Yields P (f a)) : Yields P (x >>= f) := by
  intro w b w' hrun
  obtain ⟨a, v, -, hrest⟩ := of_bind_ok hrun
  exact h a hrest

/-- What a reply is made of. -/
theorem of_reply_ok {β : Type} {x : Act W α} {f : α → β} {w w' : W} {b : β}
    (h : (x >>= fun a => pure (f a)) w = .ok b w') : ∃ a, x w = .ok a w' ∧ b = f a := by
  obtain ⟨a, v, hx, hpure⟩ := of_bind_ok h
  obtain ⟨rfl, rfl⟩ := EStateM.Result.ok.inj hpure
  exact ⟨a, hx, rfl⟩

end Act

namespace Sequencer
variable {cap : Capacity} {W C A : Type}

/-- Gating does not go back. -/
def GatingForward (seq : Part W (Sequencer cap)) (w w' : W) : Prop :=
  (seq.split w).1.gating ≤ (seq.split w').1.gating

/-- Gating does not go back, and the counter of claims has not wrapped around. Behind a
counter that has, a claim may be out of reach of the words: then it depends on what is
remembered whether the ring finds that out. -/
def Onward (seq : Part W (Sequencer cap)) (w w' : W) : Prop :=
  GatingForward seq w w' ∧ -1 ≤ (seq.split w').1.claimed.toInt

instance (seq : Part W (Sequencer cap)) : DecidableRel (GatingForward seq) :=
  fun w w' => inferInstanceAs (Decidable ((seq.split w).1.gating ≤ (seq.split w').1.gating))

instance (seq : Part W (Sequencer cap)) : DecidableRel (Onward seq) :=
  fun _ _ => inferInstanceAs (Decidable (_ ∧ _))

/-- How a world looks to those who do not see what producers remember. -/
def forget (seq : Part W (Sequencer cap)) : W → W := recalling seq (-1)

/-- Nothing that is done after `w` tells `w'` from `w`: it is admitted after both or after
neither, every answer is the same, and the worlds after it look the same. -/
def Unnoticed (admitted : W → W → Prop) (seq : Part W (Sequencer cap)) (serve : C → Act W A)
    (w w' : W) : Prop :=
  forget seq w' = forget seq w ∧
    ∀ calls : List C,
      (Act.Keeping admitted (calls.map serve) w' ↔ Act.Keeping admitted (calls.map serve) w) ∧
      (Act.Keeping admitted (calls.map serve) w →
        Act.journal (forget seq) (calls.map serve) w' =
          Act.journal (forget seq) (calls.map serve) w)

/-- What comes of a beginning by calls that are served one after the other, each of them
in an admitted way. -/
def Reached (admitted : W → W → Prop) (serve : C → Act W A) (start w : W) : Prop :=
  ∃ calls : List C, Act.Keeping admitted (calls.map serve) start ∧
    (Act.outcomes (calls.map serve) start).2 = w

theorem Reached.next {admitted : W → W → Prop} {serve : C → Act W A} {start w : W}
    (h : Reached admitted serve start w) {call : C}
    (step : admitted w ((serve call).outcome w).2) :
    Reached admitted serve start ((serve call).outcome w).2 := by
  obtain ⟨calls, keeping, rfl⟩ := h
  induction calls generalizing start with
  | nil => exact ⟨[call], ⟨step, trivial⟩, rfl⟩
  | cons first calls ih =>
    obtain ⟨before, keeping⟩ := keeping
    obtain ⟨later, hkeeping, hlater⟩ := ih keeping step
    exact ⟨first :: later, ⟨before, hkeeping⟩, hlater⟩

theorem mindful_new (cap : Capacity) (kind : Multiplicity) (metrics : Bool) :
    (new cap kind metrics).Mindful := by
  have start : -1 ≤ (-1 : Int64).toInt := by decide
  cases kind <;> exact ⟨Int64.le_refl _, start⟩

section Histories
variable {seq : Part W (Sequencer cap)} (hseq : seq.Lawful) {w : W}
include hseq

theorem forget_recalling (c : Int64) (w : W) : forget seq (recalling seq c w) = forget seq w :=
  recalling_recalling hseq c (-1) w

/-- What is remembered after an oblivious action, gating has been before. -/
theorem Mindful.next (mindful : (seq.split w).1.Mindful) {act : Act W A}
    (oblivious : Oblivious seq act w) (onward : Onward seq w (act.outcome w).2) :
    (seq.split (act.outcome w).2).1.Mindful := by
  obtain ⟨forward, start⟩ := onward
  obtain ⟨c, hc, hrun⟩ := oblivious _ mindful.cached_le
  rw [recalling_cached hseq] at hrun
  have hworld : (act.outcome w).2 = recalling seq c (act.outcome w).2 := congrArg Prod.snd hrun
  have hcached : (seq.split (act.outcome w).2).1.cached = c := by
    rw [hworld, split_recalling c hseq, cached_withCached]
  exact ⟨hcached ▸ Int64.le_trans hc forward, start⟩

variable {serve : C → Act W A}
  (oblivious : ∀ call w, (seq.split w).1.Mindful → Oblivious seq (serve call) w)
include oblivious

theorem Reached.mindful {start : W} (h : Reached (Onward seq) serve start w)
    (mindful : (seq.split start).1.Mindful) : (seq.split w).1.Mindful := by
  obtain ⟨calls, keeping, rfl⟩ := h
  induction calls generalizing start with
  | nil => exact mindful
  | cons call calls ih =>
    obtain ⟨onward, keeping⟩ := keeping
    exact ih (mindful.next hseq (oblivious call start mindful) onward) keeping

theorem journal_recalling (mindful : (seq.split w).1.Mindful) {c : Int64}
    (hc : c ≤ (seq.split w).1.gating) (calls : List C)
    (keeping : Act.Keeping (Onward seq) (calls.map serve) w) :
    Act.Keeping (Onward seq) (calls.map serve) (recalling seq c w) ∧
      Act.journal (forget seq) (calls.map serve) (recalling seq c w) =
        Act.journal (forget seq) (calls.map serve) w := by
  induction calls generalizing w c with
  | nil => exact ⟨trivial, rfl⟩
  | cons call calls ih =>
    obtain ⟨onward, keeping⟩ := keeping
    have hcall := oblivious call w mindful
    obtain ⟨c', hc', hrun⟩ := hcall c hc
    obtain ⟨hkeeping, hjournal⟩ := ih (mindful.next hseq hcall onward)
      (Int64.le_trans hc' onward.1) keeping
    refine ⟨⟨?_, by rw [hrun]; exact hkeeping⟩, ?_⟩
    · rw [hrun]
      simp only [Onward, GatingForward, split_recalling _ hseq, gating_withCached,
        claimed_withCached]
      exact onward
    · simp only [List.map_cons, Act.journal, hrun, hjournal, forget_recalling hseq]

/-- Memory alone is not noticed. -/
theorem unnoticed_of_recalling (mindful : (seq.split w).1.Mindful) {c : Int64}
    (hc : c ≤ (seq.split w).1.gating) : Unnoticed (Onward seq) seq serve w (recalling seq c w) := by
  have hafter : (seq.split (recalling seq c w)).1.Mindful := by
    rw [split_recalling c hseq]
    constructor
    · rwa [cached_withCached, gating_withCached]
    · rw [claimed_withCached]
      exact mindful.start
  have hback : recalling seq (seq.split w).1.cached (recalling seq c w) = w := by
    rw [recalling_recalling hseq, recalling_cached hseq]
  refine ⟨forget_recalling hseq c w, fun calls => ⟨⟨fun keeping => ?_, fun keeping => ?_⟩,
    fun keeping => (journal_recalling hseq oblivious mindful hc calls keeping).2⟩⟩
  · have hcached : (seq.split w).1.cached ≤ (seq.split (recalling seq c w)).1.gating := by
      rw [split_recalling c hseq, gating_withCached]
      exact mindful.cached_le
    have hkeeping := (journal_recalling hseq oblivious hafter hcached calls keeping).1
    rwa [hback] at hkeeping
  · exact (journal_recalling hseq oblivious mindful hc calls keeping).1

theorem Reached.unnoticed {start w' : W} (h : Reached (Onward seq) serve start w)
    (mindful : (seq.split start).1.Mindful)
    (refused : (seq.split w).1.Mindful → ∃ c ≤ (seq.split w).1.gating, w' = recalling seq c w) :
    Unnoticed (Onward seq) seq serve w w' := by
  have hmindful := h.mindful hseq oblivious mindful
  obtain ⟨c, hc, rfl⟩ := refused hmindful
  exact unnoticed_of_recalling hseq oblivious hmindful hc

end Histories

/-! ## Sequencers and pollers -/

/-- One call on a sequencer or a poller, or the opening or the release of a window, between
which others may act. -/
inductive Access (ι : Type)
  | tryNext (n : UInt64)
  | next (n : UInt64)
  /-- A claim that waits looks at gating again. -/
  | look (t : Ticket)
  | await (wrapPoint : Int64)
  | publish (s : Int64)
  | publishRange (low high : Int64)
  | publishGating (s : Int64)
  | advance (m : Move)
  | isPublished (s : Int64)
  | highestPublished (first available : Int64)
  | openPoller (i : ι) (consumer : Multiplicity)
  | openWindow (i : ι) (batch : UInt64)
  | release (i : ι) (win : Window)

inductive Reply
  | done
  | claimed (result : Except Refusal Int64)
  | tried (result : Except Refusal (Option Int64))
  | sequence (s : Int64)
  | verdict (b : Bool)
  | opened (win : Option Window)

inductive Reply.Refused : Reply → Prop
  | claim (refusal : Refusal) : Refused (.claimed (.error refusal))
  | attempt (refusal : Refusal) : Refused (.tried (.error refusal))
  | full : Refused (.tried (.ok none))

section Serving
variable {ι : Type} (seq : Part W (Sequencer cap)) (poller : ι → Part W Poller)

/-- Moves gating on if it is its turn. -/
def advance (m : Move) : Act W Unit := do
  let (moved, s) := (← seq.read).advanceGating m.target m.observed
  seq.write s
  if moved then return () else throw .stalled

def openPoller (place : Part W Poller) (consumer : Multiplicity) : Act W Unit := do
  place.write (.new consumer (← seq.read))

def Access.serve : Access ι → Act W Reply
  | .tryNext n => do return .tried (← seq.lift (Sequencer.tryNext n))
  | .next n => do return .claimed (← Sequencer.next seq [] n)
  | .look t => do return .sequence (← resume seq t [])
  | .await wrapPoint => do return .sequence (← awaitGating seq wrapPoint [])
  | .publish s => do
    seq.lift (Sequencer.publish s)
    return .done
  | .publishRange low high => do
    seq.lift (Sequencer.publishRange low high)
    return .done
  | .publishGating s => do
    seq.update (·.withGating s)
    return .done
  | .advance m => do
    Sequencer.advance seq m
    return .done
  | .isPublished s => do return .verdict ((← seq.read).isPublished s)
  | .highestPublished first available => do
    let s ← seq.read
    return .sequence (← s.highestPublished first available)
  | .openPoller i consumer => do
    Sequencer.openPoller seq (poller i) consumer
    return .done
  | .openWindow i batch => do return .opened (← Poller.openWindow seq (poller i) batch)
  | .release i win => do
    Poller.release seq (poller i) win
    return .done

end Serving

section Oblivious
variable {ι : Type} {seq : Part W (Sequencer cap)} {poller : ι → Part W Poller} (hseq : seq.Lawful)
include hseq

theorem ignores_advance (c : Int64) (m : Move) :
    Act.Ignores (recalling seq c) (advance seq m) := by
  unfold advance
  apply Part.follows_read_bind hseq
  intro s
  rw [advanceGating_withCached]
  rcases s.advanceGating m.target m.observed with ⟨moved, t⟩
  refine (Part.follows_write hseq t).bind fun _ => ?_
  cases moved with
  | true => exact Act.ignores_pure _
  | false => exact Act.ignores_throw _

variable (apart : ∀ i, seq.Apart (poller i))
include apart

theorem ignores_openPoller (c : Int64) (i : ι) (consumer : Multiplicity) :
    Act.Ignores (recalling seq c) (openPoller seq (poller i) consumer) := by
  unfold openPoller
  apply Part.follows_read_bind hseq
  intro s
  have hsame : Poller.new consumer (s.withCached c) = Poller.new consumer s := by
    cases consumer <;> simp [Poller.new]
  rw [hsame]
  exact (apart i).ignores_lift _ _

theorem Access.oblivious {w : W} (mindful : (seq.split w).1.Mindful) (a : Access ι) :
    Oblivious seq (a.serve seq poller) w := by
  cases a with
  | tryNext n => exact (oblivious_tryNext hseq mindful.cached_le n).reply _
  | next n => exact (oblivious_next hseq n mindful).reply _
  | look t => exact (oblivious_resume hseq t w).reply _
  | await wrapPoint => exact oblivious_reply (fun c => ignores_awaitGating c hseq wrapPoint) _ w
  | publish s =>
    exact oblivious_reply (fun c => Part.follows_lift hseq (ignores_publish c s)) _ w
  | publishRange low high =>
    exact oblivious_reply (fun c => Part.follows_lift hseq (ignores_publishRange c low high)) _ w
  | publishGating s =>
    refine oblivious_reply (fun c => Part.ignores_update hseq fun t => ?_) _ w
    exact withGating_withCached c t s
  | advance m => exact oblivious_reply (fun c => ignores_advance hseq c m) _ w
  | isPublished s =>
    refine oblivious_of_ignores (fun c => Part.follows_read_bind hseq fun t => ?_) w
    rw [isPublished_withCached]
    exact Act.ignores_pure _
  | highestPublished first available =>
    refine oblivious_of_ignores (fun c => Part.follows_read_bind hseq fun t => ?_) w
    rw [highestPublished_withCached]
    exact (ignores_highestPublished _ t _ _).bind fun _ => Act.ignores_pure _
  | openPoller i consumer =>
    exact oblivious_reply (fun c => ignores_openPoller hseq apart c i consumer) _ w
  | openWindow i batch =>
    exact oblivious_reply (fun c => Poller.ignores_openWindow c hseq (apart i) batch) _ w
  | release i win =>
    exact oblivious_reply (fun c => Poller.ignores_release c hseq (apart i) win) _ w

omit apart in
/-- A refused call leaves the world as it was, but for what is remembered. -/
theorem Access.refused {w w' : W} (mindful : (seq.split w).1.Mindful) {a : Access ι}
    {reply : Reply} (h : a.serve seq poller w = .ok reply w') (refused : reply.Refused) :
    ∃ c ≤ (seq.split w).1.gating, w' = recalling seq c w := by
  have hnot : ¬ Act.Yields (fun reply => ¬ Reply.Refused reply) (a.serve seq poller) :=
    fun hyields => hyields h refused
  cases a with
  | tryNext n =>
    obtain ⟨answer, hlift, rfl⟩ := Act.of_reply_ok h
    obtain ⟨s, hrun, rfl⟩ := Part.of_lift_ok hlift
    have hanswer : ∀ high, answer ≠ .ok (some high) := by
      rintro high rfl
      cases refused
    obtain ⟨c, hc, rfl⟩ := tryNext_refused mindful.cached_le hrun hanswer
    exact ⟨c, hc, rfl⟩
  | next n =>
    obtain ⟨answer, hnext, rfl⟩ := Act.of_reply_ok h
    cases answer with
    | ok high => cases refused
    | error refusal =>
      obtain rfl := next_refused hnext
      exact ⟨_, mindful.cached_le, (recalling_cached hseq w').symm⟩
  | highestPublished first available =>
    exact absurd (Act.yields_bind fun _ => Act.yields_bind fun _ => Act.yields_pure nofun) hnot
  | look t | await t | publish t | publishRange low high | publishGating t | advance m
  | isPublished s | openPoller i consumer | openWindow i batch | release i win =>
    exact absurd (Act.yields_bind fun _ => Act.yields_pure nofun) hnot

end Oblivious

/-! ## A counter of claims that nobody releases for -/

/-- Shared producers that have claimed up to `last` while gating stood still. -/
def claimedTo (cap : Capacity) (last : Int64) : Sequencer cap where
  cursor := last
  claims := .shared (-1) (.new cap)

section Counting
variable {P ι : Type} {poller : ι → Part (Sequencer cap × P) Poller} {p : P}

/-- A claim of one takes the next sequence, whether it fits or is left waiting. -/
theorem next_claimedTo {last : Int64} (start : -1 ≤ last.toInt) (word : last.toInt + 1 < 2 ^ 63) :
    (((Access.next 1).serve Part.first poller).outcome (claimedTo cap last, p)).2 =
      (claimedTo cap (last + 1), p) := by
  set t := ticketAfter cap last 1
  have hwrap : t.wrapPoint.toInt = last.toInt + 1 - cap.slots :=
    toInt_wrapPoint cap last 1 start (by decide) word
  have hhigh : t.high.toInt = last.toInt + 1 := toInt_high cap last 1 start (by decide) word
  have hclaim : claim Part.first [] 1 (claimedTo cap last, p) =
      (if t.wrapPoint ≤ -1 then Part.first.lift (redeem t (-1)) else resume Part.first t [])
        (claimedTo cap (last + 1), p) :=
    claim_asked Part.lawful_first (w := (claimedTo cap last, p)) (n := 1) start (by decide) word []
  simp only [Access.serve, next, cap.checkClaim_one, Act.outcome_bind_pure,
    Act.outcome_eq hclaim]
  by_cases fits : t.wrapPoint ≤ -1
  · have hreleased : t.high.toInt - cap.slots ≤ (-1 : Int64).toInt := by
      rw [Int64.le_iff_toInt_le] at fits
      omega
    have hredeem := redeem_eq (claimedTo cap (last + 1)) t (-1) (by omega) hreleased
    have hlift := Part.lift_ok (p := Part.first) (w := (claimedTo cap (last + 1), p)) hredeem
    rw [if_pos fits, Act.outcome_ok hlift]
    rfl
  · have hstalled := resume_stalled Part.lawful_first (w := (claimedTo cap (last + 1), p)) fits
    rw [if_neg fits, Act.outcome_error hstalled]
    rfl

/-- Claims of one that nobody releases for take the counter to any word. -/
theorem reached_claimedTo (k : ℕ) (word : k ≤ 2 ^ 63) :
    Reached (GatingForward Part.first) (Access.serve Part.first poller) (new cap .multi false, p)
      (claimedTo cap (.ofInt (k - 1)), p) := by
  induction k with
  | zero => exact ⟨[], trivial, rfl⟩
  | succ k ih =>
    have hlast : (Int64.ofInt (k - 1)).toInt = k - 1 :=
      Int64.toInt_ofInt_of_le (by omega) (by omega)
    have hnext : (((Access.next 1).serve Part.first poller).outcome
        (claimedTo cap (.ofInt (k - 1)), p)).2 = (claimedTo cap (.ofInt (k - 1) + 1), p) :=
      next_claimedTo (by omega) (by omega)
    have hlater : Int64.ofInt (k - 1) + 1 = .ofInt (↑(k + 1) - 1) := by
      rw [← Int64.toInt_inj, Checked.toInt_succ (by omega), hlast,
        Int64.toInt_ofInt_of_le (by omega) (by omega)]
      omega
    rw [hlater] at hnext
    rw [← hnext]
    refine (ih (by omega)).next ?_
    rw [hnext]
    exact Int64.le_refl _

end Counting

end Sequencer

end LapRing
