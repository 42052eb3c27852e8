import LapRing.Proofs.Claiming
import LapRing.Proofs.Publication
import LapRing.Sequencer.Handoff
import Mathlib.Data.List.InsertIdx
import Mathlib.Data.List.Perm.Basic

/-!
# What producers remember of gating

A producer looks at gating only if what it remembers of it does not admit its
claim. Gating never goes back, so memory is never ahead of it, and every answer is
the one that gating itself would give. The rule without memory knows the last
sequence claimed, gating, and the claims that wait. Both kinds of producers follow
it, though they look at gating at different moments.
-/
namespace LapRing

namespace Sequencer
variable {cap : Capacity} {W : Type}

/-- A claim of one needs no check. -/
theorem tryNext_one : (tryNext 1 : Act (Sequencer cap) _) = Except.ok <$> tryClaim 1 := by
  simp only [tryNext, cap.checkClaim_one, map_eq_pure_bind]

theorem next_one (seq : Part W (Sequencer cap)) (pauses : List (Pause W)) :
    next seq pauses 1 = Except.ok <$> claim seq pauses 1 := by
  simp only [next, cap.checkClaim_one, map_eq_pure_bind]

@[simp] theorem cached_admitted (n : Int64) (s : Sequencer cap) :
    (s.admitted n).cached =
      if (ticketAfter cap s.claimed n).wrapPoint ≤ s.cached then s.cached else s.gating := by
  simp only [admitted, cached_withClaimed]
  split <;> simp

@[simp] theorem cached_granted (high : Int64) (s : Sequencer cap) :
    (s.granted high).cached = s.cached := by
  obtain ⟨_, _, _ | _, _⟩ := s <;> rfl

section Publishing

/-- What claims depend on. -/
structure SameClaims (s s' : Sequencer cap) : Prop where
  producer : s'.producer = s.producer
  claimed : s'.claimed = s.claimed
  cached : s'.cached = s.cached
  gating : s'.gating = s.gating

/-- Publishing is none of the claims' business, also when it fails. -/
theorem sameClaims_publishRange (low high : Int64) (s : Sequencer cap) :
    s.SameClaims ((publishRange low high).outcome s).2 := by
  have hcount : Act.Leads s.SameClaims s.SameClaims (do
      if (← get).tally.isSome then
        let size ← Checked.add (← Checked.sub high low) 1
        modify (·.count (.published size.toUInt64)) : Act (Sequencer cap) Unit) := by
    refine Act.leads_get.bind (fun v => ?_) fun _ h => h
    split
    · refine (Checked.leads_sub _ _ _).bind (fun d => ?_) fun _ h => h
      refine (Checked.leads_add _ _ _).bind (fun size => ?_) fun _ h => h
      exact Act.leads_modify fun s' h => ⟨h.producer, h.claimed, h.cached, h.gating⟩
    · exact Act.leads_pure ()
  obtain ⟨cursor, gating, claims, tally⟩ := s
  cases claims with
  | single claimed cached =>
    by_cases hback : high < cursor
    · have hrun : publishRange low high ⟨cursor, gating, .single claimed cached, tally⟩ =
          .error (.fault (.regressed "cursor" cursor high))
            (⟨cursor, gating, .single claimed cached, tally⟩ : Sequencer cap) := by
        simp [publishRange, producer, advanceCursor, hback]
      rw [Act.outcome_error hrun]
      exact ⟨rfl, rfl, rfl, rfl⟩
    · have hmove : advanceCursor high ⟨cursor, gating, .single claimed cached, tally⟩ =
          .ok () (⟨high, gating, .single claimed cached, tally⟩ : Sequencer cap) := by
        simp [advanceCursor, hback]
      have hrun := hcount ⟨high, gating, .single claimed cached, tally⟩ ⟨rfl, rfl, rfl, rfl⟩
      rw [← Act.outcome_eq (Act.bind_ok (f := fun _ => _) hmove)] at hrun
      exact hrun
  | shared cached flags =>
    exact hcount ⟨cursor, gating, .shared cached (flags.markRange low high), tally⟩
      ⟨rfl, rfl, rfl, rfl⟩

end Publishing

/-- A claim of `n` ends within a lap of gating. -/
def Fits (s : Sequencer cap) (n : UInt64) : Prop :=
  s.claimed.toInt + n.toNat - s.gating.toInt ≤ cap.slots

/-- What producers remember of gating, it has been once. -/
structure Remembers (s : Sequencer cap) : Prop where
  started : -1 ≤ s.cached.toInt
  cached_le : s.cached.toInt ≤ s.gating.toInt
  claimed : -1 ≤ s.claimed.toInt
  room : s.claimed.toInt < 2 ^ 62

namespace Remembers
variable {s : Sequencer cap} {n : UInt64} (h : s.Remembers) (pos : 1 ≤ n.toNat)
  (le : n.toNat ≤ cap.slots)
include h pos le

theorem toInt_high : (ticketAfter cap s.claimed n.toInt64).high.toInt = s.claimed.toInt + n.toNat ∧
    (ticketAfter cap s.claimed n.toInt64).wrapPoint.toInt =
      s.claimed.toInt + n.toNat - cap.slots := by
  have hslots := cap.slots_le_int
  have hstart := h.claimed
  have hroom := h.room
  have hn := cap.toInt_toInt64 le
  constructor
  · rw [Sequencer.toInt_high cap s.claimed n.toInt64 hstart (by omega) (by omega), hn]
  · rw [toInt_wrapPoint cap s.claimed n.toInt64 hstart (by omega) (by omega), hn]

theorem tryNext_of_fits (fits : s.Fits n) :
    tryNext n s = .ok (.ok (some (s.claimed + n.toInt64))) (s.admitted n.toInt64) := by
  have hslots := cap.slots_le_int
  have hroom := h.room
  have hn := cap.toInt_toInt64 le
  obtain ⟨-, hwrap⟩ := h.toInt_high pos le
  unfold Fits at fits
  have htry := tryClaim_eq h.claimed (n := n.toInt64) (by omega) (by omega)
  rw [attempted_of_fits (by omega)] at htry
  rw [tryNext, cap.checkClaim_ok pos le]
  exact Act.bind_ok htry

theorem tryNext_of_full (full : ¬ s.Fits n) :
    tryNext n s = .ok (.ok none) (s.withCached s.gating) := by
  have hslots := cap.slots_le_int
  have hroom := h.room
  have hn := cap.toInt_toInt64 le
  obtain ⟨-, hwrap⟩ := h.toInt_high pos le
  unfold Fits at full
  have htry := tryClaim_eq h.claimed (n := n.toInt64) (by omega) (by omega)
  rw [attempted_of_full h.cached_le (by omega)] at htry
  rw [tryNext, cap.checkClaim_ok pos le]
  exact Act.bind_ok htry

variable {seq : Part W (Sequencer cap)} (hseq : seq.Lawful) {w : W} (hw : (seq.split w).1 = s)
include hseq hw

theorem next_of_fits (fits : s.Fits n) (pauses : List (Pause W)) :
    next seq pauses n w = .ok (.ok (s.claimed + n.toInt64))
      (seq.join (s.admitted n.toInt64) (seq.split w).2) := by
  subst hw
  have hslots := cap.slots_le_int
  have hroom := h.room
  have hn := cap.toInt_toInt64 le
  unfold Fits at fits
  have hclaim := claim_eq hseq h.claimed (n := n.toInt64) (by omega) (by omega) (by omega) pauses
  rw [next, cap.checkClaim_ok pos le]
  exact Act.bind_ok hclaim

/-- A claim that does not fit asks for its sequences and then waits. -/
theorem next_of_full (full : ¬ s.Fits n) (pauses : List (Pause W)) :
    next seq pauses n w =
      (do return .ok (← resume seq (ticketAfter cap s.claimed n.toInt64) pauses) :
        Act W (Except Refusal Int64)) (seq.join (s.asked n.toInt64) (seq.split w).2) := by
  subst hw
  have hslots := cap.slots_le_int
  have hroom := h.room
  have hcached := h.cached_le
  have hn := cap.toInt_toInt64 le
  obtain ⟨-, hwrap⟩ := h.toInt_high pos le
  unfold Fits at full
  have hclaim := claim_asked hseq h.claimed (n := n.toInt64) (by omega) (by omega) pauses
  rw [if_neg (by rw [Int64.le_iff_toInt_le]; omega)] at hclaim
  rw [next, cap.checkClaim_ok pos le]
  exact Act.bind_eq _ hclaim

omit hw in
theorem early_of_full (full : ¬ s.Fits n) (rest : seq.Rest) :
    ¬ (ticketAfter cap s.claimed n.toInt64).wrapPoint ≤
      (seq.split (seq.join (s.asked n.toInt64) rest)).1.gating := by
  obtain ⟨-, hwrap⟩ := h.toInt_high pos le
  rw [hseq.split_join, gating_asked, Int64.le_iff_toInt_le, hwrap]
  unfold Fits at full
  omega

theorem next_stalled (full : ¬ s.Fits n) :
    next seq [] n w =
      .error .stalled (seq.join ((s.asked n.toInt64).count .waited) (seq.split w).2) := by
  have hstalled := resume_stalled hseq (h.early_of_full pos le hseq full (seq.split w).2)
  rw [hseq.split_join, hseq.join_join] at hstalled
  rw [h.next_of_full pos le hseq hw full]
  exact Act.bind_error hstalled

theorem next_paused (full : ¬ s.Fits n) (pause : Pause W) (pauses : List (Pause W)) :
    next seq (pause :: pauses) n w =
      (do
        pause ⟨(ticketAfter cap s.claimed n.toInt64).wrapPoint, s.gating⟩
        return .ok (← resume seq (ticketAfter cap s.claimed n.toInt64) pauses) :
        Act W (Except Refusal Int64))
          (seq.join ((s.asked n.toInt64).count .waited) (seq.split w).2) := by
  have hearly := h.early_of_full pos le hseq full (seq.split w).2
  rw [h.next_of_full pos le hseq hw full, Act.bind_eq _ (resume_paused hseq hearly pause pauses),
    bind_assoc, hseq.split_join, hseq.join_join, gating_asked]

end Remembers

/-- The answers to claims of `n` that gating itself would give. A claim that fits is
admitted without a wait. One that does not is turned down and leaves all as it was,
or it waits: it lets others go on and looks at gating again. -/
structure Decides (s : Sequencer cap) (n : UInt64) : Prop where
  fits : s.Fits n → ∃ high : Int64, high.toInt = s.claimed.toInt + n.toNat ∧
    (∃ s', tryNext n s = .ok (.ok (some high)) s') ∧
    ∀ {W : Type} (seq : Part W (Sequencer cap)), seq.Lawful → ∀ w, (seq.split w).1 = s →
      ∀ pauses, ∃ w', next seq pauses n w = .ok (.ok high) w'
  full : ¬ s.Fits n →
    (∃ s', tryNext n s = .ok (.ok none) s' ∧ s'.claimed = s.claimed ∧ s'.cursor = s.cursor) ∧
    ∃ t : Ticket, t.high.toInt = s.claimed.toInt + n.toNat ∧
      t.wrapPoint.toInt = t.high.toInt - cap.slots ∧
      ∀ {W : Type} (seq : Part W (Sequencer cap)), seq.Lawful → ∀ w, (seq.split w).1 = s →
        ∃ w', next seq [] n w = .error .stalled w' ∧
          ∀ pause pauses, next seq (pause :: pauses) n w =
            (do
              pause ⟨t.wrapPoint, s.gating⟩
              return .ok (← resume seq t pauses) : Act W (Except Refusal Int64)) w'

theorem Remembers.decides {s : Sequencer cap} (h : s.Remembers) {n : UInt64} (pos : 1 ≤ n.toNat)
    (le : n.toNat ≤ cap.slots) : s.Decides n := by
  obtain ⟨hhigh, hwrap⟩ := h.toInt_high pos le
  refine ⟨fun fits => ⟨_, hhigh, ⟨_, h.tryNext_of_fits pos le fits⟩, ?_⟩, fun full => ⟨?_, ?_⟩⟩
  · intro W seq hseq w hw pauses
    exact ⟨_, h.next_of_fits pos le hseq hw fits pauses⟩
  · exact ⟨_, h.tryNext_of_full pos le full, claimed_withCached _ _, cursor_withCached _ _⟩
  · refine ⟨_, hhigh, by rw [hwrap, hhigh], fun seq hseq w hw => ?_⟩
    exact ⟨_, h.next_stalled pos le hseq hw full, h.next_paused pos le hseq hw full⟩

end Sequencer

/-- A sequencer and the claims that wait at it, each with its size. -/
structure PendingClaims (cap : Capacity) where
  sequencer : Sequencer cap
  waiting : List (UInt64 × Ticket)

namespace PendingClaims
variable {cap : Capacity} {σ : Type}

inductive Call
  /-- A claim that does not wait. -/
  | attempt (n : UInt64)
  | claim (n : UInt64)
  /-- The claim that waits in place `k` looks at gating again. -/
  | look (k : ℕ)
  | release (gating : Int64)
  | advance (move : Sequencer.Move)
  | publish (low high : Int64)

inductive Answer
  | claimed (size : ℕ) (last : ℤ)
  | full
  | waits
  | done
  | refused (refusal : Refusal)
  | halted (why : Halt)
deriving DecidableEq

/-- The sequences that were claimed with an answer. -/
def Answer.sequences : Answer → List ℤ
  | .claimed size last => consecutive (last - size + 1) size
  | _ => []

/-- Serves calls one after the other. -/
def serveAll (serve : Call → σ → Answer × σ) : List Call → σ → List Answer × σ
  | [], s => ([], s)
  | call :: rest, s =>
    let (answer, s) := serve call s
    let (answers, s) := serveAll serve rest s
    (answer :: answers, s)

def new (cap : Capacity) (kind : Multiplicity) (metrics : Bool) : PendingClaims cap :=
  ⟨.new cap kind metrics, []⟩

/-- The ticket that a claim of `n` gets. -/
def ticket? (n : UInt64) (s : Sequencer cap) : Option (UInt64 × Ticket) :=
  match cap.checkClaim n with
  | .error _ => none
  | .ok size =>
    match Sequencer.request size s with
    | .ok t _ => some (n, t)
    | .error _ _ => none

/-- Serves a call. A claim that stalls is kept with its ticket. -/
def serve : Call → PendingClaims cap → Answer × PendingClaims cap
  | .attempt n, d =>
    match Sequencer.tryNext n d.sequencer with
    | .ok (.ok (some high)) s => (.claimed n.toNat high.toInt, { d with sequencer := s })
    | .ok (.ok none) s => (.full, { d with sequencer := s })
    | .ok (.error refusal) s => (.refused refusal, { d with sequencer := s })
    | .error why s => (.halted why, { d with sequencer := s })
  | .claim n, d =>
    match Sequencer.next Part.whole [] n d.sequencer with
    | .ok (.ok high) s => (.claimed n.toNat high.toInt, { d with sequencer := s })
    | .ok (.error refusal) s => (.refused refusal, { d with sequencer := s })
    | .error .stalled s => (.waits, ⟨s, d.waiting ++ (ticket? n d.sequencer).toList⟩)
    | .error why s => (.halted why, { d with sequencer := s })
  | .look k, d =>
    match d.waiting[k]? with
    | none => (.done, d)
    | some (n, t) =>
      match Sequencer.resume Part.whole t [] d.sequencer with
      | .ok high s => (.claimed n.toNat high.toInt, ⟨s, d.waiting.eraseIdx k⟩)
      | .error .stalled s => (.waits, { d with sequencer := s })
      | .error why s => (.halted why, { d with sequencer := s })
  | .release gating, d => (.done, { d with sequencer := d.sequencer.withGating gating })
  | .advance move, d =>
    (.done, { d with sequencer := (d.sequencer.advanceGating move.target move.observed).2 })
  | .publish low high, d =>
    (.done, { d with sequencer := ((Sequencer.publishRange low high).outcome d.sequencer).2 })

end PendingClaims

/-- The rule without memory: the last sequence claimed, gating, and the sizes and ends
of the claims that wait. -/
structure UncachedClaims where
  last : ℤ := -1
  gating : ℤ := -1
  waiting : List (ℕ × ℤ) := []

namespace UncachedClaims
open PendingClaims (Call Answer)
variable {cap : Capacity} {kind : Multiplicity}

def claim (n : ℕ) (a : UncachedClaims) : UncachedClaims := { a with last := a.last + n }

/-- A claim fits if it ends within a lap of gating, and waits until it does. -/
def serve (slots : ℕ) : Call → UncachedClaims → Answer × UncachedClaims
  | .attempt n, a =>
    if a.last + n.toNat - a.gating ≤ slots then
      (.claimed n.toNat (a.last + n.toNat), a.claim n.toNat)
    else (.full, a)
  | .claim n, a =>
    if a.last + n.toNat - a.gating ≤ slots then
      (.claimed n.toNat (a.last + n.toNat), a.claim n.toNat)
    else
      (.waits, { a.claim n.toNat with waiting := a.waiting ++ [(n.toNat, a.last + n.toNat)] })
  | .look k, a =>
    match a.waiting[k]? with
    | none => (.done, a)
    | some (size, last) =>
      if last - slots ≤ a.gating then
        (.claimed size last, { a with waiting := a.waiting.eraseIdx k })
      else (.waits, a)
  | .release gating, a => (.done, { a with gating := gating.toInt })
  | .advance move, a =>
    if move.observed.toInt < move.target.toInt ∧ a.gating = move.observed.toInt then
      (.done, { a with gating := move.target.toInt })
    else (.done, a)
  | .publish _ _, a => (.done, a)

/-- Claims are of one slot to a whole lap, a sole producer makes none while it waits,
and gating does not go back. -/
def Admits (cap : Capacity) (kind : Multiplicity) (a : UncachedClaims) (call : Call) : Prop :=
  (a.serve cap.slots call).2.last < 2 ^ 62 ∧
    match call with
    | .attempt n | .claim n =>
      1 ≤ n.toNat ∧ n.toNat ≤ cap.slots ∧ (kind = .single → a.waiting = [])
    | .release gating => a.gating ≤ gating.toInt
    | _ => True

instance (a : UncachedClaims) : (call : Call) → Decidable (a.Admits cap kind call)
  | .attempt _ | .claim _ => inferInstanceAs (Decidable (_ ∧ _ ∧ _ ∧ _))
  | .release _ => inferInstanceAs (Decidable (_ ∧ _))
  | .look _ | .advance _ | .publish _ _ => inferInstanceAs (Decidable (_ ∧ True))

def Legal (cap : Capacity) (kind : Multiplicity) : List Call → UncachedClaims → Prop
  | [], _ => True
  | call :: rest, a => a.Admits cap kind call ∧ Legal cap kind rest (a.serve cap.slots call).2

instance decidableLegal (cap : Capacity) (kind : Multiplicity) :
    (calls : List Call) → (a : UncachedClaims) → Decidable (Legal cap kind calls a)
  | [], _ => inferInstanceAs (Decidable True)
  | call :: rest, a =>
    have := decidableLegal cap kind rest (a.serve cap.slots call).2
    inferInstanceAs (Decidable (_ ∧ _))

end UncachedClaims

namespace PendingClaims
variable {cap : Capacity} {kind : Multiplicity} {d : PendingClaims cap}
  {a : UncachedClaims} {n : UInt64}

/-- Claims are where the rule has them. What a sole producer waits for is not counted as
claimed yet. -/
structure Agrees (kind : Multiplicity) (d : PendingClaims cap) (a : UncachedClaims) : Prop where
  producer : d.sequencer.producer = kind
  remembers : d.sequencer.Remembers
  gating : d.sequencer.gating.toInt = a.gating
  room : a.last < 2 ^ 62
  claimed : (kind = .single → a.waiting = []) → d.sequencer.claimed.toInt = a.last
  waiting : a.waiting = d.waiting.map fun x => (x.1.toNat, x.2.high.toInt)
  tickets : ∀ x ∈ d.waiting, x.2.wrapPoint.toInt = x.2.high.toInt - cap.slots ∧
    -1 ≤ x.2.high.toInt ∧ x.2.high.toInt ≤ a.last
  sole : kind = .single → ∀ x ∈ d.waiting, d.waiting = [x] ∧ x.2.high.toInt = a.last

theorem agrees_new (cap : Capacity) (kind : Multiplicity) (metrics : Bool) :
    (new cap kind metrics).Agrees kind {} := by
  have hclaimed : (Sequencer.new cap kind metrics).claimed.toInt = -1 := by cases kind <;> rfl
  have hcached : (Sequencer.new cap kind metrics).cached.toInt = -1 := by cases kind <;> rfl
  have hgating : (Sequencer.new cap kind metrics).gating.toInt = -1 := by cases kind <;> rfl
  refine ⟨by cases kind <;> rfl, ⟨?_, ?_, ?_, ?_⟩, hgating, by decide,
    fun _ => hclaimed, rfl, nofun,
    nofun⟩
  all_goals
    simp only [new]
    omega

namespace Agrees

/-- What leaves claims and gating alone is not noticed, if memory stays behind gating. -/
theorem keep (h : d.Agrees kind a) {s : Sequencer cap}
    (producer : s.producer = d.sequencer.producer)
    (claimed : s.claimed = d.sequencer.claimed) (gating : s.gating = d.sequencer.gating)
    (started : -1 ≤ s.cached.toInt) (cached_le : s.cached.toInt ≤ s.gating.toInt) :
    Agrees kind { d with sequencer := s } a := by
  have hmem := h.remembers
  refine ⟨producer.trans h.producer, ⟨started, cached_le, ?_, ?_⟩, ?_, h.room, fun hturn => ?_,
    h.waiting, h.tickets, h.sole⟩
  · simpa only [claimed] using hmem.claimed
  · simpa only [claimed] using hmem.room
  · simpa only [gating] using h.gating
  · simpa only [claimed] using h.claimed hturn

section Claims
variable (h : d.Agrees kind a) (pos : 1 ≤ n.toNat) (le : n.toNat ≤ cap.slots)
  (turn : kind = .single → a.waiting = [])
include h turn

theorem fits_iff : d.sequencer.Fits n ↔ a.last + n.toNat - a.gating ≤ cap.slots := by
  unfold Sequencer.Fits
  rw [h.claimed turn, h.gating]

theorem waiting_nil (hkind : kind = .single) : d.waiting = [] :=
  List.map_eq_nil_iff.mp (h.waiting.symm.trans (turn hkind))

include pos le

/-- A claim that fits is counted by both. -/
theorem admitted (room : a.last + n.toNat < 2 ^ 62) :
    Agrees kind { d with sequencer := d.sequencer.admitted n.toInt64 } (a.claim n.toNat) := by
  have hmem := h.remembers
  have hstart := hmem.claimed
  have hcached := hmem.started
  have hcached' := hmem.cached_le
  have hlast := h.claimed turn
  obtain ⟨hhigh, -⟩ := hmem.toInt_high pos le
  change (d.sequencer.claimed + n.toInt64).toInt = _ at hhigh
  refine ⟨?_, ⟨?_, ?_, ?_, ?_⟩, ?_, room, fun _ => ?_, h.waiting, ?_, ?_⟩
  · simpa only [Sequencer.producer_admitted] using h.producer
  · simp only [Sequencer.cached_admitted]
    split <;> omega
  · simp only [Sequencer.cached_admitted, Sequencer.gating_admitted]
    split <;> omega
  · simp only [Sequencer.claimed_admitted]
    omega
  · simp only [Sequencer.claimed_admitted]
    omega
  · simp only [Sequencer.gating_admitted]
    exact h.gating
  · simp only [Sequencer.claimed_admitted, UncachedClaims.claim]
    omega
  · intro x hx
    obtain ⟨hwrap, hlow, hle⟩ := h.tickets x hx
    exact ⟨hwrap, hlow, by simp only [UncachedClaims.claim]; omega⟩
  · intro hkind x (hx : x ∈ d.waiting)
    rw [h.waiting_nil turn hkind] at hx
    simp at hx

/-- A claim that waits is counted by the rule; a sole producer counts it later. -/
theorem asked (room : a.last + n.toNat < 2 ^ 62) :
    Agrees kind
      ⟨(d.sequencer.asked n.toInt64).count .waited,
        d.waiting ++ [(n, Sequencer.ticketAfter cap d.sequencer.claimed n.toInt64)]⟩
      { a.claim n.toNat with waiting := a.waiting ++ [(n.toNat, a.last + n.toNat)] } := by
  have hmem := h.remembers
  have hstart := hmem.claimed
  have hlast := h.claimed turn
  obtain ⟨hhigh, hwrap⟩ := hmem.toInt_high pos le
  have hclaimed : d.sequencer.claimed.toInt ≤ (d.sequencer.asked n.toInt64).claimed.toInt ∧
      (d.sequencer.asked n.toInt64).claimed.toInt ≤ a.last + n.toNat := by
    rcases d.sequencer.shared_or_single with hshared | hsingle
    · rw [Sequencer.claimed_asked_shared hshared]
      change d.sequencer.claimed.toInt ≤ (Sequencer.ticketAfter cap _ _).high.toInt ∧
        (Sequencer.ticketAfter cap _ _).high.toInt ≤ _
      omega
    · rw [Sequencer.asked_single hsingle]
      omega
  refine ⟨?_, ⟨?_, ?_, ?_, ?_⟩, ?_, room, fun hturn => ?_, ?_, ?_, ?_⟩
  · simpa only [Sequencer.producer_count, Sequencer.producer_asked] using h.producer
  · simpa only [Sequencer.cached_count, Sequencer.cached_asked] using hmem.started
  · simpa only [Sequencer.cached_count, Sequencer.gating_count, Sequencer.cached_asked,
      Sequencer.gating_asked] using hmem.cached_le
  · simp only [Sequencer.claimed_count]
    omega
  · simp only [Sequencer.claimed_count]
    omega
  · simp only [Sequencer.gating_count, Sequencer.gating_asked]
    exact h.gating
  · have hshared : d.sequencer.producer = .multi := by
      rcases d.sequencer.shared_or_single with hshared | hsingle
      · exact hshared
      · have hnil := hturn (h.producer.symm.trans hsingle)
        simp at hnil
    simp only [Sequencer.claimed_count, Sequencer.claimed_asked_shared hshared]
    change (Sequencer.ticketAfter cap _ _).high.toInt = a.last + n.toNat
    omega
  · simp only [List.map_append, List.map_cons, List.map_nil, ← h.waiting, hhigh, hlast]
  · intro x hx
    rcases List.mem_append.mp hx with hold | hnew
    · obtain ⟨hwrap', hlow, hle⟩ := h.tickets x hold
      exact ⟨hwrap', hlow, by simp only [UncachedClaims.claim]; omega⟩
    · rw [List.mem_singleton.mp hnew]
      simp only [UncachedClaims.claim]
      omega
  · intro hkind x hx
    rw [h.waiting_nil turn hkind, List.nil_append, List.mem_singleton] at hx
    subst hx
    refine ⟨by rw [h.waiting_nil turn hkind, List.nil_append], ?_⟩
    simp only [UncachedClaims.claim]
    omega

theorem attempt (room : (a.serve cap.slots (.attempt n)).2.last < 2 ^ 62) :
    (d.serve (.attempt n)).1 = (a.serve cap.slots (.attempt n)).1 ∧
      Agrees kind (d.serve (.attempt n)).2 (a.serve cap.slots (.attempt n)).2 := by
  have hmem := h.remembers
  obtain ⟨hhigh, -⟩ := hmem.toInt_high pos le
  change (d.sequencer.claimed + n.toInt64).toInt = _ at hhigh
  by_cases hfits : d.sequencer.Fits n
  · have hrule := (h.fits_iff turn).mp hfits
    simp only [UncachedClaims.serve, if_pos hrule] at room ⊢
    simp only [serve, hmem.tryNext_of_fits pos le hfits]
    exact ⟨by rw [hhigh, h.claimed turn], h.admitted pos le turn room⟩
  · have hrule := mt (h.fits_iff turn).mpr hfits
    simp only [UncachedClaims.serve, if_neg hrule]
    simp only [serve, hmem.tryNext_of_full pos le hfits]
    have hstart := hmem.started.trans hmem.cached_le
    exact ⟨trivial, h.keep (by simp) (by simp) (by simp) (by simpa) (by simp)⟩

theorem claim (room : (a.serve cap.slots (.claim n)).2.last < 2 ^ 62) :
    (d.serve (.claim n)).1 = (a.serve cap.slots (.claim n)).1 ∧
      Agrees kind (d.serve (.claim n)).2 (a.serve cap.slots (.claim n)).2 := by
  have hmem := h.remembers
  obtain ⟨hhigh, hwrap⟩ := hmem.toInt_high pos le
  by_cases hfits : d.sequencer.Fits n
  · have hrule := (h.fits_iff turn).mp hfits
    simp only [UncachedClaims.serve, if_pos hrule] at room ⊢
    have hnext := hmem.next_of_fits pos le Part.lawful_whole rfl hfits []
    simp only [serve, hnext]
    change (d.sequencer.claimed + n.toInt64).toInt = _ at hhigh
    exact ⟨by rw [hhigh, h.claimed turn], h.admitted pos le turn room⟩
  · have hrule := mt (h.fits_iff turn).mpr hfits
    simp only [UncachedClaims.serve, if_neg hrule] at room ⊢
    have hnext := hmem.next_stalled pos le Part.lawful_whole rfl hfits
    have hslots := cap.slots_le_int
    have hlow := hmem.claimed
    have hhigh' := hmem.room
    have hn := cap.toInt_toInt64 le
    have hticket : ticket? n d.sequencer =
        some (n, Sequencer.ticketAfter cap d.sequencer.claimed n.toInt64) := by
      simp only [ticket?, cap.checkClaim_ok pos le,
        Sequencer.request_eq hlow (n := n.toInt64) (by omega) (by omega)]
    simp only [serve, hnext, hticket]
    exact ⟨trivial, h.asked pos le turn room⟩

end Claims

/-- A claim that waited is complete, and now a sole producer counts it as well. -/
theorem granted (h : d.Agrees kind a) {k : ℕ} {t : Ticket} (hk : d.waiting[k]? = some (n, t)) :
    Agrees kind
      ⟨(d.sequencer.withCached d.sequencer.gating).granted t.high, d.waiting.eraseIdx k⟩
      { a with waiting := a.waiting.eraseIdx k } := by
  have hmem := h.remembers
  have hstart := hmem.started.trans hmem.cached_le
  have hroom := h.room
  have hlow' := hmem.claimed
  have hroom' := hmem.room
  have hin := List.mem_of_getElem? hk
  obtain ⟨-, hlow, hle⟩ := h.tickets _ hin
  set s := (d.sequencer.withCached d.sequencer.gating).granted t.high with hs
  have hproducer : s.producer = d.sequencer.producer := by simp [hs]
  have hgating : s.gating = d.sequencer.gating := by simp [hs, Sequencer.gating_granted]
  have hcached : s.cached = d.sequencer.gating := by simp [hs]
  have hsingle : kind = .single → s.claimed = t.high := by
    intro hkind
    rw [hs, Sequencer.granted_single (by simpa using h.producer.trans hkind),
      Sequencer.claimed_withClaimed]
  have hshared : kind = .multi → s.claimed = d.sequencer.claimed := by
    intro hkind
    rw [hs, Sequencer.granted_shared (by simpa using h.producer.trans hkind),
      Sequencer.claimed_withCached]
  have hclaimed : -1 ≤ s.claimed.toInt ∧ s.claimed.toInt < 2 ^ 62 := by
    cases hkind : kind with
    | single =>
      rw [hsingle hkind]
      simp only at hlow hle
      omega
    | multi =>
      rw [hshared hkind]
      exact ⟨hlow', hroom'⟩
  refine ⟨hproducer.trans h.producer, ⟨?_, ?_, hclaimed.1, hclaimed.2⟩, ?_, hroom, fun _ => ?_, ?_,
    ?_, ?_⟩
  · rw [hcached]
    exact hstart
  · rw [hcached, hgating]
  · rw [hgating]
    exact h.gating
  · cases hkind : kind with
    | single =>
      rw [hsingle hkind]
      exact (h.sole hkind _ hin).2
    | multi =>
      rw [hshared hkind]
      exact h.claimed (by simp [hkind])
  · rw [h.waiting, List.eraseIdx_map]
  · exact fun x hx => h.tickets x (List.mem_of_mem_eraseIdx hx)
  · intro hkind x (hx : x ∈ d.waiting.eraseIdx k)
    obtain ⟨honly, -⟩ := h.sole hkind _ hin
    rw [honly] at hk hx
    obtain rfl : k = 0 := by
      have := (List.getElem?_eq_some_iff.mp hk).1
      simpa using this
    simp at hx

/-- A claim that waits is admitted as soon as its wrap point is released. -/
theorem look (h : d.Agrees kind a) (k : ℕ) :
    (d.serve (.look k)).1 = (a.serve cap.slots (.look k)).1 ∧
      Agrees kind (d.serve (.look k)).2 (a.serve cap.slots (.look k)).2 := by
  have hmem := h.remembers
  have hget : a.waiting[k]? = d.waiting[k]?.map fun x => (x.1.toNat, x.2.high.toInt) := by
    rw [h.waiting, List.getElem?_map]
  cases hk : d.waiting[k]? with
  | none =>
    rw [hk] at hget
    simp only [Option.map_none] at hget
    simp only [serve, hk, UncachedClaims.serve, hget]
    exact ⟨trivial, h⟩
  | some x =>
    obtain ⟨n, t⟩ := x
    obtain ⟨hwrap, hlow, hle⟩ := h.tickets _ (List.mem_of_getElem? hk)
    simp only at hwrap hlow hle
    have hstart := hmem.started.trans hmem.cached_le
    have hroom := h.room
    rw [hk] at hget
    simp only [Option.map_some] at hget
    by_cases hreached : t.high.toInt - cap.slots ≤ a.gating
    · have hresume := Sequencer.resume_reached Part.lawful_whole (w := d.sequencer) hwrap hlow
        (show _ ≤ d.sequencer.gating.toInt by rw [h.gating]; exact hreached) []
      simp only [serve, hk, hresume, UncachedClaims.serve, hget, if_pos hreached]
      exact ⟨trivial, h.granted hk⟩
    · have hstalled := Sequencer.resume_stalled Part.lawful_whole (w := d.sequencer) (t := t)
        (show ¬ _ ≤ d.sequencer.gating by rw [Int64.le_iff_toInt_le, h.gating]; omega)
      simp only [serve, hk, hstalled, UncachedClaims.serve, hget, if_neg hreached]
      exact ⟨trivial, h.keep rfl rfl rfl hmem.started hmem.cached_le⟩

/-- Gating moves on, and memory stays behind. -/
theorem release (h : d.Agrees kind a) {gating : Int64} (forward : a.gating ≤ gating.toInt) :
    Agrees kind { d with sequencer := d.sequencer.withGating gating }
      { a with gating := gating.toInt } := by
  have hmem := h.remembers
  have hcached := hmem.cached_le
  have hgating := h.gating
  refine ⟨h.producer, ⟨hmem.started, ?_, hmem.claimed, hmem.room⟩, rfl, h.room, h.claimed,
    h.waiting, h.tickets, h.sole⟩
  simp only [Sequencer.cached_withGating, Sequencer.gating_withGating]
  omega

theorem advance (h : d.Agrees kind a) (move : Sequencer.Move) :
    Agrees kind (d.serve (.advance move)).2 (a.serve cap.slots (.advance move)).2 := by
  have hgating := h.gating
  simp only [serve, UncachedClaims.serve, Sequencer.advanceGating]
  by_cases hback : move.target ≤ move.observed
  · have hproper := Int64.le_iff_toInt_le.mp hback
    rw [if_pos hback, if_neg (by omega)]
    exact h
  · have hproper : move.observed.toInt < move.target.toInt := by
      rw [Int64.le_iff_toInt_le] at hback
      omega
    rw [if_neg hback]
    by_cases hfound : d.sequencer.gating = move.observed
    · rw [if_pos ⟨hproper, by rw [← hgating, hfound]⟩]
      simp only [Cell.compareAndSet, if_pos hfound]
      exact h.release (by rw [← hgating, hfound]; omega)
    · have hother : ¬ a.gating = move.observed.toInt := by
        rw [← hgating]
        exact fun he => hfound (Int64.toInt_inj.mp he)
      rw [if_neg (fun hmove => hother hmove.2)]
      simp only [Cell.compareAndSet, if_neg hfound]
      exact h.keep rfl rfl rfl h.remembers.started h.remembers.cached_le

/-- Every call is answered as the rule answers it. -/
theorem serve (h : d.Agrees kind a) {call : Call} (legal : a.Admits cap kind call) :
    (d.serve call).1 = (a.serve cap.slots call).1 ∧
      Agrees kind (d.serve call).2 (a.serve cap.slots call).2 := by
  obtain ⟨hroom, hcall⟩ := legal
  cases call with
  | attempt n => exact h.attempt hcall.1 hcall.2.1 hcall.2.2 hroom
  | claim n => exact h.claim hcall.1 hcall.2.1 hcall.2.2 hroom
  | look k => exact h.look k
  | release gating => exact ⟨rfl, h.release hcall⟩
  | advance move =>
    refine ⟨?_, h.advance move⟩
    simp only [UncachedClaims.serve]
    split <;> rfl
  | publish low high =>
    have hsame := Sequencer.sameClaims_publishRange low high d.sequencer
    refine ⟨rfl, h.keep hsame.producer hsame.claimed hsame.gating ?_ ?_⟩
    · rw [hsame.cached]
      exact h.remembers.started
    · rw [hsame.cached, hsame.gating]
      exact h.remembers.cached_le

theorem serveAll (h : d.Agrees kind a) {calls : List Call}
    (legal : UncachedClaims.Legal cap kind calls a) :
    (PendingClaims.serveAll PendingClaims.serve calls d).1 =
      (PendingClaims.serveAll (UncachedClaims.serve cap.slots) calls a).1 ∧
      Agrees kind (PendingClaims.serveAll PendingClaims.serve calls d).2
        (PendingClaims.serveAll (UncachedClaims.serve cap.slots) calls a).2 := by
  induction calls generalizing d a with
  | nil => exact ⟨rfl, h⟩
  | cons call rest ih =>
    obtain ⟨hcall, hrest⟩ := legal
    obtain ⟨hanswer, hnext⟩ := h.serve hcall
    obtain ⟨hanswers, hend⟩ := ih hnext hrest
    exact ⟨by simp only [PendingClaims.serveAll, hanswer, hanswers], hend⟩

end Agrees

end PendingClaims

namespace UncachedClaims
open PendingClaims (Call Answer)
open scoped List
variable {a : UncachedClaims} {slots : ℕ}

/-- The sequences that the claims that wait will get. -/
def pending (a : UncachedClaims) : List ℤ :=
  a.waiting.flatMap fun x => consecutive (x.2 - x.1 + 1) x.1

theorem sequences_claimed (n : ℕ) (last : ℤ) :
    (Answer.claimed n (last + n)).sequences = consecutive (last + 1) n := by
  simp only [Answer.sequences]
  congr 1
  omega

/-- Every call gives out the next sequences, or sequences that a claim waited for. -/
theorem serve_sequences (slots : ℕ) (call : Call) (a : UncachedClaims) :
    ∃ m : ℕ, (a.serve slots call).2.last = a.last + m ∧
      ((a.serve slots call).1.sequences ++ (a.serve slots call).2.pending).Perm
        (a.pending ++ consecutive (a.last + 1) m) := by
  have hsame : a.pending.Perm (a.pending ++ consecutive (a.last + 1) 0) := by
    rw [consecutive, List.range_zero, List.map_nil, List.append_nil]
  have hgiven : ∀ n : ℕ, ((Answer.claimed n (a.last + n)).sequences ++ a.pending).Perm
      (a.pending ++ consecutive (a.last + 1) n) := by
    intro n
    rw [sequences_claimed]
    exact List.perm_append_comm
  cases call with
  | attempt n =>
    simp only [serve]
    split
    · exact ⟨n.toNat, rfl, hgiven _⟩
    · exact ⟨0, by simp, hsame⟩
  | claim n =>
    simp only [serve]
    split
    · exact ⟨n.toNat, rfl, hgiven _⟩
    · refine ⟨n.toNat, rfl, ?_⟩
      have hnew := sequences_claimed n.toNat a.last
      simp only [Answer.sequences] at hnew
      simp only [Answer.sequences, pending, List.nil_append, List.flatMap_append,
        List.flatMap_singleton, hnew, List.Perm.refl]
  | look k =>
    simp only [serve]
    cases hk : a.waiting[k]? with
    | none => exact ⟨0, by simp, hsame⟩
    | some x =>
      simp only
      split
      · obtain ⟨hlt, hx⟩ := List.getElem?_eq_some_iff.mp hk
        have hperm := (List.getElem_cons_eraseIdx_perm hlt).flatMap_right
          fun x : ℕ × ℤ => consecutive (x.2 - x.1 + 1) x.1
        rw [hx, List.flatMap_cons] at hperm
        exact ⟨0, by simp, hperm.trans hsame⟩
      · exact ⟨0, by simp, hsame⟩
  | release gating => exact ⟨0, by simp [serve], hsame⟩
  | advance move =>
    simp only [serve]
    split
    · exact ⟨0, by simp, hsame⟩
    · exact ⟨0, by simp, hsame⟩
  | publish low high => exact ⟨0, by simp [serve], hsame⟩

theorem serveAll_sequences (slots : ℕ) (calls : List Call) (a : UncachedClaims) :
    ∃ m : ℕ, (PendingClaims.serveAll (serve slots) calls a).2.last = a.last + m ∧
      ((PendingClaims.serveAll (serve slots) calls a).1.flatMap Answer.sequences ++
        (PendingClaims.serveAll (serve slots) calls a).2.pending).Perm
          (a.pending ++ consecutive (a.last + 1) m) := by
  induction calls generalizing a with
  | nil =>
    refine ⟨0, by simp [PendingClaims.serveAll], ?_⟩
    simp [PendingClaims.serveAll, consecutive]
  | cons call rest ih =>
    obtain ⟨m, hlast, hperm⟩ := serve_sequences slots call a
    obtain ⟨k, hlast', hperm'⟩ := ih (a.serve slots call).2
    rw [hlast] at hlast' hperm'
    refine ⟨m + k, by simp only [PendingClaims.serveAll, hlast']; push_cast; omega, ?_⟩
    rw [show a.last + m + 1 = a.last + 1 + m by omega] at hperm'
    simp only [PendingClaims.serveAll, List.flatMap_cons, List.append_assoc]
    set answered := (a.serve slots call).1.sequences
    set left := (a.serve slots call).2.pending
    set ends := consecutive (a.last + 1 + m) k
    calc _ ~ answered ++ (left ++ ends) := hperm'.append_left _
      _ = (answered ++ left) ++ ends := (List.append_assoc _ _ _).symm
      _ ~ (a.pending ++ consecutive (a.last + 1) m) ++ ends := hperm.append_right _
      _ = a.pending ++ consecutive (a.last + 1) (m + k) := by
        rw [List.append_assoc, consecutive_append]

end UncachedClaims

namespace PendingClaims
variable {cap : Capacity} {calls : List Call}

/-- What producers remember of gating never changes an answer. Whatever is claimed,
published and released, in any order in which gating does not go back, both kinds of
producers answer as the rule without memory does. Whether a claim
fits depends on gating as it is at that time, for claims that wait and for those that
do not. What was claimed and what is waited for are the sequences up to the last one,
each once. -/
theorem memory_unnoticed (kind : Multiplicity) (metrics : Bool)
    (legal : UncachedClaims.Legal cap kind calls {}) :
    let served := serveAll serve calls (new cap kind metrics)
    let ruled := serveAll (UncachedClaims.serve cap.slots) calls {}
    served.1 = ruled.1 ∧
    (∀ kind' metrics', UncachedClaims.Legal cap kind' calls {} →
      (serveAll serve calls (new cap kind' metrics')).1 = served.1) ∧
    served.2.sequencer.gating.toInt = ruled.2.gating ∧
    ((kind = .single → ruled.2.waiting = []) →
      served.2.sequencer.claimed.toInt = ruled.2.last) ∧
    (∀ n : UInt64, 1 ≤ n.toNat → n.toNat ≤ cap.slots → served.2.sequencer.Decides n) ∧
    ruled.2.waiting = served.2.waiting.map (fun x => (x.1.toNat, x.2.high.toInt)) ∧
    (served.1.flatMap Answer.sequences ++ ruled.2.pending).Perm
      (consecutive 0 (ruled.2.last + 1).toNat) ∧
    (Sequencer.tryNext 1 : Act (Sequencer cap) _) = Except.ok <$> Sequencer.tryClaim 1 ∧
    ∀ {W : Type} (seq : Part W (Sequencer cap)) (pauses : List (Pause W)),
      Sequencer.next seq pauses 1 = Except.ok <$> Sequencer.claim seq pauses 1 := by
  intro served ruled
  obtain ⟨hanswers, hagrees⟩ := (agrees_new cap kind metrics).serveAll legal
  obtain ⟨m, hlast, hperm⟩ := UncachedClaims.serveAll_sequences cap.slots calls {}
  refine ⟨hanswers, ?_, hagrees.gating, hagrees.claimed, ?_, hagrees.waiting, ?_,
    Sequencer.tryNext_one, Sequencer.next_one⟩
  · intro kind' metrics' legal'
    obtain ⟨hanswers', -⟩ := (agrees_new cap kind' metrics').serveAll legal'
    exact hanswers'.trans hanswers.symm
  · exact fun n pos le => hagrees.remembers.decides pos le
  · change ruled.2.last = -1 + m at hlast
    rw [show (ruled.2.last + 1).toNat = m by omega, show served.1 = ruled.1 from hanswers]
    exact hperm

/-- Two claims wait in a ring of two, and the second looks too early. -/
theorem memory_unnoticed_waiting :
    (serveAll serve [.claim 2, .claim 1, .attempt 2, .claim 2, .release 0, .look 1, .look 0,
      .advance ⟨2, 0⟩, .look 0] (new .two .multi true)).1 =
    [.claimed 2 1, .waits, .full, .waits, .done, .waits, .claimed 1 2, .done, .claimed 2 4] :=
  (memory_unnoticed .multi true (by decide)).1.trans (by decide)

end PendingClaims

end LapRing
