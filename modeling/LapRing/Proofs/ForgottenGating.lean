import LapRing.Proofs.IgnoringActions
import LapRing.Proofs.Receiving

/-!
# What producers remember cannot be seen

A value of gating that producers remember is read by their claims and by nothing
else. Publications, polls, handles and callbacks do the same whatever it is. Claims
do as well, as long as it is a value that gating has had: a claim that is admitted
from memory is admitted by gating too, and one that is not looks at gating itself.
-/
namespace LapRing

namespace Sequencer
variable {cap : Capacity} {W α : Type} {s : Sequencer cap} (c : Int64)

/-- The world in which producers remember `c` of gating. -/
def recalling (seq : Part W (Sequencer cap)) (c : Int64) : W → W := seq.alter (·.withCached c)

/-! ## Fields -/

@[simp] theorem withCached_withCached (s : Sequencer cap) (a b : Int64) :
    (s.withCached a).withCached b = s.withCached b := by
  obtain ⟨_, _, _ | _, _⟩ := s <;> rfl

@[simp] theorem withCached_cached (s : Sequencer cap) : s.withCached s.cached = s := by
  obtain ⟨_, _, _ | _, _⟩ := s <;> rfl

theorem withGating_withCached (s : Sequencer cap) (g : Int64) :
    (s.withCached c).withGating g = (s.withGating g).withCached c := by
  obtain ⟨_, _, _ | _, _⟩ := s <;> rfl

theorem withClaimed_withCached (s : Sequencer cap) (high : Int64) :
    (s.withCached c).withClaimed high = (s.withClaimed high).withCached c := by
  obtain ⟨_, _, _ | _, _⟩ := s <;> rfl

theorem count_withCached (s : Sequencer cap) (f : Tally → Tally) :
    (s.withCached c).count f = (s.count f).withCached c := by
  obtain ⟨_, _, _ | _, _⟩ := s <;> rfl

theorem mapFlags_withCached (f : LapFlags cap → LapFlags cap) (s : Sequencer cap) :
    mapFlags f (s.withCached c) = (mapFlags f s).withCached c := by
  obtain ⟨_, _, _ | _, _⟩ := s <;> rfl

theorem isPublished_withCached (s : Sequencer cap) (t : Int64) :
    (s.withCached c).isPublished t = s.isPublished t := by
  obtain ⟨_, _, _ | _, _⟩ := s <;> rfl

theorem highestPublished_withCached (s : Sequencer cap) (first available : Int64) :
    ((s.withCached c).highestPublished first available : Act W Int64) =
      s.highestPublished first available := by
  obtain ⟨_, _, _ | _, _⟩ := s <;> rfl

theorem advanceGating_withCached (s : Sequencer cap) (target observed : Int64) :
    (s.withCached c).advanceGating target observed =
      ((s.advanceGating target observed).1, (s.advanceGating target observed).2.withCached c) := by
  unfold advanceGating
  split
  · rfl
  · simp only [gating_withCached, withGating_withCached]
    rfl

/-! ## Publishing and looking -/

theorem ignores_highestPublished (g : W → W) (s : Sequencer cap) (first available : Int64) :
    Act.Ignores g (s.highestPublished first available) := by
  unfold highestPublished LapFlags.frontier
  split
  · exact Act.ignores_pure _
  · exact (Checked.ignores_word g _ _).bind fun _ => Checked.ignores_sub g _ _

theorem ignores_count (f : Tally → Tally) :
    Act.Ignores (·.withCached c) (modify (·.count f) : Act (Sequencer cap) PUnit) :=
  Act.ignores_modify fun s => count_withCached c s f

theorem ignores_advanceCursor (high : Int64) :
    Act.Ignores (·.withCached c) (advanceCursor high : Act (Sequencer cap) Unit) := by
  unfold advanceCursor
  apply Act.follows_get_bind
  intro s
  rw [cursor_withCached]
  split
  · exact Act.ignores_throw _
  · have hset := Act.follows_set (g := (·.withCached c)) { s with cursor := high }
    obtain ⟨_, _, _ | _, _⟩ := s <;> exact hset

theorem ignores_publish (t : Int64) :
    Act.Ignores (·.withCached c) (publish t : Act (Sequencer cap) Unit) := by
  unfold publish
  apply Act.follows_get_bind
  intro s
  rw [producer_withCached]
  cases s.producer with
  | single => exact (ignores_advanceCursor c t).bind fun _ => ignores_count c _
  | multi =>
    exact (Act.ignores_modify (mapFlags_withCached c _)).bind fun _ => ignores_count c _

theorem ignores_publishRange (low high : Int64) :
    Act.Ignores (·.withCached c) (publishRange low high : Act (Sequencer cap) Unit) := by
  have hcount : Act.Ignores (·.withCached c) (do
      if (← get).tally.isSome then
        let size ← Checked.add (← Checked.sub high low) 1
        modify (·.count (.published size.toUInt64)) : Act (Sequencer cap) Unit) := by
    apply Act.follows_get_bind
    intro s
    rw [tally_withCached]
    split
    · refine (Checked.ignores_sub _ _ _).bind fun _ => ?_
      exact (Checked.ignores_add _ _ _).bind fun _ => ignores_count c _
    · exact Act.ignores_pure _
  unfold publishRange
  apply Act.follows_get_bind
  intro s
  rw [producer_withCached]
  cases s.producer with
  | single => exact (ignores_advanceCursor c high).bind fun _ => hcount
  | multi => exact (Act.ignores_modify (mapFlags_withCached c _)).bind fun _ => hcount

/-! ## Asking and waiting -/

theorem ignores_ticket (g : W → W) (last n : Int64) : Act.Ignores g (ticket cap last n) := by
  unfold ticket
  refine (Checked.ignores_add g _ _).bind fun _ => ?_
  exact (Checked.ignores_sub g _ _).bind fun _ => Act.ignores_pure _

theorem ignores_request (n : Int64) :
    Act.Ignores (·.withCached c) (request n : Act (Sequencer cap) Ticket) := by
  unfold request
  apply Act.follows_get_bind
  intro s
  obtain ⟨cursor, gating, _ | ⟨cached, flags⟩, tally⟩ := s
  · exact ignores_ticket _ _ _
  · have hset := Act.follows_set (g := (·.withCached c))
      (⟨cursor + n, gating, .shared cached flags, tally⟩ : Sequencer cap)
    exact hset.bind fun _ => ignores_ticket _ _ _

theorem ignores_redeem (t : Ticket) (released : Int64) :
    Act.Ignores (·.withCached c) (redeem t released : Act (Sequencer cap) Int64) := by
  unfold redeem
  refine (Checked.ignores_sub _ _ _).bind fun ahead => ?_
  split
  · exact Act.ignores_throw _
  · apply Act.follows_get_bind
    intro s
    rw [producer_withCached]
    split
    · have hset := Act.follows_set (g := (·.withCached c)) (s.withClaimed t.high)
      rw [← withClaimed_withCached] at hset
      exact hset.bind fun _ => Act.ignores_pure _
    · exact Act.ignores_pure _

theorem granted_withCached (s : Sequencer cap) (high : Int64) :
    (s.withCached c).granted high = (s.granted high).withCached c := by
  obtain ⟨_, _, _ | _, _⟩ := s <;> rfl

/-! ## Claims -/

/-- Producers remember a value that gating has had, and no counter has wrapped around. -/
structure Mindful (s : Sequencer cap) : Prop where
  cached_le : s.cached ≤ s.gating
  start : -1 ≤ s.claimed.toInt

/-- The action comes to the same whatever value of gating up to now producers remember. -/
def Oblivious (seq : Part W (Sequencer cap)) (x : Act W α) (w : W) : Prop :=
  ∀ c ≤ (seq.split w).1.gating, ∃ c' ≤ (seq.split w).1.gating,
    x.outcome (recalling seq c w) = ((x.outcome w).1, recalling seq c' (x.outcome w).2)

theorem of_ticket_ok {last n : Int64} {t : Ticket} {w w' : W}
    (h : ticket cap last n w = .ok t w') : last.toInt + n.toInt < 2 ^ 63 := by
  obtain ⟨high, _, hadd, -⟩ := Act.of_bind_ok h
  have hhigh := Checked.of_add_ok hadd
  have hlt := high.toInt_lt
  omega

theorem of_request_ok {n : Int64} {t : Ticket} {s s' : Sequencer cap}
    (h : request n s = .ok t s') : s.claimed.toInt + n.toInt < 2 ^ 63 := by
  obtain ⟨cursor, gating, _ | _, tally⟩ := s
  · exact of_ticket_ok h
  · exact of_ticket_ok h

section Parts
variable {seq : Part W (Sequencer cap)} {w : W}

theorem oblivious_of_ignores {x : Act W α} (h : ∀ c, Act.Ignores (recalling seq c) x) (w : W) :
    Oblivious seq x w :=
  fun c hc => ⟨c, hc, h c w⟩

/-- What is done after a claim does not look at memory. -/
theorem Oblivious.bind {β : Type} {x : Act W α} {f : α → Act W β} (hx : Oblivious seq x w)
    (hf : ∀ v c, Act.Ignores (recalling seq c) (f v)) : Oblivious seq (x >>= f) w := by
  intro c hc
  obtain ⟨c', hc', hrun⟩ := hx c hc
  refine ⟨c', hc', ?_⟩
  rw [Act.outcome_bind, Act.outcome_bind, hrun]
  rcases x.outcome w with ⟨_ | v, u⟩
  · rfl
  · exact hf v c' u

theorem Oblivious.reply {β : Type} {x : Act W α} (hx : Oblivious seq x w) (f : α → β) :
    Oblivious seq (x >>= fun v => pure (f v)) w :=
  hx.bind fun _ _ => Act.ignores_pure _

theorem oblivious_reply {β : Type} {x : Act W α} (h : ∀ c, Act.Ignores (recalling seq c) x)
    (f : α → β) (w : W) : Oblivious seq (x >>= fun v => pure (f v)) w :=
  (oblivious_of_ignores h w).reply f

variable (hseq : seq.Lawful)
include hseq

theorem split_recalling (w : W) :
    (seq.split (recalling seq c w)).1 = (seq.split w).1.withCached c :=
  Part.split_alter hseq _ w

theorem recalling_recalling (a b : Int64) (w : W) :
    recalling seq b (recalling seq a w) = recalling seq b w := by
  rw [recalling, recalling, Part.alter_alter hseq]
  congr 1
  funext s
  exact s.withCached_withCached a b

theorem recalling_cached (w : W) : recalling seq (seq.split w).1.cached w = w :=
  Part.alter_eq_self hseq (withCached_cached _)

theorem recalling_join (s : Sequencer cap) (rest : seq.Rest) :
    recalling seq c (seq.join s rest) = seq.join (s.withCached c) rest := by
  rw [recalling, Part.alter, hseq.split_join, hseq.join_join]

theorem join_recalling (s : Sequencer cap) (w : W) :
    seq.join s (seq.split (recalling seq c w)).2 = seq.join s (seq.split w).2 :=
  hseq.join_join _ _ _

/-- One ending for every value that may be remembered. -/
theorem oblivious_of_uniform (mindful : (seq.split w).1.cached ≤ (seq.split w).1.gating)
    {x : Act W α} (ending : Except Halt α) (u : W)
    (h : ∀ c ≤ (seq.split w).1.gating, ∃ c' ≤ (seq.split w).1.gating,
      x.outcome (recalling seq c w) = (ending, recalling seq c' u)) : Oblivious seq x w := by
  obtain ⟨c₀, -, hrun₀⟩ := h _ mindful
  rw [recalling_cached hseq] at hrun₀
  intro c hc
  obtain ⟨c', hc', hrun⟩ := h c hc
  refine ⟨c', hc', ?_⟩
  rw [hrun, hrun₀, recalling_recalling hseq]

theorem ignores_awaitGating (wrapPoint : Int64) :
    Act.Ignores (recalling seq c) (awaitGating seq wrapPoint []) := by
  unfold awaitGating
  apply Part.follows_read_bind hseq
  intro s
  rw [gating_withCached]
  dsimp only
  split
  · exact Act.ignores_pure _
  · refine (Part.ignores_update hseq fun s => ?_).bind fun _ => Act.ignores_throw _
    exact count_withCached c s _

/-- A claim that waits remembers what it sees, whatever was remembered before. -/
theorem oblivious_resume (t : Ticket) (w : W) : Oblivious seq (resume seq t []) w := by
  intro c hc
  by_cases reached : t.wrapPoint ≤ (seq.split w).1.gating
  · set g := (seq.split w).1.gating with hg
    have hrun : ∀ v, (seq.split v).1.gating = g →
        (resume seq t []).outcome v = (seq.lift (redeem t g)).outcome (recalling seq g v) := by
      intro v hv
      have hwait := awaitGating_eq hseq (w := v) t.wrapPoint (hv ▸ reached) []
      rw [hv] at hwait
      exact Act.outcome_eq (Act.bind_ok hwait)
    have hredeem := Part.follows_lift hseq (ignores_redeem g t g) (recalling seq g w)
    rw [← recalling, recalling_recalling hseq] at hredeem
    refine ⟨g, Int64.le_refl g, ?_⟩
    rw [hrun _ (by rw [split_recalling c hseq, gating_withCached]), hrun w rfl,
      recalling_recalling hseq]
    exact hredeem
  · have hstalled := resume_stalled hseq (w := w) reached
    have hstalled' := resume_stalled hseq (w := recalling seq c w) (t := t)
      (by rwa [split_recalling c hseq, gating_withCached])
    refine ⟨c, hc, ?_⟩
    rw [Act.outcome_error hstalled', Act.outcome_error hstalled, split_recalling c hseq,
      count_withCached]
    simp only [recalling, Part.alter, hseq.join_join, hseq.split_join]

/-- The rest of a claim that has its ticket. -/
def pass (seq : Part W (Sequencer cap)) (t : Ticket) : Act W Int64 := do
  let cached := (← seq.read).cached
  if t.wrapPoint ≤ cached then seq.lift (redeem t cached) else resume seq t []

theorem pass_reached {t : Ticket} (wrap : t.wrapPoint.toInt = t.high.toInt - cap.slots)
    (lo : -1 ≤ t.high.toInt) (reached : t.wrapPoint ≤ (seq.split w).1.gating) :
    ∃ c', (c' = (seq.split w).1.cached ∨ c' = (seq.split w).1.gating) ∧
      pass seq t w = .ok t.high
        (seq.join (((seq.split w).1.granted t.high).withCached c') (seq.split w).2) := by
  have hread : pass seq t w = _ := Part.read_bind hseq _ w
  by_cases hcached : t.wrapPoint ≤ (seq.split w).1.cached
  · refine ⟨_, Or.inl rfl, ?_⟩
    rw [hread, if_pos hcached]
    rw [Int64.le_iff_toInt_le] at hcached
    have hredeem := redeem_eq (seq.split w).1 t _ lo (wrap ▸ hcached)
    rw [Part.lift_ok hredeem, ← granted_withCached, withCached_cached]
  · refine ⟨_, Or.inr rfl, ?_⟩
    rw [hread, if_neg hcached]
    rw [Int64.le_iff_toInt_le] at reached
    rw [resume_reached hseq wrap lo (wrap ▸ reached) [], granted_withCached]

theorem pass_early {t : Ticket} (mindful : (seq.split w).1.cached ≤ (seq.split w).1.gating)
    (early : ¬ t.wrapPoint ≤ (seq.split w).1.gating) :
    pass seq t w = .error .stalled (seq.join ((seq.split w).1.count .waited) (seq.split w).2) := by
  have hread : pass seq t w = _ := Part.read_bind hseq _ w
  rw [hread, if_neg fun hcached => early (Int64.le_trans hcached mindful)]
  exact resume_stalled hseq early

theorem oblivious_pass {t : Ticket} (wrap : t.wrapPoint.toInt = t.high.toInt - cap.slots)
    (lo : -1 ≤ t.high.toInt) (mindful : (seq.split w).1.cached ≤ (seq.split w).1.gating) :
    Oblivious seq (pass seq t) w := by
  by_cases reached : t.wrapPoint ≤ (seq.split w).1.gating
  · apply oblivious_of_uniform hseq mindful (.ok t.high)
      (seq.join ((seq.split w).1.granted t.high) (seq.split w).2)
    intro c hc
    obtain ⟨c', hc', hrun⟩ := pass_reached hseq (w := recalling seq c w) wrap lo
      (by rwa [split_recalling c hseq, gating_withCached])
    rw [split_recalling c hseq, cached_withCached, gating_withCached] at hc'
    refine ⟨c', ?_, ?_⟩
    · rcases hc' with rfl | rfl
      · exact hc
      · exact Int64.le_refl _
    · rw [Act.outcome_ok hrun, split_recalling c hseq, granted_withCached, withCached_withCached,
        join_recalling c hseq, recalling_join c' hseq]
  · apply oblivious_of_uniform hseq mindful (.error .stalled)
      (seq.join ((seq.split w).1.count .waited) (seq.split w).2)
    intro c hc
    have hrun := pass_early hseq (w := recalling seq c w) (t := t)
      (by rwa [split_recalling c hseq, cached_withCached, gating_withCached])
      (by rwa [split_recalling c hseq, gating_withCached])
    refine ⟨c, hc, ?_⟩
    rw [Act.outcome_error hrun, split_recalling c hseq, count_withCached, join_recalling c hseq,
      recalling_join c hseq]

theorem oblivious_claim {n : Int64} (pos : 1 ≤ n.toInt) (mindful : (seq.split w).1.Mindful) :
    Oblivious seq (claim seq [] n) w := by
  intro c hc
  have hclaim : claim seq [] n = seq.lift (request n) >>= pass seq := rfl
  have hask : (seq.lift (request n)).outcome (recalling seq c w) =
      (((seq.lift (request n)).outcome w).1,
        recalling seq c ((seq.lift (request n)).outcome w).2) :=
    Part.follows_lift hseq (ignores_request c n) w
  simp only [hclaim, Act.outcome_bind, hask]
  cases hrun : request n (seq.split w).1 with
  | error e s =>
    rw [Act.outcome_error (Part.lift_error hrun)]
    exact ⟨c, hc, rfl⟩
  | ok t s =>
    have hstart := mindful.start
    have hword := of_request_ok hrun
    obtain ⟨rfl, rfl⟩ := EStateM.Result.ok.inj ((request_eq hstart pos hword).symm.trans hrun)
    rw [Act.outcome_ok (Part.lift_ok hrun)]
    have hhigh := toInt_high cap (seq.split w).1.claimed n hstart pos hword
    have hwrap := toInt_wrapPoint cap (seq.split w).1.claimed n hstart pos hword
    have hpass := oblivious_pass hseq
      (w := seq.join ((seq.split w).1.asked n) (seq.split w).2)
      (t := ticketAfter cap (seq.split w).1.claimed n) (by omega) (by omega)
      (by rw [hseq.split_join, cached_asked, gating_asked]; exact mindful.cached_le)
    have hgating : (seq.split (seq.join ((seq.split w).1.asked n) (seq.split w).2)).1.gating =
        (seq.split w).1.gating := by
      rw [hseq.split_join, gating_asked]
    exact hgating ▸ hpass c (hgating ▸ hc)

theorem oblivious_next (n : UInt64) (mindful : (seq.split w).1.Mindful) :
    Oblivious seq (next seq [] n) w := by
  unfold next
  split
  · exact oblivious_of_ignores (fun c => Act.ignores_pure _) w
  · rename_i size hsize
    obtain ⟨hpos, -⟩ := Capacity.toInt_of_checkClaim hsize
    exact (oblivious_claim hseq hpos mindful).reply _

end Parts

/-- An attempt ends as gating decides, unless its ticket is no word. -/
theorem tryClaim_cases (n : Int64) (s : Sequencer cap) :
    (∃ e, ∀ c, (tryClaim n).outcome (s.withCached c) = (.error e, s.withCached c)) ∨
    (∀ c ≤ s.gating, (tryClaim n).outcome (s.withCached c) = (.ok none, s.withCached s.gating)) ∨
    ∃ high, ∀ c ≤ s.gating, ∃ c' ≤ s.gating,
      (tryClaim n).outcome (s.withCached c) =
        (.ok (some high), (s.withClaimed high).withCached c') := by
  have hticket : ∀ v, (ticket cap s.claimed n).outcome v =
      (((ticket cap s.claimed n).outcome s).1, v) :=
    fun v => ignores_ticket (fun _ => v) s.claimed n s
  have htry : ∀ c, (tryClaim n).outcome (s.withCached c) =
      match ((ticket cap s.claimed n).outcome s).1 with
      | .error e => (.error e, s.withCached c)
      | .ok t =>
        if t.wrapPoint ≤ c then (.ok (some t.high), (s.withClaimed t.high).withCached c)
        else if t.wrapPoint ≤ s.gating then
          (.ok (some t.high), (s.withClaimed t.high).withCached s.gating)
        else (.ok none, s.withCached s.gating) := by
    intro c
    rw [tryClaim, Act.outcome_eq (Act.get_bind _ _), Act.outcome_bind, claimed_withCached, hticket]
    cases ((ticket cap s.claimed n).outcome s).1 with
    | error e => rfl
    | ok t =>
      simp only [cached_withCached, gating_withCached, withCached_withCached]
      split
      · rw [withClaimed_withCached]
        rfl
      · split
        · rw [withClaimed_withCached]
          rfl
        · rfl
  cases hending : ((ticket cap s.claimed n).outcome s).1 with
  | error e =>
    refine Or.inl ⟨e, fun c => ?_⟩
    rw [htry, hending]
  | ok t =>
    simp only [hending] at htry
    by_cases reached : t.wrapPoint ≤ s.gating
    · refine Or.inr (Or.inr ⟨t.high, fun c hc => ?_⟩)
      by_cases hcached : t.wrapPoint ≤ c
      · exact ⟨c, hc, by rw [htry, if_pos hcached]⟩
      · exact ⟨s.gating, Int64.le_refl _, by rw [htry, if_neg hcached, if_pos reached]⟩
    · refine Or.inr (Or.inl fun c hc => ?_)
      rw [htry, if_neg fun hcached => reached (Int64.le_trans hcached hc), if_neg reached]

/-- An attempt that finds no room only remembers gating. -/
theorem tryClaim_none {n : Int64} {s s' : Sequencer cap} (mindful : s.cached ≤ s.gating)
    (h : tryClaim n s = .ok none s') : s' = s.withCached s.gating := by
  have hrun := Act.outcome_ok h
  rw [← withCached_cached s] at hrun
  obtain ⟨e, hend⟩ | hend | ⟨high, hend⟩ := tryClaim_cases n s
  · rw [hend] at hrun
    simp at hrun
  · rw [hend _ mindful] at hrun
    exact (congrArg Prod.snd hrun).symm
  · obtain ⟨c', -, hend⟩ := hend _ mindful
    rw [hend] at hrun
    simp at hrun

/-- Either its size is refused, and nothing is done, or there is no room. -/
theorem tryNext_refused {n : UInt64} {answer : Except Refusal (Option Int64)}
    {s s' : Sequencer cap} (mindful : s.cached ≤ s.gating) (h : tryNext n s = .ok answer s')
    (refused : ∀ high, answer ≠ .ok (some high)) : ∃ c ≤ s.gating, s' = s.withCached c := by
  cases hcheck : cap.checkClaim n with
  | error _ =>
    simp only [tryNext, hcheck] at h
    obtain ⟨-, rfl⟩ := EStateM.Result.ok.inj h
    exact ⟨s.cached, mindful, (withCached_cached s).symm⟩
  | ok size =>
    simp only [tryNext, hcheck] at h
    obtain ⟨claimed, t, hclaim, hpure⟩ := Act.of_bind_ok h
    obtain ⟨rfl, rfl⟩ := EStateM.Result.ok.inj hpure
    cases claimed with
    | some high => exact absurd rfl (refused high)
    | none => exact ⟨s.gating, Int64.le_refl _, tryClaim_none mindful hclaim⟩

section Parts
variable {seq : Part W (Sequencer cap)} {w : W} (hseq : seq.Lawful)
  (mindful : (seq.split w).1.cached ≤ (seq.split w).1.gating)
include hseq mindful

theorem oblivious_tryClaim (n : Int64) : Oblivious seq (seq.lift (tryClaim n)) w := by
  have hlift : ∀ c, (seq.lift (tryClaim n)).outcome (recalling seq c w) =
      (((tryClaim n).outcome ((seq.split w).1.withCached c)).1,
        seq.join ((tryClaim n).outcome ((seq.split w).1.withCached c)).2 (seq.split w).2) := by
    intro c
    rw [Part.outcome_lift, split_recalling c hseq, join_recalling c hseq]
  obtain ⟨e, hrun⟩ | hrun | ⟨high, hrun⟩ := tryClaim_cases n (seq.split w).1
  · apply oblivious_of_uniform hseq mindful (.error e) w
    intro c hc
    exact ⟨c, hc, by rw [hlift, hrun]; rfl⟩
  · apply oblivious_of_uniform hseq mindful (.ok none) w
    intro c hc
    exact ⟨_, Int64.le_refl _, by rw [hlift, hrun c hc]; rfl⟩
  · apply oblivious_of_uniform hseq mindful (.ok (some high))
      (seq.join ((seq.split w).1.withClaimed high) (seq.split w).2)
    intro c hc
    obtain ⟨c', hc', hend⟩ := hrun c hc
    exact ⟨c', hc', by rw [hlift, hend, recalling_join c' hseq]⟩

theorem oblivious_tryNext (n : UInt64) : Oblivious seq (seq.lift (tryNext n)) w := by
  unfold tryNext
  split
  · exact oblivious_of_ignores (fun c => Part.follows_lift hseq (Act.ignores_pure _)) w
  · rename_i size _
    rw [Part.lift_bind hseq]
    refine (oblivious_tryClaim hseq mindful size).bind fun _ c => ?_
    exact Part.follows_lift hseq (Act.ignores_pure _)

end Parts

end Sequencer

end LapRing
