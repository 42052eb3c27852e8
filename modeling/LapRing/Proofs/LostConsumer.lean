import LapRing.Proofs.HandleAccounting

/-!
# Workers left without a consumer

A worker whose thread gave up asks for a consumer when it is shut down, and only then.
If somebody else has the consumer of a ring for one at that moment, the worker is left
without: it answers that the consumer is taken whenever it is started, long after the
other has dropped it, and does so until it is dropped itself.
-/
namespace LapRing

/-- A worker without a thread and without a consumer, whose name may be that of a thread. -/
structure Worker.LacksConsumer (w : Worker) : Prop where
  free : w.thread = none
  bare : w.holdsConsumer = false
  named : nameFault w.name = none

namespace HandleHolders
variable {cap : Capacity} {ε V P Q ι : Type} {place : Part V (Ring cap ε)} {settings : Settings}
  {s s' : HandleHolders V P Q ι} {i j : ι}

def LacksConsumer (i : ι) (s : HandleHolders V P Q ι) : Prop :=
  ∃ w, s.worker? i = some w ∧ w.LacksConsumer

theorem LacksConsumer.of_worker? (hb : s.LacksConsumer i) (same : s'.worker? i = s.worker? i) :
    s'.LacksConsumer i := by
  obtain ⟨w, hw, lacking⟩ := hb
  exact ⟨w, same.trans hw, lacking⟩

theorem LacksConsumer.iff_worker? (same : s'.worker? i = s.worker? i) :
    s'.LacksConsumer i ↔ s.LacksConsumer i :=
  ⟨fun hb => hb.of_worker? same.symm, fun hb => hb.of_worker? same⟩

theorem LacksConsumer.hired (hb : s.LacksConsumer i) : s.hired i = true :=
  (worker?_eq_some.mp hb.choose_spec.1).1

theorem hired_setHired [DecidableEq ι] (b : Bool) : (s.setHired i b).hired i = b :=
  Function.update_self _ _ _

theorem lacksConsumer_setWorker [DecidableEq ι] (hi : s.hired i = true) (w : Worker) :
    (s.setWorker i w).LacksConsumer i ↔ w.LacksConsumer := by
  unfold LacksConsumer
  rw [worker?_setWorker hi]
  simp

variable [DecidableEq P] [DecidableEq Q] [DecidableEq ι]
  {handler : Handler ε (HandleHolders V P Q ι)}

/-! ## Visits and threads -/

/-- No visit leaves a worker without a consumer. -/
theorem Treats.fit {w w' : Option Worker} (h : Treats w w')
    (fit : ∀ x, w = some x → ¬ x.LacksConsumer) :
    ∀ x, w' = some x → ¬ x.LacksConsumer := by
  rintro x hx ⟨hfree, hbare, hnamed⟩
  cases h with
  | leave _ => exact fit x hx ⟨hfree, hbare, hnamed⟩
  | hire name batchSize =>
    obtain rfl := Option.some.inj hx
    simp at hbare
  | tell w =>
    obtain rfl := Option.some.inj hx
    exact fit w rfl ⟨hfree, hbare, hnamed⟩
  | start _ _ =>
    obtain rfl := Option.some.inj hx
    simp at hfree
  | misname _ hname =>
    obtain rfl := Option.some.inj hx
    exact hname hnamed

/-- And none helps it. -/
theorem Treats.lacking {w w' : Option Worker} (h : Treats w w') {x : Worker} (hx : w = some x)
    (hb : x.LacksConsumer) : ∃ x', w' = some x' ∧ x'.LacksConsumer := by
  subst hx
  cases h with
  | leave _ => exact ⟨x, rfl, hb⟩
  | tell _ => exact ⟨_, rfl, hb.free, hb.bare, hb.named⟩
  | start _ hholds => exact absurd (hb.bare.symm.trans hholds) nofun
  | misname _ hname => exact absurd hb.named hname

/-- A thread leaves no worker without a consumer as long as it goes on. -/
theorem steady_fit (lawful : place.Lawful) :
    Steady place settings j fun s : HandleHolders V P Q ι => ¬ s.LacksConsumer i := by
  refine ⟨fun h hvisit fit => ?_, fun {s} phase hj fit => ?_, fun r fit => fit⟩
  · rintro ⟨w, hw, hb⟩
    exact (h.treats lawful hvisit i).fit (fun x hx hb => fit ⟨x, hx, hb⟩) w hw hb
  · by_cases hi : i = j
    · subst hi
      exact fun hb => absurd ((lacksConsumer_setWorker hj _).mp hb).free nofun
    · rwa [LacksConsumer.iff_worker? (worker?_setWorker_of_ne hi _)]

namespace Sound
variable (h : s.Sound place settings) (lawful : place.Lawful)
include h lawful

/-- A worker is left without a consumer when it is shut down after its thread gave up while
somebody else has the consumer of a ring for one. -/
theorem lost (fit : ¬ s.LacksConsumer i) (hb : s'.LacksConsumer i) (hstep : Step place s s') :
    settings.consumer = .single ∧ (∃ a, s'.Holds a) ∧ s.hired i = true ∧
      ∃ (handler : Handler ε (HandleHolders V P Q ι)) (why : Halt), Courteous place handler ∧
        Worker.shutdown (site place i) handler s = .ok (.error why) s' := by
  have hsound := h.step lawful hstep
  cases hstep with
  | visit hvisit => exact absurd hb ((steady_fit lawful (j := i)).visit h hvisit fit)
  | @turn j handler hj courteous =>
    exact absurd hb (leads_turn lawful (steady_fit lawful) courteous s ⟨h, hj, fit⟩).keeps
  | @fire j handler hj courteous =>
    have hmay : s.MayHaveThread place settings j fun s => ¬ s.LacksConsumer i := ⟨h, hj, fit⟩
    by_cases hi : i = j
    · subst hi
      exact absurd ((hired_setHired false).symm.trans hb.hired) nofun
    · obtain ⟨s₁, h₁, ⟨-, hrun⟩ | ⟨-, hrun⟩⟩ :=
        hmay.drop_cases lawful (steady_fit lawful) courteous
      all_goals
        rw [Act.outcome_ok hrun, LacksConsumer.iff_worker? (worker?_setHired_of_ne hi _),
          LacksConsumer.iff_worker? (worker?_setWorker_of_ne hi _)] at hb
        exact absurd hb h₁.keeps
  | @shutdown j handler hj courteous =>
    have hmay : s.MayHaveThread place settings j fun s => ¬ s.LacksConsumer i := ⟨h, hj, fit⟩
    obtain ⟨s₁, h₁, hcases⟩ := hmay.shutdown_cases lawful (steady_fit lawful) courteous
    by_cases hi : i = j
    · subst hi
      obtain ⟨-, hrun⟩ | ⟨-, hrun⟩ | ⟨why, -, ⟨-, hrun⟩ | ⟨hrefused, hrun⟩⟩ := hcases
      · rw [Act.outcome_ok hrun] at hb
        exact absurd hb h₁.keeps
      · rw [Act.outcome_ok hrun] at hb
        exact absurd ((lacksConsumer_setWorker h₁.hired _).mp hb).bare nofun
      · rw [Act.outcome_ok hrun] at hb
        have hlacks := (lacksConsumer_setWorker (s := s₁.setRing place _) h₁.hired _).mp hb
        exact absurd hlacks.bare nofun
      · rw [Act.outcome_ok hrun] at hsound ⊢
        have hadmits := hsound.tracks.admits_iff
        rw [hsound.consumerKind] at hadmits
        have hnone := (not_congr hadmits).mp (Bool.eq_false_iff.mp hrefused)
        rw [not_or, not_forall_not] at hnone
        refine ⟨?_, hnone.2, hj, handler, why, courteous, hrun⟩
        cases hkind : settings.consumer with
        | single => rfl
        | multi => exact absurd hkind hnone.1
    · obtain ⟨-, hrun⟩ | ⟨-, hrun⟩ | ⟨why, -, ⟨-, hrun⟩ | ⟨-, hrun⟩⟩ := hcases
      · rw [Act.outcome_ok hrun] at hb
        exact absurd hb h₁.keeps
      all_goals
        rw [Act.outcome_ok hrun, LacksConsumer.iff_worker? (worker?_setWorker_of_ne hi _)] at hb
        exact absurd hb h₁.keeps

end Sound

/-! ## Histories -/

section Histories
variable {container : V} {slots : Slots cap ε} (lawful : place.Lawful)
  (fresh : (place.split container).1 = .new settings slots)
include lawful fresh

/-- A worker that lacks a consumer was left so by a shutdown. -/
theorem Reachable.lost (h : Reachable place container s) (hb : s.LacksConsumer i) :
    settings.consumer = .single ∧
      ∃ (s₁ s₂ : HandleHolders V P Q ι) (handler : Handler ε (HandleHolders V P Q ι)) (why : Halt),
        Reachable place container s₁ ∧ s₁.hired i = true ∧ Courteous place handler ∧
        Worker.shutdown (site place i) handler s₁ = .ok (.error why) s₂ ∧ (∃ a, s₂.Holds a) ∧
        s₂.LacksConsumer i ∧ Relation.ReflTransGen (Step place) s₂ s := by
  induction h with
  | refl => exact absurd hb.hired nofun
  | @tail b c hrun hstep ih =>
    by_cases hbefore : b.LacksConsumer i
    · obtain ⟨hkind, s₁, s₂, handler, why, h₁, hi, courteous, hshutdown, hholder, hb₂, hpath⟩ :=
        ih hbefore
      exact ⟨hkind, s₁, s₂, handler, why, h₁, hi, courteous, hshutdown, hholder, hb₂,
        hpath.tail hstep⟩
    · obtain ⟨hkind, hholder, hi, handler, why, courteous, hshutdown⟩ :=
        (Reachable.sound hrun lawful fresh).lost lawful hbefore hb hstep
      exact ⟨hkind, b, c, handler, why, hrun, hi, courteous, hshutdown, hholder, hb, .refl⟩

end Histories

end HandleHolders

end LapRing
