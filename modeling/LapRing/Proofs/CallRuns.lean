import LapRing.Proofs.RingParties

/-!
# Calls as runs

A call that nobody interrupts is a run of the accesses it is made of. So what
holds of all interleavings of accesses holds of the calls, and the accesses
leave out nothing that a call does.
-/
namespace LapRing

namespace Producers
variable {cap : Capacity} {P : Type} [DecidableEq P] {c : Producers cap P} {p : P}

theorem stages_goTo (c : Producers cap P) (p : P) (stage : Stage) :
    (c.goTo p stage).stages p = stage :=
  Function.update_self _ _ _

/-- The producers, once `p` has made a claim up to `high`. -/
def owning (p : P) (high : Int64) (s : Sequencer cap) (c : Producers cap P) : Producers cap P :=
  { c with
    sequencer := s
    holder := assign (.owned p) c.sequencer.claimed.toInt high.toInt c.holder }

omit [DecidableEq P] in
/-- A later owner of more takes the place of an earlier one. -/
theorem assign_assign {h h' : Holder P} {lo hi hi' : ℤ} (le : hi' ≤ hi) (holder : ℤ → Holder P) :
    assign h lo hi (assign h' lo hi' holder) = assign h lo hi holder := by
  funext t
  by_cases ht : lo < t ∧ t ≤ hi
  · rw [assign_of_mem _ ht.1 ht.2, assign_of_mem _ ht.1 ht.2]
  · rw [assign_of_not_mem _ ht, assign_of_not_mem _ ht, assign_of_not_mem _ (by omega)]

/-- The producers, once the claim `b` of `p` was cleared by `g`. -/
def clearing (p : P) (b : OpenClaim) (g : Int64) (c : Producers cap P) : Producers cap P :=
  { c with sequencer := if b.ticket.wrapPoint ≤ c.sequencer.cached then c.sequencer
      else c.sequencer.withCached c.sequencer.gating }.goTo p (.cleared b g)

theorem claimed_clearing (p : P) (b : OpenClaim) (g : Int64) (c : Producers cap P) :
    (c.clearing p b g).sequencer.claimed = c.sequencer.claimed := by
  simp only [clearing, goTo, apply_ite Sequencer.claimed, Sequencer.claimed_withCached, ite_self]

omit [DecidableEq P] in
theorem owned_owning (free : ∀ t, c.holder t ≠ .owned p) {high : Int64} {s : Sequencer cap}
    (t : ℤ) : (c.owning p high s).holder t = .owned p ↔
      c.sequencer.claimed.toInt + 1 ≤ t ∧ t ≤ high.toInt := by
  change assign (.owned p) c.sequencer.claimed.toInt high.toInt c.holder t = _ ↔ _
  by_cases ht : c.sequencer.claimed.toInt < t ∧ t ≤ high.toInt
  · rw [assign_of_mem _ ht.1 ht.2]
    exact ⟨fun _ => by omega, fun _ => rfl⟩
  · rw [assign_of_not_mem _ ht]
    exact ⟨fun he => absurd he (free t), fun _ => by omega⟩

/-- A claim whose wrap point is released passes its wait, from memory or not. -/
theorem clear_run {b : OpenClaim} (hp : c.stages p = .asking b)
    (reached : b.ticket.wrapPoint ≤ c.sequencer.gating) :
    ∃ g, (g = c.sequencer.cached ∨ g = c.sequencer.gating) ∧ b.ticket.wrapPoint ≤ g ∧
      Relation.ReflTransGen (Claim p) c (c.clearing p b g) := by
  by_cases hcached : b.ticket.wrapPoint ≤ c.sequencer.cached
  · refine ⟨c.sequencer.cached, Or.inl rfl, hcached, ?_⟩
    rw [clearing, if_pos hcached]
    exact .single (.trust hp hcached)
  · refine ⟨c.sequencer.gating, Or.inr rfl, reached, ?_⟩
    rw [clearing, if_neg hcached]
    have hdoubt : Claim p c (c.goTo p (.waiting b)) := .doubt hp hcached
    have hobserve : Claim p (c.goTo p (.waiting b))
        ((c.goTo p (.waiting b)).goTo p (.seen b c.sequencer.gating)) :=
      .observe (stages_goTo c p _) fun _ => reached
    have hremember := Claim.remember
      (c := (c.goTo p (.waiting b)).goTo p (.seen b c.sequencer.gating))
      (stages_goTo _ p _) reached
    have hrun := ((Relation.ReflTransGen.single hdoubt).tail hobserve).tail hremember
    simpa only [goTo, Function.update_idem] using hrun

/-- An attempt that succeeds is a run that takes the sequences. -/
theorem attempt_run (h : c.Sound) (hp : c.Ready p) {requested : UInt64} {n : Int64}
    (hn : cap.checkClaim requested = .ok n) (lasts : Lasts cap (c.sequencer.claimed + n))
    (fits : c.sequencer.claimed.toInt + n.toInt ≤ c.sequencer.gating.toInt + cap.slots) :
    Sequencer.tryClaim n c.sequencer =
        .ok (some (c.sequencer.claimed + n)) (c.sequencer.admitted n) ∧
      Relation.ReflTransGen (Claim p) c
        (c.owning p (c.sequencer.claimed + n) (c.sequencer.admitted n)) := by
  obtain ⟨hsize, hle⟩ := Capacity.toInt_of_checkClaim hn
  have hstart := h.start_le
  have hroom := h.room
  have hwrap := Sequencer.toInt_wrapPoint cap c.sequencer.claimed n hstart hsize (by omega)
  have hreached : (Sequencer.ticketAfter cap c.sequencer.claimed n).wrapPoint ≤
      c.sequencer.gating := by
    rw [Int64.le_iff_toInt_le]
    omega
  constructor
  · rw [Sequencer.tryClaim_eq hstart hsize (by omega), Sequencer.attempted_of_fits (by omega)]
  · set b : OpenClaim :=
      ⟨false, c.sequencer.claimed, n, Sequencer.ticketAfter cap c.sequencer.claimed n⟩
    have hlook : Claim p c (c.goTo p (.asking b)) := .look hp hn (by
      rw [Sequencer.ticket_eq hstart hsize (by omega)]
      rfl)
    obtain ⟨g, -, -, hclear⟩ := clear_run (stages_goTo c p (.asking b)) hreached
    have hgrab := Claim.grab (c := (c.goTo p (.asking b)).clearing p b g) (stages_goTo _ p _)
      rfl (claimed_clearing p b g _) lasts
    have hrun := (hclear.head hlook).tail hgrab
    have hstages : Function.update c.stages p .idle = c.stages := by
      rw [← hp.1, Function.update_eq_self]
    simp only [clearing, goTo, Function.update_idem, hstages] at hrun
    exact hrun

/-- An attempt that fails only remembers gating. -/
theorem attempt_full_run (h : c.Sound) (hp : c.Ready p) {requested : UInt64} {n : Int64}
    (hn : cap.checkClaim requested = .ok n)
    (full : c.sequencer.gating.toInt + cap.slots < c.sequencer.claimed.toInt + n.toInt) :
    Sequencer.tryClaim n c.sequencer =
        .ok none (c.sequencer.withCached c.sequencer.gating) ∧
      Relation.ReflTransGen (Claim p) c
        { c with sequencer := c.sequencer.withCached c.sequencer.gating } := by
  obtain ⟨hsize, hle⟩ := Capacity.toInt_of_checkClaim hn
  have hstart := h.start_le
  have hroom := h.room
  have hcached := h.standing.cached_le
  have hwrap := Sequencer.toInt_wrapPoint cap c.sequencer.claimed n hstart hsize (by omega)
  constructor
  · rw [Sequencer.tryClaim_eq hstart hsize (by omega),
      Sequencer.attempted_of_full hcached (by omega)]
  · set b : OpenClaim :=
      ⟨false, c.sequencer.claimed, n, Sequencer.ticketAfter cap c.sequencer.claimed n⟩
    have hlook : Claim p c (c.goTo p (.asking b)) := .look hp hn (by
      rw [Sequencer.ticket_eq hstart hsize (by omega)]
      rfl)
    have hdoubt := Claim.doubt (stages_goTo c p (.asking b)) (by
      rw [Int64.le_iff_toInt_le]
      change ¬ (Sequencer.ticketAfter cap c.sequencer.claimed n).wrapPoint.toInt ≤
        c.sequencer.cached.toInt
      omega)
    have hobserve := Claim.observe (stages_goTo (c.goTo p (.asking b)) p (.waiting b)) nofun
    have hrefuse := Claim.refuse (stages_goTo ((c.goTo p (.asking b)).goTo p (.waiting b)) p
      (.seen b c.sequencer.gating)) (by
      rw [Int64.le_iff_toInt_le]
      change ¬ (Sequencer.ticketAfter cap c.sequencer.claimed n).wrapPoint.toInt ≤
        c.sequencer.gating.toInt
      omega)
    have hrun := (((Relation.ReflTransGen.single hlook).tail hdoubt).tail hobserve).tail hrefuse
    have hstages : Function.update c.stages p .idle = c.stages := by
      rw [← hp.1, Function.update_eq_self]
    simpa only [goTo, Function.update_idem, hstages] using hrun

/-- A claim that need not wait is a run, which takes the sequences. -/
theorem claim_run (h : c.Sound) (hp : c.Ready p) {requested : UInt64} {n : Int64}
    (hn : cap.checkClaim requested = .ok n) (lasts : Lasts cap (c.sequencer.claimed + n))
    (fits : c.sequencer.claimed.toInt + n.toInt ≤ c.sequencer.gating.toInt + cap.slots)
    {W : Type} {seq : Part W (Sequencer cap)} (hseq : seq.Lawful) {w : W}
    (hw : (seq.split w).1 = c.sequencer) (pauses : List (Pause W)) :
    Sequencer.claim seq pauses n w =
        .ok (c.sequencer.claimed + n) (seq.join (c.sequencer.admitted n) (seq.split w).2) ∧
      Relation.ReflTransGen (Claim p) c
        (c.owning p (c.sequencer.claimed + n) (c.sequencer.admitted n)) := by
  obtain ⟨hsize, hle⟩ := Capacity.toInt_of_checkClaim hn
  have hstart := h.start_le
  have hroom := h.room
  have hhigh : (c.sequencer.claimed + n).toInt = c.sequencer.claimed.toInt + n.toInt :=
    Sequencer.toInt_high cap c.sequencer.claimed n hstart hsize (by omega)
  have hwrap := Sequencer.toInt_wrapPoint cap c.sequencer.claimed n hstart hsize (by omega)
  have hend : c.sequencer.claimed.toInt + n.toInt + cap.slots < 2 ^ 63 := hhigh ▸ lasts
  constructor
  · rw [← hw] at fits hend ⊢
    exact Sequencer.claim_eq hseq (hw ▸ hstart) hsize (by omega) fits pauses
  · set b : OpenClaim :=
      ⟨true, c.sequencer.claimed, n, Sequencer.ticketAfter cap c.sequencer.claimed n⟩
    have hdraw := Claim.draw hp hn (Sequencer.request_eq hstart hsize (by omega)) lasts
    set drawn := Producers.goTo { c with
      sequencer := c.sequencer.asked n
      holder := assign (.pending p) c.sequencer.claimed.toInt (c.sequencer.asked n).claimed.toInt
        c.holder } p (.asking b) with hdrawn
    have hcached : drawn.sequencer.cached = c.sequencer.cached := Sequencer.cached_asked n _
    have hgating : drawn.sequencer.gating = c.sequencer.gating := Sequencer.gating_asked n _
    obtain ⟨g, -, hreached, hclear⟩ := clear_run (c := drawn) (stages_goTo _ p (.asking b)) (by
      rw [Int64.le_iff_toInt_le, hgating]
      change (Sequencer.ticketAfter cap c.sequencer.claimed n).wrapPoint.toInt ≤ _
      omega)
    rw [Int64.le_iff_toInt_le] at hreached
    change (Sequencer.ticketAfter cap c.sequencer.claimed n).wrapPoint.toInt ≤ g.toInt at hreached
    have hredeem := Claim.redeem (c := drawn.clearing p b g) (stages_goTo _ p _) rfl
      (Sequencer.redeem_eq _ b.ticket g (show -1 ≤ (c.sequencer.claimed + n).toInt by omega)
        (show (c.sequencer.claimed + n).toInt - cap.slots ≤ g.toInt by omega))
    have hrun := (hclear.head hdraw).tail hredeem
    have hstages : Function.update c.stages p .idle = c.stages := by
      rw [← hp.1, Function.update_eq_self]
    have hsequencer : (drawn.clearing p b g).sequencer.granted b.ticket.high =
        c.sequencer.admitted n := Sequencer.granted_cleared n c.sequencer
    have hholder : assign (.owned p) b.last.toInt b.ticket.high.toInt
      (drawn.clearing p b g).holder =
        assign (.owned p) c.sequencer.claimed.toInt (c.sequencer.claimed + n).toInt c.holder :=
      assign_assign (Sequencer.claimed_asked_le (by omega)) c.holder
    rw [hsequencer, hholder] at hrun
    simp only [hdrawn, clearing, goTo, Function.update_idem, hstages] at hrun
    exact hrun

end Producers

namespace RingParties
variable {cap : Capacity} {P Q : Type} [DecidableEq Q] {c : RingParties cap P Q} {q : Q}

/-- Opening a window is a run that scans for it and settles on it. -/
theorem openWindow_run (h : c.Sound) (hq : c.Ready q) {batch : UInt64} (hb : batch ≠ 0)
    {W : Type} {seq : Part W (Sequencer cap)} {poller : Part W Poller} (hseq : seq.Lawful)
    (hpoller : poller.Lawful) {w : W} (hs : (seq.split w).1 = c.sequencer)
    (hp : (poller.split w).1 = c.poller) :
    (Poller.openWindow seq poller batch w =
        .ok none (seq.join (c.sequencer.count .idle) (seq.split w).2) ∧
      Search q c { c with sequencer := c.sequencer.count .idle }) ∨
    ∃ win, win.first.toInt = c.position.toInt + 1 ∧ Poller.openWindow seq poller batch w =
        .ok (some win) (poller.join (c.poller.claim win) (poller.split w).2) ∧
      Relation.ReflTransGen (Search q) c
        ({ c with poller := c.poller.claim win }.visit q (.draining win)) := by
  have hlo := h.gating_le
  have hstart := h.start_le
  have hposition := h.position_le
  have hroom := h.producers.standing.room
  obtain ⟨hone, hlap⟩ := cap.toInt_batch_bounds hb
  obtain ⟨last, hgreatest, hopen⟩ := Poller.openWindow_eq hseq hpoller (w := w)
    (hs ▸ h.producers.standing)
    (show (poller.split w).1.position (seq.split w).1 = c.position by rw [hs, hp]; rfl)
    (hs ▸ hlo) h.read hb
  obtain ⟨last', hgreatest', hwindow⟩ := Poller.window_eq (W := Sequencer cap)
    h.producers.standing c.position (min batch cap.word).toInt64 hlo h.read hone hlap
  rw [cap.toInt_batch] at hgreatest'
  obtain rfl : last = last' := Int64.toInt_inj.mp (hgreatest.unique hgreatest')
  have hscan : (Poller.window c.sequencer c.position (min batch cap.word).toInt64 :
      Act (Sequencer cap) (Option Window)) c.sequencer =
      .ok (Poller.windowTo c.position last) c.sequencer := by
    rw [hwindow]
    rfl
  rw [hs, hp] at hopen
  by_cases hnone : last = c.position
  · rw [Poller.windowTo, if_pos hnone] at hopen hscan
    exact Or.inl ⟨hopen, .scanIdle hq hb hscan⟩
  · rw [Poller.windowTo, if_neg hnone] at hopen hscan
    have hfirst : (c.position + 1).toInt = c.position.toInt + 1 := Checked.toInt_succ (by omega)
    refine Or.inr ⟨⟨c.position + 1, last⟩, hfirst, hopen, ?_⟩
    have hscanned : (c.visit q (.scanned ⟨c.position + 1, last⟩)).visits q =
        .scanned ⟨c.position + 1, last⟩ := Function.update_self _ _ _
    have hsettle := Search.settle hscanned (by
      apply Int64.toInt_inj.mp
      change c.position.toInt = (c.position + 1 - 1).toInt
      rw [Checked.toInt_pred (by omega), hfirst]
      omega)
    have hrun := (Relation.ReflTransGen.single (Search.scan hq hb hscan)).tail hsettle
    simpa only [visit, Function.update_idem] using hrun

end RingParties

end LapRing
