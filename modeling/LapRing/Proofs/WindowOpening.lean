import LapRing.Proofs.Publication
import Mathlib.Order.Bounds.Basic

/-!
# Windows on the published prefix

The window of a poll ends with the greatest sequence up to which all after the
position are published, within its limit. A poll opens that window or finds
nothing, hands it out, and releases it from the world that its callback left.
-/
namespace LapRing

/-- The ends of the runs of published sequences after `position`, up to `limit`. -/
def publishedRuns (published : Set ℤ) (position limit : ℤ) : Set ℤ :=
  {h | position ≤ h ∧ h ≤ limit ∧ ∀ t, position < t → t ≤ h → t ∈ published}

/-- A run that the next sequence would not continue is the greatest. -/
theorem isGreatest_publishedRuns {published : Set ℤ} {position limit h : ℤ} (lo : position ≤ h)
    (hi : h ≤ limit) (all : ∀ t, position < t → t ≤ h → t ∈ published)
    (stop : h < limit → h + 1 ∉ published) :
    IsGreatest (publishedRuns published position limit) h := by
  refine ⟨⟨lo, hi, all⟩, ?_⟩
  rintro k ⟨_, hk, hall⟩
  by_contra hlt
  exact stop (by omega) (hall (h + 1) (by omega) (by omega))

namespace Sequencer
variable {cap : Capacity} {W : Type} {s : Sequencer cap} {published : Set ℤ}

theorem toInt_min (a b : Int64) : (min a b).toInt = min a.toInt b.toInt := by
  change (if a ≤ b then a else b).toInt = _
  by_cases h : a ≤ b
  · rw [if_pos h, min_eq_left (Int64.le_iff_toInt_le.mp h)]
  · rw [if_neg h, min_eq_right]
    rw [Int64.le_iff_toInt_le] at h
    omega

/-- The cursor is never behind a published sequence. -/
theorem Standing.le_cursor (h : s.Standing published) {t : ℤ} (ht : t ∈ published) :
    t ≤ s.cursor.toInt := by
  have hr := h.records
  have hc := h.claimed t ht
  obtain ⟨_, _, _ | _, _⟩ := s
  · exact (hr t).mp ht
  · exact hc

/-- A sole producer's cursor is the last published sequence. -/
theorem Standing.mem_iff_of_single (h : s.Standing published)
    (hsole : s.producer = .single) {t : ℤ} :
    t ∈ published ↔ t ≤ s.cursor.toInt := by
  have hr := h.records
  obtain ⟨_, _, _ | _, _⟩ := s
  · exact hr t
  · simp [producer] at hsole

theorem Standing.cursor_le (h : s.Standing published) : s.cursor.toInt ≤ s.claimed.toInt := by
  have hr := h.records
  have hc := h.claimed
  obtain ⟨_, _, _ | _, _⟩ := s
  · exact hc _ ((hr _).mpr (le_refl _))
  · exact le_refl _

/-- Among the sequences up to the cursor, the last one that may be read is the
last of the published run. -/
theorem highestPublished_eq (h : s.Standing published) (first available : Int64)
    (lo : s.gating.toInt < first.toInt) (before : ∀ t < first.toInt, t ∈ published)
    (le : first.toInt ≤ available.toInt) (reached : available.toInt ≤ s.cursor.toInt)
    (lap : available.toInt < first.toInt + cap.slots) :
    ∃ highest : Int64, (s.highestPublished first available : Act W Int64) = pure highest ∧
      first.toInt - 1 ≤ highest.toInt ∧ highest.toInt ≤ available.toInt ∧
      (∀ t, first.toInt ≤ t → t ≤ highest.toInt → t ∈ published) ∧
      (highest.toInt < available.toInt → highest.toInt + 1 ∉ published) := by
  have hstart := h.start_le
  have hroom := h.room
  have hcursor := h.cursor_le
  cases hs : s.claims with
  | single claimed cached =>
    have hr := h.records
    simp only [Records, hs] at hr
    refine ⟨available, by simp only [highestPublished, hs], by omega, by omega, ?_, by omega⟩
    intro t _ ht
    exact (hr t).mpr (by omega)
  | shared cached flags =>
    obtain ⟨highest, hrun, hlow, hhigh, hall, hstop⟩ :=
      flags.frontier_spec (W := W) first available (by omega) (by omega) (by omega)
    have hread : ∀ t, first.toInt ≤ t → t ≤ highest.toInt → t ∈ published := by
      intro t ht ht'
      exact (h.shows_iff hs (by omega) (fun u hu => before u (by omega)) (by omega)).mp
        (hall t ht ht')
    refine ⟨highest, by simp only [highestPublished, hs, hrun], hlow, hhigh, hread, ?_⟩
    intro hlt hmem
    apply hstop hlt
    rw [h.shows_iff hs (by omega) _ (by omega)]
    · exact hmem
    · intro u hu
      by_cases hu' : u < first.toInt
      · exact before u hu'
      · exact hread u (by omega) (by omega)

end Sequencer

namespace Poller
variable {cap : Capacity} {W α : Type} {published : Set ℤ}

/-- The window between a position and the end of the greatest published run. -/
def windowTo (position last : Int64) : Option Window :=
  if last = position then none else some ⟨position + 1, last⟩

/-- There is a window if anything after the position was found. -/
theorem windowTo_eq {position last : Int64} (le : position.toInt ≤ last.toInt)
    (word : position.toInt + 1 < 2 ^ 63) :
    (if last < position + 1 then pure none else pure (some ⟨position + 1, last⟩) :
      Act W (Option Window)) = pure (windowTo position last) := by
  have hfirst : (position + 1).toInt = position.toInt + 1 := Checked.toInt_succ (by omega)
  unfold windowTo
  by_cases hnone : last = position
  · rw [if_pos hnone, if_pos]
    rw [hnone, Int64.lt_iff_toInt_lt]
    omega
  · have hne : last.toInt ≠ position.toInt := fun he => hnone (Int64.toInt_inj.mp he)
    rw [if_neg hnone, if_neg]
    rw [Int64.lt_iff_toInt_lt]
    omega

theorem window_eq {s : Sequencer cap} (h : s.Standing published) (position batch : Int64)
    (lo : s.gating.toInt ≤ position.toInt) (hp : ∀ t ≤ position.toInt, t ∈ published)
    (hb : 1 ≤ batch.toInt) (hb' : batch.toInt ≤ cap.slots) :
    ∃ last : Int64,
      IsGreatest (publishedRuns published position.toInt (position.toInt + batch.toInt))
        last.toInt ∧
      (window s position batch : Act W _) = pure (windowTo position last) := by
  have hstart := h.start_le
  have hroom := h.room
  have hclaimed := h.claimed _ (hp _ (le_refl _))
  have hfirst : (position + 1).toInt = position.toInt + 1 := Checked.toInt_succ (by omega)
  have hlimit : (position + batch).toInt = position.toInt + batch.toInt :=
    Checked.toInt_add (by omega) (by omega)
  have hlow : (position + 1 - 1).toInt = position.toInt := by
    rw [Checked.toInt_pred (by omega), hfirst]
    omega
  have hone := Checked.toInt_one
  have havail : (min s.cursor (position + batch)).toInt =
      min s.cursor.toInt (position.toInt + batch.toInt) := by
    rw [Sequencer.toInt_min, hlimit]
  simp only [window]
  rw [Checked.add_exact (by omega) (by omega), pure_bind,
    Checked.add_exact (by omega) (by omega), pure_bind]
  by_cases hempty : min s.cursor (position + batch) < position + 1
  · -- the cursor has not passed the position, so nothing after it is published
    rw [if_pos hempty]
    rw [Int64.lt_iff_toInt_lt] at hempty
    refine ⟨position, isGreatest_publishedRuns (le_refl _) (by omega) (by omega) ?_, ?_⟩
    · intro _ hmem
      have := h.le_cursor hmem
      omega
    · rw [windowTo, if_pos rfl]
  · rw [if_neg hempty]
    rw [Int64.lt_iff_toInt_lt] at hempty
    obtain ⟨highest, hrun, hle', hle'', hall, hstop⟩ :=
      Sequencer.highestPublished_eq (W := W) h (position + 1) (min s.cursor (position + batch))
        (by omega)
        (fun t ht => hp t (by omega)) (by omega) (by omega) (by omega)
    have hinside : ¬ (highest < position + 1 - 1 ∨ min s.cursor (position + batch) < highest) := by
      rw [Int64.lt_iff_toInt_lt, Int64.lt_iff_toInt_lt]
      omega
    refine ⟨highest, isGreatest_publishedRuns (by omega) (by omega)
      (fun t ht ht' => hall t (by omega) ht') ?_, ?_⟩
    · intro hlt hmem
      by_cases hmore : highest.toInt < (min s.cursor (position + batch)).toInt
      · exact hstop hmore hmem
      · have := h.le_cursor hmem
        omega
    · rw [hrun, pure_bind, Checked.sub_exact (by omega) (by omega), pure_bind, if_neg hinside]
      exact windowTo_eq (by omega) (by omega)

section
variable {seq : Part W (Sequencer cap)} {poller : Part W Poller}

theorem openWindow_zero (w : W) : openWindow seq poller 0 w = .ok none w := rfl

/-- Opening moves the position over the greatest published run, or counts an
idle poll. -/
theorem openWindow_eq (hseq : seq.Lawful) (hpoller : poller.Lawful) {w : W}
    (h : (seq.split w).1.Standing published) {position : Int64}
    (hposition : (poller.split w).1.position (seq.split w).1 = position)
    (lo : (seq.split w).1.gating.toInt ≤ position.toInt)
    (hp : ∀ t ≤ position.toInt, t ∈ published) {batch : UInt64} (hb : batch ≠ 0) :
    ∃ last : Int64,
      IsGreatest (publishedRuns published position.toInt
        (position.toInt + min batch.toNat cap.slots)) last.toInt ∧
      openWindow seq poller batch w =
        match windowTo position last with
        | none => .ok none (seq.join ((seq.split w).1.count .idle) (seq.split w).2)
        | some win => .ok (some win)
            (poller.join ((poller.split w).1.claim win) (poller.split w).2) := by
  obtain ⟨hone, hlap⟩ := cap.toInt_batch_bounds hb
  obtain ⟨last, hgreatest, hwindow⟩ := window_eq (W := W) h position (min batch cap.word).toInt64
    lo hp hone hlap
  rw [cap.toInt_batch] at hgreatest
  refine ⟨last, hgreatest, ?_⟩
  rw [openWindow, if_neg hb, Part.read_bind hseq, Part.read_bind hpoller, hposition, hwindow,
    pure_bind]
  obtain ⟨hle, -, -⟩ := hgreatest.1
  by_cases hnone : last = position
  · simp only [windowTo, hnone, if_true]
    rw [Part.update_bind]
    rfl
  · have hforward : ¬ ((poller.split w).1.consumer = .single ∧ last < (seq.split w).1.gating) := by
      rw [Int64.lt_iff_toInt_lt]
      omega
    simp only [windowTo, hnone, if_false, hforward]
    rw [Part.update_bind]
    rfl

theorem countConsumed_eq (hseq : seq.Lawful) (w : W) {win : Window}
    (le : win.first.toInt ≤ win.last.toInt)
    (small : win.last.toInt - win.first.toInt + 1 < 2 ^ 63) :
    (do
      if (← seq.read).tally.isSome then
        let size ← Checked.add (← Checked.sub win.last win.first) 1
        seq.update (·.count (.consumed size.toUInt64)) : Act W Unit) w =
      .ok () (seq.join ((seq.split w).1.count (.consumed (win.last - win.first + 1).toUInt64))
        (seq.split w).2) := by
  have hdiff : (win.last - win.first).toInt = win.last.toInt - win.first.toInt :=
    Checked.toInt_sub (by omega) (by omega)
  have hone := Checked.toInt_one
  rw [Part.read_bind hseq]
  by_cases htally : (seq.split w).1.tally.isSome
  · rw [if_pos htally, Checked.sub_exact (by omega) (by omega), pure_bind,
      Checked.add_exact (by omega) (by omega), pure_bind]
    rfl
  · have hnone : (seq.split w).1.tally = none := by simpa using htally
    rw [if_neg htally, Sequencer.count_none _ _ hnone, hseq.join_split]
    rfl

/-- The sequencer after a window was released. -/
def afterRelease (win : Window) (s : Sequencer cap) : Sequencer cap :=
  (s.withGating win.last).count (.consumed (win.last - win.first + 1).toUInt64)

@[simp] theorem consumer_claim (p : Poller) (win : Window) :
    (p.claim win).consumer = p.consumer := by
  cases p <;> rfl

/-- Competing consumers are at the end of a window once they open it. -/
theorem position_claim (p : Poller) (win : Window) (s : Sequencer cap) :
    (p.claim win).position s = if p.consumer = .single then p.position s else win.last := by
  cases p <;> rfl

/-- A sole consumer is there once it releases the window. -/
theorem position_afterRelease (p : Poller) (win : Window) (s : Sequencer cap) :
    p.position (afterRelease win s) = if p.consumer = .single then win.last else p.position s := by
  cases p <;> rfl

theorem position_claim_afterRelease (p : Poller) (win : Window) (s : Sequencer cap) :
    (p.claim win).position (afterRelease win s) = win.last := by
  cases p <;> rfl

/-- A window whose turn it is is released: its last sequence becomes gating. -/
theorem release_eq (hseq : seq.Lawful) (hpoller : poller.Lawful) {w : W} {win : Window}
    (turn : win.first.toInt = (seq.split w).1.gating.toInt + 1)
    (le : win.first.toInt ≤ win.last.toInt)
    (small : win.last.toInt - win.first.toInt + 1 < 2 ^ 63) :
    release seq poller win w =
      .ok () (seq.join (afterRelease win (seq.split w).1) (seq.split w).2) := by
  have hone := Checked.toInt_one
  have hlow := (seq.split w).1.gating.le_toInt
  have hhigh := win.last.toInt_lt
  have hcount : ∀ s, s = (seq.split w).1.withGating win.last →
      (do
        if (← seq.read).tally.isSome then
          let size ← Checked.add (← Checked.sub win.last win.first) 1
          seq.update (·.count (.consumed size.toUInt64)) : Act W Unit)
          (seq.join s (seq.split w).2) =
        .ok () (seq.join (afterRelease win (seq.split w).1) (seq.split w).2) := by
    rintro s rfl
    rw [countConsumed_eq hseq _ le small, hseq.split_join, hseq.join_join]
    rfl
  rw [release, Part.read_bind hpoller]
  cases hkind : (poller.split w).1 with
  | sole =>
    simp only
    rw [Part.update_bind]
    exact hcount _ rfl
  | competing claimed =>
    have hobserved : win.first - 1 = (seq.split w).1.gating := by
      apply Int64.toInt_inj.mp
      rw [Checked.toInt_pred (by omega)]
      omega
    have hmove : ¬ win.last ≤ (seq.split w).1.gating := by
      rw [Int64.le_iff_toInt_le]
      omega
    have hmoved : (seq.split w).1.advanceGating win.last (seq.split w).1.gating =
        (true, (seq.split w).1.withGating win.last) := by
      simp only [Sequencer.advanceGating, hmove, if_false, Cell.compareAndSet, if_true]
    simp only
    rw [Part.read_bind hseq, Checked.sub_exact (by omega) (by omega), pure_bind, hobserved, hmoved]
    simp only [if_true]
    rw [Part.write_bind]
    exact hcount _ rfl

/-- Among competing consumers a window waits for its turn. -/
theorem release_stalled (hseq : seq.Lawful) (hpoller : poller.Lawful) {w : W} {win : Window}
    (competing : (poller.split w).1.consumer = .multi)
    (early : win.first.toInt ≠ (seq.split w).1.gating.toInt + 1) (lo : -2 ^ 63 < win.first.toInt)
    (le : win.first.toInt ≤ win.last.toInt) :
    release seq poller win w = .error .stalled w := by
  have hone := Checked.toInt_one
  have hlast := win.last.toInt_lt
  have hlow : (win.first - 1).toInt = win.first.toInt - 1 := Checked.toInt_pred (by omega)
  rw [release, Part.read_bind hpoller]
  cases hkind : (poller.split w).1 with
  | sole =>
    rw [hkind] at competing
    simp [consumer] at competing
  | competing claimed =>
    have hmove : ¬ win.last ≤ win.first - 1 := by
      rw [Int64.le_iff_toInt_le]
      omega
    have hother : (seq.split w).1.gating ≠ win.first - 1 := by
      intro he
      rw [← he] at hlow
      omega
    have hkept : (seq.split w).1.advanceGating win.last (win.first - 1) =
        (false, (seq.split w).1) := by
      simp only [Sequencer.advanceGating, hmove, if_false, Cell.compareAndSet, hother]
      rfl
    simp only
    rw [Part.read_bind hseq, Checked.sub_exact (by omega) (by omega), pure_bind, hkept]
    rfl

/-- A poll with a window ends as its callback does, in the world of the release. -/
theorem poll_ok {batch : UInt64} {drain : Window → Act W α} {w w₁ w₂ w₃ : W} {win : Window} {x : α}
    (ho : openWindow seq poller batch w = .ok (some win) w₁) (hd : drain win w₁ = .ok x w₂)
    (hr : release seq poller win w₂ = .ok () w₃) :
    poll seq poller batch drain w = .ok (some x) w₃ := by
  rw [poll, Act.bind_ok ho]
  exact Act.bind_ok (Act.closing_ok hd hr)

theorem poll_error {batch : UInt64} {drain : Window → Act W α} {w w₁ w₂ w₃ : W} {win : Window}
    {e : Halt} (ho : openWindow seq poller batch w = .ok (some win) w₁)
    (hd : drain win w₁ = .error e w₂) (hr : release seq poller win w₂ = .ok () w₃) :
    poll seq poller batch drain w = .error e w₃ := by
  rw [poll, Act.bind_ok ho]
  exact Act.bind_error (Act.closing_error hd hr)

/-- However its callback ends, a poll with a window ends the same way. -/
theorem poll_outcome {batch : UInt64} (drain : Window → Act W α) {w w₁ w₃ : W} {win : Window}
    (ho : openWindow seq poller batch w = .ok (some win) w₁)
    (hr : release seq poller win ((drain win).outcome w₁).2 = .ok () w₃) :
    (poll seq poller batch drain).outcome w = (((drain win).outcome w₁).1.map some, w₃) := by
  cases hd : drain win w₁ with
  | ok x w₂ =>
    rw [Act.outcome_ok hd] at hr ⊢
    exact Act.outcome_ok (poll_ok ho hd hr)
  | error e w₂ =>
    rw [Act.outcome_error hd] at hr ⊢
    exact Act.outcome_error (poll_error ho hd hr)

theorem poll_none {batch : UInt64} (drain : Window → Act W α) {w w₁ : W}
    (ho : openWindow seq poller batch w = .ok none w₁) :
    poll seq poller batch drain w = .ok none w₁ := by
  rw [poll, Act.bind_ok ho]
  rfl

end

end Poller

end LapRing
