import LapRing.Proofs.RingParties
import Mathlib.Logic.Function.Iterate

/-!
# Polls one load at a time

A poll of competing consumers loads the position, then the cursor, then the flags
of the sequences after the position one by one. If nobody does anything in between,
this finds the window that opens in one go.
-/
namespace LapRing

/-- How far a poll has come. It has its batch, cut to a lap; it has loaded the
position; it has loaded the cursor, and the flags before `next`; it has found a
window, or it has found none. -/
inductive PollStage
  | rest
  | begun (batch : Int64)
  | placed (batch position : Int64)
  | scanning (batch position available next : Int64)
  | found (batch : Int64) (win : Window)
  | nothing

namespace PollStage
variable {cap : Capacity}

/-- The next load of a poll, where there is one. What a sole producer published ends
at its cursor, and no flag is loaded then. -/
def load (s : Sequencer cap) (position : Int64) : PollStage → PollStage
  | begun batch => placed batch position
  | placed batch current =>
    let available := min s.cursor (current + batch)
    if available < current + 1 then nothing
    else
      match s.producer with
      | .single => found batch ⟨current + 1, available⟩
      | .multi => scanning batch current available (current + 1)
  | scanning batch current available next =>
    if s.isPublished next then
      if next < available then scanning batch current available (next + 1)
      else found batch ⟨current + 1, available⟩
    else if next = current + 1 then nothing
    else found batch ⟨current + 1, next - 1⟩
  | g => g

/-- What a poll has found when it has found this. -/
def ofWindow (batch : Int64) : Option Window → PollStage
  | none => nothing
  | some win => found batch win

section Undisturbed
variable {s : Sequencer cap} {published : Set ℤ} {position batch last : Int64}

/-- The flag that is loaded next tells whether the published run ends before it. -/
theorem isPublished_iff (h : s.Standing published) (hshared : s.producer = .multi) {next : Int64}
    (lo : s.gating.toInt < next.toInt) (before : ∀ t < next.toInt, t ∈ published) :
    s.isPublished next = true ↔ next.toInt ∈ published := by
  have hslots := cap.one_le_slots
  cases hs : s.claims with
  | single claimed cached => simp [Sequencer.producer, hs] at hshared
  | shared cached flags =>
    simp only [Sequencer.isPublished, hs]
    rw [LapFlags.isAvailable_iff]
    exact h.shows_iff hs lo (fun u hu => before u (by omega)) next.toInt_lt

theorem windowTo_of_lt (lt : position.toInt < last.toInt) :
    Poller.windowTo position last = some ⟨position + 1, last⟩ := by
  have hne : last ≠ position := by
    rintro rfl
    omega
  rw [Poller.windowTo, if_neg hne]

/-- A scan has passed the flags before `next`, and all before it is published. -/
structure Passed (s : Sequencer cap) (published : Set ℤ) (position batch available next : Int64) :
    Prop where
  reached : available.toInt = min s.cursor.toInt (position.toInt + batch.toInt)
  after : position.toInt < next.toInt
  le : next.toInt ≤ available.toInt
  before : ∀ t < next.toInt, t ∈ published

namespace Passed
variable {available next : Int64} (hpass : Passed s published position batch available next)
  (hlast : IsGreatest (publishedRuns published position.toInt (position.toInt + batch.toInt))
    last.toInt)
include hpass

theorem upTo (hnext : next.toInt ∈ published) : ∀ t ≤ next.toInt, t ∈ published := by
  intro t ht
  rcases Int.lt_or_eq_of_le ht with hlt | rfl
  · exact hpass.before t hlt
  · exact hnext

theorem succ (hnext : next.toInt ∈ published) (more : next < available) :
    (next + 1).toInt = next.toInt + 1 ∧ Passed s published position batch available (next + 1) := by
  have hword := available.toInt_lt
  have hafter := hpass.after
  rw [Int64.lt_iff_toInt_lt] at more
  have hsucc : (next + 1).toInt = next.toInt + 1 := Checked.toInt_succ (by omega)
  exact ⟨hsucc, hpass.reached, by omega, by omega, fun t ht => hpass.upTo hnext t (by omega)⟩

include hlast

/-- The run ends where nothing more was in reach. -/
theorem last_of_reached (h : s.Standing published) (hnext : next.toInt ∈ published)
    (more : ¬ next < available) : last = available := by
  obtain ⟨⟨hle, hlimit, hrun⟩, hmax⟩ := hlast
  obtain ⟨hreached, hafter, hle', -⟩ := id hpass
  rw [Int64.lt_iff_toInt_lt] at more
  have hin : available.toInt ≤ last.toInt :=
    hmax ⟨by omega, by omega, fun t _ ht => hpass.upTo hnext t (by omega)⟩
  have hcursor := h.le_cursor (hrun last.toInt (by omega) (le_refl _))
  exact Int64.toInt_inj.mp (by omega)

/-- It ends before a gap. -/
theorem last_of_gap (hnext : next.toInt ∉ published) : last.toInt = next.toInt - 1 := by
  obtain ⟨⟨hle, hlimit, hrun⟩, hmax⟩ := hlast
  obtain ⟨hreached, hafter, hle', hbefore⟩ := hpass
  have hge : next.toInt - 1 ≤ last.toInt :=
    hmax ⟨by omega, by omega, fun t _ ht => hbefore t (by omega)⟩
  by_contra hne
  exact hnext (hrun _ hafter (by omega))

end Passed

/-- Loading one flag after the other leads to the end of the published run. -/
theorem scanning_loads {available : Int64} (next : Int64)
    (hpass : Passed s published position batch available next)
    (hlast : IsGreatest (publishedRuns published position.toInt (position.toInt + batch.toInt))
      last.toInt)
    (h : s.Standing published) (hshared : s.producer = .multi)
    (lo : s.gating.toInt ≤ position.toInt) :
    ∃ n, (load s position)^[n] (scanning batch position available next) =
      ofWindow batch (Poller.windowTo position last) := by
  have hafter := hpass.after
  have hflag := isPublished_iff h hshared (lt_of_le_of_lt lo hafter) hpass.before
  by_cases hnext : next.toInt ∈ published
  · by_cases hmore : next < available
    · obtain ⟨hsucc, hpass'⟩ := hpass.succ hnext hmore
      have hle' := hpass'.le
      obtain ⟨n, hn⟩ := scanning_loads (next + 1) hpass' hlast h hshared lo
      refine ⟨n + 1, ?_⟩
      rw [Function.iterate_succ_apply, load, if_pos (hflag.mpr hnext), if_pos hmore, hn]
    · obtain rfl := hpass.last_of_reached hlast h hnext hmore
      refine ⟨1, ?_⟩
      rw [Function.iterate_one, load, if_pos (hflag.mpr hnext), if_neg hmore,
        windowTo_of_lt (lt_of_lt_of_le hafter hpass.le)]
      rfl
  · have hgap := hpass.last_of_gap hlast hnext
    have hword := position.le_toInt
    have hword' := next.toInt_lt
    have hfirst : (position + 1).toInt = position.toInt + 1 := Checked.toInt_succ (by omega)
    obtain rfl : last = next - 1 :=
      Int64.toInt_inj.mp (by rw [hgap, Checked.toInt_pred (by omega)])
    refine ⟨1, ?_⟩
    rw [Function.iterate_one, load, if_neg (mt hflag.mp hnext)]
    by_cases hbegin : next = position + 1
    · have hnone : next - 1 = position := Int64.toInt_inj.mp (by rw [hgap, hbegin, hfirst]; omega)
      rw [if_pos hbegin, Poller.windowTo, if_pos hnone]
      rfl
    · have hne : next.toInt ≠ position.toInt + 1 := by
        rw [← hfirst]
        exact fun he => hbegin (Int64.toInt_inj.mp he)
      rw [if_neg hbegin, windowTo_of_lt (by omega)]
      rfl
termination_by (available.toInt - next.toInt).toNat
decreasing_by
  rw [hsucc] at hle' ⊢
  omega

/-- A poll that nobody disturbs finds the window that is opened in one go. -/
theorem begun_loads {W : Type} (h : s.Standing published) (lo : s.gating.toInt ≤ position.toInt)
    (hp : ∀ t ≤ position.toInt, t ∈ published) (hb : 1 ≤ batch.toInt)
    (hb' : batch.toInt ≤ cap.slots) :
    ∃ n found, (Poller.window s position batch : Act W (Option Window)) = pure found ∧
      (load s position)^[n] (begun batch) = ofWindow batch found := by
  obtain ⟨last, hlast, hwindow⟩ := Poller.window_eq (W := W) h position batch lo hp hb hb'
  have hslots := cap.slots_le_int
  have hclaimed := h.claimed _ (hp _ (le_refl _))
  have hroom := h.room
  have hstart := h.start_le
  have hpos := cap.one_le_slots
  have hfirst : (position + 1).toInt = position.toInt + 1 := Checked.toInt_succ (by omega)
  have hreach : (min s.cursor (position + batch)).toInt =
      min s.cursor.toInt (position.toInt + batch.toInt) := by
    rw [Sequencer.toInt_min, Checked.toInt_add (by omega) (by omega)]
  have hplaced : ∀ n found,
      (load s position)^[n] (load s position (placed batch position)) = found →
      (load s position)^[n + 2] (begun batch) = found := fun _ _ hn => hn
  obtain ⟨⟨hle, hlimit, hrun⟩, hmax⟩ := id hlast
  by_cases hempty : min s.cursor (position + batch) < position + 1
  · have hcursor : s.cursor.toInt ≤ position.toInt := by
      rw [Int64.lt_iff_toInt_lt] at hempty
      omega
    obtain rfl : last = position := by
      apply Int64.toInt_inj.mp
      by_contra hne
      have := h.le_cursor (hrun last.toInt (by omega) (le_refl _))
      omega
    refine ⟨_, _, hwindow, hplaced 0 _ ?_⟩
    simp [load, hempty, ofWindow, Poller.windowTo]
  · rw [Int64.lt_iff_toInt_lt] at hempty
    rcases s.shared_or_single with hshared | hsole
    · obtain ⟨n, hn⟩ := scanning_loads (position + 1)
        ⟨hreach, by omega, by omega, fun t ht => hp t (by omega)⟩ hlast h hshared lo
      refine ⟨_, _, hwindow, hplaced n _ ?_⟩
      rw [← hn]
      simp only [load, Int64.lt_iff_toInt_lt, hempty, if_false, hshared]
    · have hin : (min s.cursor (position + batch)).toInt ≤ last.toInt :=
        hmax ⟨by omega, by omega, fun t _ ht => (h.mem_iff_of_single hsole).mpr (by omega)⟩
      have hcursor := h.le_cursor (hrun last.toInt (by omega) (le_refl _))
      obtain rfl : last = min s.cursor (position + batch) := Int64.toInt_inj.mp (by omega)
      refine ⟨_, _, hwindow, hplaced 0 _ ?_⟩
      rw [windowTo_of_lt (by omega)]
      simp only [Function.iterate_zero, id_eq, load, Int64.lt_iff_toInt_lt, hempty, if_false, hsole,
        ofWindow]

end Undisturbed

end PollStage

end LapRing
