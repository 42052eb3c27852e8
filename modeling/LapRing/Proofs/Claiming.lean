import LapRing.Proofs.RunningActions
import LapRing.Proofs.SequencerStanding
import LapRing.Sequencer.Claim

/-!
# Claims that fit and claims that wait

A claim ends at the last claimed sequence plus its size, and it fits once
gating has reached its wrap point, one lap before. What a producer remembers of
gating is never ahead of it, so a claim admitted from memory fits as well.
-/
namespace LapRing.Sequencer
variable {cap : Capacity} {W : Type}

/-- The ticket of a claim of `n` after the sequence `last`. -/
def ticketAfter (cap : Capacity) (last n : Int64) : Ticket := ⟨last + n, last + n - cap.span⟩

theorem ticket_eq {last n : Int64} (lo : -1 ≤ last.toInt) (pos : 1 ≤ n.toInt)
    (word : last.toInt + n.toInt < 2 ^ 63) :
    (ticket cap last n : Act W Ticket) = pure (ticketAfter cap last n) := by
  have hle := cap.slots_le_int
  have hspan := cap.toInt_span
  have hhigh : (last + n).toInt = last.toInt + n.toInt := Checked.toInt_add (by omega) (by omega)
  rw [ticket, Checked.add_exact (by omega) (by omega), pure_bind,
    Checked.sub_exact (by omega) (by omega), pure_bind]
  rfl

theorem toInt_high (cap : Capacity) (last n : Int64) (lo : -1 ≤ last.toInt) (pos : 1 ≤ n.toInt)
    (word : last.toInt + n.toInt < 2 ^ 63) :
    (ticketAfter cap last n).high.toInt = last.toInt + n.toInt :=
  Checked.toInt_add (by omega) (by omega)

theorem toInt_wrapPoint (cap : Capacity) (last n : Int64) (lo : -1 ≤ last.toInt) (pos : 1 ≤ n.toInt)
    (word : last.toInt + n.toInt < 2 ^ 63) :
    (ticketAfter cap last n).wrapPoint.toInt = last.toInt + n.toInt - cap.slots := by
  have hle := cap.slots_le_int
  have hspan := cap.toInt_span
  have hhigh := toInt_high cap last n lo pos word
  simp only [ticketAfter] at hhigh ⊢
  rw [Checked.toInt_sub (by omega) (by omega), hspan, hhigh]

/-- Shared producers take their sequences when they ask for them. -/
def asked (n : Int64) (s : Sequencer cap) : Sequencer cap :=
  match s.producer with
  | .single => s
  | .multi => s.withClaimed (s.claimed + n)

/-- A single producer takes its sequences when its claim is complete. -/
def granted (high : Int64) (s : Sequencer cap) : Sequencer cap :=
  match s.producer with
  | .single => s.withClaimed high
  | .multi => s

theorem request_eq {s : Sequencer cap} {n : Int64} (lo : -1 ≤ s.claimed.toInt) (pos : 1 ≤ n.toInt)
    (word : s.claimed.toInt + n.toInt < 2 ^ 63) :
    request n s = .ok (ticketAfter cap s.claimed n) (s.asked n) := by
  obtain ⟨cursor, gating, claims, tally⟩ := s
  cases claims with
  | single last cached =>
    simp only [claimed] at lo word
    simp only [request, Act.get_bind, ticket_eq lo pos word]
    rfl
  | shared cached flags =>
    simp only [claimed] at lo word
    simp only [request, Act.get_bind, Cell.fetchAdd, Act.set_bind, ticket_eq lo pos word]
    rfl

theorem redeem_eq (s : Sequencer cap) (t : Ticket) (released : Int64) (lo : -1 ≤ t.high.toInt)
    (fits : t.high.toInt - cap.slots ≤ released.toInt) :
    redeem t released s = .ok t.high (s.granted t.high) := by
  have hword := released.toInt_lt
  have hle := cap.slots_le_int
  have hspan := cap.toInt_span
  have hahead : (t.high - released).toInt = t.high.toInt - released.toInt :=
    Checked.toInt_sub (by omega) (by omega)
  have hbound : ¬ cap.span < t.high - released := by
    rw [Int64.lt_iff_toInt_lt]
    omega
  rw [redeem, Checked.sub_exact (by omega) (by omega), pure_bind, if_neg hbound]
  obtain ⟨_, _, _ | _, _⟩ := s <;> rfl

/-- What an attempt to claim `n` sequences does, from the value of gating that is
remembered or else from the present one. -/
def attempted (n : Int64) (s : Sequencer cap) : Option Int64 × Sequencer cap :=
  let t := ticketAfter cap s.claimed n
  if t.wrapPoint ≤ s.cached then (some t.high, s.withClaimed t.high)
  else if t.wrapPoint ≤ s.gating then (some t.high, (s.withCached s.gating).withClaimed t.high)
  else (none, s.withCached s.gating)

theorem tryClaim_eq {s : Sequencer cap} {n : Int64} (lo : -1 ≤ s.claimed.toInt)
    (pos : 1 ≤ n.toInt) (word : s.claimed.toInt + n.toInt < 2 ^ 63) :
    tryClaim n s = .ok (s.attempted n).1 (s.attempted n).2 := by
  rw [tryClaim, Act.get_bind, ticket_eq lo pos word, pure_bind, attempted]
  by_cases hcached : (ticketAfter cap s.claimed n).wrapPoint ≤ s.cached
  · simp only [hcached, if_true]
    rfl
  · by_cases hgating : (ticketAfter cap s.claimed n).wrapPoint ≤ s.gating
    · simp only [hcached, hgating, if_true, if_false, gating_withCached]
      rfl
    · simp only [hcached, hgating, if_false, gating_withCached]
      rfl

section Waiting
variable {seq : Part W (Sequencer cap)}

/-- No wait begins once gating has reached the wrap point. -/
theorem awaitGating_eq (hseq : seq.Lawful) {w : W} (wrapPoint : Int64)
    (reached : wrapPoint ≤ (seq.split w).1.gating) (pauses : List (Pause W)) :
    awaitGating seq wrapPoint pauses w = .ok (seq.split w).1.gating w := by
  cases pauses with
  | nil =>
    rw [awaitGating, Part.read_bind hseq, if_pos reached]
    rfl
  | cons pause rest =>
    rw [awaitGating, Part.read_bind hseq, if_pos reached]
    rfl

/-- The rest of a claim that memory does not admit: it waits for its wrap point, and
remembers what it then sees of gating. -/
def resume (seq : Part W (Sequencer cap)) (t : Ticket) (pauses : List (Pause W)) :
    Act W Int64 := do
  let gating ← awaitGating seq t.wrapPoint pauses
  seq.update (·.withCached gating)
  seq.lift (redeem t gating)

/-- A claim goes on at the first look that finds its wrap point released. -/
theorem resume_reached (hseq : seq.Lawful) {w : W} {t : Ticket}
    (wrap : t.wrapPoint.toInt = t.high.toInt - cap.slots) (lo : -1 ≤ t.high.toInt)
    (reached : t.high.toInt - cap.slots ≤ (seq.split w).1.gating.toInt) (pauses : List (Pause W)) :
    resume seq t pauses w =
      .ok t.high (seq.join (((seq.split w).1.withCached (seq.split w).1.gating).granted t.high)
        (seq.split w).2) := by
  have hwait := awaitGating_eq hseq (w := w) t.wrapPoint
    (by rw [Int64.le_iff_toInt_le]; omega) pauses
  rw [resume, Act.bind_ok hwait, Part.update_bind]
  have hredeem := redeem_eq ((seq.split w).1.withCached (seq.split w).1.gating) t
    (seq.split w).1.gating lo reached
  have hlift := Part.lift_ok (p := seq)
    (w := seq.join ((seq.split w).1.withCached (seq.split w).1.gating) (seq.split w).2)
    (by rw [hseq.split_join]; exact hredeem)
  rw [hlift, hseq.join_join]

/-- After its last pause a claim that still does not fit stays where it is. -/
theorem resume_stalled (hseq : seq.Lawful) {w : W} {t : Ticket}
    (early : ¬ t.wrapPoint ≤ (seq.split w).1.gating) :
    resume seq t [] w =
      .error .stalled (seq.join ((seq.split w).1.count .waited) (seq.split w).2) := by
  have hwait : awaitGating seq t.wrapPoint [] w =
      .error .stalled (seq.join ((seq.split w).1.count .waited) (seq.split w).2) := by
    rw [awaitGating, Part.read_bind hseq, if_neg early, Part.update_bind]
    rfl
  rw [resume, Act.bind_error hwait]

/-- Before that, it pauses and looks again. -/
theorem resume_paused (hseq : seq.Lawful) {w : W} {t : Ticket}
    (early : ¬ t.wrapPoint ≤ (seq.split w).1.gating) (pause : Pause W) (rest : List (Pause W)) :
    resume seq t (pause :: rest) w =
      (do
        pause ⟨t.wrapPoint, (seq.split w).1.gating⟩
        resume seq t rest : Act W Int64)
          (seq.join ((seq.split w).1.count .waited) (seq.split w).2) := by
  set w' := seq.join ((seq.split w).1.count .waited) (seq.split w).2 with hw'
  have hwait : awaitGating seq t.wrapPoint (pause :: rest) w =
      (do
        pause ⟨t.wrapPoint, (seq.split w).1.gating⟩
        awaitGating seq t.wrapPoint rest : Act W Int64) w' := by
    rw [awaitGating, Part.read_bind hseq, if_neg early, Part.update_bind]
  rw [resume, Act.bind_eq _ hwait, bind_assoc]
  rfl

/-- What a claim of `n` that need not wait makes of the sequencer. -/
def admitted (n : Int64) (s : Sequencer cap) : Sequencer cap :=
  let t := ticketAfter cap s.claimed n
  let remembered := if t.wrapPoint ≤ s.cached then s else s.withCached s.gating
  remembered.withClaimed t.high

@[simp] theorem claimed_admitted (n : Int64) (s : Sequencer cap) :
    (s.admitted n).claimed = s.claimed + n := by
  simp only [admitted, claimed_withClaimed, ticketAfter]

@[simp] theorem gating_admitted (n : Int64) (s : Sequencer cap) :
    (s.admitted n).gating = s.gating := by
  simp only [admitted, gating_withClaimed]
  split <;> simp

@[simp] theorem producer_admitted (n : Int64) (s : Sequencer cap) :
    (s.admitted n).producer = s.producer := by
  simp only [admitted, producer_withClaimed]
  split <;> simp

theorem cursor_of_shared {s : Sequencer cap} (h : s.producer = .multi) : s.cursor = s.claimed := by
  obtain ⟨_, _, _ | _, _⟩ := s
  · contradiction
  · rfl

theorem cursor_withClaimed {s : Sequencer cap} (h : s.producer = .single) (high : Int64) :
    (s.withClaimed high).cursor = s.cursor := by
  obtain ⟨_, _, _ | _, _⟩ := s
  · rfl
  · contradiction

/-- A single producer's cursor does not move when it claims. -/
theorem cursor_admitted {s : Sequencer cap} (h : s.producer = .single) (n : Int64) :
    (s.admitted n).cursor = s.cursor := by
  simp only [admitted]
  split
  · exact cursor_withClaimed h _
  · rw [cursor_withClaimed (by rw [producer_withCached, h]), cursor_withCached]

theorem Standing.admitted {s : Sequencer cap} {published : Set ℤ} (h : s.Standing published)
    {n : Int64} (pos : 1 ≤ n.toInt) (room : s.claimed.toInt + n.toInt + cap.slots < 2 ^ 63) :
    (s.admitted n).Standing published := by
  have hstart := h.start_le
  have hle := h.gating_le
  have hhigh := toInt_high cap s.claimed n (by omega) pos (by omega)
  have hkept : (if (ticketAfter cap s.claimed n).wrapPoint ≤ s.cached then s
      else s.withCached s.gating).Standing published := by
    split
    · exact h
    · exact h.withCached h.start_le (le_refl _)
  refine hkept.withClaimed ?_ (by omega)
  split
  · omega
  · rw [claimed_withCached]
    omega

/-- An attempt that fits now makes the claim. -/
theorem attempted_of_fits {s : Sequencer cap} {n : Int64}
    (fits : (ticketAfter cap s.claimed n).wrapPoint.toInt ≤ s.gating.toInt) :
    s.attempted n = (some (s.claimed + n), s.admitted n) := by
  rw [← Int64.le_iff_toInt_le] at fits
  by_cases hcached : (ticketAfter cap s.claimed n).wrapPoint ≤ s.cached
  · simp only [attempted, admitted, hcached, if_true]
    rfl
  · simp only [attempted, admitted, hcached, fits, if_true, if_false]
    rfl

/-- An attempt that does not fit now only remembers gating. -/
theorem attempted_of_full {s : Sequencer cap} {n : Int64}
    (cached_le : s.cached.toInt ≤ s.gating.toInt)
    (full : s.gating.toInt < (ticketAfter cap s.claimed n).wrapPoint.toInt) :
    s.attempted n = (none, s.withCached s.gating) := by
  simp only [attempted, Int64.le_iff_toInt_le]
  rw [if_neg (by omega), if_neg (by omega)]

theorem claimed_asked_shared {s : Sequencer cap} (h : s.producer = .multi) (n : Int64) :
    (s.asked n).claimed = s.claimed + n := by
  simp only [asked, h, claimed_withClaimed]

theorem asked_single {s : Sequencer cap} (h : s.producer = .single) (n : Int64) :
    s.asked n = s := by
  simp only [asked, h]

theorem granted_single {s : Sequencer cap} (h : s.producer = .single) (high : Int64) :
    s.granted high = s.withClaimed high := by
  simp only [granted, h]

theorem granted_shared {s : Sequencer cap} (h : s.producer = .multi) (high : Int64) :
    s.granted high = s := by
  simp only [granted, h]

theorem gating_granted (s : Sequencer cap) (high : Int64) : (s.granted high).gating = s.gating := by
  obtain ⟨_, _, _ | _, _⟩ := s <;> rfl

theorem granted_asked (n : Int64) (s : Sequencer cap) :
    (s.asked n).granted (s.claimed + n) = s.withClaimed (s.claimed + n) := by
  obtain ⟨_, _, _ | _, _⟩ := s <;> rfl

theorem granted_withCached_asked (n seen : Int64) (s : Sequencer cap) :
    ((s.asked n).withCached seen).granted (s.claimed + n) =
      (s.withCached seen).withClaimed (s.claimed + n) := by
  obtain ⟨_, _, _ | _, _⟩ := s <;> rfl

@[simp] theorem cached_asked (n : Int64) (s : Sequencer cap) : (s.asked n).cached = s.cached := by
  obtain ⟨_, _, _ | _, _⟩ := s <;> rfl

@[simp] theorem gating_asked (n : Int64) (s : Sequencer cap) : (s.asked n).gating = s.gating := by
  obtain ⟨_, _, _ | _, _⟩ := s <;> rfl

@[simp] theorem producer_asked (n : Int64) (s : Sequencer cap) :
    (s.asked n).producer = s.producer := by
  obtain ⟨_, _, _ | _, _⟩ := s <;> rfl

@[simp] theorem producer_granted (high : Int64) (s : Sequencer cap) :
    (s.granted high).producer = s.producer := by
  obtain ⟨_, _, _ | _, _⟩ := s <;> rfl

theorem claimed_asked_le {s : Sequencer cap} {n : Int64}
    (le : s.claimed.toInt ≤ (s.claimed + n).toInt) :
    (s.asked n).claimed.toInt ≤ (s.claimed + n).toInt := by
  rcases s.shared_or_single with hkind | hkind
  · rw [claimed_asked_shared hkind]
  · rw [asked_single hkind]
    exact le

/-- A ticket that passed its wait is redeemed for the claim it was asked for. -/
theorem granted_cleared (n : Int64) (s : Sequencer cap) :
    (if (ticketAfter cap s.claimed n).wrapPoint ≤ (s.asked n).cached then s.asked n
      else (s.asked n).withCached (s.asked n).gating).granted (s.claimed + n) = s.admitted n := by
  rw [cached_asked, gating_asked, admitted]
  split
  · exact granted_asked n s
  · exact granted_withCached_asked n s.gating s

/-- What is remembered of gating decides a claim, or else the claim looks at gating. -/
theorem claim_asked (hseq : seq.Lawful) {w : W} {n : Int64}
    (lo : -1 ≤ (seq.split w).1.claimed.toInt)
    (pos : 1 ≤ n.toInt) (word : (seq.split w).1.claimed.toInt + n.toInt < 2 ^ 63)
    (pauses : List (Pause W)) :
    claim seq pauses n w =
      (if (ticketAfter cap (seq.split w).1.claimed n).wrapPoint ≤ (seq.split w).1.cached then
        seq.lift (redeem (ticketAfter cap (seq.split w).1.claimed n) (seq.split w).1.cached)
      else resume seq (ticketAfter cap (seq.split w).1.claimed n) pauses)
        (seq.join ((seq.split w).1.asked n) (seq.split w).2) := by
  have hask : seq.lift (request n) w = .ok (ticketAfter cap (seq.split w).1.claimed n)
      (seq.join ((seq.split w).1.asked n) (seq.split w).2) :=
    Part.lift_ok (request_eq lo pos word)
  rw [claim, Act.bind_ok hask, Part.read_bind hseq, hseq.split_join, cached_asked]
  rfl

/-- Only the size of a claim is refused, before anything is done. -/
theorem next_refused {pauses : List (Pause W)} {n : UInt64} {refusal : Refusal} {w w' : W}
    (h : next seq pauses n w = .ok (.error refusal) w') : w' = w := by
  cases hcheck : cap.checkClaim n with
  | error _ =>
    simp only [next, hcheck] at h
    exact (EStateM.Result.ok.inj h).2.symm
  | ok size =>
    simp only [next, hcheck] at h
    obtain ⟨_, _, -, hrest⟩ := Act.of_bind_ok h
    simp at hrest

/-- A claim that fits is admitted at once, whatever others would do in a wait. -/
theorem claim_eq (hseq : seq.Lawful) {w : W} {n : Int64}
    (start : -1 ≤ (seq.split w).1.claimed.toInt) (pos : 1 ≤ n.toInt)
    (word : (seq.split w).1.claimed.toInt + n.toInt + 1 < 2 ^ 63)
    (fits : (seq.split w).1.claimed.toInt + n.toInt ≤ (seq.split w).1.gating.toInt + cap.slots)
    (pauses : List (Pause W)) :
    claim seq pauses n w =
      .ok ((seq.split w).1.claimed + n)
        (seq.join ((seq.split w).1.admitted n) (seq.split w).2) := by
  rw [claim_asked hseq start pos (by omega)]
  set s := (seq.split w).1 with hs
  have hhigh := toInt_high cap s.claimed n start pos (by omega)
  have hwrap := toInt_wrapPoint cap s.claimed n start pos (by omega)
  have hasked : (seq.split (seq.join (s.asked n) (seq.split w).2)).1 = s.asked n :=
    hseq.split_join _ _
  by_cases hcached : (ticketAfter cap s.claimed n).wrapPoint ≤ s.cached
  · rw [if_pos hcached, admitted, if_pos hcached]
    rw [Int64.le_iff_toInt_le] at hcached
    have hredeem := redeem_eq (s.asked n) (ticketAfter cap s.claimed n) s.cached (by omega)
      (by omega)
    rw [Part.lift_ok (by rw [hasked]; exact hredeem), hseq.join_join]
    simp only [ticketAfter, granted_asked]
  · rw [if_neg hcached, admitted, if_neg hcached]
    rw [resume_reached hseq (by omega) (by omega) (by rw [hasked, gating_asked]; omega), hasked,
      hseq.join_join]
    simp only [gating_asked, ticketAfter, granted_withCached_asked]

end Waiting

end LapRing.Sequencer
