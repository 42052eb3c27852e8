import LapRing.Proofs.PostponedSends

/-!
# Calls that send

A producer offers a value, sends one, or sends a batch. Nobody else acts meanwhile: what
has room is sent at once, what is offered without room is refused, and what waits for room
waits for ever. A call that was accepted can be recorded without the world that its
items came from, and made again from the record. Calls that fit together are made one
after the other, and may all be put off until some slots are emptied and released.
-/
namespace LapRing

/-- What a call sends. -/
inductive SendCall (α L : Type)
  | offered (value : α)
  | sent (value : α)
  | batch (feed : Feed L α)

/-- The items of a batch of a given length, known beforehand. -/
def Feed.replay {α : Type} (length : UInt64) (items : List α) : Feed Unit α where
  length := length
  next k := pure items[k]?

/-- Items known beforehand are gathered as they are. -/
theorem Feed.gather_replay {α : Type} (length : UInt64) (items : List α) (k count : ℕ) :
    (Feed.replay length items).gather k count () = ⟨(items.drop k).take count, .ok (), ()⟩ := by
  induction count generalizing k with
  | zero => simp [gather]
  | succ count ih =>
    cases hitem : items[k]? with
    | none =>
      have hnext : (Feed.replay length items).next k () = .ok none () := by simp [replay, hitem]
      have hdrop : items.drop k = [] := List.drop_eq_nil_of_le (List.getElem?_eq_none_iff.mp hitem)
      simp only [gather, hnext, hdrop, List.take_nil]
    | some x =>
      obtain ⟨hk, rfl⟩ := List.getElem?_eq_some_iff.mp hitem
      have hnext : (Feed.replay length items).next k () = .ok (some items[k]) () := by
        simp [replay, hitem]
      simp only [gather, hnext, ih]
      rw [List.drop_eq_getElem_cons hk, List.take_succ_cons]

namespace Act
variable {W α : Type}

/-- What cuts the action short is something its callers raised. -/
def Raises (x : Act W α) : Prop := ∀ ⦃w h w'⦄, x w = .error h w' → ∃ text, h = .raised text

end Act

/-- A feed that only raises something ends with it or well. -/
theorem Feed.raised_of_gather {α L : Type} {feed : Feed L α} (h : ∀ k, (feed.next k).Raises)
    {k count : ℕ} {l : L} {e : Halt} (he : (feed.gather k count l).ending = .error e) :
    ∃ text, e = .raised text := by
  induction count generalizing k l with
  | zero => simp [gather] at he
  | succ count ih =>
    rw [gather] at he
    split at he
    · simp at he
    next hnext =>
      obtain rfl := Except.error.inj he
      exact h k hnext
    · exact ih he

namespace SendCall
variable {α L : Type}

/-- The call as the channel has it. -/
def call : SendCall α L → Call α L
  | .offered value => .tryPush value
  | .sent value => .push value
  | .batch feed => .pushBatch feed

/-- The number of sequences it claims. -/
def size : SendCall α L → UInt64
  | .offered _ | .sent _ => 1
  | .batch feed => feed.length

/-- The entries that it sends from the given world. -/
def entries (l : L) : SendCall α L → List (Option α)
  | .offered value | .sent value => [some value]
  | .batch feed => (feed.gather 0 feed.length.toNat l).entries feed.length.toNat

/-- It waits until it is accepted, if it can be. -/
def Waits : SendCall α L → Prop
  | .offered _ => False
  | .sent _ | .batch _ => True

/-- Its feed gives up only by raising something. -/
def Honest : SendCall α L → Prop
  | .offered _ | .sent _ => True
  | .batch feed => ∀ k, (feed.next k).Raises

/-- The same call without the world its items come from. -/
def recorded (l : L) : SendCall α L → SendCall α Unit
  | .offered value => .offered value
  | .sent value => .sent value
  | .batch feed => .batch (.replay feed.length (feed.gather 0 feed.length.toNat l).items)

@[simp] theorem size_recorded (l : L) (p : SendCall α L) : (p.recorded l).size = p.size := by
  cases p <;> rfl

@[simp] theorem waits_recorded (l : L) (p : SendCall α L) : (p.recorded l).Waits = p.Waits := by
  cases p <;> rfl

theorem honest_recorded (l : L) (p : SendCall α L) : (p.recorded l).Honest := by
  cases p with
  | offered value | sent value => trivial
  | batch feed =>
    intro k w h w' he
    simp [Feed.replay] at he

/-- A record sends the same entries. -/
theorem entries_recorded (l : L) (p : SendCall α L) : (p.recorded l).entries () = p.entries l := by
  cases p with
  | offered value | sent value => rfl
  | batch feed =>
    have hle := feed.length_items_gather 0 feed.length.toNat l
    change ((Feed.replay feed.length _).gather 0 feed.length.toNat ()).entries _ = _
    rw [Feed.gather_replay]
    simp only [Yield.entries, entries, Feed.replay, List.drop_zero, List.take_of_length_le hle]

/-- The number of sequences that calls claim together. -/
def total (ps : List (SendCall α L)) : ℕ := (ps.map fun p => p.size.toNat).sum

@[simp] theorem total_nil : total ([] : List (SendCall α L)) = 0 := rfl

theorem total_cons (p : SendCall α L) (ps : List (SendCall α L)) :
    total (p :: ps) = p.size.toNat + total ps := by
  simp [total]

theorem total_append (ps qs : List (SendCall α L)) : total (ps ++ qs) = total ps + total qs := by
  simp [total]

theorem pos_of_size (p : SendCall α L) (h : p.size ≠ 0) : 0 < p.size.toNat :=
  Nat.pos_of_ne_zero fun he => h (UInt64.toNat_inj.mp he)

/-- Whether a call that sends was accepted, by how it ended. A batch was if its feed
raised something. -/
def accepted : Except Halt (Answer α) → Bool
  | .ok (.tried (.ok _)) | .ok .pushed | .ok (.batch (.ok _)) | .error (.raised _) => true
  | _ => false

end SendCall

namespace Sequencer
variable {cap : Capacity} {W : Type}

/-- A claim without room waits for ever if nobody else acts. -/
theorem claim_stalled {seq : Part W (Sequencer cap)} (hseq : seq.Lawful) {w : W}
    {published : Set ℤ} (h : (seq.split w).1.Level published) {n : Int64} (pos : 1 ≤ n.toInt)
    (word : (seq.split w).1.cursor.toInt + n.toInt < 2 ^ 63)
    (full : (seq.split w).1.gating.toInt + cap.slots < (seq.split w).1.cursor.toInt + n.toInt) :
    claim seq [] n w = .error .stalled
      (seq.join (((seq.split w).1.asked n).count .waited) (seq.split w).2) := by
  have hstart := h.start_le
  have hgating := h.gating_le
  have hcached := h.standing.cached_le
  have hclaimed := h.claimed
  have hwrap := toInt_wrapPoint cap (seq.split w).1.claimed n (by rw [hclaimed]; omega) pos
    (by rw [hclaimed]; exact word)
  rw [hclaimed] at hwrap
  rw [claim_asked hseq (by rw [hclaimed]; omega) pos (by rw [hclaimed]; exact word) [], hclaimed,
    if_neg (by rw [Int64.le_iff_toInt_le]; omega)]
  have hasked := hseq.split_join ((seq.split w).1.asked n) (seq.split w).2
  rw [resume_stalled hseq, hasked, hseq.join_join]
  rw [hasked, gating_asked, Int64.le_iff_toInt_le]
  omega

end Sequencer

namespace Channel
variable {cap : Capacity} {α L : Type}

theorem withCached_cached (c : Channel cap α) : c.withCached c.ring.sequencer.cached = c := by
  simp [withCached, withSequencer]


/-- The channel after a call was accepted. -/
def afterSendCall (l : L) (p : SendCall α L) (c : Channel cap α) : Channel cap α :=
  if p.size = 0 then c else c.afterSend p.size.toInt64 (p.entries l)

theorem afterSendCall_recorded (l : L) (p : SendCall α L) (c : Channel cap α) :
    c.afterSendCall () (p.recorded l) = c.afterSendCall l p := by
  simp only [afterSendCall, SendCall.size_recorded, SendCall.entries_recorded]

section Serving
open Sequencer
variable {c : Channel cap α} {published : Set ℤ}

/-- A call that sends nothing is accepted, and nothing happens. -/
theorem serve_empty {p : SendCall α L} (hsize : p.size = 0) (c : Channel cap α) (l : L) :
    ∃ answer, (Channel.serve [] p.call).outcome (c, l) = (.ok answer, (c, l)) ∧
      SendCall.accepted (.ok answer) = true := by
  cases p with
  | offered value | sent value => simp [SendCall.size] at hsize
  | batch feed => exact ⟨_, Act.outcome_ok (Act.bind_ok (pushBatch_empty hsize [] c l)), rfl⟩

/-- What has room is sent. -/
theorem serve_fitting (h : c.ring.sequencer.Level published) {p : SendCall α L} (honest : p.Honest)
    (pos : 0 < p.size.toNat)
    (fits : c.ring.sequencer.cursor.toInt + p.size.toNat ≤
      c.ring.sequencer.gating.toInt + cap.slots)
    (room : c.ring.sequencer.gating.toInt + 2 * cap.slots < 2 ^ 63) (l : L) :
    ∃ ending l', (Channel.serve [] p.call).outcome (c, l) =
        (ending, (c.afterSend p.size.toInt64 (p.entries l), l')) ∧
      SendCall.accepted ending = true := by
  have hgating := h.gating_le
  cases p with
  | offered value =>
    have hone : (SendCall.offered value : SendCall α L).size.toNat = 1 := rfl
    have htry := (tryPush_eq h (by omega) value l).1 (by omega)
    exact ⟨_, l, Act.outcome_ok (Act.bind_ok htry), rfl⟩
  | sent value =>
    have hone : (SendCall.sent value : SendCall α L).size.toNat = 1 := rfl
    have hpush := push_eq h (by omega) (by omega) [] value l
    exact ⟨_, l, Act.outcome_ok (Act.bind_ok hpush), rfl⟩
  | batch feed =>
    change 0 < feed.length.toNat at pos
    change _ + (feed.length.toNat : ℤ) ≤ _ at fits
    have hbatch := pushBatch_eq h feed pos (by omega) fits (by omega) [] l
    cases hending : (feed.gather 0 feed.length.toNat l).ending with
    | ok u =>
      rw [hending] at hbatch
      exact ⟨_, _, Act.outcome_ok (Act.bind_ok hbatch), rfl⟩
    | error e =>
      obtain ⟨text, rfl⟩ := Feed.raised_of_gather honest hending
      rw [hending] at hbatch
      exact ⟨_, _, Act.outcome_error (Act.bind_error hbatch), rfl⟩

/-- The channel in which a producer waits for room for `n` entries. -/
def waiting (n : Int64) (c : Channel cap α) : Channel cap α :=
  c.withSequencer ((c.ring.sequencer.asked n).count .waited)

theorem gating_waiting (n : Int64) (c : Channel cap α) :
    (c.waiting n).ring.sequencer.gating = c.ring.sequencer.gating :=
  gating_asked n c.ring.sequencer

theorem claim_stalled_here (h : c.ring.sequencer.Level published) {n : Int64} (pos : 1 ≤ n.toInt)
    (word : c.ring.sequencer.cursor.toInt + n.toInt < 2 ^ 63)
    (full : c.ring.sequencer.gating.toInt + cap.slots < c.ring.sequencer.cursor.toInt + n.toInt)
    (l : L) : Sequencer.claim hereSequencer [] n (c, l) = .error .stalled (c.waiting n, l) :=
  claim_stalled lawful_hereSequencer (w := (c, l)) h pos word full

/-- What has no room is refused, and at most the value of gating is remembered, or
it waits for ever. -/
theorem serve_full (h : c.ring.sequencer.Level published) {p : SendCall α L}
    (pos : 0 < p.size.toNat)
    (full : c.ring.sequencer.gating.toInt + cap.slots <
      c.ring.sequencer.cursor.toInt + p.size.toNat)
    (room : c.ring.sequencer.cursor.toInt + 2 * cap.slots < 2 ^ 63) (l : L) :
    (∃ answer seen, (seen = c.ring.sequencer.cached ∨ seen = c.ring.sequencer.gating) ∧
      (Channel.serve [] p.call).outcome (c, l) = (.ok answer, (c.withCached seen, l)) ∧
      SendCall.accepted (.ok answer) = false) ∨
    (Channel.serve [] p.call).outcome (c, l) =
      (.error .stalled, (c.waiting p.size.toInt64, l)) ∧ p.Waits := by
  have hslots := cap.one_le_slots
  cases p with
  | offered value =>
    have hone : (SendCall.offered value : SendCall α L).size.toNat = 1 := rfl
    have htry := (tryPush_eq h (by omega) value l).2 (by omega)
    exact .inl ⟨_, _, .inr rfl, Act.outcome_ok (Act.bind_ok htry), rfl⟩
  | sent value =>
    have hone : (1 : Int64).toInt = 1 := by decide
    change _ < _ + (1 : ℤ) at full
    have hclaim := claim_stalled_here h (n := 1) (by omega) (by omega) (by omega) l
    have hpush : push here [] value (c, l) = .error .stalled (c.waiting 1, l) :=
      Act.bind_error hclaim
    exact .inr ⟨Act.outcome_error (Act.bind_error hpush), trivial⟩
  | batch feed =>
    change 0 < feed.length.toNat at pos
    change _ < _ + (feed.length.toNat : ℤ) at full
    by_cases hlong : cap.slots < feed.length.toNat
    · have hbatch := pushBatch_tooLong hlong [] c l
      refine .inl ⟨.batch (.error (.invalidClaim feed.length cap.word)), _, .inl rfl, ?_, rfl⟩
      rw [withCached_cached]
      exact Act.outcome_ok (Act.bind_ok hbatch)
    · have hn : feed.length.toInt64.toInt = feed.length.toNat := cap.toInt_toInt64 (by omega)
      have hzero : feed.length ≠ 0 := by
        intro he
        simp [he] at pos
      have hclaim := claim_stalled_here h (n := feed.length.toInt64) (by omega) (by omega)
        (by omega) l
      have hnext : Sequencer.next hereSequencer [] feed.length (c, l) =
          .error .stalled (c.waiting feed.length.toInt64, l) := by
        simp only [Sequencer.next, cap.checkClaim_ok pos (by omega)]
        exact Act.bind_error hclaim
      have hbatch : pushBatch here [] (outerFeed feed) (c, l) =
          .error .stalled (c.waiting feed.length.toInt64, l) := by
        rw [pushBatch, length_outerFeed, if_neg hzero]
        exact Act.bind_error (Act.bind_error hnext)
      exact .inr ⟨Act.outcome_error (Act.bind_error hbatch), trivial⟩

end Serving

/-! ## One call after the other -/

/-- The channel after recorded calls were accepted in their order. -/
def afterSendCalls : List (SendCall α Unit) → Channel cap α → Channel cap α
  | [], c => c
  | p :: ps, c => afterSendCalls ps (c.afterSendCall () p)

/-- Either there is room for all that the calls send or they send nothing. -/
def Fits (ps : List (SendCall α Unit)) (c : Channel cap α) : Prop :=
  SendCall.total ps = 0 ∨
    c.ring.sequencer.cursor.toInt + SendCall.total ps ≤ c.ring.sequencer.gating.toInt + cap.slots

theorem afterSendCalls_snoc (ps : List (SendCall α Unit)) (p : SendCall α Unit)
    (c : Channel cap α) :
    c.afterSendCalls (ps ++ [p]) = (c.afterSendCalls ps).afterSendCall () p := by
  induction ps generalizing c with
  | nil => rfl
  | cons q ps ih => exact ih (c.afterSendCall () q)

theorem poller_afterSendCall (l : L) (p : SendCall α L) (c : Channel cap α) :
    (c.afterSendCall l p).ring.poller = c.ring.poller := by
  unfold afterSendCall
  split
  · rfl
  · exact poller_afterSend _ _ c

theorem poller_afterSendCalls (ps : List (SendCall α Unit)) (c : Channel cap α) :
    (c.afterSendCalls ps).ring.poller = c.ring.poller := by
  induction ps generalizing c with
  | nil => rfl
  | cons p ps ih => exact (ih (c.afterSendCall () p)).trans (poller_afterSendCall () p c)

theorem alike_afterSendCall {c c' : Channel cap α} (h : c.Alike c') (l : L) (p : SendCall α L) :
    (c.afterSendCall l p).Alike (c'.afterSendCall l p) := by
  unfold afterSendCall
  split
  · exact h
  · exact alike_afterSend h _ _

theorem alike_afterSendCalls {c c' : Channel cap α} (h : c.Alike c') (ps : List (SendCall α Unit)) :
    (c.afterSendCalls ps).Alike (c'.afterSendCalls ps) := by
  induction ps generalizing c c' with
  | nil => exact h
  | cons p ps ih => exact ih (alike_afterSendCall h () p)

/-- A window may be released before the calls are made. -/
theorem released_afterSendCalls (win : Window) (ps : List (SendCall α Unit)) (c : Channel cap α) :
    ((c.afterSendCalls ps).released win).Alike ((c.released win).afterSendCalls ps) := by
  induction ps generalizing c with
  | nil => rfl
  | cons p ps ih =>
    have hone : ((c.afterSendCall () p).released win).Alike
        ((c.released win).afterSendCall () p) := by
      unfold afterSendCall
      split
      · rfl
      · exact released_afterSend win _ _ c
    exact (ih (c.afterSendCall () p)).trans (alike_afterSendCalls hone ps)

section Fitting
open Sequencer
variable {c : Channel cap α} {published : Set ℤ}

/-- A call that fits moves the cursor on, and keeps the sequencer level. -/
theorem level_afterSendCall (h : c.ring.sequencer.Level published) {p : SendCall α L}
    (fits : p.size = 0 ∨ c.ring.sequencer.cursor.toInt + p.size.toNat ≤
      c.ring.sequencer.gating.toInt + cap.slots)
    (room : c.ring.sequencer.gating.toInt + 2 * cap.slots < 2 ^ 63) (l : L) :
    (c.afterSendCall l p).ring.sequencer.gating = c.ring.sequencer.gating ∧
      (c.afterSendCall l p).ring.sequencer.cursor.toInt =
        c.ring.sequencer.cursor.toInt + p.size.toNat ∧
      ∃ published', published ⊆ published' ∧
        (c.afterSendCall l p).ring.sequencer.Level published' := by
  by_cases hsize : p.size = 0
  · rw [afterSendCall, if_pos hsize]
    exact ⟨rfl, by simp [hsize], published, Set.Subset.rfl, h⟩
  · have hfits := fits.resolve_left hsize
    have hgating := h.gating_le
    have hpos : 0 < p.size.toNat := p.pos_of_size hsize
    have hsame : p.size.toInt64.toInt = p.size.toNat := cap.toInt_toInt64 (by omega)
    obtain ⟨hcursor, hlevel⟩ := h.sent (n := p.size.toInt64) (by omega) (by omega) (by omega)
    rw [afterSendCall, if_neg hsize, sequencer_afterSend]
    exact ⟨gating_sent _ _, by rw [hcursor, hsame], hlevel⟩

/-- A call that fits keeps away from a slot that is not released yet. -/
theorem empty_afterSendCall (h : c.ring.sequencer.Level published) {p : SendCall α L}
    (fits : p.size = 0 ∨ c.ring.sequencer.cursor.toInt + p.size.toNat ≤
      c.ring.sequencer.gating.toInt + cap.slots)
    (room : c.ring.sequencer.gating.toInt + 2 * cap.slots < 2 ^ 63) {s : Int64}
    (lo : c.ring.sequencer.gating.toInt < s.toInt) (le : s.toInt ≤ c.ring.sequencer.cursor.toInt)
    (l : L) :
    (c.afterSendCall l p).empty s = (c.empty s).afterSendCall l p ∧
      (c.afterSendCall l p).ring.slots.read s = c.ring.slots.read s := by
  by_cases hsize : p.size = 0
  · simp [afterSendCall, hsize]
  · have hfits := fits.resolve_left hsize
    have hgating := h.gating_le
    have hpos : 0 < p.size.toNat := p.pos_of_size hsize
    have hsame : p.size.toInt64.toInt = p.size.toNat := cap.toInt_toInt64 (by omega)
    have hne : ∀ t ∈ (nextWindow c.ring.sequencer p.size.toInt64).sequences,
        cap.slot s ≠ cap.slot t := by
      intro t ht
      have hmem := Window.mem_sequences.mp ht
      rw [h.toInt_first (by omega) (by omega), h.toInt_last (by omega) (by omega)] at hmem
      refine cap.slot_ne ?_ (by omega) (by omega)
      rintro rfl
      omega
    simp only [afterSendCall, if_neg hsize]
    exact ⟨empty_afterSend hne _, read_afterSend hne _⟩

/-- What fits together fits one by one. -/
theorem Fits.of_cons {p : SendCall α Unit} {ps : List (SendCall α Unit)} (h : c.Fits (p :: ps)) :
    p.size = 0 ∨ c.ring.sequencer.cursor.toInt + p.size.toNat ≤
      c.ring.sequencer.gating.toInt + cap.slots := by
  simp only [Fits, SendCall.total_cons] at h
  rcases h with hnone | hfits
  · exact .inl (UInt64.toNat_inj.mp (show p.size.toNat = 0 by omega))
  · exact .inr (by omega)

theorem Fits.tail {p : SendCall α Unit} {ps : List (SendCall α Unit)} (h : c.Fits (p :: ps))
    {c' : Channel cap α} (gating : c'.ring.sequencer.gating = c.ring.sequencer.gating)
    (cursor : c'.ring.sequencer.cursor.toInt = c.ring.sequencer.cursor.toInt + p.size.toNat) :
    c'.Fits ps := by
  simp only [Fits, SendCall.total_cons, gating, cursor] at h ⊢
  omega

/-- Calls that fit together keep the sequencer level. -/
theorem level_afterSendCalls {ps : List (SendCall α Unit)} (h : c.ring.sequencer.Level published)
    (fits : c.Fits ps) (room : c.ring.sequencer.gating.toInt + 2 * cap.slots < 2 ^ 63) :
    (c.afterSendCalls ps).ring.sequencer.gating = c.ring.sequencer.gating ∧
      (c.afterSendCalls ps).ring.sequencer.cursor.toInt =
        c.ring.sequencer.cursor.toInt + SendCall.total ps ∧
      ∃ published', published ⊆ published' ∧
        (c.afterSendCalls ps).ring.sequencer.Level published' := by
  induction ps generalizing c published with
  | nil => exact ⟨rfl, by simp [afterSendCalls], published, Set.Subset.rfl, h⟩
  | cons p ps ih =>
    obtain ⟨hgating, hcursor, published', hmore, hlevel⟩ :=
      level_afterSendCall h fits.of_cons room ()
    obtain ⟨hgating', hcursor', published'', hmore', hlevel'⟩ :=
      ih hlevel (fits.tail hgating hcursor) (by rw [hgating]; exact room)
    refine ⟨hgating'.trans hgating, ?_, published'', hmore.trans hmore', hlevel'⟩
    rw [afterSendCalls, hcursor', hcursor, SendCall.total_cons]
    omega

/-- Calls that fit together keep away from a slot that is not released yet. -/
theorem empty_afterSendCalls {ps : List (SendCall α Unit)} (h : c.ring.sequencer.Level published)
    (fits : c.Fits ps) (room : c.ring.sequencer.gating.toInt + 2 * cap.slots < 2 ^ 63) {s : Int64}
    (lo : c.ring.sequencer.gating.toInt < s.toInt)
    (le : s.toInt ≤ c.ring.sequencer.cursor.toInt) :
    (c.afterSendCalls ps).empty s = (c.empty s).afterSendCalls ps ∧
      (c.afterSendCalls ps).ring.slots.read s = c.ring.slots.read s := by
  induction ps generalizing c published with
  | nil => exact ⟨rfl, rfl⟩
  | cons p ps ih =>
    obtain ⟨hgating, hcursor, published', -, hlevel⟩ := level_afterSendCall h fits.of_cons room ()
    obtain ⟨hempty, hread⟩ := empty_afterSendCall h fits.of_cons room lo le ()
    obtain ⟨hempties, hreads⟩ := ih hlevel (fits.tail hgating hcursor) (by rw [hgating]; exact room)
      (by rw [hgating]; exact lo) (by omega)
    rw [hempty] at hempties
    exact ⟨hempties, hreads.trans hread⟩

/-- A call that fits is accepted. -/
theorem serve_accepting (h : c.ring.sequencer.Level published) {p : SendCall α L}
    (honest : p.Honest) (fits : p.size = 0 ∨ c.ring.sequencer.cursor.toInt + p.size.toNat ≤
      c.ring.sequencer.gating.toInt + cap.slots)
    (room : c.ring.sequencer.gating.toInt + 2 * cap.slots < 2 ^ 63) (l : L) :
    ∃ ending l', (Channel.serve [] p.call).outcome (c, l) = (ending, (c.afterSendCall l p, l')) ∧
      SendCall.accepted ending = true := by
  by_cases hsize : p.size = 0
  · obtain ⟨answer, hserve, haccepted⟩ := serve_empty hsize c l
    refine ⟨.ok answer, l, ?_, haccepted⟩
    rw [hserve, afterSendCall, if_pos hsize]
  · obtain ⟨ending, l', hserve, haccepted⟩ := serve_fitting h honest (p.pos_of_size hsize)
      (fits.resolve_left hsize) room l
    refine ⟨ending, l', ?_, haccepted⟩
    rw [hserve, afterSendCall, if_neg hsize]

/-- Recorded calls that fit together are all accepted, one after the other. -/
theorem serveAll_sendCalls {ps : List (SendCall α Unit)} (honest : ∀ p ∈ ps, p.Honest)
    (h : c.ring.sequencer.Level published) (fits : c.Fits ps)
    (room : c.ring.sequencer.gating.toInt + 2 * cap.slots < 2 ^ 63) :
    ∃ endings, serveAll (Channel.serve []) (ps.map SendCall.call) (c, ()) =
        (endings, (c.afterSendCalls ps, ())) ∧
        ∀ ending ∈ endings, SendCall.accepted ending = true := by
  induction ps generalizing c published with
  | nil => exact ⟨[], rfl, by simp⟩
  | cons p ps ih =>
    obtain ⟨hp, hps⟩ := List.forall_mem_cons.mp honest
    obtain ⟨hgating, hcursor, published', -, hlevel⟩ := level_afterSendCall h fits.of_cons room ()
    obtain ⟨ending, _, hserve, haccepted⟩ := serve_accepting h hp fits.of_cons room ()
    obtain ⟨endings, hrest, hall⟩ := ih hps hlevel (fits.tail hgating hcursor)
      (by rw [hgating]; exact room)
    refine ⟨ending :: endings, ?_, List.forall_mem_cons.mpr ⟨haccepted, hall⟩⟩
    simp only [List.map_cons, serveAll, hserve, hrest, afterSendCalls]

end Fitting

end Channel

end LapRing
