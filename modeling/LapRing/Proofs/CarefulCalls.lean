import LapRing.Proofs.CarefulActions
import LapRing.Proofs.PollFrame

/-!
# Claims, publications and polls are careful

A claim moves the last sequence claimed away from the items published, and its
publication brings both together again, whatever careful actions others take in between:
a sole producer is alone at it, and shared producers have their sequences since they
asked. A poll counts what it releases, and it releases what it has opened. The positions
are words with room to spare while few sequences are claimed, so that no sum overflows
and no check fails.
-/
namespace LapRing
open Sequencer

/-- The size of a window right after gating, as an unsigned word. -/
theorem Checked.toUInt64_after (last gating : Int64) :
    (last - (gating + 1) + 1).toUInt64 = last.toUInt64 - gating.toUInt64 := by
  rw [← Int64.toUInt64_sub]
  congr 1
  grind

namespace Sequencer
variable {cap : Capacity} (s : Sequencer cap)

theorem uncounted_count (f : Tally → Tally) : s.uncounted.count f = (s.count f).uncounted := rfl

theorem uncounted_withCached (seen : Int64) :
    s.uncounted.withCached seen = (s.withCached seen).uncounted := by
  obtain ⟨_, _, _ | _, _⟩ := s <;> rfl

theorem uncounted_withClaimed (high : Int64) :
    s.uncounted.withClaimed high = (s.withClaimed high).uncounted := by
  obtain ⟨_, _, _ | _, _⟩ := s <;> rfl

theorem uncounted_asked (n : Int64) : s.uncounted.asked n = (s.asked n).uncounted := by
  obtain ⟨_, _, _ | _, _⟩ := s <;> rfl

theorem uncounted_granted (high : Int64) :
    s.uncounted.granted high = (s.granted high).uncounted := by
  obtain ⟨_, _, _ | _, _⟩ := s <;> rfl

/-- An attempt takes the next sequences, after a look at gating or without, or it fails. -/
theorem attempted_cases (n : Int64) :
    s.attempted n = (some (s.claimed + n), s.withClaimed (s.claimed + n)) ∨
      s.attempted n =
        (some (s.claimed + n), (s.withCached s.gating).withClaimed (s.claimed + n)) ∨
      s.attempted n = (none, s.withCached s.gating) := by
  unfold attempted
  dsimp only [ticketAfter]
  by_cases hcached : s.claimed + n - cap.span ≤ s.cached
  · exact Or.inl (if_pos hcached)
  · rw [if_neg hcached]
    by_cases hgating : s.claimed + n - cap.span ≤ s.gating
    · exact Or.inr (Or.inl (if_pos hgating))
    · exact Or.inr (Or.inr (if_neg hgating))

theorem uncounted_attempted (n : Int64) :
    s.uncounted.attempted n = ((s.attempted n).1, (s.attempted n).2.uncounted) := by
  have hcached : s.uncounted.cached = s.cached := rfl
  have hclaimed : s.uncounted.claimed = s.claimed := rfl
  have hgating : s.uncounted.gating = s.gating := rfl
  unfold attempted
  simp only [hcached, hclaimed, hgating, uncounted_withCached, uncounted_withClaimed]
  split
  · rfl
  · split <;> rfl

theorem uncounted_afterPublish (low high : Int64) :
    s.uncounted.afterPublish low high = (s.afterPublish low high).uncounted := by
  obtain ⟨_, _, _ | _, _⟩ := s <;> rfl

end Sequencer

namespace RingView
variable {cap : Capacity} {settings : Settings} {d : FreeHandles} {owed : ℤ}
  {v u : RingView cap}

def asked (n : Int64) (v : RingView cap) : RingView cap :=
  { v with sequencer := v.sequencer.asked n }

def granted (high : Int64) (v : RingView cap) : RingView cap :=
  { v with sequencer := v.sequencer.granted high }

/-- A claim of `n` was granted up to `high`. -/
structure Granted (n high : Int64) (v : RingView cap) : Prop where
  size_le : n.toInt ≤ high.toInt + 1
  high_le : high.toInt ≤ v.sequencer.claimed.toInt
  sole : v.sequencer.producer = .single → v.sequencer.claimed = high

/-- A window that was claimed and is to be published. -/
structure Due (win : Window) (v : RingView cap) : Prop where
  start : 0 ≤ win.first.toInt
  le : win.first.toInt ≤ win.last.toInt
  last_le : win.last.toInt ≤ v.sequencer.claimed.toInt
  sole : v.sequencer.producer = .single → v.sequencer.claimed = win.last

/-- What is due stays due while others act. -/
theorem Due.keep {win : Window} (h : Due win v)
    (sane : v.Sane settings (d.sending settings.producer) owed)
    (sane' : u.Sane settings (d.sending settings.producer) owed)
    (kept : Kept (d.sending settings.producer) v u) : Due win u := by
  have hkind := sane.producer.trans sane'.producer.symm
  rcases v.sequencer.shared_or_single with hshared | hsole
  · have hcursor := kept.cursor_le
    rw [cursor_of_shared hshared, cursor_of_shared (hkind.symm.trans hshared)] at hcursor
    exact ⟨h.start, h.le, h.last_le.trans hcursor, fun hs => by simp [← hkind, hshared] at hs⟩
  · have hspare : (d.sending settings.producer).producers = false := by
      simp [FreeHandles.sending, ← sane.producer, hsole]
    have hclaimed := (kept.producing hspare).1
    exact ⟨h.start, h.le, by rw [hclaimed]; exact h.last_le,
      fun _ => by rw [hclaimed, h.sole hsole]⟩

theorem Granted.due {n high : Int64} (h : Granted n high v) (pos : 1 ≤ n.toInt)
    (room : high.toInt < 2 ^ 63) : Due ⟨high - (n - 1), high⟩ v := by
  have hsize := h.size_le
  have hless : (n - 1).toInt = n.toInt - 1 := Checked.toInt_pred (by omega)
  have hfirst : (high - (n - 1)).toInt = high.toInt - (n.toInt - 1) := by
    rw [Checked.toInt_sub (by omega) (by omega), hless]
  refine ⟨?_, ?_, h.high_le, h.sole⟩
  · change 0 ≤ (high - (n - 1)).toInt
    omega
  · change (high - (n - 1)).toInt ≤ high.toInt
    omega

section Claiming
variable {n : Int64} (pos : 1 ≤ n.toInt)
include pos

/-- Taking the next `n` sequences, while a producer is free to do so. -/
theorem moved_withClaimed (hd : d.producers = true)
    (h : v.Sane settings (d.sending settings.producer) owed)
    (hnext : (v.sequencer.claimed + n).toInt = v.sequencer.claimed.toInt + n.toInt) (more : ℤ)
    (noted : v.sequencer.claimed.toInt + n.toInt < v.ledger.claims + more) :
    Moved settings quiet d (d.sending settings.producer) more (Balance.claim n.toUInt64) v none
      { v with sequencer := v.sequencer.withClaimed (v.sequencer.claimed + n) } := by
  have hle := h.cursor_le
  have hcursor : v.sequencer.cursor.toInt ≤
        (v.sequencer.withClaimed (v.sequencer.claimed + n)).cursor.toInt ∧
      (v.sequencer.withClaimed (v.sequencer.claimed + n)).cursor.toInt ≤
        v.sequencer.claimed.toInt + n.toInt ∧
      ((d.sending settings.producer).producers = true →
        v.sequencer.claimed + n = (v.sequencer.withClaimed (v.sequencer.claimed + n)).cursor) := by
    rcases v.sequencer.shared_or_single with hshared | hsole
    · have hmoved := cursor_of_shared
        (s := v.sequencer.withClaimed (v.sequencer.claimed + n)) (by simpa using hshared)
      rw [claimed_withClaimed] at hmoved
      rw [hmoved, hnext]
      exact ⟨by omega, by omega, fun _ => rfl⟩
    · rw [cursor_withClaimed hsole]
      refine ⟨by omega, by omega, fun hfree => ?_⟩
      simp [FreeHandles.sending, ← h.producer, hsole] at hfree
  constructor
  · refine h.forward (by simp) (by simp) hcursor.1 ?_ ?_ ?_
    · rw [claimed_withClaimed, hnext]
      exact hcursor.2.1
    · rw [claimed_withClaimed, hnext]
      exact noted
    · rw [claimed_withClaimed]
      exact hcursor.2.2
  · refine ⟨le_refl _, hcursor.1, fun hnot => ?_, fun _ => ⟨by simp, rfl⟩⟩
    simp [hd] at hnot
  · intro _
    simp only [balance, tally_withClaimed, claimed_withClaimed, gating_withClaimed, Option.map_map]
    congr 1
    funext t
    simp only [Function.comp_apply, Balance.claim, Int64.toUInt64_add]
    congr 1
    grind
  · simp

variable (h : v.Sane settings d (-n.toInt)) (few : v.Few) (hd : d.producers = true)
include h few

theorem toInt_next : (v.sequencer.claimed + n).toInt = v.sequencer.claimed.toInt + n.toInt := by
  have hlo := h.claimed_ge
  have hhi := h.claimed_few few
  exact Checked.toInt_add (by omega) (by omega)

include hd

/-- Shared producers have their sequences once they asked for them. -/
theorem moved_asked :
    Moved settings quiet d d 0
      (if settings.producer = .single then id else Balance.claim n.toUInt64) v none
      (v.asked n) := by
  have hlt := h.claimed_lt
  rcases v.sequencer.shared_or_single with hshared | hsole
  · have hasked : v.asked n =
        { v with sequencer := v.sequencer.withClaimed (v.sequencer.claimed + n) } := by
      simp only [asked, Sequencer.asked, hshared]
    rw [hasked, if_neg (by rw [← h.producer, hshared]; simp)]
    have hmoved := moved_withClaimed pos hd h.sending (toInt_next pos h few) 0 (by omega)
    exact hmoved.resane (hmoved.sane.of_shared (by simpa using hshared) d)
  · have hsame : v.asked n = v := by
      unfold asked
      rw [asked_single hsole]
    rw [hsame, if_pos (by rw [← h.producer, hsole])]
    exact ⟨h.owe (by omega), .refl v, fun _ => by simp, by simp⟩

/-- A claim is granted after what others did, and only that of a sole producer moves. -/
theorem moved_granted
    (hu : Moved settings quiet (d.sending settings.producer) (d.sending settings.producer) 0 id
      (v.asked n) none u) :
    Moved settings quiet d (d.sending settings.producer) 0 (Balance.claim n.toUInt64) v none
        (u.granted (v.sequencer.claimed + n)) ∧
      Granted n (v.sequencer.claimed + n) (u.granted (v.sequencer.claimed + n)) := by
  have hnext := toInt_next pos h few
  have hlo := h.claimed_ge
  have hasked := moved_asked pos h few hd
  have hkind := hu.sane.producer
  rcases u.sequencer.shared_or_single with hshared | hsole
  · have hsame : u.granted (v.sequencer.claimed + n) = u := by
      unfold granted
      rw [granted_shared hshared]
    have hv : v.sequencer.producer = .multi := by rw [h.producer, ← hkind, hshared]
    have hv' : (v.asked n).sequencer.producer = .multi := by simpa [asked] using hv
    have hcursor := hu.kept.cursor_le
    rw [cursor_of_shared hshared, cursor_of_shared hv'] at hcursor
    rw [if_neg (by rw [← hkind, hshared]; simp)] at hasked
    rw [hsame]
    refine ⟨hasked.trans (hu.keep Kept.sending), by omega, ?_, fun hs => by simp [hshared] at hs⟩
    rwa [show (v.asked n).sequencer.claimed = _ from claimed_asked_shared hv n] at hcursor
  · have hv : v.sequencer.producer = .single := by rw [h.producer, ← hkind, hsole]
    have hsame : v.asked n = v := by
      unfold asked
      rw [asked_single hv]
    have hspare : (d.sending settings.producer).producers = false := by
      simp [FreeHandles.sending, ← hkind, hsole]
    rw [hsame] at hu
    have hclaimed := (hu.kept.producing hspare).1
    have hclaims := hu.kept.claims_le
    have hlt := h.claimed_lt
    have hgranted : u.granted (v.sequencer.claimed + n) =
        { u with sequencer := u.sequencer.withClaimed (u.sequencer.claimed + n) } := by
      unfold granted
      rw [granted_single hsole, hclaimed]
    rw [hgranted]
    have hmoved := moved_withClaimed pos hd hu.sane
      (by rw [hclaimed]; exact hnext) 0 (by rw [hclaimed]; omega)
    refine ⟨(hu.keep Kept.sending).trans hmoved, by omega, ?_, fun _ => ?_⟩
    · simp only [claimed_withClaimed, hclaimed, le_refl]
    · simp only [claimed_withClaimed, hclaimed]

end Claiming

theorem moved_withCached (h : v.Sane settings d owed) (seen : Int64) :
    Moved settings quiet d d owed id v none
      { v with sequencer := v.sequencer.withCached seen } where
  sane := h.withCached seen
  kept := ⟨le_refl _, by simp, fun _ => by simp, fun _ => by simp⟩
  balance _ := by simp [balance]
  fair := nofun

/-- A count moves the balance and nothing else. -/
theorem moved_count {f : Tally → Tally} {shift : Balance → Balance} (h : v.Sane settings d owed)
    (moves : ({ v with sequencer := v.sequencer.count f } : RingView cap).balance =
      v.balance.map shift) :
    Moved settings quiet d d owed shift v none { v with sequencer := v.sequencer.count f } where
  sane := h.count _
  kept := ⟨le_refl _, by simp, fun _ => by simp, fun _ => by simp⟩
  balance _ := moves
  fair := nofun

theorem moved_waited (h : v.Sane settings d owed) :
    Moved settings quiet d d owed id v none
      { v with sequencer := v.sequencer.count .waited } := by
  refine moved_count h ?_
  simp only [balance, Sequencer.count, Option.map_map]
  rfl

theorem moved_published (hd : d.producers = true) {win : Window}
    (h : v.Sane settings (d.sending settings.producer) owed) (due : Due win v) :
    Moved settings quiet d d owed (Balance.publish (win.last - win.first + 1).toUInt64) v none
      { v with sequencer := v.sequencer.afterPublish win.first win.last } := by
  have hcursor : v.sequencer.cursor.toInt ≤
        (v.sequencer.afterPublish win.first win.last).cursor.toInt ∧
      (v.sequencer.afterPublish win.first win.last).cursor = v.sequencer.claimed := by
    rcases v.sequencer.shared_or_single with hshared | hsole
    · rw [cursor_afterPublish_shared _ _ _ hshared]
      exact ⟨le_refl _, cursor_of_shared hshared⟩
    · rw [cursor_afterPublish_single _ _ _ hsole, ← due.sole hsole]
      exact ⟨h.cursor_le, rfl⟩
  constructor
  · refine h.forward (by simp) (by simp) hcursor.1 ?_ (by simpa using h.claimed_lt) fun _ => ?_
    · rw [hcursor.2, claimed_afterPublish]
    · rw [hcursor.2, claimed_afterPublish]
  · refine ⟨le_refl _, hcursor.1, fun hnot => ?_, fun _ => ⟨by simp, rfl⟩⟩
    simp [hd] at hnot
  · intro _
    have htally : (v.sequencer.afterPublish win.first win.last).tally =
        v.sequencer.tally.map (.published (win.last - win.first + 1).toUInt64) := by
      obtain ⟨⟨_, _, _ | _, _⟩, _, _⟩ := v <;> rfl
    simp only [balance, htally, claimed_afterPublish, gating_afterPublish, Option.map_map]
    congr 1
    funext t
    simp only [Function.comp_apply, Balance.publish, Tally.published]
    congr 1
    grind
  · simp

/-- A window that was opened and is to be released. -/
structure Opened (win : Window) (v : RingView cap) : Prop where
  start : 0 ≤ win.first.toInt
  le : win.first.toInt ≤ win.last.toInt
  last_le : win.last.toInt ≤ v.sequencer.cursor.toInt
  sole : v.poller.consumer = .single → win.first.toInt = v.sequencer.gating.toInt + 1

/-- What is opened stays open while others act. -/
theorem Opened.keep {win : Window} (h : Opened win v)
    (sane : v.Sane settings (d.receiving settings.consumer) owed)
    (kept : Kept (d.receiving settings.consumer) v u)
    (sane' : u.Sane settings (d.receiving settings.consumer) owed) : Opened win u := by
  refine ⟨h.start, h.le, h.last_le.trans kept.cursor_le, fun hsole => ?_⟩
  have hkind := sane.consumer.trans sane'.consumer.symm
  have hspare : (d.receiving settings.consumer).consumers = false := by
    simp [FreeHandles.receiving, ← sane'.consumer, hsole]
  rw [(kept.consuming hspare).1]
  exact h.sole (hkind.trans hsole)

theorem moved_idle (h : v.Sane settings d owed) :
    Moved settings quiet d d owed Balance.rest v none
      { v with sequencer := v.sequencer.count .idle } := by
  refine moved_count h ?_
  simp only [balance, Sequencer.count, Option.map_map]
  congr 1
  funext t
  simp only [Function.comp_apply, Balance.rest, Tally.idle]
  congr 1
  grind

theorem moved_failed (h : v.Sane settings d owed) :
    Moved settings quiet d d owed Balance.reject v none
      { v with sequencer := v.sequencer.count .failed } := by
  refine moved_count h ?_
  simp only [balance, Sequencer.count, Option.map_map]
  congr 1
  funext t
  simp only [Function.comp_apply, Balance.reject, Tally.failed]
  congr 1
  grind

/-- The position of competing consumers moves over a window they open. -/
theorem moved_opened (hd : d.consumers = true) {win : Window} (h : v.Sane settings d owed)
    (open_ : Opened win v) :
    Moved settings quiet d (d.receiving settings.consumer) owed id v none
        { v with poller := v.poller.claim win } ∧
      Opened win { v with poller := v.poller.claim win } := by
  have hstart := open_.start
  have hle := open_.le
  have hposition := v.poller.position_claim win v.sequencer
  have hlow := h.position
  constructor
  · constructor
    · refine ⟨h.producer, ?_, h.start_le, h.gating_le, ?_, ?_, h.cursor_le, h.claimed_lt, h.level⟩
      · rw [Poller.consumer_claim]
        exact h.consumer
      · rw [hposition]
        split <;> omega
      · rw [hposition]
        split
        · exact h.position_le
        · exact open_.last_le
    · refine ⟨le_refl _, le_refl _, fun _ => ⟨rfl, rfl⟩, fun hnot => ?_⟩
      simp [hd] at hnot
    · intro _
      rw [Option.map_id]
      rfl
    · simp
  · refine ⟨hstart, hle, open_.last_le, fun hsole => open_.sole ?_⟩
    rwa [Poller.consumer_claim] at hsole

theorem moved_released (hd : d.consumers = true) {win : Window}
    (h : v.Sane settings (d.receiving settings.consumer) owed) (opened : Opened win v)
    (turn : win.first.toInt = v.sequencer.gating.toInt + 1) :
    Moved settings quiet d d owed Balance.work v none
      { v with sequencer := Poller.afterRelease win v.sequencer } := by
  have hstart := opened.start
  have hle := opened.le
  have hposition := v.poller.position_afterRelease win v.sequencer
  have hlow := h.position
  constructor
  · refine ⟨h.producer, h.consumer, ?_, opened.last_le, ?_, ?_, h.cursor_le, h.claimed_lt, h.level⟩
    · change -1 ≤ win.last.toInt
      omega
    · rw [hposition]
      split <;> omega
    · rw [hposition]
      split
      · exact opened.last_le
      · exact h.position_le
  · refine ⟨le_refl _, le_refl _, fun _ => ⟨rfl, rfl⟩, fun hnot => ?_⟩
    simp [hd] at hnot
  · intro _
    have hfirst : win.first = v.sequencer.gating + 1 := by
      rw [← Int64.toInt_inj, turn, Checked.toInt_succ]
      have := win.last.toInt_lt
      omega
    have hsize : (win.last - win.first + 1).toUInt64 =
        win.last.toUInt64 - v.sequencer.gating.toUInt64 := by
      rw [hfirst, Checked.toUInt64_after]
    simp only [balance, Poller.afterRelease, Sequencer.count, withGating, Option.map_map, hsize]
    congr 1
    funext t
    simp only [Function.comp_apply, Balance.work, Tally.consumed, claimed]
    congr 1 <;> grind
  · simp

end RingView

namespace RingSite
variable {cap : Capacity} {V β : Type} {site : RingSite cap V} {settings : Settings}
  {raises : String → Prop} {d : FreeHandles}

/-! ## Claims -/

/-- A look at gating finds the wrap point reached, or a wait is counted. -/
theorem brings_look (wrapPoint : Int64) (rest : Int64 → Act V Int64) {w : V}
    (h : (site.ringView w).Few → (site.ringView w).Sane settings d 0)
    (hrest : ∀ gating w', ((site.ringView w').Few →
        Moved settings quiet d d 0 id (site.ringView w) none (site.ringView w')) →
      site.Brings (rest gating) w' fun e v =>
        Moved settings quiet d d 0 id (site.ringView w) (Act.haltOf e) v ∧
          ∀ g, e = .ok g → wrapPoint ≤ g) :
    site.Brings (do
        let gating := (← (site.ring.within Ring.sequencerPart).read).gating
        if wrapPoint ≤ gating then return gating
        (site.ring.within Ring.sequencerPart).update (·.count .waited)
        rest gating) w fun e v =>
      Moved settings quiet d d 0 id (site.ringView w) (Act.haltOf e) v ∧
        ∀ g, e = .ok g → wrapPoint ≤ g := by
  refine .read_bind Ring.lawful_sequencerPart (fun _ => rfl) ?_
  dsimp only
  split
  · rename_i hreached
    refine .pure fun hfew => ⟨.refl (h hfew), fun g hg => ?_⟩
    obtain rfl := Except.ok.inj hg
    exact hreached
  · refine .update_bind (fun s => s.uncounted_count _) fun w' hw' => hrest _ w' fun hfew => ?_
    have hsame := hw' hfew
    rw [hsame]
    exact RingView.moved_waited (h (by rwa [RingView.Few, hsame] at hfew))

section Waiting
variable {pauses : List (Pause V)}
  (hpauses : ∀ pause ∈ pauses, ∀ t, site.Careful settings quiet d (pause t))
include hpauses

theorem brings_awaitGating (wrapPoint : Int64) {w : V}
    (h : (site.ringView w).Few → (site.ringView w).Sane settings d 0) :
    site.Brings (awaitGating (site.ring.within Ring.sequencerPart) wrapPoint pauses) w fun e v =>
      Moved settings quiet d d 0 id (site.ringView w) (Act.haltOf e) v ∧
        ∀ g, e = .ok g → wrapPoint ≤ g := by
  induction pauses generalizing w with
  | nil =>
    unfold awaitGating
    refine brings_look wrapPoint (fun _ => throw .stalled) h fun _ w₁ hw₁ =>
      .throw fun hfew => ⟨?_, by simp⟩
    exact (hw₁ hfew).trans (.stalled (hw₁ hfew).sane)
  | cons pause rest ih =>
    unfold awaitGating
    refine brings_look wrapPoint (fun gating => do
      pause ⟨wrapPoint, gating⟩
      awaitGating (site.ring.within Ring.sequencerPart) wrapPoint rest) h fun gating w₁ hw₁ => ?_
    have hpaused := hpauses pause List.mem_cons_self ⟨wrapPoint, gating⟩ w₁
      fun hfew => (hw₁ hfew).sane
    refine hpaused.bind (fun _ w₂ hw₂ => ?_) fun hfew e u hu => ⟨(hw₁ hfew).trans hu, by simp⟩
    have hrest := ih (fun p hp => hpauses p (List.mem_cons_of_mem _ hp)) (w := w₂)
      fun hfew => (hw₂ hfew).sane
    refine hrest.weaken fun hfew e u hu => ⟨?_, hu.2⟩
    have hpause := hw₂ hfew
    exact (hw₁ (hpause.few hfew)).trans (hpause.trans hu.1)

end Waiting

section Claim
variable (hd : d.producers = true) {n : Int64} (pos : 1 ≤ n.toInt)
include hd pos

omit hd in
/-- A request draws the ticket for what comes after all that is claimed. -/
theorem brings_request {w : V}
    (h : (site.ringView w).Few → (site.ringView w).Sane settings d (-n.toInt)) :
    site.Brings ((site.ring.within Ring.sequencerPart).lift (request n)) w fun e v =>
      e = .ok (ticketAfter cap (site.ringView w).sequencer.claimed n) ∧
        v = (site.ringView w).asked n := by
  refine .lift_sequencer fun hfew => ?_
  have hlow := (h hfew).claimed_ge
  have hhigh := (h hfew).claimed_few hfew
  set s := (site.ringView w).sequencer
  have hrequest := request_eq (s := s) (n := n) hlow pos (by omega)
  have hrequest' := request_eq (s := s.uncounted) (n := n) hlow pos (by
    change s.claimed.toInt + n.toInt < 2 ^ 63
    omega)
  rw [Act.outcome_ok hrequest, Act.outcome_ok hrequest']
  exact ⟨⟨rfl, rfl⟩, by rw [uncounted_asked]; rfl⟩

/-- A claim whose wrap point was seen released is completed. -/
theorem brings_redeem {v : RingView cap} {t : Ticket} {released : Int64} {w : V}
    (h : (site.ringView w).Few → v.Sane settings d (-n.toInt) ∧
      t = ticketAfter cap v.sequencer.claimed n ∧ t.wrapPoint ≤ released ∧
      Moved settings quiet (d.sending settings.producer) (d.sending settings.producer) 0 id
        (v.asked n) none (site.ringView w)) :
    site.Brings ((site.ring.within Ring.sequencerPart).lift (redeem t released)) w fun e u =>
      match e with
      | .ok high => Moved settings quiet d (d.sending settings.producer) 0
          (Balance.claim n.toUInt64) v none u ∧ u.Granted n high
      | .error h => Moved settings quiet d d 0 id v (some h) u := by
  refine .lift_sequencer fun hfew => ?_
  obtain ⟨hsane, rfl, hreached, hmoved⟩ := h hfew
  have hfew' : v.Few := hmoved.few hfew
  have hlow := hsane.claimed_ge
  have hhigh := hsane.claimed_few hfew'
  have hend := toInt_high cap v.sequencer.claimed n hlow pos (by omega)
  have hwrap := toInt_wrapPoint cap v.sequencer.claimed n hlow pos (by omega)
  rw [Int64.le_iff_toInt_le] at hreached
  have hredeem : ∀ s : Sequencer cap, redeem (ticketAfter cap v.sequencer.claimed n) released s =
      .ok (v.sequencer.claimed + n) (s.granted (v.sequencer.claimed + n)) :=
    fun s => redeem_eq s _ released (by omega) (by omega)
  rw [Act.outcome_ok (hredeem _), Act.outcome_ok (hredeem _)]
  exact ⟨RingView.moved_granted pos hsane hfew' hd hmoved, by rw [uncounted_granted]⟩

/-- A claim is careful, and what it grants is due to be published. -/
theorem brings_claim {pauses : List (Pause V)}
    (hpauses : ∀ pause ∈ pauses, ∀ t,
      site.Careful settings quiet (d.sending settings.producer) (pause t))
    {w : V} (h : (site.ringView w).Few → (site.ringView w).Sane settings d (-n.toInt)) :
    site.Brings (claim (site.ring.within Ring.sequencerPart) pauses n) w fun e v =>
      match e with
      | .ok high => Moved settings quiet d (d.sending settings.producer) 0
          (Balance.claim n.toUInt64) (site.ringView w) none v ∧ v.Granted n high
      | .error h => Moved settings quiet d d 0 id (site.ringView w) (some h) v := by
  set s := (site.ringView w).sequencer
  unfold claim
  refine (brings_request pos h).bind (fun t w₁ hw₁ => ?_) fun _ e v he => by simp at he
  have hasked : (site.ringView w₁).Few → (site.ringView w).Sane settings d (-n.toInt) ∧
      t = ticketAfter cap s.claimed n ∧
      Moved settings quiet (d.sending settings.producer) (d.sending settings.producer) 0 id
        ((site.ringView w).asked n) none (site.ringView w₁) := by
    intro hfew
    obtain ⟨ht, hsame⟩ := hw₁ hfew
    have hfew' : (site.ringView w).Few := by rwa [RingView.Few, hsame] at hfew
    rw [hsame]
    exact ⟨h hfew', Except.ok.inj ht,
      .refl (RingView.moved_asked pos (h hfew') hfew' hd).sane.sending⟩
  refine .read_bind Ring.lawful_sequencerPart (fun _ => rfl) ?_
  dsimp only
  split
  · rename_i hreached
    exact brings_redeem hd pos fun hfew =>
      ⟨(hasked hfew).1, (hasked hfew).2.1, hreached, (hasked hfew).2.2⟩
  · have hwait := brings_awaitGating hpauses t.wrapPoint fun hfew => (hasked hfew).2.2.sane
    refine hwait.bind (fun g w₂ hw₂ => ?_) fun hfew e u hu => ?_
    · have hwaited : (site.ringView w₂).Few → (site.ringView w).Sane settings d (-n.toInt) ∧
          t = ticketAfter cap s.claimed n ∧ t.wrapPoint ≤ g ∧
          Moved settings quiet (d.sending settings.producer) (d.sending settings.producer) 0 id
            ((site.ringView w).asked n) none (site.ringView w₂) := by
        intro hfew
        obtain ⟨hmoved, hreached⟩ := hw₂ hfew
        obtain ⟨hsane, ht, hasked⟩ := hasked (hmoved.few hfew)
        exact ⟨hsane, ht, hreached g rfl, hasked.trans hmoved⟩
      refine .update_bind (fun s => s.uncounted_withCached g) fun w₃ hw₃ => ?_
      refine brings_redeem hd pos fun hfew => ?_
      have hsame := hw₃ hfew
      obtain ⟨hsane, ht, hreached, hmoved⟩ := hwaited (by rwa [RingView.Few, hsame] at hfew)
      rw [hsame]
      exact ⟨hsane, ht, hreached, hmoved.trans (RingView.moved_withCached hmoved.sane g)⟩
    · obtain ⟨hsane, -, hasked⟩ := hasked hfew
      have hmoved := RingView.moved_asked pos hsane (hasked.few hfew) hd
      have hwaited := hasked.trans hu.1
      have hdone := hmoved.trans (hwaited.keep RingView.Kept.sending)
      exact (hdone.resane (hmoved.sane.of_sending hwaited.sane hwaited.kept)).gaveUp

end Claim

/-- An attempt to claim one slot is careful, and does not wait. -/
theorem brings_tryClaim (hd : d.producers = true) {w : V}
    (h : (site.ringView w).Few → (site.ringView w).Sane settings d 0) :
    site.Brings ((site.ring.within Ring.sequencerPart).lift (tryClaim 1)) w fun e v =>
      ∃ found, e = .ok found ∧ match found with
        | none => Moved settings quiet d d 0 id (site.ringView w) none v
        | some s => Moved settings quiet d (d.sending settings.producer) 1 (Balance.claim 1)
            (site.ringView w) none v ∧ v.Granted 1 s := by
  refine .lift_sequencer fun hfew => ?_
  set v := site.ringView w with hv
  have hsane := h hfew
  have hlow := hsane.claimed_ge
  have hhigh := hsane.claimed_few hfew
  have hone := Checked.toInt_one
  have hrun := tryClaim_eq (s := v.sequencer) (n := 1) hlow (by decide) (by omega)
  have hrun' := tryClaim_eq (s := v.sequencer.uncounted) (n := 1) hlow (by decide) (by
    change v.sequencer.claimed.toInt + _ < _
    omega)
  have hnext : (v.sequencer.claimed + 1).toInt = v.sequencer.claimed.toInt + (1 : Int64).toInt :=
    Checked.toInt_succ (by omega)
  have hclaim : ∀ u : RingView cap, u.Sane settings d 0 →
      u.sequencer.claimed = v.sequencer.claimed → u.ledger = v.ledger →
      Moved settings quiet d (d.sending settings.producer) 1 (Balance.claim 1) u none
          { u with sequencer := u.sequencer.withClaimed (v.sequencer.claimed + 1) } ∧
        RingView.Granted 1 (v.sequencer.claimed + 1)
          { u with sequencer := u.sequencer.withClaimed (v.sequencer.claimed + 1) } := by
    intro u hu hclaimed hledger
    have hlt := hu.claimed_lt
    have hmoved := RingView.moved_withClaimed (n := 1) (by decide) hd hu.sending
      (by rw [hclaimed, hnext]) 1 (by omega)
    rw [hclaimed] at hmoved
    refine ⟨hmoved, ?_, ?_, fun _ => ?_⟩
    · omega
    · simp only [claimed_withClaimed, le_refl]
    · simp only [claimed_withClaimed]
  rw [Act.outcome_ok hrun, Act.outcome_ok hrun', uncounted_attempted]
  refine ⟨⟨_, rfl, ?_⟩, rfl⟩
  have hcached := RingView.moved_withCached hsane v.sequencer.gating
  rcases v.sequencer.attempted_cases 1 with hfound | hfound | hfound
  · rw [hfound]
    exact hclaim v hsane rfl rfl
  · rw [hfound]
    obtain ⟨hmoved, hgranted⟩ := hclaim _ hcached.sane (by simp) rfl
    exact ⟨hcached.trans hmoved, hgranted⟩
  · rw [hfound]
    exact hcached

/-- A claim of several slots is careful. -/
theorem brings_claimMany (hd : d.producers = true) {pauses : List (Pause V)}
    (hpauses : ∀ pause ∈ pauses, ∀ t,
      site.Careful settings quiet (d.sending settings.producer) (pause t))
    {size : UInt64} {w : V} (pos : 1 ≤ size.toNat) (le : size.toNat ≤ cap.slots)
    (h : (site.ringView w).Few → (site.ringView w).Sane settings d (-size.toNat)) :
    site.Brings (Ring.claimMany site.ring pauses size) w fun e v =>
      match e with
      | .ok a => ∃ win : Window, a = .ok win ∧ v.Due win ∧
          (win.last - win.first + 1).toUInt64 = size ∧
          Moved settings quiet d (d.sending settings.producer) 0 (Balance.claim size)
            (site.ringView w) none v
      | .error h => Moved settings quiet d d 0 id (site.ringView w) (some h) v := by
  have hsize := cap.toInt_toInt64 le
  have hslots := cap.slots_le_int
  have hone := Checked.toInt_one
  have hless : (size.toInt64 - 1).toInt = size.toInt64.toInt - 1 := Checked.toInt_pred (by omega)
  have hclaim := brings_claim hd (n := size.toInt64) (by omega) hpauses (w := w) (by rwa [hsize])
  rw [UInt64.toUInt64_toInt64] at hclaim
  simp only [Ring.claimMany, next, cap.checkClaim_ok pos le, bind_assoc, pure_bind]
  refine hclaim.bind (fun high w' hw' => ?_) fun hfew e u hu => hu
  refine .sub_bind (fun _ => by omega) (.sub_bind (fun hfew => ?_) (.pure fun hfew => ?_))
  · have hhigh := (hw' hfew).2.size_le
    have hword := high.toInt_lt
    omega
  · obtain ⟨hmoved, hgranted⟩ := hw' hfew
    refine ⟨_, rfl, hgranted.due (by omega) high.toInt_lt, ?_, hmoved⟩
    change (high - (high - (size.toInt64 - 1)) + 1).toUInt64 = size
    rw [show high - (high - (size.toInt64 - 1)) + 1 = size.toInt64 by grind]
    exact UInt64.toUInt64_toInt64 size

/-! ## Publications -/

/-- Publishing what is due faults nowhere. -/
theorem brings_publish (settings : Settings) (hd : d.producers = true) (owed : ℤ)
    (small : owed ≤ 1) {win : Window} {w : V}
    (h : (site.ringView w).Few →
      (site.ringView w).Sane settings (d.sending settings.producer) owed ∧
        (site.ringView w).Due win) :
    site.Brings (Ring.publish site.ring win) w fun e v => e = .ok () ∧
      Moved settings quiet d d owed (Balance.publish (win.last - win.first + 1).toUInt64)
        (site.ringView w) none v := by
  unfold Ring.publish
  rw [← Part.lift_within]
  have hpublish : site.Brings ((site.ring.within Ring.sequencerPart).lift
      (if win.first = win.last then publish win.last else publishRange win.first win.last)) w
      fun e v => e = .ok () ∧ Moved settings quiet d d owed
        (Balance.publish (win.last - win.first + 1).toUInt64) (site.ringView w) none v := by
    refine .lift_sequencer fun hfew => ?_
    obtain ⟨hsane, hdue⟩ := h hfew
    have hroom := hsane.claimed_few hfew
    have hstart := hdue.start
    have hle := hdue.le
    have hlast := hdue.last_le
    have hrun : ∀ s : Sequencer cap, s.Forward win.last →
        (if win.first = win.last then publish win.last else publishRange win.first win.last) s =
          .ok () (s.afterPublish win.first win.last) := by
      intro s forward
      by_cases hone : win.first = win.last
      · rw [if_pos hone, hone]
        exact publish_eq forward
      · rw [if_neg hone]
        exact publishRange_eq forward hstart hle (by omega)
    have hforward : (site.ringView w).sequencer.Forward win.last := by
      intro hsole
      rw [← hdue.sole hsole]
      exact hsane.cursor_le
    have hforward' : (site.ringView w).sequencer.uncounted.Forward win.last := hforward
    rw [Act.outcome_ok (hrun _ hforward), Act.outcome_ok (hrun _ hforward')]
    exact ⟨⟨rfl, RingView.moved_published hd hsane hdue⟩, by rw [uncounted_afterPublish]⟩
  refine hpublish.bind (fun _ w' hw' => .lift fun hfew => ⟨⟨rfl, ?_⟩, rfl⟩) fun _ e v he => ?_
  · exact (hw' hfew).2
  · simp at he

/-- What is due is published however the action before ends. -/
theorem brings_closing_publish (hd : d.producers = true) {body : Act V β} {win : Window} {w : V}
    (h : (site.ringView w).Few →
      (site.ringView w).Sane settings (d.sending settings.producer) 0 ∧ (site.ringView w).Due win)
    (hbody : site.Brings body w fun e v => Moved settings raises (d.sending settings.producer)
      (d.sending settings.producer) 0 id (site.ringView w) (Act.haltOf e) v) :
    site.Brings (body.closing (Ring.publish site.ring win)) w fun e v =>
      Moved settings raises d d 0 (Balance.publish (win.last - win.first + 1).toUInt64)
        (site.ringView w) (Act.haltOf e) v := by
  refine hbody.closing fun e w' hw' => ?_
  refine (brings_publish settings hd 0 (by omega) fun hfew => ?_).weaken fun hfew c u hu => ?_
  · obtain ⟨hsane, hdue⟩ := h ((hw' hfew).few hfew)
    exact ⟨(hw' hfew).sane, hdue.keep hsane (hw' hfew).sane (hw' hfew).kept⟩
  obtain ⟨rfl, hu⟩ := hu
  exact ((hw' hfew).keep RingView.Kept.sending).closed hu

/-! ## Polls -/

/-- A poll looks for its window without a fault. -/
theorem window_found {W : Type} {s : Sequencer cap} {position batch : Int64}
    (lo : -1 ≤ position.toInt) (le : position.toInt ≤ s.cursor.toInt)
    (room : s.cursor.toInt + cap.slots < 2 ^ 63) (pos : 1 ≤ batch.toInt)
    (small : batch.toInt ≤ cap.slots) :
    ∃ found, (Poller.window s position batch : Act W (Option Window)) = pure found ∧
      ∀ win, found = some win → win.first.toInt = position.toInt + 1 ∧
        win.first.toInt ≤ win.last.toInt ∧ win.last.toInt ≤ s.cursor.toInt := by
  have hone := Checked.toInt_one
  have hslots := cap.one_le_slots
  have hfirst : (position + 1).toInt = position.toInt + 1 := Checked.toInt_succ (by omega)
  have hlow : (position + 1 - 1).toInt = position.toInt := by
    rw [Checked.toInt_pred (by omega), hfirst]
    omega
  have hlimit : (position + batch).toInt = position.toInt + batch.toInt :=
    Checked.toInt_add (by omega) (by omega)
  have havailable : (min s.cursor (position + batch)).toInt =
      min s.cursor.toInt (position.toInt + batch.toInt) := by
    rw [toInt_min, hlimit]
  simp only [Poller.window]
  rw [Checked.add_exact (by omega) (by omega), pure_bind,
    Checked.add_exact (by omega) (by omega), pure_bind]
  by_cases hempty : min s.cursor (position + batch) < position + 1
  · rw [if_pos hempty]
    exact ⟨none, rfl, by simp⟩
  · rw [if_neg hempty]
    rw [Int64.lt_iff_toInt_lt] at hempty
    have hhighest : ∃ highest : Int64,
        (s.highestPublished (position + 1) (min s.cursor (position + batch)) : Act W Int64) =
          pure highest ∧ position.toInt ≤ highest.toInt ∧
        highest.toInt ≤ (min s.cursor (position + batch)).toInt := by
      unfold highestPublished
      split
      · exact ⟨_, rfl, by omega, le_refl _⟩
      · rename_i flags _
        obtain ⟨highest, hrun, hge, hle, -, -⟩ := flags.frontier_spec (W := W) (position + 1)
          (min s.cursor (position + batch)) (by omega) (by omega) (by omega)
        exact ⟨highest, hrun, by omega, hle⟩
    obtain ⟨highest, hrun, hge, hle⟩ := hhighest
    have hinside : ¬ (highest < position + 1 - 1 ∨ min s.cursor (position + batch) < highest) := by
      rw [Int64.lt_iff_toInt_lt, Int64.lt_iff_toInt_lt]
      omega
    rw [hrun, pure_bind, Checked.sub_exact (by omega) (by omega), pure_bind, if_neg hinside]
    by_cases hnone : highest < position + 1
    · rw [if_pos hnone]
      exact ⟨none, rfl, by simp⟩
    · rw [if_neg hnone]
      rw [Int64.lt_iff_toInt_lt] at hnone
      refine ⟨_, rfl, fun win hwin => ?_⟩
      obtain rfl := Option.some.inj hwin
      exact ⟨hfirst, by simp only; omega, by simp only; omega⟩

theorem brings_window {batch : Int64} (pos : 1 ≤ batch.toInt) (small : batch.toInt ≤ cap.slots)
    {w : V} (h : (site.ringView w).Few → (site.ringView w).Sane settings d 0) :
    site.Brings (Poller.window (site.ringView w).sequencer
      ((site.ringView w).poller.position (site.ringView w).sequencer) batch) w fun e v =>
      v = site.ringView w ∧ ∃ found, e = .ok found ∧ ∀ win, found = some win → v.Opened win := by
  set v := site.ringView w with hv
  have hstays :
      ((Poller.window v.sequencer (v.poller.position v.sequencer) batch).outcome w).2 = w :=
    (Poller.leads_window _ _ _ w rfl).symm
  refine .leaf (by rw [hstays]) fun hfew => ?_
  have hslots := cap.slots_le_int
  have hsane := h hfew
  have hlow := hsane.position
  have hroom := hsane.claimed_few hfew
  have hcursor := hsane.cursor_le
  obtain ⟨found, hrun, hfound⟩ := window_found (W := V) hlow hsane.position_le (by omega) pos small
  have hopened : ∀ win, found = some win → v.Opened win := by
    intro win hwin
    obtain ⟨hfirst, hle, hlast⟩ := hfound win hwin
    refine ⟨by omega, hle, hlast, fun hsole => ?_⟩
    rw [hfirst]
    cases hkind : v.poller with
    | sole => rfl
    | competing claimed => simp [hkind, Poller.consumer] at hsole
  rw [hrun]
  exact ⟨⟨rfl, found, rfl, hopened⟩, rfl⟩

theorem brings_openWindow (hd : d.consumers = true) {batch : UInt64} {w : V}
    (h : (site.ringView w).Few → (site.ringView w).Sane settings d 0) :
    site.Brings (Poller.openWindow (site.ring.within Ring.sequencerPart)
      (site.ring.within Ring.pollerPart) batch) w fun e v => ∃ found, e = .ok found ∧
        match found with
        | none => Moved settings quiet d d 0 (if batch = 0 then id else Balance.rest)
            (site.ringView w) none v
        | some win => Moved settings quiet d (d.receiving settings.consumer) 0 id
            (site.ringView w) none v ∧ v.Opened win := by
  unfold Poller.openWindow
  by_cases hbatch : batch = 0
  · rw [if_pos hbatch]
    exact .pure fun hfew => ⟨none, rfl, by rw [if_pos hbatch]; exact .refl (h hfew)⟩
  · rw [if_neg hbatch]
    refine .read_bind Ring.lawful_sequencerPart (fun _ => rfl) ?_
    refine .read_bind Ring.lawful_pollerPart (fun _ => rfl) ?_
    obtain ⟨hpos, hle⟩ := cap.toInt_batch_bounds hbatch
    refine (brings_window hpos hle h).bind (fun found w₁ hw₁ => ?_) fun _ e u he => by simp at he
    have hfew₁ : (site.ringView w₁).Few → (site.ringView w).Few := fun hfew => by
      obtain ⟨hsame, -⟩ := hw₁ hfew
      rwa [RingView.Few, hsame] at hfew
    cases found with
    | none =>
      refine .update_bind (fun s => s.uncounted_count _) fun w₂ hw₂ => .pure fun hfew => ?_
      have hsame := hw₂ hfew
      have hfew' : (site.ringView w₁).Few := by rwa [RingView.Few, hsame] at hfew
      rw [hsame, (hw₁ hfew').1, if_neg hbatch]
      exact ⟨none, rfl, RingView.moved_idle (h (hfew₁ hfew'))⟩
    | some win =>
      have hopened : (site.ringView w₁).Few →
          site.ringView w₁ = site.ringView w ∧ (site.ringView w).Opened win := by
        intro hfew
        obtain ⟨hsame, found, hfound, hopened⟩ := hw₁ hfew
        rw [← hsame]
        exact ⟨rfl, hopened win (Except.ok.inj hfound).symm⟩
      dsimp only
      split
      · rename_i hback
        refine .throw fun hfew => ?_
        obtain ⟨-, hopened⟩ := hopened hfew
        have hfirst := hopened.sole hback.1
        have hle := hopened.le
        have hlast := hback.2
        rw [Int64.lt_iff_toInt_lt] at hlast
        change win.last.toInt < (site.ringView w).sequencer.gating.toInt at hlast
        omega
      · have hmove : site.Brings ((site.ring.within Ring.pollerPart).update (·.claim win)) w₁
            fun e u => e = .ok () ∧
              Moved settings quiet d (d.receiving settings.consumer) 0 id (site.ringView w) none u ∧
              u.Opened win := by
          rw [Part.update, Part.lift_within]
          refine .lift fun hfew => ⟨⟨rfl, ?_⟩, rfl⟩
          obtain ⟨hsame, hopened⟩ := hopened hfew
          have hmoved := RingView.moved_opened hd (h (hfew₁ hfew)) hopened
          rw [← hsame] at hmoved ⊢
          exact hmoved
        refine hmove.bind (fun _ w₂ hw₂ => .pure fun hfew => ⟨some win, rfl, (hw₂ hfew).2⟩)
          fun _ e u he => by simp at he

theorem unseen_ledger (site : RingSite cap V) {T : Type} (q : Part (Ring cap site.Slot) T)
    (b : Ledger) :
    (site.ring.within q).Unseen fun w => b = (site.ledger.split w).1 := by
  intro w t hb
  have hsame := site.apart.split_alter
    (fun _ => q.join t (q.split (site.ring.split w).1).2) w
  exact hb.trans hsame.symm

/-- What is open is released, or waits for what competing consumers opened before. -/
theorem brings_release (settings : Settings) (hd : d.consumers = true) {win : Window} {w : V}
    (h : (site.ringView w).Few →
      (site.ringView w).Sane settings (d.receiving settings.consumer) 0 ∧
        (site.ringView w).Opened win) :
    site.Brings (Poller.release (site.ring.within Ring.sequencerPart)
      (site.ring.within Ring.pollerPart) win) w fun e v =>
      Moved settings quiet d d 0 Balance.work (site.ringView w) (Act.haltOf e) v := by
  have hledger := Poller.leads_release
    (Poller.spares_of_unseen (site.unseen_ledger Ring.sequencerPart _))
    (site.unseen_ledger Ring.pollerPart _) win w rfl
  refine .leaf hledger.symm fun hfew => ?_
  obtain ⟨hsane, hopened⟩ := h hfew
  have hseq := site.lawful_ring.within Ring.lawful_sequencerPart
  have hpoller := site.lawful_ring.within Ring.lawful_pollerPart
  have hstart := hopened.start
  have hle := hopened.le
  have hsmall : win.last.toInt - win.first.toInt + 1 < 2 ^ 63 := by
    have := win.last.toInt_lt
    have := hopened.last_le
    have := hsane.cursor_le
    have := hsane.claimed_few hfew
    omega
  by_cases hturn : win.first.toInt = (site.ringView w).sequencer.gating.toInt + 1
  · have hrun : ∀ w', (site.ring.split w').1.sequencer.gating = (site.ringView w).sequencer.gating →
        (Poller.release (site.ring.within Ring.sequencerPart) (site.ring.within Ring.pollerPart)
          win).outcome w' = (.ok (), site.ring.alter
            (fun r => { r with sequencer := Poller.afterRelease win r.sequencer }) w') := by
      intro w' hsame
      have hturn' : win.first.toInt = (site.ring.split w').1.sequencer.gating.toInt + 1 := by
        rw [hsame]
        exact hturn
      exact Act.outcome_ok (Poller.release_eq hseq hpoller (w := w') hturn' hle hsmall)
    rw [hrun w rfl, hrun (site.silence w) (by rw [ring_silence]; rfl), ringView_alter]
    exact ⟨RingView.moved_released hd hsane hopened hturn,
      by rw [site.silence_alter (f := fun r =>
        { r with sequencer := Poller.afterRelease win r.sequencer }) fun _ => rfl]⟩
  · have hmulti : (site.ringView w).poller.consumer = .multi := by
      cases hkind : (site.ringView w).poller.consumer with
      | single => exact absurd (hopened.sole hkind) hturn
      | multi => rfl
    have hrun : ∀ w', (site.ring.split w').1.sequencer.gating = (site.ringView w).sequencer.gating →
        (site.ring.split w').1.poller = (site.ringView w).poller →
        (Poller.release (site.ring.within Ring.sequencerPart) (site.ring.within Ring.pollerPart)
          win).outcome w' = (.error .stalled, w') := by
      intro w' hsame hpollers
      have hkind : (site.ring.split w').1.poller.consumer = .multi := by rw [hpollers, hmulti]
      have hearly : win.first.toInt ≠ (site.ring.split w').1.sequencer.gating.toInt + 1 := by
        rw [hsame]
        exact hturn
      exact Act.outcome_error (Poller.release_stalled hseq hpoller (w := w') hkind hearly
        (by omega) hle)
    rw [hrun w rfl rfl, hrun (site.silence w) (by rw [ring_silence]; rfl)
      (by rw [ring_silence]; rfl)]
    exact ⟨(Moved.stalled hsane.of_receiving).gaveUp, rfl⟩

/-- A poll is careful, and it counts what it found. -/
theorem brings_poll (hd : d.consumers = true) {batch : UInt64} {drain : Window → Act V β}
    (hdrain : ∀ win, site.Careful settings raises (d.receiving settings.consumer) (drain win))
    {w : V} (h : (site.ringView w).Few → (site.ringView w).Sane settings d 0) :
    site.Brings (Ring.poll site.ring batch drain) w fun e v =>
      Moved settings raises d d 0
        (match e with
          | .ok none => if batch = 0 then id else Balance.rest
          | _ => Balance.work) (site.ringView w) (Act.haltOf e) v := by
  unfold Ring.poll Poller.poll
  refine (brings_openWindow hd h).bind (fun found w₁ hw₁ => ?_) fun _ e u he => by simp at he
  cases found with
  | none =>
    refine .pure fun hfew => ?_
    obtain ⟨found, hfound, hmoved⟩ := hw₁ hfew
    obtain rfl := Except.ok.inj hfound
    exact hmoved.loosen
  | some win =>
    have hopened : (site.ringView w₁).Few →
        Moved settings quiet d (d.receiving settings.consumer) 0 id (site.ringView w) none
          (site.ringView w₁) ∧ (site.ringView w₁).Opened win := by
      intro hfew
      obtain ⟨found, hfound, hmoved⟩ := hw₁ hfew
      obtain rfl := Except.ok.inj hfound
      exact hmoved
    have hclosed : site.Brings ((drain win).closing (Poller.release
        (site.ring.within Ring.sequencerPart) (site.ring.within Ring.pollerPart) win)) w₁
        fun e v => Moved settings raises d d 0 Balance.work (site.ringView w) (Act.haltOf e) v := by
      refine (hdrain win w₁ fun hfew => (hopened hfew).1.sane).closing fun e w₂ hw₂ => ?_
      refine (brings_release settings hd fun hfew => ?_).weaken fun hfew c u hu => ?_
      · have hdrained := hw₂ hfew
        obtain ⟨hmoved, hopen⟩ := hopened (hdrained.few hfew)
        exact ⟨hdrained.sane, hopen.keep hmoved.sane hdrained.kept hdrained.sane⟩
      have hdrained := hw₂ hfew
      obtain ⟨hmoved, -⟩ := hopened (hdrained.few hfew)
      rw [Act.haltOf_afterwards]
      exact ((hmoved.loosen.trans (hdrained.keep RingView.Kept.receiving))).closed hu
    refine hclosed.bind (fun v w₂ hw₂ => .pure hw₂) fun hfew e u hu => hu

end RingSite

end LapRing
