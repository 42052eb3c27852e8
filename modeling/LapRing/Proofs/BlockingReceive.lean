import LapRing.Proofs.ChannelQueue
import LapRing.Proofs.ShortBatches

/-!
# What a waiting consumer hears

A consumer waits until its poll finds a window, and returns how many values it was handed. The
entries of that window may all be empty: a batch that has fewer items than it announced leaves
such entries behind. If no batch did, a consumer that returns has heard something.
-/
namespace LapRing

/-- A callback that notes beside the world each value that it is called with. -/
def hearing {W α : Type} (f : α → Act W Unit) (value : α) : Act (List α × W) Unit := do
  Part.first.update (· ++ [value])
  Act.outer (f value)

theorem follows_hearing {W α : Type} (f : α → Act W Unit) (value : α) :
    Act.Follows Prod.snd (hearing f value) (f value) :=
  (Act.follows_note _).bind fun _ => Act.follows_outer (f value)

theorem of_hearing_ok {W α : Type} {f : α → Act W Unit} {value : α} {heard heard' : List α}
    {w w' : W} (h : hearing f value (heard, w) = .ok () (heard', w')) :
    heard' = heard ++ [value] ∧ f value w = .ok () w' := by
  obtain ⟨u, hf, hw⟩ := Act.of_outer_ok (l := heard ++ [value]) h
  obtain ⟨rfl, rfl⟩ := Prod.mk.inj hw
  exact ⟨rfl, hf⟩

section Runs
variable {α L W : Type}

theorem serveAll_append (serve : Call α L → Act W (Answer α)) (calls later : List (Call α L))
    (w : W) :
    (serveAll serve (calls ++ later) w).2 =
      (serveAll serve later (serveAll serve calls w).2).2 := by
  induction calls generalizing w with
  | nil => rfl
  | cons call calls ih => exact ih _

/-- A batch that is not refused has as many items as it announces. -/
def Call.Ample (limit : ℕ) (l : L) : Call α L → Prop
  | .pushBatch feed => feed.length.toNat ≤ limit →
    (feed.gather 0 feed.length.toNat l).items.length = feed.length.toNat
  | _ => True

instance (limit : ℕ) (l : L) : (call : Call α L) → Decidable (call.Ample limit l)
  | .pushBatch _ => inferInstanceAs (Decidable (_ → _))
  | .openProducer | .openConsumer | .dropProducer | .dropConsumer =>
    inferInstanceAs (Decidable True)
  | .tryPush _ | .push _ | .receive .. => inferInstanceAs (Decidable True)

namespace Queue
variable {q : Queue α} {l : L}

/-- Every batch has as many items as it announces when its turn comes. -/
def Ample : List (Call α L) → Queue α × L → Prop
  | [], _ => True
  | call :: rest, w => call.Ample w.1.limit w.2 ∧ Ample rest ((serve call).outcome w).2

instance decidableAmple : (calls : List (Call α L)) → (w : Queue α × L) → Decidable (Ample calls w)
  | [], _ => inferInstanceAs (Decidable True)
  | call :: rest, w =>
    have := decidableAmple rest ((serve call).outcome w).2
    inferInstanceAs (Decidable (_ ∧ _))

theorem outcome_take (batch : UInt64) (f : α → Act L Unit) (q : Queue α) (l : L) :
    ((take batch f).outcome (q, l)).2.1 = q.remove (min batch.toNat q.entries.length) := by
  cases h : ((q.entries.take (min batch.toNat q.entries.length)).filterMap id).forM f l <;>
    simp only [Act.outcome, take, h]

/-- Only a batch that falls short makes entries with nothing in them. -/
theorem full_serve (hfull : none ∉ q.entries) {call : Call α L} (ample : call.Ample q.limit l) :
    none ∉ ((serve call).outcome (q, l)).2.1.entries := by
  have happend : ∀ value, none ∉ (q.append [some value]).entries := by
    intro value
    simpa [append] using hfull
  cases call with
  | openProducer =>
    by_cases h : q.producers.Admits <;> simpa [Act.outcome, serve, h] using hfull
  | openConsumer =>
    by_cases h : q.consumers.Admits <;> simpa [Act.outcome, serve, h] using hfull
  | dropProducer | dropConsumer => exact hfull
  | tryPush value =>
    by_cases h : q.entries.length < q.limit
    · simpa [Act.outcome, serve, h] using happend value
    · simpa [Act.outcome, serve, h] using hfull
  | push value => exact happend value
  | pushBatch feed =>
    by_cases hzero : feed.length = 0
    · rwa [Act.outcome_ok (serve_pushBatch_zero hzero q l)]
    by_cases hlong : q.limit < feed.length.toNat
    · rwa [Act.outcome_ok (serve_pushBatch_tooLong hlong l)]
    have hle : feed.length.toNat ≤ q.limit := by omega
    have hserve := serve_pushBatch hzero hle l
    set y := feed.gather 0 feed.length.toNat l with hy
    have hentries : none ∉ (q.append (y.entries feed.length.toNat)).entries := by
      simp only [append, Yield.entries, hy, ample hle, Nat.sub_self]
      simpa using hfull
    cases hending : y.ending with
    | ok u =>
      rw [hending] at hserve
      rwa [Act.outcome_ok hserve]
    | error e =>
      rw [hending] at hserve
      rwa [Act.outcome_error hserve]
  | receive batch f =>
    have hserve :
        ((serve (.receive batch f)).outcome (q, l)).2 = ((take batch f).outcome (q, l)).2 :=
      congrArg Prod.snd
        (Act.outcome_bind_pure (take batch f) (fun s => (.received s : Answer α)) (q, l))
    rw [hserve, outcome_take]
    exact fun h => hfull (List.mem_of_mem_drop h)

/-- As long as no batch falls short, every entry holds a value. -/
theorem full_serveAll {calls : List (Call α L)} (hfull : none ∉ q.entries)
    (ample : Ample calls (q, l)) : none ∉ (serveAll serve calls (q, l)).2.1.entries := by
  induction calls generalizing q l with
  | nil => exact hfull
  | cons call calls ih => exact ih (full_serve hfull ample.1) ample.2

theorem legal_append {calls later : List (Call α L)} {w : Queue α × L} :
    Legal (calls ++ later) w ↔ Legal calls w ∧ Legal later (serveAll serve calls w).2 := by
  induction calls generalizing w with
  | nil => exact ⟨fun h => ⟨trivial, h⟩, fun h => h.2⟩
  | cons call calls ih =>
    simp only [List.cons_append, Legal, ih, and_assoc]
    rfl

end Queue

end Runs

/-- What ends in the first attempt, if it finds work. -/
theorem Ring.of_untilWork_ok {cap : Capacity} {σ β W : Type} {here : Part W (Ring cap σ)}
    {attempt : Act W (Option β)} {others : List (Act W Unit)} {w w' : W} {x : β}
    (h : Ring.untilWork here attempt others w = .ok x w') :
    ∃ found w₁, attempt w = .ok found w₁ ∧ ∀ y, found = some y → y = x ∧ w₁ = w' := by
  have hbind : ∃ rest : Option β → Act W β, (attempt >>= rest) w = .ok x w' ∧
      ∀ y, rest (some y) = pure y := by
    cases others <;> exact ⟨_, h, fun _ => rfl⟩
  obtain ⟨rest, hbind, hrest⟩ := hbind
  obtain ⟨found, w₁, hattempt, hlater⟩ := Act.of_bind_ok hbind
  refine ⟨found, w₁, hattempt, ?_⟩
  rintro y rfl
  rw [hrest] at hlater
  exact EStateM.Result.ok.inj hlater

namespace Channel
variable {cap : Capacity} {α L W : Type}

/-- Hands out one slot. -/
def handOne (here : Part W (Channel cap α)) (f : α → Act W Unit) (received : ℕ) (s : Int64) :
    Act W ℕ := do
  match ← here.lift (exchange s none) with
  | none => return received
  | some value =>
    f value
    return received + 1

theorem drain_eq (here : Part W (Channel cap α)) (f : α → Act W Unit) (win : Window) :
    drain here (fun value _ => f value) win = win.sequences.foldlM (handOne here f) 0 := rfl

/-- The world in which the slot of `s` is empty. -/
def emptied (here : Part W (Channel cap α)) (s : Int64) (w : W) : W :=
  here.alter (fun c => c.withSlots (c.ring.slots.write s none)) w

section Handing
variable {V : Type} {p : Part V (Channel cap α)} (hp : p.Lawful)

theorem of_handOne_ok {f : α → Act V Unit} {n m : ℕ} {s : Int64} {v v' : V}
    (h : handOne p f n s v = .ok m v') :
    content p s v = none ∧ m = n ∧ v' = emptied p s v ∨
      ∃ value, content p s v = some value ∧ m = n + 1 ∧ f value (emptied p s v) = .ok () v' := by
  have htake : p.lift (exchange s none) v = .ok (content p s v) (emptied p s v) := Part.lift_ok rfl
  rw [handOne, Act.bind_ok htake] at h
  cases hcontent : content p s v with
  | none =>
    rw [hcontent] at h
    obtain ⟨rfl, rfl⟩ := EStateM.Result.ok.inj h
    exact .inl ⟨rfl, rfl, rfl⟩
  | some value =>
    rw [hcontent] at h
    obtain ⟨_, u, hf, hreturn⟩ := Act.of_bind_ok h
    obtain ⟨rfl, rfl⟩ := EStateM.Result.ok.inj hreturn
    exact .inr ⟨value, rfl, rfl, hf⟩

include hp in
theorem content_emptied (s t : Int64) (v : V) :
    content p t (emptied p s v) = if cap.slot s = cap.slot t then none else content p t v := by
  rw [emptied, content_alter hp, slots_withSlots, Slots.read_write]
  rfl

end Handing

section Hearing
variable {here : Part W (Channel cap α)}

theorem follows_handOne (f : α → Act W Unit) (n : ℕ) (s : Int64) :
    Act.Follows Prod.snd (handOne here.beside (hearing f) n s) (handOne here f n s) := by
  refine ((Part.overlies_beside here).follows_lift _).bind fun item => ?_
  cases item with
  | none => exact Act.follows_pure n
  | some value => exact (follows_hearing f value).bind fun _ => Act.follows_pure (n + 1)

/-- A consumer comes to the same if its callback notes what it hears. -/
theorem follows_blockingReceive (others : List (Act W Unit)) (batch : UInt64) (f : α → Act W Unit) :
    Act.Follows Prod.snd (blockingReceive here.beside (others.map Act.outer) batch (hearing f))
      (blockingReceive here others batch f) := by
  have hring := overlies_ring (L := List α) here
  refine Ring.follows_untilWork hring ?_ others
  refine Poller.follows_poll (hring.within _) (hring.within _) batch fun win => ?_
  simp only [drain_eq]
  exact Act.follows_foldlM (follows_handOne f) _ 0

/-- The count that comes of handing out slots is that of the values that were heard. Nothing is
heard exactly if all these slots are empty, whatever the callback does. -/
theorem of_handAll_ok (lawful : here.Lawful) {f : α → Act W Unit} {ss : List Int64} {n m : ℕ}
    {heard heard' : List α} {w w' : W}
    (h : ss.foldlM (handOne here.beside (hearing f)) n (heard, w) = .ok m (heard', w')) :
    heard'.length + n = heard.length + m ∧ n ≤ m ∧
      (m = n ↔ ∀ s ∈ ss, content here s w = none) := by
  induction ss generalizing n heard w with
  | nil =>
    obtain ⟨rfl, hw⟩ := EStateM.Result.ok.inj h
    obtain ⟨rfl, rfl⟩ := Prod.mk.inj hw
    simp
  | cons s ss ih =>
    rw [List.foldlM_cons] at h
    obtain ⟨k, ⟨heard₁, w₁⟩, hone, hrest⟩ := Act.of_bind_ok h
    obtain ⟨hlength, hle, hnone⟩ := ih hrest
    rcases of_handOne_ok hone with ⟨hempty, rfl, hw⟩ | ⟨value, hvalue, rfl, hf⟩
    · obtain ⟨rfl, rfl⟩ : heard₁ = heard ∧ w₁ = emptied here s w := Prod.mk.inj hw
      have hempty' : content here s w = none := hempty
      refine ⟨hlength, hle, hnone.trans ?_⟩
      have hsame : ∀ t, content here t (emptied here s w) = none ↔ content here t w = none := by
        intro t
        rw [content_emptied lawful]
        by_cases hslot : cap.slot s = cap.slot t
        · have hread : content here t w = content here s w := by
            simp only [content, Slots.read, hslot]
          rw [if_pos hslot, hread, hempty']
        · rw [if_neg hslot]
      simp [hsame, hempty']
    · have hf' : hearing f value (heard, emptied here s w) = .ok () (heard₁, w₁) := hf
      have hvalue' : content here s w = some value := hvalue
      obtain ⟨rfl, -⟩ := of_hearing_ok hf'
      rw [List.length_append, List.length_singleton] at hlength
      refine ⟨by omega, by omega, iff_of_false (by omega) fun hall => ?_⟩
      rw [hall s List.mem_cons_self] at hvalue'
      simp at hvalue'

end Hearing

section Waiting
variable {c : Channel cap α} {q : Queue α} {l : L} {batch : UInt64}
  {f : α → Act (Channel cap α × L) Unit} {heard heard' : List α}

/-- What others do with a channel meanwhile. How their calls end, they keep to themselves. -/
def meanwhile (pauses : List (Pause (Channel cap α × L))) (turn : List (Call α L)) :
    Act (Channel cap α × L) Unit :=
  turn.forM fun call => do let _ ← (serve pauses call).ending

theorem meanwhile_eq (pauses : List (Pause (Channel cap α × L))) (turn : List (Call α L))
    (w : Channel cap α × L) :
    meanwhile pauses turn w = .ok () (serveAll (serve pauses) turn w).2 := by
  induction turn generalizing w with
  | nil => rfl
  | cons call turn ih =>
    have hending : (do let _ ← (serve pauses call).ending : Act _ Unit) w =
        .ok () ((serve pauses call).outcome w).2 :=
      Act.bind_ok (Act.ending_apply _ w)
    exact (Act.bind_ok hending).trans (ih _)

/-- A consumer finds no window if there are no entries. -/
theorem openWindow_empty (h : c.ring.Mirrors q) (hq : q.entries = []) (hb : batch ≠ 0) (l : L) :
    ∃ c' : Channel cap α, c'.ring.Mirrors q ∧
      Poller.openWindow hereSequencer herePoller batch (c, l) = .ok none (c', l) := by
  have hlength := h.length
  rw [hq, List.length_nil] at hlength
  obtain ⟨last, hlast, hopen⟩ := openWindow_here h.settled h.position hb l
  have htaken : c.taken batch = 0 := by
    rw [taken]
    omega
  have hsame : last = c.ring.sequencer.gating := Int64.toInt_inj.mp (by omega)
  rw [Poller.windowTo, if_pos hsame] at hopen
  exact ⟨c.withSequencer (c.ring.sequencer.count .idle),
    h.withSequencer (h.settled.count _) rfl rfl, hopen⟩

/-- Otherwise it finds one on the entries in front. -/
theorem openWindow_front (h : c.ring.Mirrors q) (hq : q.entries ≠ []) (hb : batch ≠ 0) (l : L) :
    ∃ win, Poller.openWindow hereSequencer herePoller batch (c, l) =
        .ok (some win) (c.withPoller (c.ring.poller.claim win), l) ∧
      win.sequences.filterMap c.ring.slots.read = (q.entries.take batch.toNat).filterMap id := by
  have hlength := h.length
  have hroom := h.settled.room
  have hpos := List.length_pos_iff.mpr hq
  have hbatch : batch.toNat ≠ 0 := fun he => hb (UInt64.toNat_inj.mp he)
  obtain ⟨last, hlast, hopen⟩ := openWindow_here h.settled h.position hb l
  have htaken : c.taken batch = min batch.toNat q.entries.length := by
    rw [taken]
    omega
  have hmore : last ≠ c.ring.sequencer.gating := by
    rintro rfl
    omega
  rw [Poller.windowTo, if_neg hmore] at hopen
  refine ⟨_, hopen, ?_⟩
  have hfirst : (c.ring.sequencer.gating + 1).toInt = c.ring.sequencer.gating.toInt + 1 :=
    Checked.toInt_succ (by omega)
  have hsize : (Window.mk (c.ring.sequencer.gating + 1) last).size = c.taken batch := by
    simp only [Window.size_eq, hfirst, hlast]
    omega
  have hvalues : (Window.mk (c.ring.sequencer.gating + 1) last).sequences.filterMap
      c.ring.slots.read = c.valuesAhead (c.taken batch) := values_window hfirst hsize
  rw [hvalues, htaken]
  exact (h.values (Nat.min_le_right _ _)).trans (by rw [← List.take_take, List.take_length])

/-- A poll that notes what is heard: the count is that of the values, and it is zero exactly if
the entries in front are all empty. -/
theorem of_poll_hearing (h : c.ring.Mirrors q) (hq : q.entries ≠ []) (hb : batch ≠ 0)
    {found : Option ℕ} {w : Channel cap α × L}
    (hpoll : receiveCount here.beside batch (fun value _ => hearing f value) (heard, (c, l)) =
      .ok found (heard', w)) :
    ∃ n, found = some n ∧ heard'.length = heard.length + n ∧ q.entries.take batch.toNat ≠ [] ∧
      (n = 0 ↔ (q.entries.take batch.toNat).filterMap id = []) := by
  have hbatch : batch.toNat ≠ 0 := fun he => hb (UInt64.toNat_inj.mp he)
  obtain ⟨win, hopen, hfront⟩ := openWindow_front h hq hb l
  have hring := overlies_ring (L := List α) (here : Part (Channel cap α × L) _)
  obtain ⟨opened, v, hwindow, hrest⟩ := Act.of_bind_ok hpoll
  rw [Poller.openWindow_beside (hring.within _) (hring.within _)] at hwindow
  obtain ⟨w₁, hwindow', rfl⟩ := Act.of_outer_ok hwindow
  obtain ⟨rfl, rfl⟩ := EStateM.Result.ok.inj (hopen.symm.trans hwindow')
  obtain ⟨n, v, hclosed, hreturn⟩ := Act.of_bind_ok hrest
  obtain ⟨rfl, rfl⟩ := EStateM.Result.ok.inj hreturn
  obtain ⟨⟨heard₂, w₂⟩, hdrain, hrelease⟩ := Act.of_closing_ok hclosed
  rw [Poller.release_beside (hring.within _) (hring.within _)] at hrelease
  obtain ⟨w₃, -, hw⟩ := Act.of_outer_ok hrelease
  obtain ⟨rfl, rfl⟩ := Prod.mk.inj hw
  obtain ⟨hlength, -, hnone⟩ := of_handAll_ok Part.lawful_first hdrain
  refine ⟨n, rfl, by omega, by simp [hq, hbatch], hnone.trans ?_⟩
  rw [← hfront, List.filterMap_eq_nil_iff]
  rfl

/-- A poll of an empty channel hears nothing and leaves it empty. -/
theorem poll_empty (h : c.ring.Mirrors q) (hq : q.entries = []) (hb : batch ≠ 0)
    (f : α → Act (Channel cap α × L) Unit) (heard : List α) (l : L) :
    ∃ c' : Channel cap α, c'.ring.Mirrors q ∧
      receiveCount here.beside batch (fun value _ => hearing f value) (heard, (c, l)) =
        .ok none (heard, (c', l)) := by
  obtain ⟨c', hm, hopen⟩ := openWindow_empty h hq hb l
  have hring := overlies_ring (L := List α) (here : Part (Channel cap α × L) _)
  have hwindow : Poller.openWindow (((here : Part (Channel cap α × L) _).beside.within
      ringPart).within Ring.sequencerPart) ((here.beside.within ringPart).within Ring.pollerPart)
      batch (heard, (c, l)) = .ok none (heard, (c', l)) := by
    rw [Poller.openWindow_beside (hring.within _) (hring.within _)]
    exact Part.lift_ok hopen
  exact ⟨c', hm, Act.bind_ok hwindow⟩

/-- If the first poll finds entries in front, the wait ends with it. -/
theorem of_untilWork_front (h : c.ring.Mirrors q) (hq : q.entries ≠ []) (hb : batch ≠ 0)
    {others : List (Act (List α × Channel cap α × L) Unit)} {n : ℕ} {w : Channel cap α × L}
    (hrun : Ring.untilWork (here.beside.within ringPart)
      (receiveCount here.beside batch fun value _ => hearing f value) others (heard, (c, l)) =
        .ok n (heard', w)) :
    heard'.length = heard.length + n ∧ q.entries.take batch.toNat ≠ [] ∧
      (n = 0 ↔ (q.entries.take batch.toNat).filterMap id = []) := by
  obtain ⟨found, ⟨heard₁, w₁⟩, hpoll, hrest⟩ := Ring.of_untilWork_ok hrun
  obtain ⟨m, rfl, hlength, hfront⟩ := of_poll_hearing h hq hb hpoll
  obtain ⟨rfl, hw⟩ := hrest m rfl
  obtain ⟨rfl, rfl⟩ := Prod.mk.inj hw
  exact ⟨hlength, hfront⟩

/-- The poll that ends a wait finds entries in front, and the count tells how many of them held
a value. -/
theorem of_wait_ok {pauses : List (Pause (Channel cap α × L))} {turns : List (List (Call α L))}
    (h : c.ring.Mirrors q) (legal : Queue.Legal turns.flatten (q, l)) (hb : batch ≠ 0) {n : ℕ}
    {w : Channel cap α × L}
    (hrun : Ring.untilWork (here.beside.within ringPart)
      (receiveCount here.beside batch fun value _ => hearing f value)
      ((turns.map (meanwhile pauses)).map Act.outer) (heard, (c, l)) = .ok n (heard', w)) :
    heard'.length = heard.length + n ∧ ∃ k ≤ turns.length,
      let front := (serveAll Queue.serve (turns.take k).flatten (q, l)).2.1.entries.take batch.toNat
      front ≠ [] ∧ (n = 0 ↔ front.filterMap id = []) := by
  induction turns generalizing c q l with
  | nil =>
    by_cases hq : q.entries = []
    · obtain ⟨c', -, hidle⟩ := poll_empty h hq hb f heard l
      exact nomatch (Act.bind_ok hidle).symm.trans hrun
    · obtain ⟨hlength, hfront⟩ := of_untilWork_front h hq hb hrun
      exact ⟨hlength, 0, le_refl _, hfront⟩
  | cons turn turns ih =>
    by_cases hq : q.entries = []
    · obtain ⟨c', hm, hidle⟩ := poll_empty h hq hb f heard l
      have hlater := (Act.bind_ok hidle).symm.trans hrun
      obtain ⟨hturn, hturns⟩ := Queue.legal_append.mp legal
      obtain ⟨answers, c₁, q₁, l₁, hserve, hserve', hm₁⟩ := serveAll_agrees pauses turn hm hturn
      rw [hserve'] at hturns
      -- the others make their calls, and the consumer's wait changes the coordinator only
      obtain ⟨_, v, houter, hlater⟩ := Act.of_bind_ok hlater
      obtain ⟨w₁, hmeanwhile, rfl⟩ := Act.of_outer_ok houter
      rw [meanwhile_eq, hserve] at hmeanwhile
      obtain ⟨-, rfl⟩ := EStateM.Result.ok.inj hmeanwhile
      obtain ⟨_, v, hwait, hlater⟩ := Act.of_bind_ok hlater
      rw [(overlies_ring here).lift] at hwait
      obtain ⟨w₁, hwaited, rfl⟩ := Act.of_outer_ok hwait
      obtain ⟨r, hcoordinator, rfl⟩ := Part.of_lift_ok hwaited
      obtain ⟨coordinator, -, rfl⟩ := Part.of_lift_ok hcoordinator
      obtain ⟨hlength, k, hk, hfront⟩ :=
        ih (c := { c₁ with ring := { c₁.ring with coordinator } }) { hm₁ with } hturns hlater
      refine ⟨hlength, k + 1, Nat.succ_le_succ hk, ?_⟩
      rw [List.take_succ_cons, List.flatten_cons, serveAll_append, hserve']
      exact hfront
    · obtain ⟨hlength, hfront⟩ := of_untilWork_front h hq hb hrun
      exact ⟨hlength, 0, Nat.zero_le _, hfront⟩

end Waiting

/-- A consumer that has waited returns the number of values that its callback was called with.
It returns when its poll finds entries in front, so the number is zero exactly if none of these
holds a value. This cannot be if every batch had the items that it announced. -/
theorem heard_unless_empty (cap : Capacity) (settings : Settings)
    (pauses : List (Pause (Channel cap α × L))) (calls : List (Call α L))
    (turns : List (List (Call α L))) (l : L)
    (legal : Queue.Legal (calls ++ turns.flatten) (Queue.new cap.slots settings, l))
    {batch : UInt64} (hb : batch ≠ 0) (f : α → Act (Channel cap α × L) Unit) {n : ℕ}
    {w : Channel cap α × L}
    (h : blockingReceive here (turns.map (meanwhile pauses)) batch f
      (serveAll (serve pauses) calls (Channel.new cap settings, l)).2 = .ok n w) :
    (∃ heard, blockingReceive here.beside ((turns.map (meanwhile pauses)).map Act.outer) batch
        (hearing f) ([], (serveAll (serve pauses) calls (Channel.new cap settings, l)).2) =
          .ok n (heard, w) ∧ heard.length = n) ∧
      ∃ k ≤ turns.length,
        let run := calls ++ (turns.take k).flatten
        let q := (serveAll Queue.serve run (Queue.new cap.slots settings, l)).2.1
        q.entries.take batch.toNat ≠ [] ∧
          (n = 0 ↔ (q.entries.take batch.toNat).filterMap id = []) ∧
          (Queue.Ample run (Queue.new cap.slots settings, l) → 1 ≤ n) := by
  have hnew : (Channel.new cap settings : Channel cap α).ring.Mirrors (.new cap.slots settings) :=
    Ring.mirrors_new settings
  obtain ⟨hcalls, hturns⟩ := Queue.legal_append.mp legal
  obtain ⟨answers, c, q, l', hc, hq, hm⟩ := serveAll_agrees pauses calls hnew hcalls
  obtain ⟨heard, hheard⟩ := (follows_blockingReceive _ batch f).noted h []
  rw [hc] at hheard ⊢
  rw [hq] at hturns
  obtain ⟨hlength, k, hk, hfront, hnone⟩ := of_wait_ok hm hturns hb hheard
  refine ⟨⟨heard, hheard, by simpa using hlength⟩, k, hk, ?_⟩
  have hempty : none ∉ (Queue.new cap.slots settings : Queue α).entries := List.not_mem_nil
  have hfull (ample : Queue.Ample (calls ++ (turns.take k).flatten) (.new cap.slots settings, l)) :=
    Queue.full_serveAll hempty ample
  simp only [serveAll_append, hq] at hfull ⊢
  refine ⟨hfront, hnone, fun ample => Nat.one_le_iff_ne_zero.mpr fun hzero => ?_⟩
  obtain ⟨entry, rest, hcons⟩ := List.exists_cons_of_ne_nil hfront
  have hentry : entry ∈ List.take batch.toNat _ := hcons ▸ List.mem_cons_self
  obtain rfl : entry = none := List.filterMap_eq_nil_iff.mp (hnone.mp hzero) entry hentry
  exact hfull ample (List.mem_of_mem_take hentry)

/-- A consumer polls an empty channel twice, and then hears the value that was sent. -/
theorem heard_unless_empty_waiting :
    let settings : Settings := { capacity := 2, producer := .multi, consumer := .multi }
    let calls : List (Call ℕ Unit) := [.openProducer, .openConsumer]
    let turns : List (List (Call ℕ Unit)) := [[], [.tryPush 7]]
    let quiet : ℕ → Act (Channel Capacity.two ℕ × Unit) Unit := fun _ => pure ()
    let run := (blockingReceive here (turns.map (meanwhile [])) 2 quiet).outcome
      (serveAll (serve []) calls (Channel.new Capacity.two settings, ())).2
    Queue.Legal (calls ++ turns.flatten) (Queue.new 2 settings, ()) ∧ run.1 = .ok 1 ∧
      (∃ heard, blockingReceive here.beside ((turns.map (meanwhile [])).map Act.outer) 2
        (hearing quiet)
        ([], (serveAll (serve []) calls (Channel.new Capacity.two settings, ())).2) =
          .ok 1 (heard, run.2) ∧ heard.length = 1) ∧
      ∃ k ≤ 2, (serveAll Queue.serve (calls ++ (turns.take k).flatten)
        (Queue.new 2 settings, ())).2.1.entries.take 2 ≠ [] := by
  intro settings calls turns quiet run
  have hlegal : Queue.Legal (calls ++ turns.flatten) (Queue.new 2 settings, ()) := by decide
  have hrun : run.1 = .ok 1 := by decide +kernel
  obtain ⟨hheard, k, hk, hfront, -⟩ := heard_unless_empty Capacity.two settings [] calls turns ()
    hlegal (by decide) quiet (Act.of_outcome_ok hrun)
  exact ⟨hlegal, hrun, hheard, k, hk, hfront⟩

/-- A batch announces two values and gives up before the first. The consumer returns zero, although
the value that was sent after it is there. -/
theorem heard_nothing :
    let settings : Settings := { capacity := 4 }
    let feed : Feed Unit ℕ := ⟨2, fun _ => throw (.raised "iterator panic at 0")⟩
    let calls : List (Call ℕ Unit) := [.openProducer, .openConsumer, .pushBatch feed, .push 7]
    let sent := serveAll (serve []) calls (Channel.new ⟨2, by decide⟩ settings, ())
    let quiet : ℕ → Act (Channel ⟨2, by decide⟩ ℕ × Unit) Unit := fun _ => pure ()
    let run := (blockingReceive here [] 2 quiet).outcome sent.2
    Queue.Legal calls (Queue.new 4 settings, ()) ∧ run.1 = .ok 0 ∧
      run.2.1.ring.slots.toList.filterMap id = [7] := by
  decide +kernel

end Channel

end LapRing
