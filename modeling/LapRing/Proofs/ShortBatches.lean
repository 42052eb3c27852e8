import LapRing.Proofs.NotesBeside
import LapRing.Proofs.Receiving

/-!
# What a batch stores

A batch returns the number of values that it announced. What it stores are the items that its
feed yields: they stand at the front of its window, in order, and the slots behind them are
empty. The feed may act on the channel while it is asked, as long as it keeps away from slots
that are claimed.
-/
namespace LapRing

/-- A feed that notes what it yields beside the world. -/
def Feed.telling {W α : Type} (feed : Feed W α) : Feed (List α × W) α where
  length := feed.length
  next k := do
    let item ← Act.outer (feed.next k)
    Part.first.update (· ++ item.toList)
    return item

theorem Feed.of_telling_ok {W α : Type} {feed : Feed W α} {k : ℕ} {told told' : List α}
    {item : Option α} {w w' : W} (h : feed.telling.next k (told, w) = .ok item (told', w')) :
    feed.next k w = .ok item w' ∧ told' = told ++ item.toList := by
  obtain ⟨item', u, hnext, hrest⟩ := Act.of_bind_ok h
  obtain ⟨v, hfeed, rfl⟩ := Act.of_outer_ok hnext
  obtain ⟨rfl, hw⟩ := EStateM.Result.ok.inj hrest
  obtain ⟨rfl, rfl⟩ := Prod.mk.inj hw
  exact ⟨hfeed, rfl⟩

theorem Feed.follows_telling {W α : Type} (feed : Feed W α) (k : ℕ) :
    Act.Follows Prod.snd (feed.telling.next k) (feed.next k) := by
  have hrun := (Act.follows_outer (L := List α) (feed.next k)).bind fun item =>
    (Act.follows_note (· ++ item.toList)).bind fun _ => Act.follows_pure item
  simp only [pure_bind, bind_pure] at hrun
  exact hrun

namespace Ring
variable {cap : Capacity} {W σ : Type} {here : Part W (Ring cap σ)}

/-- A claim of several slots that is not refused gets that many, and no more than there are. -/
theorem of_claimMany_ok {pauses : List (Pause W)} {n : UInt64} {win : Window} {w w' : W}
    (h : claimMany here pauses n w = .ok (.ok win) w') :
    1 ≤ n.toNat ∧ n.toNat ≤ cap.slots ∧ win.last.toInt = win.first.toInt + n.toNat - 1 := by
  obtain ⟨answer, v, hnext, hrest⟩ := Act.of_bind_ok h
  cases answer with
  | error refusal => simp at hrest
  | ok high =>
    cases hcheck : cap.checkClaim n with
    | error refusal => simp [Sequencer.next, hcheck] at hnext
    | ok size =>
      obtain ⟨rfl, hpos, hle⟩ := Capacity.of_checkClaim hcheck
      obtain ⟨less, v₁, hless, hrest⟩ := Act.of_bind_ok hrest
      obtain ⟨low, v₂, hlow, hrest⟩ := Act.of_bind_ok hrest
      obtain ⟨rfl, -⟩ : ⟨low, high⟩ = win ∧ v₂ = w' := by simpa using hrest
      have hsize := cap.toInt_toInt64 hle
      have hone := Checked.toInt_one
      have hless' := Checked.of_sub_ok hless
      have hlow' := Checked.of_sub_ok hlow
      simp only
      omega

end Ring

/-- After the same was written to several slots, they hold it. -/
theorem Slots.read_writeAll_replicate {cap : Capacity} {σ : Type} (slots : Slots cap σ)
    (ss : List Int64) (x : σ) (t : Int64) :
    (slots.writeAll ss (List.replicate ss.length x)).read t =
      if ∃ s ∈ ss, cap.slot s = cap.slot t then x else slots.read t := by
  induction ss generalizing slots with
  | nil => simp [writeAll]
  | cons s ss ih =>
    rw [List.length_cons, List.replicate_succ, writeAll, ih, read_write]
    by_cases hlater : ∃ u ∈ ss, cap.slot u = cap.slot t
    · simp [hlater]
    · simp [hlater]

namespace Channel
variable {cap : Capacity} {W α : Type}

/-- A note beside the world leaves the ring where it is. -/
theorem overlies_ring {L : Type} (here : Part W (Channel cap α)) :
    ((here.beside : Part (L × W) _).within ringPart).Overlies (here.within ringPart) :=
  (Part.overlies_beside here).within ringPart

/-- What is in the slot of a sequence. -/
def content (here : Part W (Channel cap α)) (s : Int64) (w : W) : Option α :=
  (here.split w).1.ring.slots.read s

/-- Whatever a feed does while it is asked, it leaves the slots of `ss` as they are. -/
def Spares (here : Part W (Channel cap α)) (ss : List Int64) (feed : Feed W α) : Prop :=
  ∀ k, ∀ s ∈ ss, ∀ x, Act.Leads (content here s · = x) (content here s · = x) (feed.next k)

theorem Spares.content_next {here : Part W (Channel cap α)} {ss : List Int64} {feed : Feed W α}
    (h : Spares here ss feed) {s : Int64} (hs : s ∈ ss) {k : ℕ} {item : Option α} {w w' : W}
    (hnext : feed.next k w = .ok item w') : content here s w' = content here s w := by
  have hkeeps := h k s hs (content here s w) w rfl
  rwa [Act.outcome_ok hnext] at hkeeps

/-- A feed that acts on what its callers own leaves all slots as they are. -/
theorem spares_outerFeed {L : Type} (ss : List Int64) (feed : Feed L α) :
    Spares (here : Part (Channel cap α × L) _) ss (outerFeed feed) :=
  fun k s _ x =>
    Act.leads_outer (feed.next k) fun c : Channel cap α => c.ring.slots.read s = x

/-- The items of a batch stand at the front of its slots, and nothing behind them. -/
structure Stored (here : Part W (Channel cap α)) (ss : List Int64) (items : List α) (w : W) :
    Prop where
  length_le : items.length ≤ ss.length
  contents : (ss.map fun s => content here s w) =
    items.map some ++ List.replicate (ss.length - items.length) none

section Filling
variable {V : Type} {p : Part V (Channel cap α)} (hp : p.Lawful)
include hp

theorem content_alter (f : Channel cap α → Channel cap α) (s : Int64) (v : V) :
    content p s (p.alter f v) = (f (p.split v).1).ring.slots.read s := by
  rw [content, Part.split_alter hp]

theorem content_refill (s t : Int64) (x : Option α) (v : V) :
    content p t (p.alter (·.refill s x) v) =
      if cap.slot s = cap.slot t then x else content p t v := by
  rw [content_alter hp, ring_refill, slots_withSlots, Slots.read_write]
  rfl

theorem content_publish {win : Window} {v v' : V}
    (h : Ring.publish (p.within ringPart) win v = .ok () v') (s : Int64) :
    content p s v' = content p s v := by
  have hring := hp.within (lawful_ringPart : (ringPart : Part (Channel cap α) _).Lawful)
  obtain ⟨_, v₁, hsequencer, hwakeup⟩ := Act.of_bind_ok h
  rw [← Part.lift_within] at hsequencer
  obtain ⟨sequencer, -, rfl⟩ := Part.of_lift_ok hsequencer
  obtain rfl := (EStateM.Result.ok.inj hwakeup).2
  have hread : ∀ v, content p s v = ((p.within ringPart).split v).1.slots.read s := fun _ => rfl
  rw [hread, hring.split_join]
  change content p s (p.join _ _) = _
  rw [content, hp.split_join]
  rfl

/-- A slot is filled with the next item, if there is one. -/
theorem of_fillOne_ok {feed : Feed V α} {k : ℕ} {s : Int64} {more : Bool} {v v' : V}
    (h : fillOne p feed k s v = .ok more v') :
    more = false ∧ feed.next k v = .ok none v' ∨
      ∃ x u, more = true ∧ feed.next k v = .ok (some x) u ∧
        v' = p.alter (·.refill s (some x)) u := by
  obtain ⟨item, u, hnext, hrest⟩ := Act.of_bind_ok h
  cases item with
  | none =>
    obtain ⟨rfl, rfl⟩ := EStateM.Result.ok.inj hrest
    exact .inl ⟨rfl, hnext⟩
  | some x =>
    have hput : p.lift (exchange s (some x)) u = .ok (content p s u)
        (p.alter (fun c => c.withSlots (c.ring.slots.write s (some x))) u) := Part.lift_ok rfl
    simp only at hrest
    rw [Act.bind_ok hput] at hrest
    obtain ⟨_, v₁, hadd, hmore⟩ := Act.of_bind_ok hrest
    obtain ⟨rfl, rfl⟩ := EStateM.Result.ok.inj hmore
    obtain ⟨v₂, hsum, hdiscard⟩ := Act.of_closing_ok hadd
    obtain ⟨-, rfl⟩ := Checked.of_word_ok hsum
    obtain rfl := (EStateM.Result.ok.inj hdiscard).2
    refine .inr ⟨x, u, rfl, hnext, ?_⟩
    change p.alter (discard (content p s u)) (p.alter _ u) = _
    rw [Part.alter_alter hp]
    rfl

/-- A slot is empty after it was vacated, and others are as they were. -/
theorem content_vacated (ss : List Int64) (t : Int64) (v : V) :
    content p t (p.alter (·.refillAll ss (List.replicate ss.length none)) v) =
      if ∃ s ∈ ss, cap.slot s = cap.slot t then none else content p t v := by
  rw [content_alter hp, ring_refillAll, slots_withSlots]
  exact Slots.read_writeAll_replicate _ ss none t

end Filling

section Telling
variable {here : Part W (Channel cap α)} (lawful : here.Lawful)
include lawful

/-- Filling slots puts the items of the feed into the first of them, and nothing into the rest. -/
theorem of_fill_telling {feed : Feed W α} {claimed ss : List Int64}
    (spares : Spares here claimed feed) (distinct : ss.Pairwise fun s t => cap.slot s ≠ cap.slot t)
    (hss : ∀ s ∈ ss, s ∈ claimed) {k : ℕ} {told told' : List α} {w w' : W}
    (h : fill here.beside feed.telling k ss (told, w) = .ok () (told', w')) :
    ∃ items, told' = told ++ items ∧ Stored here ss items w' ∧
      ∀ t ∈ claimed, (∀ s ∈ ss, cap.slot s ≠ cap.slot t) →
      content here t w' = content here t w := by
  induction ss generalizing k told w with
  | nil =>
    obtain ⟨-, hw⟩ := EStateM.Result.ok.inj h
    obtain ⟨rfl, rfl⟩ := Prod.mk.inj hw
    exact ⟨[], (List.append_nil _).symm, ⟨le_refl _, rfl⟩, fun _ _ _ => rfl⟩
  | cons s ss ih =>
    have hbeside : (here.beside : Part (List α × W) _).Lawful := Part.lawful_second.within lawful
    obtain ⟨hs, hss'⟩ := List.pairwise_cons.mp distinct
    obtain ⟨more, v, hone, hrest⟩ := Act.of_bind_ok h
    rcases of_fillOne_ok hbeside (Act.of_onHalt_ok hone) with
      ⟨rfl, hnext⟩ | ⟨x, ⟨told₁, w₁⟩, rfl, hnext, rfl⟩
    · obtain ⟨told₁, w₁⟩ := v
      obtain ⟨hfeed, rfl⟩ := Feed.of_telling_ok hnext
      have hvacate := (vacateAll_in hbeside (s :: ss) (told ++ none.toList, w₁)).symm.trans hrest
      obtain ⟨rfl, rfl⟩ := Prod.mk.inj (EStateM.Result.ok.inj hvacate).2
      refine ⟨[], rfl, ⟨Nat.zero_le _, ?_⟩, fun t ht hother => ?_⟩
      · refine List.eq_replicate_iff.mpr ⟨by simp, fun e he => ?_⟩
        obtain ⟨t, ht, rfl⟩ := List.mem_map.mp he
        exact (content_vacated lawful _ _ _).trans (if_pos ⟨t, ht, rfl⟩)
      · have hkept := (content_vacated lawful (s :: ss) t w₁).trans
          (if_neg fun ⟨u, hu, he⟩ => hother u hu he)
        exact hkept.trans (spares.content_next ht hfeed)
    · obtain ⟨hfeed, rfl⟩ := Feed.of_telling_ok hnext
      have hlater : fill here.beside feed.telling (k + 1) ss
          (told ++ [x], here.alter (·.refill s (some x)) w₁) = .ok () (told', w') := hrest
      obtain ⟨items, rfl, hstored, hothers⟩ :=
        ih hss' (fun u hu => hss u (List.mem_cons_of_mem _ hu)) hlater
      have hfront : content here s w' = some x := by
        rw [hothers s (hss s List.mem_cons_self) fun u hu => (hs u hu).symm,
          content_refill lawful, if_pos rfl]
      refine ⟨x :: items, by simp, ⟨Nat.succ_le_succ hstored.length_le, ?_⟩, fun t ht hother => ?_⟩
      · simp [hfront, hstored.contents]
      · rw [hothers t ht fun u hu => hother u (List.mem_cons_of_mem _ hu), content_refill lawful,
          if_neg (hother s List.mem_cons_self), spares.content_next ht hfeed]

end Telling

/-- The values in the slots are the items. -/
theorem Stored.values {here : Part W (Channel cap α)} {ss : List Int64} {items : List α} {w : W}
    (h : Stored here ss items w) : (ss.filterMap fun s => content here s w) = items := by
  calc ss.filterMap (fun s => content here s w)
    _ = (ss.map fun s => content here s w).filterMap id := by rw [List.filterMap_map]; rfl
    _ = items := by rw [h.contents]; simp

/-- What is stored is handed out to whoever drains the window, in order and nothing else. -/
theorem Stored.drain {here : Part W (Channel cap α)} {win : Window} {items : List α} {w : W}
    (h : Stored here win.sequences items w) (near : win.last.toInt < win.first.toInt + cap.slots)
    {L : Type} {c : Channel cap α}
    (same : ∀ s ∈ win.sequences, c.ring.slots.read s = content here s w) {f : α → Act L Unit}
    {l l' : L} (hf : items.forM f l = .ok () l') :
    ∃ c', Channel.drain Channel.here (fun value _ => Act.outer (f value)) win (c, l) =
      .ok items.length (c', l') := by
  have hread : win.sequences.filterMap c.ring.slots.read = items :=
    (List.filterMap_congr same).trans h.values
  obtain ⟨k, -, -, hdrain⟩ := handOutAll_eq f win.sequences (Window.pairwise_slots near) 0 c l
  rw [← drain_def, hread, hf, Nat.zero_add] at hdrain
  exact ⟨_, hdrain⟩

/-- A batch that is not empty fills a window of its announced size and publishes it. -/
theorem of_pushBatch_ok {V : Type} {p : Part V (Channel cap α)} {pauses : List (Pause V)}
    {feed : Feed V α} {k : UInt64} {v v' : V}
    (h : pushBatch p pauses feed v = .ok (.ok k) v') :
    k = feed.length ∧ (k = 0 → v' = v) ∧ (k ≠ 0 → ∃ win v₁ v₂,
      Ring.claimMany (p.within ringPart) pauses k v = .ok (.ok win) v₁ ∧
      fill p feed 0 win.sequences v₁ = .ok () v₂ ∧
      Ring.publish (p.within ringPart) win v₂ = .ok () v') := by
  unfold pushBatch at h
  by_cases hzero : feed.length = 0
  · rw [if_pos hzero] at h
    obtain ⟨hk, rfl⟩ := EStateM.Result.ok.inj h
    obtain rfl := Except.ok.inj hk
    exact ⟨hzero.symm, fun _ => rfl, fun hne => absurd rfl hne⟩
  · rw [if_neg hzero] at h
    obtain ⟨answer, v₁, hclaim, hrest⟩ := Act.of_bind_ok h
    cases answer with
    | error refusal => simp at hrest
    | ok win =>
      obtain ⟨_, u, hfilled, hreturn⟩ := Act.of_bind_ok hrest
      obtain ⟨hk, rfl⟩ := EStateM.Result.ok.inj hreturn
      obtain rfl := Except.ok.inj hk
      obtain ⟨v₂, hfill, hpublish⟩ := Act.of_closing_ok hfilled
      exact ⟨rfl, fun he => absurd he hzero, fun _ => ⟨win, v₁, v₂, hclaim, hfill, hpublish⟩⟩

/-- A batch comes to the same if its feed tells what it yields. -/
theorem follows_fill {here : Part W (Channel cap α)} (feed : Feed W α) (k : ℕ) (ss : List Int64) :
    Act.Follows Prod.snd (fill here.beside feed.telling k ss) (fill here feed k ss) := by
  have hhere : (here.beside : Part (List α × W) _).Overlies here := Part.overlies_beside here
  have hone : ∀ k s, Act.Follows Prod.snd (fillOne here.beside feed.telling k s)
      (fillOne here feed k s) := by
    intro k s
    refine (feed.follows_telling k).bind fun item => ?_
    cases item with
    | none => exact Act.follows_pure _
    | some x =>
      refine (hhere.follows_lift _).bind fun stale => Act.Follows.bind ?_ fun _ =>
        Act.follows_pure _
      refine Act.Follows.closing ?_ (hhere.follows_lift _)
      rw [← Checked.outer_add]
      exact Act.follows_outer _
  induction ss generalizing k with
  | nil => exact Act.follows_pure _
  | cons s ss ih =>
    have hvacate : Act.Follows Prod.snd
        ((s :: ss).forM fun t => (here.beside : Part (List α × W) _).lift (vacate t))
        ((s :: ss).forM fun t => here.lift (vacate t)) :=
      Act.follows_forM (fun t => hhere.follows_lift _) _
    refine ((hone k s).onHalt hvacate).bind fun more => ?_
    cases more with
    | false => exact hvacate
    | true => exact ih (k + 1)

theorem follows_pushBatch {here : Part W (Channel cap α)} (pauses : List (Pause W))
    (feed : Feed W α) :
    Act.Follows Prod.snd (pushBatch here.beside (pauses.map Pause.beside) feed.telling)
      (pushBatch here pauses feed) := by
  have hring := overlies_ring (L := List α) here
  unfold pushBatch
  change Act.Follows Prod.snd (if feed.length = 0 then _ else _) _
  split
  · exact Act.follows_pure _
  · rw [show feed.telling.length = feed.length from rfl, Ring.claimMany_beside hring]
    refine (Act.follows_outer _).bind fun answer => ?_
    cases answer with
    | error refusal => exact Act.follows_pure _
    | ok win =>
      simp only [Ring.publish_beside hring]
      exact ((follows_fill feed 0 _).closing (Act.follows_outer _)).bind fun _ => Act.follows_pure _

/-- A batch that returns a number returns the announced one. Its window has that many slots,
and holds the items that the feed yielded when it was asked, also if they are fewer. Those are
handed out when the window is drained. -/
theorem batch_stores_yielded {here : Part W (Channel cap α)} (lawful : here.Lawful)
    (pauses : List (Pause W)) (feed : Feed W α) {k : UInt64} {w w' : W}
    (h : pushBatch here pauses feed w = .ok (.ok k) w') :
    k = feed.length ∧ ∃ yielded,
      pushBatch here.beside (pauses.map Pause.beside) feed.telling ([], w) =
        .ok (.ok k) (yielded, w') ∧
      (k = 0 → yielded = [] ∧ w' = w) ∧
      (k ≠ 0 → ∃ win w₁,
        Ring.claimMany (here.within ringPart) pauses k w = .ok (.ok win) w₁ ∧ win.size = k.toNat ∧
        (Spares here win.sequences feed →
          Stored here win.sequences yielded w' ∧
          ∀ {L : Type} (c : Channel cap α) (f : α → Act L Unit) (l l' : L),
            (∀ s ∈ win.sequences, c.ring.slots.read s = content here s w') →
            yielded.forM f l = .ok () l' →
            ∃ c', drain Channel.here (fun value _ => Act.outer (f value)) win (c, l) =
              .ok yielded.length (c', l'))) := by
  obtain ⟨yielded, htold⟩ := (follows_pushBatch pauses feed).noted h []
  obtain ⟨hk, hnone, hsome⟩ := of_pushBatch_ok htold
  refine ⟨hk, yielded, htold, fun hzero => Prod.mk.inj (hnone hzero), fun hne => ?_⟩
  obtain ⟨win, v₁, v₂, hclaim, hfill, hpublish⟩ := hsome hne
  have hring := overlies_ring (L := List α) here
  rw [Ring.claimMany_beside hring] at hclaim
  rw [Ring.publish_beside hring] at hpublish
  obtain ⟨w₁, hclaim', rfl⟩ := Act.of_outer_ok hclaim
  obtain ⟨hpos, hle, hlast⟩ := Ring.of_claimMany_ok hclaim'
  have hsize : win.size = k.toNat := by
    rw [Window.size_eq]
    omega
  refine ⟨win, w₁, hclaim', hsize, fun spares => ?_⟩
  obtain ⟨told₂, w₂⟩ := v₂
  obtain ⟨w₃, hpublish', hw⟩ := Act.of_outer_ok hpublish
  obtain ⟨rfl, rfl⟩ := Prod.mk.inj hw
  have near : win.last.toInt < win.first.toInt + cap.slots := by omega
  obtain ⟨items, hitems, hstored, -⟩ :=
    of_fill_telling lawful spares (Window.pairwise_slots near) (fun _ hs => hs) hfill
  obtain rfl : yielded = items := hitems
  have hstored' : Stored here win.sequences yielded w' := by
    refine ⟨hstored.length_le, ?_⟩
    rw [← hstored.contents]
    exact List.map_congr_left fun s _ => content_publish lawful hpublish' s
  exact ⟨hstored', fun c f l l' same hf => hstored'.drain near same hf⟩

/-- A batch announces two values and has one. It returns two, and one slot stays empty. -/
theorem batch_stores_yielded_short :
    let feed : Feed (Channel Capacity.two ℕ × Unit) ℕ :=
      outerFeed ⟨2, fun k => pure (if k = 0 then some 5 else none)⟩
    let run := (pushBatch here [] feed).outcome (.new Capacity.two { capacity := 2 }, ())
    run.1 = .ok (.ok 2) ∧
      ∃ win : Window, win.size = 2 ∧ Spares here win.sequences feed ∧
        Stored here win.sequences [5] run.2 := by
  intro feed run
  have hrun : run.1 = .ok (.ok 2) := by decide +kernel
  have lawful : (here : Part (Channel Capacity.two ℕ × Unit) _).Lawful := Part.lawful_first
  obtain ⟨-, yielded, htold, -, hsome⟩ :=
    batch_stores_yielded lawful [] feed (Act.of_outcome_ok hrun)
  obtain ⟨win, w₁, -, hsize, hstored⟩ := hsome (by decide)
  have hyielded : ((pushBatch here.beside [] feed.telling).outcome
      ([], (.new Capacity.two { capacity := 2 }, ()))).2.1 = [5] := by decide +kernel
  rw [List.map_nil] at htold
  rw [Act.outcome_ok htold] at hyielded
  obtain rfl : yielded = [5] := hyielded
  have hspares : Spares here win.sequences feed := spares_outerFeed win.sequences _
  exact ⟨hrun, win, hsize, hspares, (hstored hspares).1⟩

/-- A batch that announces three values and has one returns three. -/
theorem batch_overstated :
    let settings : Settings := { capacity := 4 }
    let feed : Feed Unit ℕ := ⟨3, fun k => pure (if k = 0 then some 5 else none)⟩
    let opened := serveAll (serve []) [.openProducer] (Channel.new ⟨2, by decide⟩ settings, ())
    let run := (pushBatch here [] (outerFeed feed)).outcome opened.2
    Queue.Legal [.openProducer, .pushBatch feed] (Queue.new 4 settings, ()) ∧
      run.1 = .ok (.ok 3) ∧ run.2.1.ring.slots.toList.filterMap id = [5] := by
  decide +kernel

end Channel

end LapRing
