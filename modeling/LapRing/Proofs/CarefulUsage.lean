import LapRing.Proofs.CarefulCalls

/-!
# Whatever users do is careful

Every call notes what it claims and finds, and whatever is passed to it goes on using the
ring as far as its sides are free. So the calls of a channel and of an event ring are
careful if what is passed to them is, and programs of such calls are careful however
deeply they are nested, whatever they catch and wherever they are cut short.
-/
namespace LapRing
open Sequencer

namespace RingView
variable {cap : Capacity} {settings : Settings} {d : FreeHandles} {owed : ℤ}
  {v : RingView cap}

def noting (f : Ledger → Ledger) (v : RingView cap) : RingView cap :=
  { v with ledger := f v.ledger }

theorem kept_noting {f : Ledger → Ledger} (grows : ∀ b, b.claims ≤ (f b).claims) (d : FreeHandles)
    (v : RingView cap) : Kept d v (v.noting f) :=
  ⟨grows _, le_refl _, fun _ => ⟨rfl, rfl⟩, fun _ => ⟨rfl, rfl⟩⟩

theorem moved_claims (h : v.Sane settings d owed) (n : ℕ) :
    Moved settings quiet d d (owed - n) id v none (v.noting (.claim n)) where
  sane := { h with
    claimed_lt := by
      have hlt := h.claimed_lt
      simp only [noting, Ledger.claim, Nat.cast_add]
      omega }
  kept := kept_noting (fun _ => Nat.le_add_right _ _) d v
  balance _ := by
    rw [Option.map_id]
    rfl
  fair := nofun

theorem moved_noteWork (h : v.Sane settings d owed) :
    Moved settings quiet d d owed Balance.noteWork v none (v.noting .work) where
  sane := ⟨h.producer, h.consumer, h.start_le, h.gating_le, h.position, h.position_le, h.cursor_le,
    h.claimed_lt, h.level⟩
  kept := kept_noting (f := .work) (fun _ => le_refl _) d v
  balance _ := by
    simp only [balance, noting, Ledger.work, Option.map_map]
    congr 1
    funext t
    simp only [Function.comp_apply, Balance.noteWork, UInt64.ofNat_add]
    congr 1
    grind
  fair := nofun

theorem moved_noteRest (h : v.Sane settings d owed) :
    Moved settings quiet d d owed Balance.noteRest v none (v.noting .rest) where
  sane := ⟨h.producer, h.consumer, h.start_le, h.gating_le, h.position, h.position_le, h.cursor_le,
    h.claimed_lt, h.level⟩
  kept := kept_noting (f := .rest) (fun _ => le_refl _) d v
  balance _ := by
    simp only [balance, noting, Ledger.rest, Option.map_map]
    congr 1
    funext t
    simp only [Function.comp_apply, Balance.noteRest, UInt64.ofNat_add]
    congr 1
    grind
  fair := nofun

theorem moved_noteReject (h : v.Sane settings d owed) :
    Moved settings quiet d d owed Balance.noteReject v none (v.noting .reject) where
  sane := ⟨h.producer, h.consumer, h.start_le, h.gating_le, h.position, h.position_le, h.cursor_le,
    h.claimed_lt, h.level⟩
  kept := kept_noting (f := .reject) (fun _ => le_refl _) d v
  balance _ := by
    simp only [balance, noting, Ledger.reject, Option.map_map]
    congr 1
    funext t
    simp only [Function.comp_apply, Balance.noteReject, UInt64.ofNat_add]
    congr 1
    grind
  fair := nofun

end RingView

namespace RingSite
variable {cap : Capacity} {V α β : Type} {settings : Settings} {raises : String → Prop}
  {d : FreeHandles}

section Ring
variable {site : RingSite cap V}

/-- What was done with care so far, and what is noted about it. -/
theorem brings_note {owed owed' : ℤ} {shift shift' : Balance → Balance} (f : Ledger → Ledger)
    (grows : ∀ b, b.claims ≤ (f b).claims) {v : RingView cap} {w : V}
    (hnote : ∀ u : RingView cap, u.Sane settings d owed →
      Moved settings quiet d d owed' shift' u none (u.noting f))
    (h : (site.ringView w).Few → Moved settings raises d d owed shift v none (site.ringView w)) :
    site.Brings (site.note f) w fun e u => e = .ok () ∧ (site.ringView w).Few ∧
      Moved settings raises d d owed' (shift' ∘ shift) v none u :=
  .note grows fun hfew => ⟨rfl, hfew, (h hfew).trans (hnote _ (h hfew).sane).loosen⟩

/-- A poll that is noted by its ending is careful. -/
theorem careful_counted {batch : UInt64} {worked : β → Bool} {poll : Act V β}
    (h : ∀ w, ((site.ringView w).Few → (site.ringView w).Sane settings d 0) →
      site.Brings poll w fun e v => Moved settings raises d d 0
        (match e with
          | .ok a => if worked a then Balance.work else if batch = 0 then id else Balance.rest
          | .error _ => Balance.work) (site.ringView w) (Act.haltOf e) v) :
    site.Careful settings raises d (site.counted batch worked poll) := by
  intro w hw
  unfold counted
  refine (h w hw).ending_bind fun e w' hw' => ?_
  have hwork : ((site.ringView w').Few →
      Moved settings raises d d 0 Balance.work (site.ringView w) none (site.ringView w')) →
      site.Brings (site.note .work) w' fun e u => e = .ok () ∧ (site.ringView w').Few ∧
        Moved settings raises d d 0 (Balance.noteWork ∘ Balance.work) (site.ringView w) none u :=
    brings_note .work (fun _ => le_refl _) fun _ => RingView.moved_noteWork
  rcases e with e | a
  · by_cases hstalled : e = .stalled
    · subst hstalled
      exact .throw fun hfew => (hw' hfew).adrift
    · have hraised : site.Brings (do
          site.note .work
          throw e : Act V β) w' fun e u =>
            Moved settings raises d d 0 id (site.ringView w) (Act.haltOf e) u := by
        refine (hwork fun hfew => (hw' hfew).caught hstalled).bind (fun _ w₁ hw₁ => ?_)
          fun _ e u he => by simp at he
        refine .throw fun hfew => ?_
        obtain ⟨-, hfew', hdone⟩ := hw₁ hfew
        exact (hdone.reshift Balance.noteWork_work).thrown ((hw' hfew').fair e rfl)
      cases e with
      | stalled => exact absurd rfl hstalled
      | fault reason => exact hraised
      | raised text => exact hraised
  · dsimp only at hw' ⊢
    by_cases hworked : worked a
    · simp only [hworked, if_true] at hw' ⊢
      refine (hwork hw').bind (fun _ w₁ hw₁ => .pure fun hfew => ?_) fun _ e u he => by simp at he
      exact (hw₁ hfew).2.2.reshift Balance.noteWork_work
    · by_cases hbatch : batch = 0
      · simp only [hworked, hbatch, ne_eq, not_true_eq_false, if_true, if_false,
          Bool.false_eq_true] at hw' ⊢
        exact .pure hw'
      · simp only [hworked, hbatch, ne_eq, not_false_eq_true, if_true, if_false,
          Bool.false_eq_true] at hw' ⊢
        have hrest := brings_note .rest (fun _ => le_refl _) (fun _ => RingView.moved_noteRest) hw'
        refine hrest.bind (fun _ w₁ hw₁ => .pure fun hfew => ?_) fun _ e u he => by simp at he
        exact (hw₁ hfew).2.2.reshift Balance.noteRest_rest

/-- A consumer that waits either goes on or waits for ever. -/
theorem careful_consumerWait :
    site.Careful settings raises d
      (site.ring.lift (Ring.coordinatorPart.lift Coordinator.consumerWait)) := by
  refine .lift fun r => ?_
  obtain ⟨_, _, _, _, ⟨_, _, _ | _ | _⟩, _, _⟩ := r
  · exact ⟨nofun, rfl, rfl, rfl⟩
  · exact ⟨fun _ h => (Option.some.inj h).symm, rfl, rfl, rfl⟩
  · exact ⟨nofun, rfl, rfl, rfl⟩

theorem careful_untilWork {attempt : Act V (Option β)}
    (hattempt : site.Careful settings raises d attempt)
    {others : List (Act V Unit)} (hothers : ∀ x ∈ others, site.Careful settings quiet d x) :
    site.Careful settings raises d (Ring.untilWork site.ring attempt others) := by
  have hstalled : site.Careful settings raises d (throw .stalled : Act V β) :=
    fun w h => .throw fun hfew => .stalled (h hfew)
  induction others with
  | nil =>
    unfold Ring.untilWork
    refine hattempt.bind fun found => ?_
    cases found with
    | none => exact hstalled
    | some a => exact .pure a
  | cons other rest ih =>
    unfold Ring.untilWork
    refine hattempt.bind fun found => ?_
    cases found with
    | none =>
      refine (hothers other List.mem_cons_self).loosen.bind fun _ => ?_
      refine careful_consumerWait.bind fun _ => ih fun x hx => hothers x (List.mem_cons_of_mem _ hx)
    | some a => exact .pure a

theorem careful_length : site.Careful settings raises d (do (← site.ring.read).length) := by
  intro w h
  refine .read_ring (fun _ => rfl) (.sub_bind (fun hfew => ?_) (.pure fun hfew => .refl (h hfew)))
  have hstart := (h hfew).start_le
  have hgating := (h hfew).gating_le
  have hcursor := (h hfew).cursor_le
  have hclaimed := (h hfew).claimed_few hfew
  change -2 ^ 63 ≤ (site.ringView w).sequencer.cursor.toInt -
    (site.ringView w).sequencer.gating.toInt ∧
    (site.ringView w).sequencer.cursor.toInt - (site.ringView w).sequencer.gating.toInt < 2 ^ 63
  omega

theorem careful_look {T : Type} (view : Ring cap site.Slot → T)
    (blind : ∀ r, view r.uncounted = view r) :
    site.Careful settings raises d (do return view (← site.ring.read)) :=
  fun _ h => .read_ring (fun r => by rw [blind]) (.pure fun hfew => .refl (h hfew))

theorem careful_acquireProducer :
    site.Careful settings raises d (site.ring.lift Ring.acquireProducer) := by
  refine .lift fun r => ?_
  obtain ⟨_, _, _, _, _, ⟨_ | _, _ | _⟩, _⟩ := r <;> exact ⟨nofun, rfl, rfl, rfl⟩

theorem careful_acquireConsumer :
    site.Careful settings raises d (site.ring.lift Ring.acquireConsumer) := by
  refine .lift fun r => ?_
  obtain ⟨_, _, _, _, _, _, ⟨_ | _, _ | _⟩⟩ := r <;> exact ⟨nofun, rfl, rfl, rfl⟩

/-- What changes neither the sequencer nor the poller of the ring. -/
theorem careful_update {f : Ring cap site.Slot → Ring cap site.Slot}
    (h : ∀ r, (f r).sequencer = r.sequencer ∧ (f r).poller = r.poller ∧
      f r.uncounted = (f r).uncounted) : site.Careful settings raises d (site.ring.update f) :=
  .lift fun r => ⟨nofun, (h r).1, (h r).2.1, congrArg _ (h r).2.2⟩

theorem brings_countFailure {shift : Balance → Balance} {v : RingView cap} {w : V}
    (h : (site.ringView w).Few → Moved settings raises d d 0 shift v none (site.ringView w)) :
    site.Brings (Ring.countFailure site.ring) w fun e u => e = .ok () ∧
      (site.ringView w).Few ∧ Moved settings raises d d 0 (Balance.reject ∘ shift) v none u := by
  unfold Ring.countFailure Part.update
  exact .lift fun hfew =>
    ⟨⟨rfl, hfew, (h hfew).trans (RingView.moved_failed (h hfew).sane).loosen⟩, rfl⟩

/-! ## Calls of an event ring -/

theorem brings_claims (n : ℕ) {w : V}
    (h : (site.ringView w).Few → (site.ringView w).Sane settings d 0) :
    site.Brings (site.note (.claim n)) w fun e u => e = .ok () ∧
      Moved settings quiet d d (-n) id (site.ringView w) none u := by
  refine .note (fun _ => Nat.le_add_right _ _) fun hfew => ⟨rfl, ?_⟩
  have hmoved := RingView.moved_claims (h hfew) n
  rwa [Int.zero_sub] at hmoved

theorem pauses_of_others {others : List (Act V Unit)}
    (hothers : ∀ x ∈ others, site.Careful settings raises d x) :
    ∀ pause ∈ others.map fun x (_ : Wait) => x.another,
      ∀ t, site.Careful settings quiet d (pause t) := by
  intro pause hpause t
  obtain ⟨x, hx, rfl⟩ := List.mem_map.mp hpause
  exact (hothers x hx).another

/-- One slot is claimed, which is noted first, and then published. -/
theorem careful_claimOne (hd : d.producers = true) {others : List (Act V Unit)}
    (hothers : ∀ x ∈ others, site.Careful settings raises (d.sending settings.producer) x)
    {rest : Int64 → Act V β}
    (hrest : ∀ s w, ((site.ringView w).Few →
        (site.ringView w).Sane settings (d.sending settings.producer) 0 ∧
          (site.ringView w).Due ⟨s, s⟩) →
      site.Brings (rest s) w fun e v => Moved settings raises d d 0 (Balance.publish 1)
        (site.ringView w) (Act.haltOf e) v) :
    site.Careful settings raises d (do
      site.note (.claim 1)
      let s ← Ring.claimOne site.ring (others.map fun x _ => x.another)
      rest s) := by
  intro w h
  refine (brings_claims 1 h).bind (fun _ w₁ hw₁ => ?_) fun _ e u he => by simp at he
  have hclaim := brings_claim hd (n := 1) (by decide) (pauses_of_others hothers) (w := w₁)
    fun hfew => (hw₁ hfew).2.sane
  refine hclaim.bind (fun s w₂ hw₂ => ?_) fun hfew e u hu => ?_
  · refine (hrest s w₂ fun hfew => ?_).weaken fun hfew e u hu => ?_
    · obtain ⟨hmoved, hgranted⟩ := hw₂ hfew
      have hdue := hgranted.due (by decide) s.toInt_lt
      rw [show s - (1 - 1) = s by grind] at hdue
      exact ⟨hmoved.sane, hdue⟩
    · obtain ⟨hmoved, -⟩ := hw₂ hfew
      have hnoted := (hw₁ (hmoved.few hfew)).2
      exact ((hnoted.trans hmoved).loosen.trans hu).reshift (Balance.publish_claim 1)
  · exact ((hw₁ hfew).2.trans hu).loosen

theorem size_one (s : Int64) : (s - s + 1).toUInt64 = 1 := by
  rw [Int64.sub_self]
  rfl

theorem careful_publishEvent (hd : d.producers = true) {others : List (Act V Unit)}
    (hothers : ∀ x ∈ others, site.Careful settings raises (d.sending settings.producer) x)
    {translate : Int64 → Act (site.Slot × V) Unit}
    (htranslate : ∀ s, (site.beside site.Slot).Careful settings raises
      (d.sending settings.producer) (translate s)) :
    site.Careful settings raises d (site.publishEvent others translate) := by
  refine careful_claimOne hd hothers fun s w h => ?_
  rw [← size_one s]
  exact brings_closing_publish hd h
    (Careful.lend (htranslate s) w fun hfew => (h hfew).1)

/-- A batch is refused, or noted, claimed and published. -/
theorem careful_batch (hd : d.producers = true) {others : List (Act V Unit)}
    (hothers : ∀ x ∈ others, site.Careful settings raises (d.sending settings.producer) x)
    {size : UInt64} {body : Window → Act V Unit}
    (hbody : ∀ win w, ((site.ringView w).Few →
        (site.ringView w).Sane settings (d.sending settings.producer) 0 ∧
          (site.ringView w).Due win) →
      site.Brings ((body win).closing (Ring.publish site.ring win)) w fun e v =>
        Moved settings raises d d 0 (Balance.publish (win.last - win.first + 1).toUInt64)
          (site.ringView w) (Act.haltOf e) v) :
    site.Careful settings raises d (do
      if size ≠ 0 ∧ size ≤ cap.word then site.note (.claim size.toNat)
      if size = 0 then return .ok 0
      match ← Ring.claimMany site.ring (others.map fun x _ => x.another) size with
      | .error refusal => return .error refusal
      | .ok win =>
        (body win).closing (Ring.publish site.ring win)
        return .ok size : Act V (Except Refusal UInt64)) := by
  intro w h
  have hword := cap.toNat_word
  by_cases hzero : size = 0
  · simp only [hzero, ne_eq, not_true_eq_false, false_and, if_false, if_true]
    exact .pure fun hfew => .refl (h hfew)
  · have hpos : size.toNat ≠ 0 := fun he => hzero (UInt64.toNat_inj.mp he)
    by_cases hlong : cap.slots < size.toNat
    · have hnot : ¬ size ≤ cap.word := by
        rw [UInt64.le_iff_toNat_le]
        omega
      have hrefused : ∀ pauses : List (Pause V), Ring.claimMany site.ring pauses size =
          pure (.error (.invalidClaim size cap.word)) :=
        fun pauses => funext fun w => Ring.claimMany_tooLong hlong pauses
      simp only [hzero, hnot, hrefused, and_false, if_false, pure_bind]
      exact .pure fun hfew => .refl (h hfew)
    · have hle : size ≤ cap.word := by
        rw [UInt64.le_iff_toNat_le]
        omega
      simp only [hzero, hle, ne_eq, not_false_eq_true, and_self, if_true, if_false]
      refine (brings_claims size.toNat h).bind (fun _ w₁ hw₁ => ?_) fun _ e u he => by simp at he
      have hclaim := brings_claimMany hd (pauses_of_others hothers) (w := w₁)
        (show 1 ≤ size.toNat by omega) (by omega) fun hfew => (hw₁ hfew).2.sane
      refine hclaim.bind (fun a w₂ hw₂ => ?_) fun hfew e u hu => ((hw₁ hfew).2.trans hu).loosen
      cases a with
      | error refusal =>
        refine .pure fun hfew => ?_
        obtain ⟨_, hok, -⟩ := hw₂ hfew
        simp at hok
      | ok win =>
        have hgranted : (site.ringView w₂).Few → (site.ringView w₂).Due win ∧
            (win.last - win.first + 1).toUInt64 = size ∧
            Moved settings quiet d (d.sending settings.producer) 0 (Balance.claim size)
              (site.ringView w) none (site.ringView w₂) := by
          intro hfew
          obtain ⟨win', hwin, hdue, hsize, hmoved⟩ := hw₂ hfew
          obtain rfl := Except.ok.inj hwin
          exact ⟨hdue, hsize, (hw₁ (hmoved.few hfew)).2.trans hmoved⟩
        have hpublished := hbody win w₂ fun hfew =>
          ⟨(hgranted hfew).2.2.sane, (hgranted hfew).1⟩
        have hdone : (site.ringView w₂).Few → ∀ halt u, Moved settings raises d d 0
            (Balance.publish (win.last - win.first + 1).toUInt64) (site.ringView w₂) halt u →
            Moved settings raises d d 0 id (site.ringView w) halt u := by
          intro hfew halt u hu
          obtain ⟨-, hsize, hmoved⟩ := hgranted hfew
          rw [hsize] at hu
          exact (hmoved.loosen.trans hu).reshift (Balance.publish_claim size)
        refine hpublished.bind (fun _ w₃ hw₃ => .pure fun hfew => ?_)
          fun hfew e u hu => hdone hfew _ u hu
        have hmoved := hw₃ hfew
        exact hdone (hmoved.few hfew) _ _ hmoved

theorem careful_translateAll {args : Feed V α} {translate : Int64 → α → Act (site.Slot × V) Unit}
    (hargs : ∀ k, site.Careful settings raises d (args.next k))
    (htranslate : ∀ s arg, (site.beside site.Slot).Careful settings raises d (translate s arg))
    (k : ℕ) (sequences : List Int64) :
    site.Careful settings raises d
      (EventRing.translateAll site.ring args translate k sequences) := by
  induction sequences generalizing k with
  | nil => exact .pure ()
  | cons s rest ih =>
    unfold EventRing.translateAll
    refine (hargs k).bind fun arg => ?_
    cases arg with
    | none => exact .pure ()
    | some arg => exact (Careful.lend (htranslate s arg)).bind fun _ => ih (k + 1)

theorem careful_publishEvents (hd : d.producers = true) {others : List (Act V Unit)}
    (hothers : ∀ x ∈ others, site.Careful settings raises (d.sending settings.producer) x)
    {args : Feed V α} {translate : Int64 → α → Act (site.Slot × V) Unit}
    (hargs : ∀ k, site.Careful settings raises (d.sending settings.producer) (args.next k))
    (htranslate : ∀ s arg, (site.beside site.Slot).Careful settings raises
      (d.sending settings.producer) (translate s arg)) :
    site.Careful settings raises d (site.publishEvents others args translate) :=
  careful_batch hd hothers fun win w h => brings_closing_publish hd h
    (careful_translateAll hargs htranslate 0 win.sequences w fun hfew => (h hfew).1)

/-- A handler that counts what it rejects is given one item. -/
theorem careful_dispatch {X : Type} {handler : Handler X V} {context : String} {s : Int64}
    (hevent : (site.beside X).Careful settings raises d (handler.onEvent context s))
    (herror : ∀ text, (site.beside X).Careful settings raises d (handler.onError context s text)) :
    (site.beside X).Careful settings raises d
      ((site.tallying handler).dispatch (Ring.countFailure site.ring) context s) := by
  unfold Handler.dispatch tallying
  dsimp only
  rw [bind_assoc]
  refine hevent.bind fun verdict => ?_
  cases verdict with
  | ok _ => exact .pure ()
  | error text =>
    rintro ⟨item, w⟩ h
    simp only [bind_assoc, pure_bind]
    have hreject : site.Brings (site.note .reject) w fun e u => e = .ok () ∧
        (site.ringView w).Few ∧
        Moved settings raises d d 0 (Balance.noteReject ∘ id) (site.ringView w) none u :=
      brings_note .reject (fun _ => le_refl _) (fun _ => RingView.moved_noteReject)
        fun hfew => .refl (h hfew)
    refine (hreject.outer item).bind (fun _ w₁ hw₁ => ?_) fun _ e u he => by simp at he
    obtain ⟨item₁, w₁⟩ := w₁
    have hcount : site.Brings (Ring.countFailure site.ring) w₁ _ :=
      brings_countFailure fun hfew => (hw₁ hfew).2.2
    refine (hcount.outer item₁).bind (fun _ w₂ hw₂ => ?_) fun _ e u he => by simp at he
    have hcounted : ((site.beside X).ringView w₂).Few →
        Moved settings raises d d 0 id (site.ringView w) none ((site.beside X).ringView w₂) :=
      fun hfew => (hw₂ hfew).2.2.reshift Balance.reject_noteReject
    refine (herror text w₂ fun hfew => (hcounted hfew).sane).weaken fun hfew e u hu => ?_
    exact (hcounted hfew).trans hu

theorem careful_visit {context : String} {handler : Handler site.Slot V}
    (hevent : ∀ s, (site.beside site.Slot).Careful settings raises d (handler.onEvent context s))
    (herror : ∀ s text,
      (site.beside site.Slot).Careful settings raises d (handler.onError context s text))
    (win : Window) :
    site.Careful settings raises d
      (EventRing.visit site.ring context (site.tallying handler) win) :=
  Careful.forM (fun s => .lend (careful_dispatch (hevent s) (herror s))) win.sequences

theorem careful_poll (hd : d.consumers = true) {context : String} (batch : UInt64)
    {handler : Handler site.Slot V}
    (hevent : ∀ s, (site.beside site.Slot).Careful settings raises
      (d.receiving settings.consumer) (handler.onEvent context s))
    (herror : ∀ s text, (site.beside site.Slot).Careful settings raises
      (d.receiving settings.consumer) (handler.onError context s text)) :
    site.Careful settings raises d (site.poll context batch handler) := by
  refine careful_counted fun w h => ?_
  unfold EventRing.poll
  refine (brings_poll hd (careful_visit hevent herror) h).bind (fun found w' hw' => ?_) ?_
  · cases found with
    | none => exact .pure hw'
    | some _ => exact .pure hw'
  · exact fun _ e u hu => hu

theorem careful_blockingPoll (hd : d.consumers = true) {others : List (Act V Unit)}
    (hothers : ∀ x ∈ others, site.Careful settings raises (d.receiving settings.consumer) x)
    {context : String} (batch : UInt64) {handler : Handler site.Slot V}
    (hevent : ∀ s, (site.beside site.Slot).Careful settings raises
      (d.receiving settings.consumer) (handler.onEvent context s))
    (herror : ∀ s text, (site.beside site.Slot).Careful settings raises
      (d.receiving settings.consumer) (handler.onError context s text)) :
    site.Careful settings raises d (site.blockingPoll others context batch handler) := by
  refine careful_untilWork (careful_counted fun w h => ?_) fun x hx => ?_
  · refine (brings_poll hd (careful_visit hevent herror) h).weaken fun _ e u hu => ?_
    rcases e with _ | _ | _ <;> exact hu
  · obtain ⟨y, hy, rfl⟩ := List.mem_map.mp hx
    exact (hothers y hy).of_receiving.another

end Ring

/-! ## Calls of a channel -/

section Channel
variable {here : Part V (Channel cap α)} {ledger : Part V Ledger} {hhere : here.Lawful}
  {hledger : ledger.Lawful} {apart : here.Apart ledger}

/-- What leaves the sequencer and the poller of a channel alone is not seen. -/
theorem brings_here {act : Act (Channel cap α) β}
    (h : ∀ c, ∃ a c', act c = .ok a c' ∧ c'.ring.sequencer = c.ring.sequencer ∧
      c'.ring.poller = c.ring.poller ∧
      act { c with ring := c.ring.uncounted } = .ok a { c' with ring := c'.ring.uncounted })
    (w : V) : (channel here ledger hhere hledger apart).Brings (here.lift act) w fun e v =>
      Act.haltOf e = none ∧ v = (channel here ledger hhere hledger apart).ringView w := by
  obtain ⟨a, c', hrun, hsequencer, hpoller, hsilent⟩ := h (here.split w).1
  have hout := Act.outcome_ok (Part.lift_ok (p := here) hrun)
  have hsame := apart.split_alter (fun _ => c') w
  have hsplit := hhere.split_join c' (here.split w).2
  refine .leaf (by rw [hout]; exact hsame) fun _ => ?_
  rw [hout]
  constructor
  · refine ⟨rfl, ?_⟩
    unfold ringView
    congr 1
    · change (here.split (here.join _ _)).1.ring.sequencer = _
      rw [hsplit, hsequencer]
      rfl
    · change (here.split (here.join _ _)).1.ring.poller = _
      rw [hsplit, hpoller]
      rfl
  · have hsilence : ∀ w, (channel here ledger hhere hledger apart).silence w =
        here.alter (fun c => { c with ring := c.ring.uncounted }) w := fun _ => rfl
    have hquiet : act (here.split ((channel here ledger hhere hledger apart).silence w)).1 =
        .ok a { c' with ring := c'.ring.uncounted } := by
      rw [hsilence, Part.split_alter hhere, hsilent]
    rw [Act.outcome_ok (Part.lift_ok hquiet), hsilence, hsilence]
    simp only [Part.alter, hhere.join_join, hhere.split_join]

theorem brings_exchange (s : Int64) (content : Option α) (w : V) :
    (channel here ledger hhere hledger apart).Brings (here.lift (Channel.exchange s content)) w
      fun e v => Act.haltOf e = none ∧ v = (channel here ledger hhere hledger apart).ringView w :=
  brings_here (fun c => ⟨c.ring.slots.read s,
    { c with ring := { c.ring with slots := c.ring.slots.write s content } },
    rfl, rfl, rfl, rfl⟩) w

theorem brings_discard (stale : Option α) (w : V) :
    (channel here ledger hhere hledger apart).Brings (here.update (Channel.discard stale)) w
      fun e v => Act.haltOf e = none ∧ v = (channel here ledger hhere hledger apart).ringView w :=
  brings_here (fun _ => by cases stale <;> exact ⟨_, _, rfl, rfl, rfl, rfl⟩) w

theorem careful_unseen {site : RingSite cap V} {x : Act V β}
    (h : ∀ w, site.Brings x w fun e v => Act.haltOf e = none ∧ v = site.ringView w) :
    site.Careful settings raises d x := by
  intro w hw
  refine (h w).weaken fun hfew e v hv => ?_
  rw [hv.1, hv.2]
  exact .refl (hw hfew)

theorem careful_vacate (s : Int64) :
    (channel here ledger hhere hledger apart).Careful settings raises d
      (here.lift (Channel.vacate s)) := by
  unfold Channel.vacate
  rw [Part.lift_bind hhere]
  exact (careful_unseen (brings_exchange s none)).bind fun left =>
    careful_unseen (brings_discard left)

/-- A value is stored in its claimed slot and published. -/
theorem brings_store (settings : Settings) (hd : d.producers = true) (owed : ℤ) (small : owed ≤ 1)
    (s : Int64) (value : α)
    {w : V} (h : ((channel here ledger hhere hledger apart).ringView w).Few →
      ((channel here ledger hhere hledger apart).ringView w).Sane settings
          (d.sending settings.producer) owed ∧
        ((channel here ledger hhere hledger apart).ringView w).Due ⟨s, s⟩) :
    (channel here ledger hhere hledger apart).Brings (Channel.store here s value) w fun e v =>
      Act.haltOf e = none ∧ Moved settings quiet d d owed (Balance.publish 1)
        ((channel here ledger hhere hledger apart).ringView w) none v := by
  unfold Channel.store
  refine (brings_exchange s (some value) w).bind (fun stale w₁ hw₁ => ?_)
    fun _ e u hu => by simp at hu
  have hpublish : (channel here ledger hhere hledger apart).Brings
      (Ring.publish (channel here ledger hhere hledger apart).ring ⟨s, s⟩) w₁ _ :=
    brings_publish settings hd owed small fun hfew => by
      have hsame := (hw₁ hfew).2
      rw [hsame]
      exact h (by rwa [RingView.Few, hsame] at hfew)
  refine Brings.closing hpublish fun e w₂ hw₂ => ?_
  refine (brings_discard stale w₂).weaken fun hfew c u hu => ?_
  obtain ⟨rfl, hmoved⟩ := hw₂ hfew
  rw [Act.haltOf_afterwards, hu.1, hu.2]
  rw [size_one, (hw₁ (hmoved.few hfew)).2] at hmoved
  exact ⟨rfl, hmoved⟩

theorem careful_push (hd : d.producers = true) {others : List (Act V Unit)}
    (hothers : ∀ x ∈ others, (channel here ledger hhere hledger apart).Careful settings raises
      (d.sending settings.producer) x) (value : α) :
    (channel here ledger hhere hledger apart).Careful settings raises d
      ((channel here ledger hhere hledger apart).push here others value) :=
  careful_claimOne hd hothers fun s _ h =>
    (brings_store settings hd 0 (by omega) s value h).weaken fun _ e u hu => by
      rw [hu.1]
      exact hu.2.loosen

theorem careful_tryPush (hd : d.producers = true) (value : α) :
    (channel here ledger hhere hledger apart).Careful settings raises d
      ((channel here ledger hhere hledger apart).tryPush here value) := by
  intro w h
  unfold tryPush Channel.tryPush
  rw [← Part.lift_within, ← Part.lift_within]
  have hclaim : (channel here ledger hhere hledger apart).Brings
      (((here.within Channel.ringPart).within Ring.sequencerPart).lift (tryClaim 1)) w _ :=
    brings_tryClaim hd h
  rw [bind_assoc]
  refine hclaim.bind (fun found w₁ hw₁ => ?_) fun _ e u he => by simp at he
  cases found with
  | none =>
    refine .pure fun hfew => ?_
    obtain ⟨found, hfound, hmoved⟩ := hw₁ hfew
    obtain rfl := Except.ok.inj hfound
    exact hmoved.loosen
  | some s =>
    have hclaimed : ((channel here ledger hhere hledger apart).ringView w₁).Few →
        Moved settings quiet d (d.sending settings.producer) 1 (Balance.claim 1)
            ((channel here ledger hhere hledger apart).ringView w) none
            ((channel here ledger hhere hledger apart).ringView w₁) ∧
          ((channel here ledger hhere hledger apart).ringView w₁).Granted 1 s := by
      intro hfew
      obtain ⟨found, hfound, hmoved⟩ := hw₁ hfew
      obtain rfl := Except.ok.inj hfound
      exact hmoved
    simp only [bind_assoc, pure_bind]
    refine Brings.bind (brings_store settings hd 1 (le_refl _) s value fun hfew => ?_)
      (fun _ w₂ hw₂ => ?_)
      fun _ e u hu => by simp at hu
    · obtain ⟨hmoved, hgranted⟩ := hclaimed hfew
      have hdue := hgranted.due (by decide) s.toInt_lt
      rw [show s - (1 - 1) = s by grind] at hdue
      exact ⟨hmoved.sane, hdue⟩
    · have hnote := brings_note (Ledger.claim 1) (fun _ => Nat.le_add_right _ _)
        (fun _ hu => RingView.moved_claims hu 1) fun hfew => (hw₂ hfew).2
      refine hnote.bind (fun _ w₃ hw₃ => .pure fun hfew => ?_) fun _ e u he => by simp at he
      obtain ⟨-, hfew₂, hnoted⟩ := hw₃ hfew
      obtain ⟨hmoved, -⟩ := hclaimed ((hw₂ hfew₂).2.few hfew₂)
      exact (hmoved.trans hnoted).loosen.reshift (Balance.publish_claim 1)

/-- A slot is filled with the next item, and its sequence has a successor. -/
theorem brings_fillOne {feed : Feed V α} {k : ℕ} {s : Int64}
    (hfeed : (channel here ledger hhere hledger apart).Careful settings raises d (feed.next k))
    {w : V}
    (h : ((channel here ledger hhere hledger apart).ringView w).Few →
      ((channel here ledger hhere hledger apart).ringView w).Sane settings d 0 ∧
        s.toInt + 1 < 2 ^ 63) :
    (channel here ledger hhere hledger apart).Brings (Channel.fillOne here feed k s) w fun e v =>
      Moved settings raises d d 0 id ((channel here ledger hhere hledger apart).ringView w)
        (Act.haltOf e) v := by
  unfold Channel.fillOne
  refine (hfeed w fun hfew => (h hfew).1).bind (fun item w₁ hw₁ => ?_) fun _ e u hu => hu
  cases item with
  | none => exact .pure hw₁
  | some value =>
    refine (brings_exchange s (some value) w₁).bind (fun stale w₂ hw₂ => ?_)
      fun _ e u hu => by simp at hu
    have hdone : ((channel here ledger hhere hledger apart).ringView w₂).Few →
        Moved settings raises d d 0 id ((channel here ledger hhere hledger apart).ringView w) none
          ((channel here ledger hhere hledger apart).ringView w₂) := by
      intro hfew
      have hsame := (hw₂ hfew).2
      rw [hsame]
      exact hw₁ (by rwa [RingView.Few, hsame] at hfew)
    have hnext : (channel here ledger hhere hledger apart).Brings (Checked.add s 1) w₂ fun e v =>
        Act.haltOf e = none ∧ v = (channel here ledger hhere hledger apart).ringView w₂ := by
      refine .word fun hfew => ⟨?_, rfl, rfl⟩
      have hbound := (h ((hdone hfew).few hfew)).2
      have hlow := s.le_toInt
      have hone := Checked.toInt_one
      exact Int64.toInt_ofInt_of_le (by omega) (by omega)
    have hclosed : (channel here ledger hhere hledger apart).Brings
        ((Checked.add s 1).closing (here.update (Channel.discard stale))) w₂ fun e v =>
          Act.haltOf e = none ∧
            Moved settings raises d d 0 id ((channel here ledger hhere hledger apart).ringView w)
              none v := by
      refine hnext.closing fun e w₃ hw₃ => (brings_discard stale w₃).weaken fun hfew c u hu => ?_
      obtain ⟨hok, hsame⟩ := hw₃ hfew
      rw [Act.haltOf_afterwards, hok, hu.1, hu.2, hsame]
      exact ⟨rfl, hdone (by rwa [RingView.Few, hsame] at hfew)⟩
    exact hclosed.bind (fun _ w₃ hw₃ => .pure fun hfew => (hw₃ hfew).2)
      fun _ e u hu => by simp at hu

/-- A window is filled, and what the feed does not fill is emptied. -/
theorem brings_fill {feed : Feed V α}
    (hfeed : ∀ k, (channel here ledger hhere hledger apart).Careful settings raises d (feed.next k))
    (k : ℕ) (sequences : List Int64) {w : V}
    (h : ((channel here ledger hhere hledger apart).ringView w).Few →
      ((channel here ledger hhere hledger apart).ringView w).Sane settings d 0 ∧
        ∀ s ∈ sequences, s.toInt + 1 < 2 ^ 63) :
    (channel here ledger hhere hledger apart).Brings (Channel.fill here feed k sequences) w
      fun e v => Moved settings raises d d 0 id
        ((channel here ledger hhere hledger apart).ringView w) (Act.haltOf e) v := by
  induction sequences generalizing k w with
  | nil => exact .pure fun hfew => .refl (h hfew).1
  | cons s rest ih =>
    have hvacate : (channel here ledger hhere hledger apart).Careful settings quiet d
        ((s :: rest).forM fun t => here.lift (Channel.vacate t)) :=
      Careful.forM (fun t => careful_vacate t) _
    have hone : (channel here ledger hhere hledger apart).Brings
        ((Channel.fillOne here feed k s).onHalt
          ((s :: rest).forM fun t => here.lift (Channel.vacate t))) w fun e v =>
        Moved settings raises d d 0 id ((channel here ledger hhere hledger apart).ringView w)
          (Act.haltOf e) v := by
      refine (brings_fillOne (hfeed k) fun hfew => ?_).onHalt
        (fun _ _ _ hu => hu) fun e w₁ hw₁ => ?_
      · exact ⟨(h hfew).1, (h hfew).2 s List.mem_cons_self⟩
      · refine (hvacate w₁ fun hfew => (hw₁ hfew).sane).weaken fun hfew c u hu => ?_
        rw [Act.haltOf_afterwards]
        exact (hw₁ hfew).closed hu
    unfold Channel.fill
    refine hone.bind (fun filled w₁ hw₁ => ?_) fun _ e u hu => hu
    cases filled with
    | true =>
      refine (ih (k + 1) fun hfew => ?_).weaken fun hfew e u hu => (hw₁ hfew).trans hu
      exact ⟨(hw₁ hfew).sane, fun t ht =>
        (h ((hw₁ hfew).few hfew)).2 t (List.mem_cons_of_mem _ ht)⟩
    | false =>
      exact (hvacate.loosen w₁ fun hfew => (hw₁ hfew).sane).weaken fun hfew e u hu =>
        (hw₁ hfew).trans hu

theorem careful_pushBatch (hd : d.producers = true) {others : List (Act V Unit)}
    (hothers : ∀ x ∈ others, (channel here ledger hhere hledger apart).Careful settings raises
      (d.sending settings.producer) x)
    {feed : Feed V α}
    (hfeed : ∀ k, (channel here ledger hhere hledger apart).Careful settings raises
      (d.sending settings.producer) (feed.next k)) :
    (channel here ledger hhere hledger apart).Careful settings raises d
      ((channel here ledger hhere hledger apart).pushBatch here others feed) := by
  refine careful_batch hd hothers fun win w h => brings_closing_publish hd h ?_
  refine brings_fill hfeed 0 win.sequences fun hfew => ⟨(h hfew).1, fun s hs => ?_⟩
  have hroom := (h hfew).1.claimed_few hfew
  have hlast := (h hfew).2.last_le
  have hle := (Window.mem_sequences.mp hs).2
  omega

theorem careful_drain {f : α → Int64 → Act V Unit}
    (hf : ∀ value s,
      (channel here ledger hhere hledger apart).Careful settings raises d (f value s))
    (win : Window) :
    (channel here ledger hhere hledger apart).Careful settings raises d
      (Channel.drain here f win) := by
  refine Careful.foldlM (fun received s => ?_) _ _
  refine (careful_unseen (brings_exchange s none)).bind fun content => ?_
  cases content with
  | none => exact .pure _
  | some value => exact (hf value s).bind fun _ => .pure _

/-- What is received is counted, and noted alike. -/
theorem careful_receiveCount (hd : d.consumers = true) {batch : UInt64}
    {f : α → Int64 → Act V Unit}
    (hf : ∀ value s, (channel here ledger hhere hledger apart).Careful settings raises
      (d.receiving settings.consumer) (f value s))
    {worked : β → Bool} {answer : Option ℕ → β}
    (hworked : ∀ found, worked (answer found) = found.isSome) :
    (channel here ledger hhere hledger apart).Careful settings raises d
      ((channel here ledger hhere hledger apart).counted batch worked
        (do return answer (← Channel.receiveCount here batch f))) := by
  refine careful_counted fun w h => ?_
  refine Brings.bind (brings_poll hd (careful_drain hf) h)
    (fun found w' hw' => .pure fun hfew => ?_)
    fun _ e u hu => hu
  have hmoved := hw' hfew
  dsimp only
  rw [hworked]
  cases found with
  | none => exact hmoved
  | some _ => exact hmoved

theorem careful_receive (hd : d.consumers = true) (batch : UInt64) {f : α → Act V Unit}
    (hf : ∀ value, (channel here ledger hhere hledger apart).Careful settings raises
      (d.receiving settings.consumer) (f value)) :
    (channel here ledger hhere hledger apart).Careful settings raises d
      ((channel here ledger hhere hledger apart).receive here batch f) :=
  careful_receiveCount hd (fun value _ => hf value) fun found => by cases found <;> rfl

theorem careful_blockingReceive (hd : d.consumers = true) {others : List (Act V Unit)}
    (hothers : ∀ x ∈ others, (channel here ledger hhere hledger apart).Careful settings raises
      (d.receiving settings.consumer) x) (batch : UInt64) {f : α → Act V Unit}
    (hf : ∀ value, (channel here ledger hhere hledger apart).Careful settings raises
      (d.receiving settings.consumer) (f value)) :
    (channel here ledger hhere hledger apart).Careful settings raises d
      ((channel here ledger hhere hledger apart).blockingReceive here others batch f) := by
  refine careful_untilWork (careful_counted fun w h => ?_) fun x hx => ?_
  · refine (brings_poll hd (careful_drain fun value _ => hf value) h).weaken fun _ e u hu => ?_
    rcases e with _ | _ | _ <;> exact hu
  · obtain ⟨y, hy, rfl⟩ := List.mem_map.mp hx
    exact (hothers y hy).of_receiving.another

theorem careful_pollHandler (hd : d.consumers = true) {context : String} (batch : UInt64)
    {handler : Handler α V}
    (hevent : ∀ s, ((channel here ledger hhere hledger apart).beside α).Careful settings raises
      (d.receiving settings.consumer) (handler.onEvent context s))
    (herror : ∀ s text, ((channel here ledger hhere hledger apart).beside α).Careful settings raises
      (d.receiving settings.consumer) (handler.onError context s text)) :
    (channel here ledger hhere hledger apart).Careful settings raises d
      ((channel here ledger hhere hledger apart).pollHandler here context batch handler) :=
  careful_receiveCount hd (fun _ s => .owning (careful_dispatch (hevent s) (herror s)))
    fun found => by cases found <;> rfl

end Channel

end RingSite

/-- Whatever users do is careful. -/
theorem Usage.careful {cap : Capacity} {settings : Settings} {raises : String → Prop} {V β : Type}
    {site : RingSite cap V} {d : FreeHandles} {x : Act V β} (h : Usage settings raises site d x) :
    site.Careful settings raises d x := by
  induction h with
  | done v => exact .pure v
  | own p act hring hledger hact => exact .own hring hledger hact
  | bind _ _ hx hf => exact hx.bind hf
  | rescue _ hx => exact hx.rescued.loosen
  | beside _ hx => exact hx.outer
  | look view blind => exact RingSite.careful_look view blind
  | length => exact RingSite.careful_length
  | openProducer => exact RingSite.careful_acquireProducer
  | openConsumer => exact RingSite.careful_acquireConsumer
  | dropProducer => exact RingSite.careful_update fun _ => ⟨rfl, rfl, rfl⟩
  | dropConsumer => exact RingSite.careful_update fun _ => ⟨rfl, rfl, rfl⟩
  | push value hd _ hothers => exact RingSite.careful_push hd hothers value
  | tryPush value hd => exact RingSite.careful_tryPush hd value
  | pushBatch hd _ _ hothers hfeed => exact RingSite.careful_pushBatch hd hothers hfeed
  | receive batch hd _ hf => exact RingSite.careful_receive hd batch hf
  | blockingReceive batch hd _ _ hothers hf =>
    exact RingSite.careful_blockingReceive hd hothers batch hf
  | pollHandler context batch hd _ _ hevent herror =>
    exact RingSite.careful_pollHandler hd batch hevent herror
  | publishEvent hd _ _ hothers htranslate =>
    exact RingSite.careful_publishEvent hd hothers htranslate
  | publishEvents hd _ _ _ hothers hargs htranslate =>
    exact RingSite.careful_publishEvents hd hothers hargs htranslate
  | poll context batch hd _ _ hevent herror => exact RingSite.careful_poll hd batch hevent herror
  | blockingPoll context batch hd _ _ _ hothers hevent herror =>
    exact RingSite.careful_blockingPoll hd hothers batch hevent herror

end LapRing
