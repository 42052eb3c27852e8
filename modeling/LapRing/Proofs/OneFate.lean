import LapRing.Proofs.ReceiveAccounts

/-!
# Every value has one fate

In every state that the parties of a channel reach, the values that were accepted are
those that were handed out, dropped or kept, and a value that a consumer gave up on is
dropped in the end and handed to nobody. The calls of a channel, made one after the
other, keep to this as its callers see it.
-/
namespace LapRing
open Channel

namespace ValueCall
variable {cap : Capacity} {α L : Type}

/-- A call finds room for what it sends, so that it need not wait, and the words
last for one more lap, as they do while fewer than `2 ^ 62` sequences are claimed. -/
def Fits (s : Sequencer cap) : ValueCall α L → Prop
  | .push _ => s.cursor.toInt < s.gating.toInt + cap.slots ∧
      s.cursor.toInt + 1 + cap.slots < 2 ^ 63
  | .tryPush _ => s.cursor.toInt + 1 + cap.slots < 2 ^ 63
  | .pushBatch feed => feed.length.toNat ≤ cap.slots →
      s.cursor.toInt + feed.length.toNat ≤ s.gating.toInt + cap.slots ∧
        s.cursor.toInt + feed.length.toNat + cap.slots < 2 ^ 63
  | .receive _ _ | .pollHandler _ _ _ => True

instance (s : Sequencer cap) (call : ValueCall α L) : Decidable (call.Fits s) :=
  match call with
  | .push _ => inferInstanceAs (Decidable (_ ∧ _))
  | .tryPush _ => inferInstanceAs (Decidable (_ < _))
  | .pushBatch _ => inferInstanceAs (Decidable (_ → _))
  | .receive _ _ | .pollHandler _ _ _ => inferInstanceAs (Decidable True)

variable (pauses : List (Pause (Channel cap α × (L × ValueAccount α))))

/-- The channel and the account after calls that were made one after the other. -/
def runAll (calls : List (ValueCall α L)) (w : Channel cap α × (L × ValueAccount α)) :
    Channel cap α × (L × ValueAccount α) :=
  (Act.outcomes (calls.map (run pauses)) w).2

/-- Each call fits when its turn comes. -/
def Legal : List (ValueCall α L) → Channel cap α × (L × ValueAccount α) → Prop
  | [], _ => True
  | call :: rest, w => call.Fits w.1.ring.sequencer ∧ Legal rest ((call.run pauses).outcome w).2

instance decidableLegal : (calls : List (ValueCall α L)) →
    (w : Channel cap α × (L × ValueAccount α)) →
    Decidable (Legal pauses calls w)
  | [], _ => inferInstanceAs (Decidable True)
  | call :: rest, w =>
    have := decidableLegal rest ((call.run pauses).outcome w).2
    inferInstanceAs (Decidable (_ ∧ _))

variable {pauses}

theorem legal_append {before after : List (ValueCall α L)}
    {w : Channel cap α × (L × ValueAccount α)} :
    Legal pauses (before ++ after) w ↔
      Legal pauses before w ∧ Legal pauses after (runAll pauses before w) := by
  induction before generalizing w with
  | nil => exact ⟨fun h => ⟨trivial, h⟩, fun h => h.2⟩
  | cons call before ih => exact (and_congr_right fun _ => ih).trans and_assoc.symm

end ValueCall

/-- The account of the callers agrees with a channel. -/
structure Balanced {cap : Capacity} {α : Type} (c : Channel cap α) (b : ValueAccount α) : Prop where
  balance : b.accepted.Perm (b.handed ++ c.discarded.toList ++ c.ring.slots.values)
  freed : b.accepted.Perm (b.handed ++ c.free.discarded.toList)
  empty : c.free.ring.slots.values = []

namespace ValueFates
variable {cap : Capacity} {P Q α L : Type}

/-- A value that was left behind gets to nobody. It is dropped once, when a later
sequence needs its slot or together with all that is kept. -/
structure DroppedOnce (e : ValueFates cap P Q α) (x : Stamped α) : Prop where
  unhanded : x ∉ e.handed
  dropped : (∃ cause, (x, cause) ∈ e.dropped ∧ e.Explains (x, cause)) ∨ x ∈ e.kept
  once : (e.free.dropped.map fun d => d.1.sequence).count x.sequence = 1

variable [DecidableEq P] [DecidableEq Q]

/-- What holds of the values of a channel at every moment. -/
structure Fair (e : ValueFates cap P Q α) : Prop where
  balance : e.accepted.Perm (e.handed ++ e.dropped.map Prod.fst ++ e.kept)
  distinct : ((e.handed ++ e.dropped.map Prod.fst ++ e.kept).map Stamped.sequence).Nodup
  explained : ∀ d ∈ e.dropped, e.Explains d
  left : ∀ x ∈ e.kept, x.sequence ≤ e.sequencer.gating.toInt →
    ∀ e', Relation.ReflTransGen Step e e' → e'.DroppedOnce x
  freed : e.accepted.Perm (e.handed ++ e.free.dropped.map Prod.fst)
  empty : e.free.kept = []

omit [DecidableEq P] [DecidableEq Q] in
theorem map_fst_dropped_free (e : ValueFates cap P Q α) :
    e.free.dropped.map Prod.fst = e.dropped.map Prod.fst ++ e.kept := by
  simp [free, Function.comp_def]

namespace Sound
variable {e : ValueFates cap P Q α}

omit [DecidableEq P] [DecidableEq Q] in
theorem freed (h : e.Sound) : e.accepted.Perm (e.handed ++ e.free.dropped.map Prod.fst) := by
  rw [map_fst_dropped_free, ← List.append_assoc]
  exact h.balance

theorem droppedOnce {e' : ValueFates cap P Q α} (h : e.Sound) {x : Stamped α} (hx : x ∈ e.kept)
    (released : x.sequence ≤ e.sequencer.gating.toInt) (hrun : Relation.ReflTransGen Step e e') :
    e'.DroppedOnce x := by
  have h' := h.run hrun
  obtain ⟨haccepted, hlost⟩ := grows_run hrun
  have hin : x ∈ e.accepted := h.balance.mem_iff.mpr (List.mem_append_right _ hx)
  have hunhanded : x ∉ e'.handed := h'.not_handed (hlost _ (h.left hx released))
  -- In the end all that was accepted is handed out or dropped, and `x` is not handed out.
  have hfreed := h'.freed
  have hdropped : x ∈ e'.free.dropped.map Prod.fst :=
    (List.mem_append.mp (hfreed.mem_iff.mp (haccepted x hin))).resolve_left hunhanded
  refine ⟨hunhanded, ?_, ?_⟩
  · rw [map_fst_dropped_free] at hdropped
    rcases List.mem_append.mp hdropped with hearly | hkept
    · obtain ⟨⟨y, cause⟩, hd, rfl⟩ := List.mem_map.mp hearly
      exact Or.inl ⟨cause, hd, h'.explained _ hd⟩
    · exact Or.inr hkept
  · have hnodup := (hfreed.map Stamped.sequence).nodup_iff.mp h'.distinct
    rw [List.map_append, List.nodup_append, List.map_map] at hnodup
    obtain ⟨d, hd, hstamped⟩ := List.mem_map.mp hdropped
    exact List.count_eq_one_of_mem hnodup.2.1
      (List.mem_map.mpr ⟨d, hd, congrArg Stamped.sequence hstamped⟩)

theorem fair (h : e.Sound) : e.Fair :=
  ⟨h.balance, h.fates, h.explained,
    fun _ hx released _ hrun => h.droppedOnce hx released hrun, h.freed,
    Slots.values_fill⟩

end Sound

section Calls
variable {e : ValueFates cap P Q α} {p : P} {q : Q} {c : Channel cap α} {b : ValueAccount α}

omit [DecidableEq P] [DecidableEq Q] in
/-- What is true of values that carry their sequences is true of those in the channel. -/
theorem Shows.balanced (hc : e.Shows c b) (h : e.Sound) : Balanced c b := by
  have hbalance := h.balance.map Stamped.value
  have hvalues : c.ring.slots.values = e.kept.map Stamped.value := by
    rw [hc.slots, Slots.values_map, kept]
  have hdropped : e.dropped.map (fun d => d.1.value) = (e.dropped.map Prod.fst).map Stamped.value :=
    (List.map_map ..).symm
  rw [List.map_append, List.map_append, ← hdropped, ← hc.accepted, ← hc.handed, ← hc.discarded,
    ← hvalues] at hbalance
  refine ⟨hbalance, ?_, Slots.values_fill⟩
  rw [List.append_assoc] at hbalance
  change b.accepted.Perm (b.handed ++ (c.discarded ++ c.ring.slots.values).toList)
  rwa [Array.toList_appendList]

/-- A call of whoever is free to make it is a run of accesses, as the account shows. -/
theorem valueCall_attains (h : e.Sound) (hp : e.toChannelParties.Free p) (hq : e.Clear q)
    (hc : e.Shows c b) {call : ValueCall α L} (fits : call.Fits c.ring.sequencer)
    (pauses : List (Pause (Channel cap α × (L × ValueAccount α)))) (l : L) :
    e.After ((call.run pauses).outcome (c, (l, b))).2 := by
  rw [hc.sequencer] at fits
  cases call with
  | push value => exact push_attains pauses hp h fits.1 fits.2 hc value l
  | tryPush value => exact (tryPush_attains pauses hp h fits hc value l).1
  | pushBatch feed => exact pushBatch_attains pauses hp h feed fits hc l
  | receive batch f => exact receive_attains pauses h hq hc batch f l
  | pollHandler context batch handler =>
    exact pollHandler_attains pauses h hq hc context batch handler l

/-- So do calls that are made one after the other. -/
theorem runAll_attains {calls : List (ValueCall α L)}
    {w : Channel cap α × (L × ValueAccount α)} (h : e.Sound)
    (hp : e.toChannelParties.Free p) (hq : e.Clear q) (hc : e.Shows w.1 w.2.2)
    {pauses : List (Pause (Channel cap α × (L × ValueAccount α)))}
    (legal : ValueCall.Legal pauses calls w) :
    e.After (ValueCall.runAll pauses calls w) := by
  induction calls generalizing e w with
  | nil => exact Attains.refl hc
  | cons call calls ih =>
    obtain ⟨fits, hrest⟩ := legal
    obtain ⟨e', hrun, hshows, hfrees⟩ := valueCall_attains h hp hq hc fits pauses w.2.1
    have hlater := ih (h.run hrun) (hfrees.free p hp) (hfrees.clear q hq) hshows hrest
    exact Attains.head hlater hrun hfrees

end Calls

/-- Every value has one fate, whatever the order of accesses of any number of parties.
Calls that are made one after the other on a new channel are such accesses of one
producer and one consumer, and between them the account is balanced. A value that is
refused is handed back and changes no account. Producers claim only while one more lap of
words is left after the claim. -/
theorem one_fate (settings : Settings) :
    (∀ e : ValueFates cap P Q α,
      e.Reachable settings.producer settings.consumer settings.metrics → e.Fair) ∧
    ∀ (pauses : List (Pause (Channel cap α × (L × ValueAccount α))))
      (before after : List (ValueCall α L))
      (l : L), ValueCall.Legal pauses (before ++ after) (Channel.new cap settings, (l, {})) →
      let w := ValueCall.runAll pauses before (Channel.new cap settings, (l, {}))
      let w' := ValueCall.runAll pauses after w
      Balanced w.1 w.2.2 ∧
      (∀ value, (ValueCall.tryPush value : ValueCall α L).Fits w.1.ring.sequencer →
        let r := ((ValueCall.tryPush value).run pauses).outcome w
        r.1 = .ok (.tried (.ok ())) ∧ r.2.2.2 = w.2.2.accept (some value) ∨
          r.1 = .ok (.tried (.error value)) ∧ r.2.2.2 = w.2.2 ∧
            r.2.1.discarded = w.1.discarded ∧ r.2.1.ring.slots = w.1.ring.slots) ∧
      ∃ e e' : ValueFates cap Unit Unit α,
        e.Reachable settings.producer settings.consumer settings.metrics ∧
        Relation.ReflTransGen Step e e' ∧ e.Shows w.1 w.2.2 ∧ e.free.Shows w.1.free w.2.2 ∧
        e'.Shows w'.1 w'.2.2 := by
  refine ⟨fun e h => h.sound.fair, ?_⟩
  intro pauses before after l legal w w'
  obtain ⟨hbefore, hafter⟩ := ValueCall.legal_append.mp legal
  set e₀ : ValueFates cap Unit Unit α :=
    new cap settings.producer settings.consumer settings.metrics with he₀
  have hsound : e₀.Sound := sound_new ..
  have hfree : e₀.toChannelParties.Free () := free_new ..
  have hclear : e₀.Clear () := clear_new ..
  obtain ⟨e, hrun, hshows, hfrees⟩ :=
    runAll_attains hsound hfree hclear (shows_new cap settings) hbefore
  obtain ⟨e', hrun', hshows', -⟩ := runAll_attains (hsound.run hrun) (hfrees.free () hfree)
    (hfrees.clear () hclear) hshows hafter
  refine ⟨hshows.balanced (hsound.run hrun), fun value fits => ?_,
    e, e', hrun, hrun', hshows, hshows.free, hshows'⟩
  exact (tryPush_attains pauses (hfrees.free () hfree) (hsound.run hrun) (hshows.sequencer ▸ fits)
    hshows value w.2.1).2

/-- A third value is refused, and a consumer gives up on the first of two. The second is
dropped when a batch that is one value short empties its slot, and the value of that
batch with the ring. -/
theorem one_fate_short_batch :
    let settings : Settings := { capacity := 2, producer := .multi, consumer := .multi }
    let quit : ℕ → Act Unit Unit := fun _ => throw (.raised "full")
    let feed : Feed Unit ℕ := ⟨2, fun k => pure (if k = 0 then some 3 else none)⟩
    let calls : List (ValueCall ℕ Unit) :=
      [.push 1, .push 2, .tryPush 4, .receive 9 quit, .pushBatch feed]
    let w := ValueCall.runAll [] calls (Channel.new Capacity.two settings, ((), {}))
    ValueCall.Legal [] (calls ++ []) (Channel.new Capacity.two settings, ((), {})) ∧
      Balanced w.1 w.2.2 ∧ w.2.2.accepted = [1, 2, 3] ∧ w.2.2.handed = [1] ∧
        w.1.discarded.toList = [2] ∧ w.1.free.discarded.toList = [2, 3] := by
  intro settings quit feed calls w
  have hlegal : ValueCall.Legal [] (calls ++ [])
      (Channel.new Capacity.two settings, ((), {})) := by decide +kernel
  obtain ⟨hbalanced, -⟩ := (one_fate (P := Unit) (Q := Unit) settings).2 [] calls [] () hlegal
  rw [show ValueCall.runAll [] calls (Channel.new Capacity.two settings, ((), {})) = w from rfl]
    at hbalanced
  have hvalues : w.2.2.accepted = [1, 2, 3] ∧ w.2.2.handed = [1] ∧
      w.1.discarded.toList = [2] ∧ w.1.free.discarded.toList = [2, 3] := by decide +kernel
  exact ⟨hlegal, hbalanced, hvalues⟩

end ValueFates

end LapRing
