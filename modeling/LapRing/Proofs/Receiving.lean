import LapRing.Channel.Receive
import LapRing.Proofs.Sending

/-!
# What receiving does to a channel

A window is handed out slot by slot, and every slot that was visited is empty
afterwards. Slots outside the window keep what they hold, also when the receiver
gives up in the middle.
-/
namespace LapRing

section
variable {cap : Capacity} {σ : Type}

/-- What receiving changes on a ring between calls: the first `taken` entries are
released, and the others are still in their slots. -/
structure Ring.Received (taken : ℕ) (r r' : Ring cap σ) : Prop where
  settled : r'.sequencer.Settled
  cursor : r'.sequencer.cursor = r.sequencer.cursor
  gating : r'.sequencer.gating.toInt = r.sequencer.gating.toInt + taken
  position : r'.poller.position r'.sequencer = r'.sequencer.gating
  slots : ∀ t, r.sequencer.gating.toInt + taken < t → t ≤ r.sequencer.cursor.toInt →
    r'.slots.peek t = r.slots.peek t
  producers : r'.producers = r.producers
  consumers : r'.consumers = r.consumers

/-- The sequences of a window within one lap have slots of their own. -/
theorem Window.pairwise_slots {win : Window} (lap : win.last.toInt < win.first.toInt + cap.slots) :
    win.sequences.Pairwise fun s t => cap.slot s ≠ cap.slot t := by
  refine (List.Nodup.of_map _ win.nodup_sequences).imp_of_mem ?_
  intro s t hs ht hne
  have hs' := Window.mem_sequences.mp hs
  have ht' := Window.mem_sequences.mp ht
  exact cap.slot_ne hne (by omega) (by omega)

end

namespace Channel
variable {cap : Capacity} {α L : Type}

abbrev herePoller : Part (Channel cap α × L) Poller := hereRing.within Ring.pollerPart

theorem lawful_herePoller : (herePoller : Part (Channel cap α × L) _).Lawful :=
  lawful_hereRing.within Ring.lawful_pollerPart

def withPoller (p : Poller) (c : Channel cap α) : Channel cap α :=
  { c with ring := { c.ring with poller := p } }

@[simp] theorem slots_withSlots (slots : Slots cap (Option α)) (c : Channel cap α) :
    (c.withSlots slots).ring.slots = slots := rfl

@[simp] theorem withSlots_withSlots (slots slots' : Slots cap (Option α)) (c : Channel cap α) :
    (c.withSlots slots).withSlots slots' = c.withSlots slots' := rfl

/-- Empties one slot and hands out its value, if it has one. -/
def handOut (f : α → Act L Unit) (received : ℕ) (s : Int64) : Act (Channel cap α × L) ℕ := do
  match ← here.lift (exchange s none) with
  | none => return received
  | some value =>
    Act.outer (f value)
    return received + 1

theorem drain_def (f : α → Act L Unit) (win : Window) :
    drain (here : Part (Channel cap α × L) _) (fun value _ => Act.outer (f value)) win =
      win.sequences.foldlM (handOut f) 0 := rfl

theorem handOut_none {c : Channel cap α} {s : Int64} (h : c.ring.slots.read s = none)
    (f : α → Act L Unit) (n : ℕ) (l : L) :
    handOut f n s (c, l) = .ok n (c.withSlots (c.ring.slots.write s none), l) := by
  have htake : here.lift (exchange s none) (c, l) =
      .ok none (c.withSlots (c.ring.slots.write s none), l) := by
    rw [← h]
    rfl
  rw [handOut, Act.bind_ok htake]
  rfl

theorem handOut_some {c : Channel cap α} {s : Int64} {value : α}
    (h : c.ring.slots.read s = some value) (f : α → Act L Unit) (n : ℕ) (l : L) :
    handOut f n s (c, l) =
      match f value l with
      | .ok _ l' => .ok (n + 1) (c.withSlots (c.ring.slots.write s none), l')
      | .error e l' => .error e (c.withSlots (c.ring.slots.write s none), l') := by
  have htake : here.lift (exchange s none) (c, l) =
      .ok (some value) (c.withSlots (c.ring.slots.write s none), l) := by
    rw [← h]
    rfl
  rw [handOut, Act.bind_ok htake]
  simp only
  cases hf : f value l with
  | ok u l' =>
    have hcall : Act.outer (f value) (c.withSlots (c.ring.slots.write s none), l) =
        .ok u (c.withSlots (c.ring.slots.write s none), l') := Part.lift_ok hf
    rw [Act.bind_ok hcall]
    rfl
  | error e l' =>
    have hcall : Act.outer (f value) (c.withSlots (c.ring.slots.write s none), l) =
        .error e (c.withSlots (c.ring.slots.write s none), l') := Part.lift_error hf
    rw [Act.bind_error hcall]

/-- Handing out a list of slots calls `f` on their values in order, as far as it
goes, and empties the slots up to there. -/
theorem handOutAll_eq (f : α → Act L Unit) (ss : List Int64)
    (distinct : ss.Pairwise fun s t => cap.slot s ≠ cap.slot t) (n : ℕ)
    (c : Channel cap α) (l : L) :
    ∃ k ≤ ss.length,
      (∀ l', (ss.filterMap c.ring.slots.read).forM f l = .ok () l' → k = ss.length) ∧
      ss.foldlM (handOut f) n (c, l) =
        match (ss.filterMap c.ring.slots.read).forM f l with
        | .ok _ l' =>
          .ok (n + (ss.filterMap c.ring.slots.read).length)
            (c.withSlots (c.ring.slots.writeAll (ss.take k) (List.replicate k none)), l')
        | .error e l' =>
          .error e (c.withSlots
            (c.ring.slots.writeAll (ss.take k) (List.replicate k none)), l') := by
  induction ss generalizing n c l with
  | nil => exact ⟨0, le_refl _, fun _ _ => rfl, rfl⟩
  | cons s ss ih =>
    obtain ⟨hs, hss⟩ := List.pairwise_cons.mp distinct
    have hsame : ss.filterMap (c.ring.slots.write s none).read =
        ss.filterMap c.ring.slots.read := by
      apply List.filterMap_congr
      intro t ht
      rw [Slots.read_write, if_neg (hs t ht)]
    rw [List.foldlM_cons]
    cases hread : c.ring.slots.read s with
    | none =>
      obtain ⟨k, hk, hall, hrun⟩ := ih hss n (c.withSlots (c.ring.slots.write s none)) l
      simp only [slots_withSlots, withSlots_withSlots, hsame] at hrun hall
      refine ⟨k + 1, Nat.succ_le_succ hk, ?_, ?_⟩
      · intro l' hok
        rw [List.filterMap_cons_none hread] at hok
        rw [hall l' hok, List.length_cons]
      · rw [List.filterMap_cons_none hread, Act.bind_ok (handOut_none hread f n l), hrun]
        rfl
    | some value =>
      rw [List.filterMap_cons_some hread]
      have hone := handOut_some hread f n l
      cases hf : f value l with
      | error e l' =>
        rw [hf] at hone
        have hall : (value :: ss.filterMap c.ring.slots.read).forM f l = .error e l' :=
          Act.bind_error hf
        refine ⟨1, by simp, ?_, ?_⟩
        · intro l'' hok
          rw [hall] at hok
          simp at hok
        · rw [Act.bind_error hone, hall]
          rfl
      | ok u l' =>
        rw [hf] at hone
        obtain ⟨k, hk, hall, hrun⟩ :=
          ih hss (n + 1) (c.withSlots (c.ring.slots.write s none)) l'
        simp only [slots_withSlots, withSlots_withSlots, hsame] at hrun hall
        have hnext : (value :: ss.filterMap c.ring.slots.read).forM f l =
            (ss.filterMap c.ring.slots.read).forM f l' := Act.bind_ok hf
        refine ⟨k + 1, Nat.succ_le_succ hk, ?_, ?_⟩
        · intro l'' hok
          rw [hnext] at hok
          rw [hall l'' hok, List.length_cons]
        · rw [Act.bind_ok hone, hnext, hrun, List.length_cons, Nat.add_right_comm, Nat.add_assoc]
          rfl

/-- The values of the first `count` entries, in order. -/
def valuesAhead (count : ℕ) (c : Channel cap α) : List α :=
  (List.range count).filterMap fun k : ℕ =>
    c.ring.slots.peek (c.ring.sequencer.gating.toInt + 1 + k)

/-- The entries that a receiver of `batch` takes. -/
def taken (batch : UInt64) (c : Channel cap α) : ℕ :=
  min batch.toNat (c.ring.sequencer.cursor.toInt - c.ring.sequencer.gating.toInt).toNat

theorem values_window {c : Channel cap α} {win : Window} {count : ℕ}
    (first : win.first.toInt = c.ring.sequencer.gating.toInt + 1) (size : win.size = count) :
    win.sequences.filterMap c.ring.slots.read = c.valuesAhead count := by
  have hread : (fun t : ℤ => c.ring.slots.peek t) ∘ Int64.toInt = c.ring.slots.read := by
    funext s
    exact Slots.peek_toInt _ s
  rw [← hread, ← List.filterMap_map, Window.map_toInt_sequences, List.filterMap_map, size, first]
  rfl

section Calls
variable {c : Channel cap α}

/-- A channel whose window `win` was received as far as its first `k` slots. -/
def afterReceive (win : Window) (k : ℕ) (c : Channel cap α) : Channel cap α :=
  ((c.withPoller (c.ring.poller.claim win)).withSlots
    (c.ring.slots.writeAll (win.sequences.take k) (List.replicate k none))).withSequencer
    (Poller.afterRelease win c.ring.sequencer)

/-- A receiver whose window it is the turn of hands out the values in it until it
gives up, and releases the window in either case. -/
theorem receive_window {win : Window} {batch : UInt64} {l : L}
    (hopen : Poller.openWindow hereSequencer herePoller batch (c, l) =
      .ok (some win) (c.withPoller (c.ring.poller.claim win), l))
    (turn : win.first.toInt = c.ring.sequencer.gating.toInt + 1) (lo : 0 ≤ win.first.toInt)
    (le : win.first.toInt ≤ win.last.toInt)
    (near : win.last.toInt ≤ c.ring.sequencer.gating.toInt + cap.slots)
    (word : win.last.toInt + 1 < 2 ^ 63) (f : α → Act L Unit) :
    ∃ k ≤ win.size,
      (∀ l', (win.sequences.filterMap c.ring.slots.read).forM f l = .ok () l' → k = win.size) ∧
      receive here batch (fun value => Act.outer (f value)) (c, l) =
        match (win.sequences.filterMap c.ring.slots.read).forM f l with
        | .ok _ l' => .ok .processing (c.afterReceive win k, l')
        | .error e l' => .error e (c.afterReceive win k, l') := by
  obtain ⟨k, hk, hwhole, hdrain⟩ := handOutAll_eq f win.sequences
    (Window.pairwise_slots (by omega)) 0 (c.withPoller (c.ring.poller.claim win)) l
  rw [win.length_sequences] at hk hwhole
  rw [← drain_def] at hdrain
  refine ⟨k, hk, hwhole, ?_⟩
  have hrelease : ∀ l' : L, Poller.release hereSequencer herePoller win
      ((c.withPoller (c.ring.poller.claim win)).withSlots
        (c.ring.slots.writeAll (win.sequences.take k) (List.replicate k none)), l') =
      .ok () (c.afterReceive win k, l') := fun _ =>
    Poller.release_eq lawful_hereSequencer lawful_herePoller turn le (by omega)
  change _ = match (win.sequences.filterMap c.ring.slots.read).forM f l with
    | .ok _ l' => _
    | .error e l' => _ at hdrain
  rw [receive]
  cases hall : (win.sequences.filterMap c.ring.slots.read).forM f l with
  | ok u l' =>
    rw [hall] at hdrain
    exact Act.bind_ok (Poller.poll_ok hopen hdrain (hrelease l'))
  | error e l' =>
    rw [hall] at hdrain
    exact Act.bind_error (Poller.poll_error hopen hdrain (hrelease l'))

/-- The greatest published run of settled sequences has the size of what a
receiver takes. -/
theorem openWindow_here (h : c.ring.sequencer.Settled)
    (hp : c.ring.poller.position c.ring.sequencer = c.ring.sequencer.gating) {batch : UInt64}
    (hb : batch ≠ 0) (l : L) :
    ∃ last : Int64, last.toInt = c.ring.sequencer.gating.toInt + c.taken batch ∧
      Poller.openWindow hereSequencer herePoller batch (c, l) =
        match Poller.windowTo c.ring.sequencer.gating last with
        | none => .ok none (c.withSequencer (c.ring.sequencer.count .idle), l)
        | some win => .ok (some win) (c.withPoller (c.ring.poller.claim win), l) := by
  exact Ring.openWindow_eq lawful_hereRing (w := (c, l)) h hp hb

/-- A receiver finds nothing if it asks for nothing or nothing is there. -/
theorem receive_none (h : c.ring.sequencer.Settled)
    (hp : c.ring.poller.position c.ring.sequencer = c.ring.sequencer.gating) {batch : UInt64}
    (hnone : c.taken batch = 0) (f : α → Act L Unit) (l : L) :
    ∃ c' : Channel cap α, Ring.Received 0 c.ring c'.ring ∧
      receive here batch (fun value => Act.outer (f value)) (c, l) = .ok .idle (c', l) := by
  by_cases hb : batch = 0
  · refine ⟨c, ⟨h, rfl, by omega, hp, fun _ _ _ => rfl, rfl, rfl⟩, ?_⟩
    rw [hb]
    rfl
  · obtain ⟨last, hlast, hopen⟩ := openWindow_here h hp hb l
    have hsame : last = c.ring.sequencer.gating := Int64.toInt_inj.mp (by omega)
    rw [Poller.windowTo, if_pos hsame] at hopen
    refine ⟨c.withSequencer (c.ring.sequencer.count .idle), ?_, ?_⟩
    · refine ⟨h.count _, rfl, ?_, hp, fun _ _ _ => rfl, rfl, rfl⟩
      change c.ring.sequencer.gating.toInt = _
      omega
    · have hpoll := Poller.poll_none (drain here fun value _ => Act.outer (f value)) hopen
      rw [receive]
      exact Act.bind_ok hpoll

/-- A receiver takes the entries in front, and hands their values out until it
gives up. What it took is released in either case. -/
theorem receive_some (h : c.ring.sequencer.Settled)
    (hp : c.ring.poller.position c.ring.sequencer = c.ring.sequencer.gating) {batch : UInt64}
    (hsome : 0 < c.taken batch) (f : α → Act L Unit) (l : L) :
    ∃ c' : Channel cap α, Ring.Received (c.taken batch) c.ring c'.ring ∧
      receive here batch (fun value => Act.outer (f value)) (c, l) =
        match (c.valuesAhead (c.taken batch)).forM f l with
        | .ok _ l' => .ok .processing (c', l')
        | .error e l' => .error e (c', l') := by
  have hstart := h.start_le
  have hroom := h.room
  have hlap := h.le_gating
  have htaken : c.ring.sequencer.gating.toInt + c.taken batch ≤ c.ring.sequencer.cursor.toInt := by
    rw [taken] at hsome ⊢
    omega
  have hb : batch ≠ 0 := by
    rintro rfl
    simp [taken] at hsome
  obtain ⟨last, hlast, hopen⟩ := openWindow_here h hp hb l
  have hmore : last ≠ c.ring.sequencer.gating := by
    rintro rfl
    omega
  rw [Poller.windowTo, if_neg hmore] at hopen
  set win : Window := ⟨c.ring.sequencer.gating + 1, last⟩
  have hfirst : win.first.toInt = c.ring.sequencer.gating.toInt + 1 := Checked.toInt_succ (by omega)
  have hend : win.last.toInt = c.ring.sequencer.gating.toInt + c.taken batch := hlast
  have hsize : win.size = c.taken batch := by
    rw [Window.size_eq]
    omega
  obtain ⟨k, -, -, hreceive⟩ :=
    receive_window hopen hfirst (by omega) (by omega) (by omega) (by omega) f
  rw [values_window hfirst hsize] at hreceive
  refine ⟨c.afterReceive win k, ?_, hreceive⟩
  refine ⟨h.afterRelease (by omega) (by omega), rfl, hlast,
    c.ring.poller.position_claim_afterRelease win c.ring.sequencer, ?_, rfl, rfl⟩
  intro t ht ht'
  refine Slots.peek_writeAll_other _ _ _ fun s hs he => ?_
  have hmem := Window.mem_sequences.mp (List.mem_of_mem_take hs)
  have := cap.eq_of_emod_eq he (by omega) (by omega)
  omega

end Calls

end Channel

end LapRing
