import LapRing.Proofs.ChannelParties

/-!
# What becomes of the values of a channel

The parties of a channel whose values carry the sequence they were accepted for, with
an account of the values that were accepted and of those that the ring itself dropped. A
value is handed to a consumer, dropped, or still in its slot, and only one of
these. A consumer that gives up leaves values behind. No other consumer is ever
handed them: they are dropped when their slot is next put to use, or in the end.
-/
namespace LapRing
open scoped List

namespace Slots
variable {cap : Capacity} {α : Type}

/-- The values in the slots, in slot order. -/
def values (slots : Slots cap (Option α)) : List α := slots.toList.filterMap id

@[simp] theorem values_fill : (fill cap none : Slots cap (Option α)).values = [] := by
  simp [values, toList, fill]

theorem mem_values {slots : Slots cap (Option α)} {x : α} :
    x ∈ slots.values ↔ ∃ t, slots.peek t = some x := by
  simp only [values, toList, List.mem_filterMap, id, exists_eq_right, Vector.mem_toList_iff,
    Vector.mem_iff_getElem, peek, read]
  constructor
  · rintro ⟨i, hi, hx⟩
    have hslot : (cap.slot (.ofInt i)).val = i := by
      have := cap.slot_eq (.ofInt i)
      have := cap.toInt_ofInt_emod i
      have := Int.emod_eq_of_lt (show (0 : ℤ) ≤ i by omega) (show (i : ℤ) < cap.slots by omega)
      omega
    exact ⟨i, by simpa only [hslot] using hx⟩
  · rintro ⟨t, ht⟩
    exact ⟨_, (cap.slot (.ofInt t)).isLt, ht⟩

theorem toList_write (slots : Slots cap α) (s : Int64) (x : α) :
    (slots.write s x).toList =
      slots.toList.take (cap.slot s) ++ x :: slots.toList.drop (cap.slot s + 1) := by
  rw [toList, write, Vector.toList_set, List.set_eq_take_append_cons_drop, if_pos]
  · rfl
  · rw [Vector.length_toList]
    exact (cap.slot s).isLt

/-- What is written takes the place of what was there. -/
theorem values_write (slots : Slots cap (Option α)) (s : Int64) (x : Option α) :
    ((slots.write s x).values ++ (slots.read s).toList).Perm (slots.values ++ x.toList) := by
  set before := (slots.toList.take (cap.slot s)).filterMap id with hbefore
  set after := (slots.toList.drop (cap.slot s + 1)).filterMap id with hafter
  have hvalues : ∀ y, (slots.write s y).values = before ++ (y.toList ++ after) := by
    intro y
    rw [values, toList_write]
    cases y <;> simp [hbefore, hafter]
  have hold : slots.values = before ++ ((slots.read s).toList ++ after) := by
    rw [← hvalues, write_read]
  rw [hvalues, hold]
  simp only [List.append_assoc]
  apply List.Perm.append_left
  calc x.toList ++ (after ++ (slots.read s).toList)
      _ ~ (after ++ (slots.read s).toList) ++ x.toList := List.perm_append_comm
      _ ~ ((slots.read s).toList ++ after) ++ x.toList := List.perm_append_comm.append_right _
      _ = (slots.read s).toList ++ (after ++ x.toList) := List.append_assoc _ _ _

end Slots

namespace ChannelParties
variable {cap : Capacity} {P Q α : Type} {m m' : ChannelParties cap P Q α}

/-- The values that consumers were handed, oldest first. -/
def handed (m : ChannelParties cap P Q α) : List α := m.taken.filterMap Taking.content

theorem Sound.count (h : m.Sound) (f : Tally → Tally) :
    { m with sequencer := m.sequencer.count f }.Sound :=
  ⟨h.parties.count f, h.writer, h.kept, h.sent, h.sender, h.within, h.unbegun, h.once, h.gone,
    h.faithful, h.own, h.order⟩

variable [DecidableEq P] [DecidableEq Q]

/-- Nothing that was written or given up is taken back. -/
theorem Step.grows (h : Step m m') :
    (∀ t y, m.wrote t = some y → m'.wrote t = some y) ∧ ∀ t ∈ m.lost, t ∈ m'.lost := by
  cases h with
  | claim _ | publish _ _ _ _ _ | search _ | take _ _ => exact ⟨fun _ _ hw => hw, fun _ ht => ht⟩
  | release _ _ => exact ⟨fun _ _ hw => hw, fun _ ht => List.mem_append_left _ ht⟩
  | write content own unwritten =>
    refine ⟨fun t y hw => ?_, fun _ ht => ht⟩
    refine (Function.update_of_ne ?_ _ _).trans hw
    rintro rfl
    rw [unwritten] at hw
    simp at hw

/-- An access that writes nothing moves values only from slots to consumers. -/
theorem Step.moves (h : Step m m') (hw : m'.wrote = m.wrote) :
    (m'.handed ++ m'.slots.values).Perm (m.handed ++ m.slots.values) ∧
      ∀ t x, m'.slots.peek t = some x → m.slots.peek t = some x := by
  cases h with
  | claim _ | publish _ _ _ _ _ | search _ | release _ _ => exact ⟨.refl _, fun _ _ hx => hx⟩
  | @write p s content own unwritten =>
    have hwrite := congrFun hw s.toInt
    simp [unwritten] at hwrite
  | @take q win s hq hs =>
    constructor
    · have hwrite := m.slots.values_write s none
      rw [Option.toList_none, List.append_nil] at hwrite
      have hhanded : List.filterMap Taking.content [Taking.mk q s.toInt (m.slots.read s)] =
          (m.slots.read s).toList := by
        cases m.slots.read s <;> rfl
      simp only [handed, Slots.exchange, List.filterMap_append, hhanded, List.append_assoc]
      exact (List.perm_append_comm.trans hwrite).append_left _
    · intro t x hx
      simp only [Slots.exchange, Slots.peek_write] at hx
      split at hx
      · simp at hx
      · exact hx

end ChannelParties

/-- A value that was accepted for a sequence. -/
structure Stamped (α : Type) where
  sequence : ℤ
  value : α

/-- What the ring dropped a value for. -/
inductive Cause
  /-- A value was put into the slot, for a later sequence. -/
  | overwritten (next : ℤ)
  /-- The slot was emptied by a batch that had no value for a later sequence. -/
  | emptied (next : ℤ)
  /-- The ring was freed. -/
  | freed

structure ValueFates (cap : Capacity) (P Q α : Type) extends ChannelParties cap P Q
    (Stamped α) where
  /-- The values that producers have put into slots, oldest first. -/
  accepted : List (Stamped α)
  /-- The values that the ring dropped, oldest first. -/
  dropped : List (Stamped α × Cause)

namespace ValueFates
variable {cap : Capacity} {P Q α : Type}

def new (cap : Capacity) (producer consumer : Multiplicity) (metrics : Bool) :
    ValueFates cap P Q α where
  toChannelParties := .new cap producer consumer metrics
  accepted := []
  dropped := []

/-- The values that are in slots. -/
def kept (e : ValueFates cap P Q α) : List (Stamped α) := e.slots.values

def causeOf (s : Int64) : Option α → Cause
  | some _ => .overwritten s.toInt
  | none => .emptied s.toInt

/-- Puts a value into the slot of `s`, or nothing. What was there is dropped in the same
step. A producer exchanges the value and drops the old one right after, before or after it
publishes: in between, only the producer has the old value. -/
def put (p : P) (s : Int64) (value : Option α) (e : ValueFates cap P Q α) : ValueFates cap P Q α :=
  let content := value.map (Stamped.mk s.toInt)
  { e with
    slots := (e.slots.exchange s content).2
    wrote := Function.update e.wrote s.toInt (some (p, content))
    accepted := e.accepted ++ content.toList
    dropped := e.dropped ++ ((e.slots.exchange s content).1.map (·, causeOf s value)).toList }

/-- Frees the ring, which drops what is in its slots. -/
def free (e : ValueFates cap P Q α) : ValueFates cap P Q α :=
  { e with
    slots := .fill cap none
    dropped := e.dropped ++ e.kept.map (·, .freed) }

variable [DecidableEq P] [DecidableEq Q]

/-- One access of one party. -/
inductive Step : ValueFates cap P Q α → ValueFates cap P Q α → Prop
  /-- Anything but writing leaves the accounts alone. -/
  | trade {e : ValueFates cap P Q α} {m : ChannelParties cap P Q (Stamped α)} :
      ChannelParties.Step e.toChannelParties m → m.wrote = e.wrote →
      Step e { e with toChannelParties := m }
  | put {e : ValueFates cap P Q α} {p : P} {s : Int64} (value : Option α) :
      e.holder s.toInt = .owned p → e.wrote s.toInt = none → Step e (e.put p s value)
  /-- A handler rejects a value that it was handed. -/
  | reject {e : ValueFates cap P Q α} :
      Step e { e with sequencer := e.sequencer.count .failed }

def Reachable (producer consumer : Multiplicity) (metrics : Bool)
    (e : ValueFates cap P Q α) : Prop :=
  Relation.ReflTransGen Step (new cap producer consumer metrics) e

omit [DecidableEq P] [DecidableEq Q]

/-- A consumer gave up on the value, and `next` is a later sequence of its slot. -/
structure Follows (e : ValueFates cap P Q α) (x : Stamped α) (next : ℤ) : Prop where
  left : x.sequence ∈ e.lost
  later : x.sequence < next
  same : x.sequence % cap.slots = next % cap.slots

/-- What became of the slot of a value that was dropped. -/
def Explains (e : ValueFates cap P Q α) : Stamped α × Cause → Prop
  | (x, .overwritten next) => e.Follows x next ∧ ∃ p y, e.wrote next = some (p, some y)
  | (x, .emptied next) => e.Follows x next ∧ ∃ p, e.wrote next = some (p, none)
  | (_, .freed) => False

/-- The invariant of the values. -/
structure Sound (e : ValueFates cap P Q α) : Prop where
  channel : e.toChannelParties.Sound
  marked : ∀ t p x, e.wrote t = some (p, some x) → x.sequence = t
  accepted : ∀ x, x ∈ e.accepted ↔ ∃ p, e.wrote x.sequence = some (p, some x)
  distinct : (e.accepted.map Stamped.sequence).Nodup
  balance : e.accepted.Perm (e.handed ++ e.dropped.map Prod.fst ++ e.kept)
  placed : ∀ t x, e.slots.peek t = some x → x.sequence % cap.slots = t % cap.slots
  explained : ∀ d ∈ e.dropped, e.Explains d

theorem sound_new (cap : Capacity) (producer consumer : Multiplicity) (metrics : Bool) :
    (new cap producer consumer metrics : ValueFates cap P Q α).Sound := by
  refine ⟨ChannelParties.sound_new cap producer consumer metrics, nofun, fun x => ⟨nofun, nofun⟩,
    List.nodup_nil, ?_, ?_, nofun⟩
  · simp [new, ChannelParties.new, ChannelParties.handed, kept]
  · intro t x hx
    simp [new, ChannelParties.new] at hx

section Growing
variable {e e' : ValueFates cap P Q α}

/-- What explains a drop stays true as long as nothing is taken back. -/
theorem Explains.mono {d : Stamped α × Cause} (h : e.Explains d)
    (wrote : ∀ t y, e.wrote t = some y → e'.wrote t = some y) (lost : ∀ t ∈ e.lost, t ∈ e'.lost) :
    e'.Explains d := by
  have hfollows : ∀ x next, e.Follows x next → e'.Follows x next :=
    fun x next hx => ⟨lost _ hx.left, hx.later, hx.same⟩
  obtain ⟨x, cause⟩ := d
  cases cause with
  | overwritten next =>
    obtain ⟨hx, p, y, hw⟩ := h
    exact ⟨hfollows x next hx, p, y, wrote _ _ hw⟩
  | emptied next =>
    obtain ⟨hx, p, hw⟩ := h
    exact ⟨hfollows x next hx, p, wrote _ _ hw⟩
  | freed => exact h

end Growing

namespace Sound
variable {e : ValueFates cap P Q α}

theorem mem_kept {x : Stamped α} : x ∈ e.kept ↔ ∃ t, e.slots.peek t = some x := Slots.mem_values

/-- A value has one fate. -/
theorem fates (h : e.Sound) :
    (e.handed ++ e.dropped.map Prod.fst ++ e.kept).map Stamped.sequence |>.Nodup :=
  (h.balance.map Stamped.sequence).nodup_iff.mp h.distinct

theorem wrote_of_kept (h : e.Sound) {x : Stamped α} (hx : x ∈ e.kept) :
    ∃ p, e.wrote x.sequence = some (p, some x) :=
  (h.accepted x).mp (h.balance.mem_iff.mpr (List.mem_append_right _ hx))

/-- What is in a slot was never handed out. -/
theorem not_taken (h : e.Sound) {x : Stamped α} (hx : x ∈ e.kept) :
    x.sequence ∉ e.taken.map Taking.sequence := by
  intro htaken
  obtain ⟨taking, hin, hsequence⟩ := List.mem_map.mp htaken
  obtain ⟨p, hw⟩ := h.wrote_of_kept hx
  obtain ⟨q, hw'⟩ := h.channel.faithful taking hin
  rw [hsequence, hw] at hw'
  have hcontent : taking.content = some x := by
    simp only [Option.some.injEq, Prod.mk.injEq] at hw'
    exact hw'.2.symm
  have hhanded : x ∈ e.handed := List.mem_filterMap.mpr ⟨taking, hin, hcontent⟩
  have hfates := h.fates
  rw [List.map_append, List.nodup_append] at hfates
  refine hfates.2.2 x.sequence ?_ x.sequence (List.mem_map_of_mem hx) rfl
  rw [List.map_append]
  exact List.mem_append_left _ (List.mem_map_of_mem hhanded)

/-- A value whose sequence is released is in its slot only because a consumer gave
up on it. -/
theorem left (h : e.Sound) {x : Stamped α} (hx : x ∈ e.kept)
    (released : x.sequence ≤ e.sequencer.gating.toInt) : x.sequence ∈ e.lost := by
  obtain ⟨p, hw⟩ := h.wrote_of_kept hx
  obtain ⟨hlo, -⟩ := h.channel.writer _ _ _ hw
  have hgone : x.sequence ∈ e.gone := (h.channel.gone _).mpr (Or.inl ⟨hlo, released⟩)
  exact (List.mem_append.mp hgone).resolve_left (h.not_taken hx)

/-- The slot of a sequence that is about to be written holds at most what was left
behind in an earlier lap. -/
theorem follows (h : e.Sound) {p : P} {s : Int64} (own : e.holder s.toInt = .owned p)
    (unwritten : e.wrote s.toInt = none) {x : Stamped α} (hx : e.slots.read s = some x) :
    e.Follows x s.toInt := by
  rw [← Slots.peek_toInt] at hx
  have hkept : x ∈ e.kept := mem_kept.mpr ⟨_, hx⟩
  have hsame := h.placed _ _ hx
  have hlt := h.channel.parties.producers.lt_of_owned own
  obtain ⟨r, hw⟩ := h.wrote_of_kept hkept
  obtain ⟨-, hholder⟩ := h.channel.writer _ _ _ hw
  have hne : x.sequence ≠ s.toInt := by
    intro he
    rw [he, unwritten] at hw
    simp at hw
  -- Otherwise both sequences would be in use, and those never share a slot.
  have hreleased : x.sequence ≤ e.sequencer.gating.toInt := by
    by_contra hgt
    have hheld : e.toRingParties.Held x.sequence :=
      ⟨by omega, hholder.symm.imp_right fun ho => ⟨r, ho⟩⟩
    obtain ⟨hnear, -⟩ := h.channel.parties.slot_ne hheld ⟨hlt, Or.inr ⟨p, own⟩⟩ hne
    obtain ⟨hlo, hhi⟩ := abs_sub_lt_iff.mp hnear
    exact hne (cap.eq_of_emod_eq hsame hlo hhi)
  exact ⟨h.left hkept hreleased, by omega, hsame⟩

/-- A put drops what it replaces, and keeps what it puts. -/
theorem balance_put (h : e.Sound) (p : P) (s : Int64) (value : Option α) :
    (e.put p s value).accepted.Perm ((e.put p s value).handed ++
      (e.put p s value).dropped.map Prod.fst ++ (e.put p s value).kept) := by
  set content := value.map (Stamped.mk s.toInt) with hcontent
  have hwrite := e.slots.values_write s content
  have hdrop : (((e.slots.read s).map (·, causeOf s value)).toList).map Prod.fst =
      (e.slots.read s).toList := by
    cases e.slots.read s <;> rfl
  change (e.accepted ++ content.toList).Perm (e.handed ++
    (e.dropped ++ ((e.slots.read s).map (·, causeOf s value)).toList).map Prod.fst ++
      (e.slots.write s content).values)
  rw [List.map_append, hdrop]
  calc e.accepted ++ content.toList
      _ ~ e.handed ++ e.dropped.map Prod.fst ++ e.kept ++ content.toList :=
        h.balance.append_right _
      _ = e.handed ++ e.dropped.map Prod.fst ++ (e.slots.values ++ content.toList) :=
        List.append_assoc _ _ _
      _ ~ e.handed ++ e.dropped.map Prod.fst ++
          ((e.slots.write s content).values ++ (e.slots.read s).toList) :=
        hwrite.symm.append_left _
      _ ~ e.handed ++ e.dropped.map Prod.fst ++
          ((e.slots.read s).toList ++ (e.slots.write s content).values) :=
        List.perm_append_comm.append_left _
      _ = _ := by simp only [List.append_assoc]

section Put
variable {p : P} {s : Int64}

theorem wrote_put (value : Option α) (unwritten : e.wrote s.toInt = none) {t : ℤ}
    {y : P × Option (Stamped α)} (hw : e.wrote t = some y) :
    (e.put p s value).wrote t = some y := by
  refine (Function.update_of_ne ?_ _ _).trans hw
  rintro rfl
  rw [unwritten] at hw
  simp at hw

/-- What is put into the slot of a sequence is marked with it. -/
theorem sequence_of_put {value : Option α} {x : Stamped α}
    (hx : value.map (Stamped.mk s.toInt) = some x) : x.sequence = s.toInt := by
  obtain ⟨v, -, rfl⟩ := Option.map_eq_some_iff.mp hx
  rfl

theorem accepted_put (h : e.Sound) (value : Option α) (unwritten : e.wrote s.toInt = none)
    (x : Stamped α) : x ∈ (e.put p s value).accepted ↔
      ∃ r, (e.put p s value).wrote x.sequence = some (r, some x) := by
  have hself : (e.put p s value).wrote s.toInt = some (p, value.map (Stamped.mk s.toInt)) :=
    Function.update_self _ _ _
  change x ∈ e.accepted ++ (value.map (Stamped.mk s.toInt)).toList ↔ _
  rw [List.mem_append, h.accepted, Option.mem_toList]
  constructor
  · intro hx
    rcases hx with ⟨r, hw⟩ | hx
    · exact ⟨r, wrote_put value unwritten hw⟩
    · exact ⟨p, by rw [sequence_of_put hx, hself, hx]⟩
  · intro ⟨r, hw⟩
    by_cases ht : x.sequence = s.toInt
    · rw [ht, hself] at hw
      simp only [Option.some.injEq, Prod.mk.injEq] at hw
      exact Or.inr hw.2
    · exact Or.inl ⟨r, (Function.update_of_ne ht _ _).symm.trans hw⟩

theorem distinct_put (h : e.Sound) (value : Option α) (unwritten : e.wrote s.toInt = none) :
    ((e.put p s value).accepted.map Stamped.sequence).Nodup := by
  change ((e.accepted ++ (value.map (Stamped.mk s.toInt)).toList).map Stamped.sequence).Nodup
  rw [List.map_append]
  cases value with
  | none => simpa using h.distinct
  | some v =>
    have hfresh : s.toInt ∉ e.accepted.map Stamped.sequence := by
      intro hin
      obtain ⟨x, hx, hsequence⟩ := List.mem_map.mp hin
      obtain ⟨r, hw⟩ := (h.accepted x).mp hx
      rw [hsequence, unwritten] at hw
      simp at hw
    rw [List.nodup_append_comm]
    exact List.nodup_cons.mpr ⟨hfresh, h.distinct⟩

theorem put (h : e.Sound) (value : Option α) (own : e.holder s.toInt = .owned p)
    (unwritten : e.wrote s.toInt = none) : (e.put p s value).Sound := by
  have hself : (e.put p s value).wrote s.toInt = some (p, value.map (Stamped.mk s.toInt)) :=
    Function.update_self _ _ _
  refine ⟨h.channel.write _ own unwritten, ?_, h.accepted_put value unwritten,
    h.distinct_put value unwritten, h.balance_put p s value, ?_, ?_⟩
  · intro t r x hw
    by_cases ht : t = s.toInt
    · subst ht
      rw [hself] at hw
      simp only [Option.some.injEq, Prod.mk.injEq] at hw
      exact sequence_of_put hw.2
    · exact h.marked t r x ((Function.update_of_ne ht _ _).symm.trans hw)
  · intro t x (hx : (e.slots.write s _).peek t = some x)
    rw [Slots.peek_write] at hx
    split at hx
    · rwa [sequence_of_put hx]
    · exact h.placed t x hx
  · intro d hd
    rcases List.mem_append.mp hd with hold | hnew
    · exact (h.explained d hold).mono (fun _ _ => wrote_put value unwritten) fun _ ht => ht
    · obtain ⟨x, hx, rfl⟩ := Option.map_eq_some_iff.mp (Option.mem_toList.mp hnew)
      have hfollows := h.follows own unwritten hx
      have hstays : (e.put p s value).Follows x s.toInt :=
        ⟨hfollows.left, hfollows.later, hfollows.same⟩
      cases value with
      | none => exact ⟨hstays, p, hself⟩
      | some v => exact ⟨hstays, p, _, hself⟩

end Put

/-- A value that was left behind is not handed to anybody any more. -/
theorem not_handed (h : e.Sound) {x : Stamped α} (hx : x.sequence ∈ e.lost) : x ∉ e.handed := by
  intro hin
  obtain ⟨taking, htaken, hcontent⟩ := List.mem_filterMap.mp hin
  obtain ⟨p, hw⟩ := h.channel.faithful taking htaken
  rw [hcontent] at hw
  have hsequence := h.marked _ _ _ hw
  have honce := h.channel.once
  rw [ChannelParties.gone, List.nodup_append] at honce
  exact honce.2.2 _ (List.mem_map_of_mem htaken) _ hx hsequence.symm

variable [DecidableEq P] [DecidableEq Q]

theorem trade (h : e.Sound) {m : ChannelParties cap P Q (Stamped α)}
    (hstep : ChannelParties.Step e.toChannelParties m)
    (hw : m.wrote = e.wrote) : { e with toChannelParties := m }.Sound := by
  obtain ⟨hmoves, hpeek⟩ := hstep.moves hw
  obtain ⟨hwrote, hlost⟩ := hstep.grows
  refine ⟨h.channel.step hstep, ?_, ?_, h.distinct, ?_, ?_, ?_⟩
  · simp only [hw]
    exact h.marked
  · simp only [hw]
    exact h.accepted
  · calc e.accepted
        _ ~ e.handed ++ e.dropped.map Prod.fst ++ e.kept := h.balance
        _ ~ e.dropped.map Prod.fst ++ e.handed ++ e.kept := List.perm_append_comm.append_right _
        _ = e.dropped.map Prod.fst ++ (e.handed ++ e.slots.values) := List.append_assoc _ _ _
        _ ~ e.dropped.map Prod.fst ++ (m.handed ++ m.slots.values) := hmoves.symm.append_left _
        _ = e.dropped.map Prod.fst ++ m.handed ++ m.slots.values := (List.append_assoc _ _ _).symm
        _ ~ m.handed ++ e.dropped.map Prod.fst ++ m.slots.values :=
          List.perm_append_comm.append_right _
  · exact fun t x hx => h.placed t x (hpeek t x hx)
  · exact fun d hd => (h.explained d hd).mono hwrote hlost

/-- Every access keeps the invariant. -/
theorem step {e' : ValueFates cap P Q α} (h : e.Sound) (hstep : Step e e') : e'.Sound := by
  cases hstep with
  | trade hstep hw => exact h.trade hstep hw
  | put value own unwritten => exact h.put value own unwritten
  | reject => exact ⟨h.channel.count _, h.marked, h.accepted, h.distinct, h.balance, h.placed,
      fun d hd => (h.explained d hd).mono (fun _ _ hw => hw) fun _ ht => ht⟩

theorem run {e' : ValueFates cap P Q α} (h : e.Sound) (hrun : Relation.ReflTransGen Step e e') :
    e'.Sound := by
  induction hrun with
  | refl => exact h
  | tail _ hstep ih => exact ih.step hstep

end Sound

section Fates
variable [DecidableEq P] [DecidableEq Q] {producer consumer : Multiplicity} {metrics : Bool}
  {e e' : ValueFates cap P Q α}

theorem Reachable.sound (h : e.Reachable producer consumer metrics) : e.Sound :=
  (sound_new cap producer consumer metrics).run h

/-- What was accepted stays accepted, and what was given up stays given up. -/
theorem Step.grows (h : Step e e') :
    (∀ x ∈ e.accepted, x ∈ e'.accepted) ∧ ∀ t ∈ e.lost, t ∈ e'.lost := by
  cases h with
  | trade hstep _ => exact ⟨fun _ hx => hx, hstep.grows.2⟩
  | put value own unwritten => exact ⟨fun _ hx => List.mem_append_left _ hx, fun _ ht => ht⟩
  | reject => exact ⟨fun _ hx => hx, fun _ ht => ht⟩

theorem grows_run (h : Relation.ReflTransGen Step e e') :
    (∀ x ∈ e.accepted, x ∈ e'.accepted) ∧ ∀ t ∈ e.lost, t ∈ e'.lost := by
  induction h with
  | refl => exact ⟨fun _ hx => hx, fun _ ht => ht⟩
  | tail _ hstep ih => exact ⟨fun x hx => hstep.grows.1 x (ih.1 x hx),
      fun t ht => hstep.grows.2 t (ih.2 t ht)⟩

end Fates

end ValueFates

end LapRing
