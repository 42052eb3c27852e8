import LapRing.Proofs.RunningActions

/-!
# Actions that ignore a change

A change of the world is ignored by an action that comes to the same with it as
without, and leaves it in place. What an action is put together from decides what
it ignores. A change of one component is ignored by all actions on components
apart from it.
-/
namespace LapRing

namespace Act
variable {W V α β ι : Type}

theorem outcome_bind (x : Act W α) (f : α → Act W β) (w : W) :
    (x >>= f).outcome w =
      match x.outcome w with
      | (.ok a, v) => (f a).outcome v
      | (.error e, v) => (.error e, v) := by
  cases h : x w with
  | ok a v => rw [outcome_ok h, outcome_eq (bind_ok h)]
  | error e v => rw [outcome_error h, outcome_error (bind_error h)]

theorem outcome_closing (x : Act W α) (close : Act W Unit) (w : W) :
    (x.closing close).outcome w =
      match x.outcome w, close.outcome (x.outcome w).2 with
      | (ending, _), (.ok _, v) => (ending, v)
      | (.ok _, _), (.error e, v) => (.error e, v)
      | (.error _, _), (.error e, v) => (.error e, v) := by
  cases h : x w with
  | ok a v => cases hc : close v <;> simp [outcome, closing, h, hc]
  | error e v => cases hc : close v <;> simp [outcome, closing, h, hc]

theorem outcome_onHalt (x : Act W α) (repair : Act W Unit) (w : W) :
    (x.onHalt repair).outcome w =
      match x.outcome w with
      | (.ok a, v) => (.ok a, v)
      | (.error e, v) =>
        match repair.outcome v with
        | (.ok _, u) => (.error e, u)
        | (.error later, u) => (.error later, u) := by
  cases h : x w with
  | ok a v => simp [outcome, onHalt, h]
  | error e v => cases hr : repair v <;> simp [outcome, onHalt, h, hr]

/-- With this answer the action leaves the world as it was. -/
def Stays (v : α) (x : Act W α) : Prop := ∀ ⦃w w'⦄, x w = .ok v w' → w' = w

/-- What `x` comes to, `y` comes to in the world that is seen through `g`. -/
def Follows (g : W → V) (x : Act W α) (y : Act V α) : Prop :=
  ∀ w, y.outcome (g w) = ((x.outcome w).1, g (x.outcome w).2)

/-- An action that the change makes no difference to: it comes to the same with it as without,
and leaves it in place. -/
abbrev Ignores (g : W → W) (x : Act W α) : Prop := Follows g x x

section Follows
variable {g : W → V}

theorem follows_pure (v : α) : Follows g (pure v : Act W α) (pure v) := fun _ => rfl

theorem follows_throw (h : Halt) : Follows g (throw h : Act W α) (throw h) := fun _ => rfl

theorem follows_set (w : W) : Follows g (set w : Act W PUnit) (set (g w)) := fun _ => rfl

theorem Follows.bind {x : Act W α} {y : Act V α} {f : α → Act W β} {f' : α → Act V β}
    (hx : Follows g x y) (hf : ∀ v, Follows g (f v) (f' v)) :
    Follows g (x >>= f) (y >>= f') := by
  intro w
  rw [outcome_bind, outcome_bind, hx w]
  rcases x.outcome w with ⟨_ | v, w'⟩
  · rfl
  · exact hf v w'

theorem follows_get_bind {f : W → Act W α} {f' : V → Act V α}
    (h : ∀ w, Follows g (f w) (f' (g w))) :
    Follows g (get >>= f) (get >>= f') :=
  fun w => h w w

theorem Follows.closing {x : Act W α} {y : Act V α} {close : Act W Unit} {close' : Act V Unit}
    (hx : Follows g x y) (hclose : Follows g close close') :
    Follows g (x.closing close) (y.closing close') := by
  intro w
  rw [outcome_closing, outcome_closing, hx w]
  simp only [hclose (x.outcome w).2]
  rcases x.outcome w with ⟨_ | v, w'⟩ <;> rcases close.outcome w' with ⟨_ | _, _⟩ <;> rfl

theorem Follows.onHalt {x : Act W α} {y : Act V α} {repair : Act W Unit} {repair' : Act V Unit}
    (hx : Follows g x y) (hrepair : Follows g repair repair') :
    Follows g (x.onHalt repair) (y.onHalt repair') := by
  intro w
  rw [outcome_onHalt, outcome_onHalt, hx w]
  rcases x.outcome w with ⟨_ | v, w'⟩
  · simp only [hrepair w']
    rcases repair.outcome w' with ⟨_ | _, _⟩ <;> rfl
  · rfl

theorem follows_forM {f : ι → Act W Unit} {f' : ι → Act V Unit} (h : ∀ i, Follows g (f i) (f' i))
    (items : List ι) : Follows g (items.forM f) (items.forM f') := by
  induction items with
  | nil => exact follows_pure ()
  | cons i items ih => exact (h i).bind fun _ => ih

theorem follows_foldlM {f : β → ι → Act W β} {f' : β → ι → Act V β}
    (h : ∀ b i, Follows g (f b i) (f' b i)) (items : List ι) (b : β) :
    Follows g (items.foldlM f b) (items.foldlM f' b) := by
  induction items generalizing b with
  | nil => exact follows_pure b
  | cons i items ih =>
    rw [List.foldlM_cons, List.foldlM_cons]
    exact (h b i).bind fun b' => ih b'

theorem Follows.outer {L : Type} {x : Act W α} {y : Act V α} (h : Follows g x y) :
    Follows (Prod.map id g : L × W → L × V) (outer x) (outer y) := by
  rintro ⟨l, w⟩
  have hrun := h w
  cases hx : x w <;> cases hy : y (g w) <;>
    simp_all [outcome, Act.outer, Part.lift, Part.second]

/-- What an action keeps beside the world is not the world's. -/
theorem Follows.owning {L : Type} {x : Act (L × W) α} {y : Act (L × V) α}
    (h : Follows (Prod.map id g) x y) (own : L) : Follows g (owning own x) (owning own y) := by
  intro w
  have hrun := h (own, w)
  cases hx : x (own, w) <;> cases hy : y (own, g w) <;>
    simp_all [outcome, Act.owning]

end Follows

section Ignores
variable {g : W → W}

theorem ignores_pure (v : α) : Ignores g (pure v : Act W α) := follows_pure v

theorem ignores_throw (h : Halt) : Ignores g (throw h : Act W α) := follows_throw h

theorem ignores_modify {f : W → W} (h : ∀ w, f (g w) = g (f w)) :
    Ignores g (modify f : Act W PUnit) := by
  intro w
  change (Except.ok (), f (g w)) = (Except.ok (), g (f w))
  rw [h]

theorem ignores_forM {f : ι → Act W Unit} (h : ∀ i, Ignores g (f i)) (items : List ι) :
    Ignores g (items.forM f) :=
  follows_forM h items

theorem ignores_foldlM {f : β → ι → Act W β} (h : ∀ b i, Ignores g (f b i)) (items : List ι)
    (b : β) : Ignores g (items.foldlM f b) :=
  follows_foldlM h items b

end Ignores

end Act

namespace Checked
variable {W : Type} (g : W → W)

theorem ignores_word (value : ℤ) (fault : Fault) :
    Act.Ignores g (word value fault : Act W Int64) := by
  unfold word
  dsimp only
  split
  · exact Act.ignores_pure _
  · exact Act.ignores_throw _

theorem ignores_add (a b : Int64) : Act.Ignores g (add a b : Act W Int64) := ignores_word g _ _

theorem ignores_sub (a b : Int64) : Act.Ignores g (sub a b : Act W Int64) := ignores_word g _ _

end Checked

namespace Part
variable {V W S T α β : Type} {p : Part W S}

/-- The world with its component changed. -/
def alter (p : Part W S) (f : S → S) (w : W) : W := p.join (f (p.split w).1) (p.split w).2

theorem split_alter (hp : p.Lawful) (f : S → S) (w : W) :
    (p.split (p.alter f w)).1 = f (p.split w).1 :=
  hp.split_join _ _

theorem alter_alter (hp : p.Lawful) (f f' : S → S) (w : W) :
    p.alter f' (p.alter f w) = p.alter (f' ∘ f) w := by
  simp only [alter, hp.split_join, hp.join_join, Function.comp_apply]

theorem alter_eq_self (hp : p.Lawful) {f : S → S} {w : W} (h : f (p.split w).1 = (p.split w).1) :
    p.alter f w = w := by
  rw [alter, h, hp.join_split]

theorem outcome_lift (act : Act S α) (w : W) :
    (p.lift act).outcome w =
      ((act.outcome (p.split w).1).1, p.join (act.outcome (p.split w).1).2 (p.split w).2) := by
  cases h : act (p.split w).1 with
  | ok a s => rw [Act.outcome_ok h, Act.outcome_ok (lift_ok h)]
  | error e s => rw [Act.outcome_error h, Act.outcome_error (lift_error h)]

theorem of_lift_ok {act : Act S α} {w w' : W} {a : α} (h : p.lift act w = .ok a w') :
    ∃ s, act (p.split w).1 = .ok a s ∧ w' = p.join s (p.split w).2 := by
  cases hact : act (p.split w).1 with
  | ok b s =>
    obtain ⟨rfl, rfl⟩ := EStateM.Result.ok.inj ((lift_ok hact).symm.trans h)
    exact ⟨s, rfl, rfl⟩
  | error e s => exact absurd ((lift_error hact).symm.trans h) nofun

theorem lift_within (p : Part V W) (q : Part W T) (act : Act T α) :
    (p.within q).lift act = p.lift (q.lift act) := by
  funext v
  cases h : act (q.split (p.split v).1).1 with
  | ok x t => rw [lift_ok (p := p) (lift_ok h)]; exact lift_ok (p := p.within q) h
  | error e t => rw [lift_error (p := p) (lift_error h)]; exact lift_error (p := p.within q) h

section Lawful
variable (hp : p.Lawful) {f : S → S}
include hp

omit f in
theorem stays_lift {v : α} {act : Act S α} (h : Act.Stays v act) : Act.Stays v (p.lift act) := by
  intro w w' hrun
  obtain ⟨s, hact, rfl⟩ := of_lift_ok hrun
  rw [h hact, hp.join_split]

omit f in
theorem lift_bind (x : Act S α) (k : α → Act S β) :
    p.lift (x >>= k) = p.lift x >>= fun v => p.lift (k v) := by
  funext w
  cases hx : x (p.split w).1 with
  | error e s => rw [lift_error (Act.bind_error hx), Act.bind_error (lift_error hx)]
  | ok v s =>
    rw [Act.bind_ok (lift_ok hx)]
    have hsplit := hp.split_join s (p.split w).2
    cases hk : k v s with
    | error e s' =>
      rw [lift_error ((Act.bind_ok hx).trans hk), lift_error (hsplit.symm ▸ hk), hp.join_join]
    | ok u s' => rw [lift_ok ((Act.bind_ok hx).trans hk), lift_ok (hsplit.symm ▸ hk), hp.join_join]

theorem follows_lift {x y : Act S α} (h : Act.Follows f x y) :
    Act.Follows (p.alter f) (p.lift x) (p.lift y) := by
  intro w
  rw [outcome_lift, outcome_lift, split_alter hp, h]
  simp only [alter, hp.split_join, hp.join_join]

/-- A component that was read is the changed one. -/
theorem follows_read_bind {k k' : S → Act W β}
    (h : ∀ s, Act.Follows (p.alter f) (k s) (k' (f s))) :
    Act.Follows (p.alter f) (p.read >>= k) (p.read >>= k') := by
  intro w
  rw [Act.outcome_eq (read_bind hp k' _), Act.outcome_eq (read_bind hp k _), split_alter hp]
  exact h _ w

theorem ignores_update {h : S → S} (comm : ∀ s, h (f s) = f (h s)) :
    Act.Ignores (p.alter f) (p.update h) :=
  follows_lift hp (Act.ignores_modify comm)

theorem follows_write (s : S) : Act.Follows (p.alter f) (p.write s) (p.write (f s)) :=
  follows_lift hp (Act.follows_set s)

end Lawful

/-- A change of `p` leaves the component `q` as it is, and the other way round. -/
structure Apart (p : Part W S) (q : Part W T) : Prop where
  split_alter : ∀ f w, (q.split (p.alter f w)).1 = (q.split w).1
  join_alter : ∀ f t w, q.join t (q.split (p.alter f w)).2 = p.alter f (q.join t (q.split w).2)

/-- A change of one component is ignored by all that is done to another. -/
theorem Apart.ignores_lift {q : Part W T} (h : p.Apart q) (f : S → S) (act : Act T α) :
    Act.Ignores (p.alter f) (q.lift act) := by
  intro w
  rw [outcome_lift, outcome_lift, h.split_alter, h.join_alter]

theorem Apart.within {q : Part W T} (h : p.Apart q) {here : Part V W} (hhere : here.Lawful) :
    (here.within p).Apart (here.within q) := by
  constructor
  · intro f v
    change (q.split (here.split (here.join (p.alter f (here.split v).1) (here.split v).2)).1).1 = _
    rw [hhere.split_join, h.split_alter]
    rfl
  · intro f t v
    change here.join (q.join t (q.split (here.split (here.join (p.alter f (here.split v).1)
      (here.split v).2)).1).2) (here.split (here.join _ (here.split v).2)).2 = _
    rw [hhere.split_join, h.join_alter, hhere.join_join]
    change _ = here.join (p.alter f (here.split (here.join (q.join t _) _)).1)
      (here.split (here.join _ _)).2
    rw [hhere.split_join, hhere.join_join]
    rfl

end Part

end LapRing
