import LapRing.Proofs.SequenceWords

/-!
# Running actions

An action is run on a world one step after the other. Each rule says what the
next step makes of the world, so that a run is followed from the front.
-/
namespace LapRing

namespace Act
variable {W α β : Type}

@[simp] theorem pure_apply (x : α) (w : W) : (pure x : Act W α) w = .ok x w := rfl

@[simp] theorem throw_apply (h : Halt) (w : W) : (throw h : Act W α) w = .error h w := rfl

@[simp] theorem get_apply (w : W) : (get : Act W W) w = .ok w w := rfl

@[simp] theorem set_apply (v w : W) : (set v : Act W PUnit) w = .ok () v := rfl

@[simp] theorem modify_apply (f : W → W) (w : W) : (modify f : Act W PUnit) w = .ok () (f w) := rfl

theorem bind_ok {x : Act W α} {f : α → Act W β} {w w' : W} {a : α} (h : x w = .ok a w') :
    (x >>= f) w = f a w' := by
  change EStateM.bind x f w = _
  simp only [EStateM.bind, h]

theorem bind_error {x : Act W α} {f : α → Act W β} {w w' : W} {e : Halt}
    (h : x w = .error e w') : (x >>= f) w = .error e w' := by
  change EStateM.bind x f w = _
  simp only [EStateM.bind, h]

theorem bind_eq {x y : Act W α} (f : α → Act W β) {w v : W} (h : x w = y v) :
    (x >>= f) w = (y >>= f) v := by
  change EStateM.bind x f w = EStateM.bind y f v
  simp only [EStateM.bind, h]

/-- An action that ends well goes through all its steps. -/
theorem of_bind_ok {x : Act W α} {f : α → Act W β} {w w' : W} {b : β}
    (h : (x >>= f) w = .ok b w') : ∃ a v, x w = .ok a v ∧ f a v = .ok b w' := by
  cases hx : x w with
  | ok a v =>
    rw [bind_ok hx] at h
    exact ⟨a, v, rfl, h⟩
  | error e v =>
    rw [bind_error hx] at h
    simp at h

@[simp] theorem get_bind (f : W → Act W β) (w : W) : ((get : Act W W) >>= f) w = f w w := rfl

@[simp] theorem set_bind (v : W) (f : PUnit → Act W β) (w : W) :
    ((set v : Act W PUnit) >>= f) w = f () v := rfl

@[simp] theorem modify_bind (g : W → W) (f : PUnit → Act W β) (w : W) :
    ((modify g : Act W PUnit) >>= f) w = f () (g w) := rfl

@[simp] theorem throw_bind (h : Halt) (f : α → Act W β) (w : W) :
    ((throw h : Act W α) >>= f) w = .error h w := rfl

/-- What came of an action, and the world it left. -/
def outcome (x : Act W α) (w : W) : Except Halt α × W :=
  match x w with
  | .ok a w => (.ok a, w)
  | .error e w => (.error e, w)

theorem outcome_ok {x : Act W α} {w w' : W} {a : α} (h : x w = .ok a w') :
    x.outcome w = (.ok a, w') := by
  simp only [outcome, h]

theorem outcome_error {x : Act W α} {w w' : W} {e : Halt} (h : x w = .error e w') :
    x.outcome w = (.error e, w') := by
  simp only [outcome, h]

theorem closing_ok {body : Act W α} {close : Act W Unit} {w w' w'' : W} {a : α}
    (hb : body w = .ok a w') (hc : close w' = .ok () w'') :
    body.closing close w = .ok a w'' := by
  simp only [closing, hb, hc]

theorem closing_error {body : Act W α} {close : Act W Unit} {w w' w'' : W} {e : Halt}
    (hb : body w = .error e w') (hc : close w' = .ok () w'') :
    body.closing close w = .error e w'' := by
  simp only [closing, hb, hc]

theorem onHalt_ok {body : Act W α} {w w' : W} {a : α} (hb : body w = .ok a w')
    (repair : Act W Unit) : body.onHalt repair w = .ok a w' := by
  simp only [onHalt, hb]

theorem onHalt_error {body : Act W α} {repair : Act W Unit} {w w' w'' : W} {e : Halt}
    (hb : body w = .error e w') (hr : repair w' = .ok () w'') :
    body.onHalt repair w = .error e w'' := by
  simp only [onHalt, hb, hr]

theorem of_closing_ok {body : Act W α} {close : Act W Unit} {w w' : W} {a : α}
    (h : body.closing close w = .ok a w') : ∃ v, body w = .ok a v ∧ close v = .ok () w' := by
  unfold closing at h
  cases hbody : body w with
  | error e v => cases hclose : close v <;> simp [hbody, hclose] at h
  | ok b v =>
    cases hclose : close v with
    | error e u => simp [hbody, hclose] at h
    | ok u v' =>
      simp only [hbody, hclose] at h
      obtain ⟨rfl, rfl⟩ := EStateM.Result.ok.inj h
      exact ⟨v, rfl, hclose⟩

theorem of_onHalt_ok {body : Act W α} {repair : Act W Unit} {w w' : W} {a : α}
    (h : body.onHalt repair w = .ok a w') : body w = .ok a w' := by
  unfold onHalt at h
  cases hbody : body w with
  | error e v => cases hrepair : repair v <;> simp [hbody, hrepair] at h
  | ok b v => simpa only [hbody] using h

theorem of_outcome_ok {x : Act W α} {w : W} {a : α} (h : (x.outcome w).1 = .ok a) :
    x w = .ok a (x.outcome w).2 := by
  unfold outcome at h ⊢
  cases hx : x w with
  | error e v => simp [hx] at h
  | ok b v => simpa [hx] using h

theorem ending_apply (x : Act W α) (w : W) : x.ending w = .ok (x.outcome w).1 (x.outcome w).2 := by
  cases h : x w <;> simp [outcome, ending, h]

theorem outcome_eq {x y : Act W α} {w w' : W} (h : x w = y w') : x.outcome w = y.outcome w' := by
  simp only [outcome, h]

theorem outcome_bind_pure (x : Act W α) (f : α → β) (w : W) :
    (x >>= fun a => pure (f a)).outcome w = ((x.outcome w).1.map f, (x.outcome w).2) := by
  cases h : x w with
  | ok a w' =>
    rw [outcome_ok h, outcome_eq (bind_ok h)]
    rfl
  | error e w' =>
    rw [outcome_error h, outcome_error (bind_error h)]
    rfl

theorem outcome_owning {L : Type} (own : L) (x : Act (L × W) α) (w : W) :
    ((owning own x).outcome w).2 = (x.outcome (own, w)).2.2 := by
  unfold outcome owning
  cases x (own, w) <;> rfl

/-- However an action ends, it leads from worlds with `pre` to worlds with `post`. -/
def Leads (pre post : W → Prop) (x : Act W α) : Prop := ∀ w, pre w → post (x.outcome w).2

section Leads
variable {pre mid post : W → Prop} {x : Act W α}

theorem leads_pure (v : α) : Leads mid mid (pure v : Act W α) := fun _ h => h

theorem leads_get : Leads mid mid (get : Act W W) := fun _ h => h

theorem leads_modify {f : W → W} (hf : ∀ w, pre w → post (f w)) :
    Leads pre post (modify f : Act W PUnit) := hf

theorem Leads.bind (hx : Leads pre mid x) {f : α → Act W β} (hf : ∀ v, Leads mid post (f v))
    (weaken : ∀ w, mid w → post w) : Leads pre post (x >>= f) := by
  intro w h
  have hmid := hx w h
  cases hrun : x w with
  | ok v w' =>
    rw [outcome_ok hrun] at hmid
    rw [outcome_eq (bind_ok hrun)]
    exact hf v w' hmid
  | error e w' =>
    rw [outcome_error hrun] at hmid
    rw [outcome_error (bind_error hrun)]
    exact weaken _ hmid

/-- Worlds with `mid` stay among themselves step by step. -/
theorem Leads.chain (hx : Leads mid mid x) {f : α → Act W β} (hf : ∀ v, Leads mid mid (f v)) :
    Leads mid mid (x >>= f) :=
  hx.bind hf fun _ h => h

theorem Leads.closing (hx : Leads pre mid x) {close : Act W Unit} (hclose : Leads mid post close) :
    Leads pre post (x.closing close) := by
  intro w h
  have hmid := hx w h
  cases hrun : x w with
  | ok v w' =>
    rw [outcome_ok hrun] at hmid
    have hpost := hclose w' hmid
    simp only [outcome, Act.closing, hrun] at hpost ⊢
    cases hend : close w' <;> simpa only [hend] using hpost
  | error e w' =>
    rw [outcome_error hrun] at hmid
    have hpost := hclose w' hmid
    simp only [outcome, Act.closing, hrun] at hpost ⊢
    cases hend : close w' <;> simpa only [hend] using hpost

end Leads

end Act

namespace Checked
variable {W : Type}

/-- Sums and differences leave the world alone, also those that are no words. -/
theorem leads_word (P : W → Prop) (value : ℤ) (fault : Fault) :
    Act.Leads P P (word value fault : Act W Int64) := by
  intro w h
  unfold word
  simp only
  split <;> exact h

theorem leads_add (P : W → Prop) (a b : Int64) : Act.Leads P P (add a b : Act W Int64) :=
  leads_word P _ _

theorem leads_sub (P : W → Prop) (a b : Int64) : Act.Leads P P (sub a b : Act W Int64) :=
  leads_word P _ _

end Checked

theorem Checked.of_word_ok {W : Type} {value : ℤ} {fault : Fault} {x : Int64} {w w' : W}
    (h : (Checked.word value fault : Act W Int64) w = .ok x w') : x.toInt = value ∧ w' = w := by
  unfold Checked.word at h
  by_cases hexact : (Int64.ofInt value).toInt = value
  · rw [if_pos hexact] at h
    obtain ⟨rfl, rfl⟩ : Int64.ofInt value = x ∧ w = w' := by simpa using h
    exact ⟨hexact, rfl⟩
  · rw [if_neg hexact] at h
    simp at h

theorem Checked.of_add_ok {W : Type} {a b sum : Int64} {w w' : W}
    (h : (Checked.add a b : Act W Int64) w = .ok sum w') : sum.toInt = a.toInt + b.toInt :=
  (of_word_ok h).1

theorem Checked.of_sub_ok {W : Type} {a b difference : Int64} {w w' : W}
    (h : (Checked.sub a b : Act W Int64) w = .ok difference w') :
    difference.toInt = a.toInt - b.toInt :=
  (of_word_ok h).1

namespace Part
variable {W S α β : Type} {p : Part W S}

theorem lift_ok {act : Act S α} {w : W} {a : α} {s : S} (h : act (p.split w).1 = .ok a s) :
    p.lift act w = .ok a (p.join s (p.split w).2) := by
  simp only [lift, h]

theorem lift_error {act : Act S α} {w : W} {e : Halt} {s : S}
    (h : act (p.split w).1 = .error e s) :
    p.lift act w = .error e (p.join s (p.split w).2) := by
  simp only [lift, h]

theorem lend_ok {act : Act (S × W) α} {w w' : W} {a : α} {s : S}
    (h : act ((p.split w).1, w) = .ok a (s, w')) :
    p.lend act w = .ok a (p.join s (p.split w').2) := by
  simp only [lend, h]

theorem lend_error {act : Act (S × W) α} {w w' : W} {e : Halt} {s : S}
    (h : act ((p.split w).1, w) = .error e (s, w')) :
    p.lend act w = .error e (p.join s (p.split w').2) := by
  simp only [lend, h]

theorem outcome_lend (act : Act (S × W) α) (w : W) :
    (p.lend act).outcome w = ((act.outcome ((p.split w).1, w)).1,
      p.join (act.outcome ((p.split w).1, w)).2.1
        (p.split (act.outcome ((p.split w).1, w)).2.2).2) := by
  cases h : act ((p.split w).1, w) with
  | ok a v => rw [Act.outcome_ok h, Act.outcome_ok (lend_ok h)]
  | error e v => rw [Act.outcome_error h, Act.outcome_error (lend_error h)]

theorem read_bind (hp : p.Lawful) (f : S → Act W β) (w : W) :
    (p.read >>= f) w = f (p.split w).1 w :=
  Act.bind_ok (read_apply hp w)

theorem write_bind (s : S) (f : Unit → Act W β) (w : W) :
    (p.write s >>= f) w = f () (p.join s (p.split w).2) :=
  Act.bind_ok (write_apply p s w)

theorem update_bind (g : S → S) (f : Unit → Act W β) (w : W) :
    (p.update g >>= f) w = f () (p.join (g (p.split w).1) (p.split w).2) :=
  Act.bind_ok (update_apply p g w)

end Part

/-- What stands beside the world is left alone by the world's own actions. -/
theorem Act.leads_outer {V W α : Type} (act : Act W α) (P : V → Prop) :
    Act.Leads (fun w : V × W => P w.1) (fun w => P w.1) (Act.outer act) := by
  rintro ⟨v, w⟩ h
  cases hact : act w with
  | ok x w' =>
    have hrun : Act.outer act (v, w) = .ok x (v, w') := Part.lift_ok hact
    rwa [Act.outcome_ok hrun]
  | error e w' =>
    have hrun : Act.outer act (v, w) = .error e (v, w') := Part.lift_error hact
    rwa [Act.outcome_error hrun]

theorem Act.Leads.outer {L W α : Type} {pre post : W → Prop} {act : Act W α}
    (h : Leads pre post act) :
    Leads (fun v : L × W => pre v.2) (fun v => post v.2) (Act.outer act) := by
  rintro ⟨l, w⟩ hw
  have hpost := h w hw
  cases hact : act w with
  | ok x w' =>
    have hrun : Act.outer act (l, w) = .ok x (l, w') := Part.lift_ok hact
    rw [outcome_ok hact] at hpost
    rwa [outcome_ok hrun]
  | error e w' =>
    have hrun : Act.outer act (l, w) = .error e (l, w') := Part.lift_error hact
    rw [outcome_error hact] at hpost
    rwa [outcome_error hrun]

end LapRing
