import LapRing.Act

/-!
# Parts of a world

A ring seldom stands alone: callbacks run in a world that holds the ring and
whatever else they touch. A part says how one component is taken out of a world
and put back, so that an action on the component becomes one on the world.
Taking a component out leaves the remainder without it, so a component is never
copied to be changed.
-/
namespace LapRing

/-- A component `S` of `W`, with the rest of the world beside it. -/
structure Part (W S : Type) where
  Rest : Type
  split : W → S × Rest
  join : S → Rest → W

namespace Part
variable {V W S L α : Type}

/-- A part neither invents nor loses anything: what was split joins to the same
world, a joined component is the one that is found, and the last one joined wins. -/
structure Lawful (p : Part W S) : Prop where
  join_split : ∀ w, p.join (p.split w).1 (p.split w).2 = w
  split_join : ∀ s rest, (p.split (p.join s rest)).1 = s
  join_join : ∀ s t rest, p.join t (p.split (p.join s rest)).2 = p.join t rest

def whole : Part W W := ⟨Unit, fun w => (w, ()), fun w _ => w⟩

def first : Part (S × W) S := ⟨W, id, Prod.mk⟩

def second : Part (L × W) W := ⟨L, Prod.swap, fun w l => (l, w)⟩

/-- The component `q` of the component `p`. -/
def within (p : Part V W) (q : Part W S) : Part V S where
  Rest := q.Rest × p.Rest
  split v :=
    let (w, outer) := p.split v
    let (s, inner) := q.split w
    (s, (inner, outer))
  join s rest := p.join (q.join s rest.1) rest.2

/-- The same component in a world that carries something more. -/
def beside (p : Part W S) : Part (L × W) S := second.within p

theorem lawful_whole : (whole : Part W W).Lawful :=
  ⟨fun _ => rfl, fun _ _ => rfl, fun _ _ _ => rfl⟩

theorem lawful_first : (first : Part (S × W) S).Lawful :=
  ⟨fun _ => rfl, fun _ _ => rfl, fun _ _ _ => rfl⟩

theorem lawful_second : (second : Part (L × W) W).Lawful :=
  ⟨fun _ => rfl, fun _ _ => rfl, fun _ _ _ => rfl⟩

theorem Lawful.within {p : Part V W} {q : Part W S} (hp : p.Lawful) (hq : q.Lawful) :
    (p.within q).Lawful where
  join_split v := by
    simp only [Part.within, hq.join_split, hp.join_split]
  split_join s rest := by
    simp only [Part.within, hp.split_join, hq.split_join]
  join_join s t rest := by
    simp only [Part.within, hp.split_join, hp.join_join, hq.join_join]

/-- An action on a component, seen from the world. -/
def lift (p : Part W S) (act : Act S α) : Act W α := fun w =>
  let (s, rest) := p.split w
  match act s with
  | .ok x s => .ok x (p.join s rest)
  | .error h s => .error h (p.join s rest)

def read (p : Part W S) : Act W S := p.lift get

def write (p : Part W S) (s : S) : Act W Unit := p.lift (set s)

def update (p : Part W S) (f : S → S) : Act W Unit := p.lift (modify f)

/-- Lends the component to an action that may act on the world as well. What it
makes of the component is put back, however the action ends. -/
def lend (p : Part W S) (act : Act (S × W) α) : Act W α := fun w =>
  let s := (p.split w).1
  match act (s, w) with
  | .ok x (s, w) => .ok x (p.join s (p.split w).2)
  | .error h (s, w) => .error h (p.join s (p.split w).2)

theorem read_apply {p : Part W S} (hp : p.Lawful) (w : W) :
    p.read w = .ok (p.split w).1 w := by
  change EStateM.Result.ok _ _ = _
  rw [hp.join_split]

theorem write_apply (p : Part W S) (s : S) (w : W) :
    p.write s w = .ok () (p.join s (p.split w).2) := rfl

theorem update_apply (p : Part W S) (f : S → S) (w : W) :
    p.update f w = .ok () (p.join (f (p.split w).1) (p.split w).2) := rfl

end Part

namespace Act
variable {W L α : Type}

/-- Runs an action with something of its own beside the world, and returns what
that has become even if the action was cut short. -/
def beside (own : L) (act : Act (L × W) α) : Act W (Except Halt α × L) := fun w =>
  match act (own, w) with
  | .ok x (l, w) => .ok (.ok x, l) w
  | .error h (l, w) => .ok (.error h, l) w

/-- Runs an action with something of its own, which ends with it. -/
def owning (own : L) (act : Act (L × W) α) : Act W α := fun w =>
  match act (own, w) with
  | .ok x (_, w) => .ok x w
  | .error h (_, w) => .error h w

/-- An action of a world in the same world with something beside it. -/
def outer (act : Act W α) : Act (L × W) α := Part.second.lift act

end Act

end LapRing
