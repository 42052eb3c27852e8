import LapRing.Part

/-!
# Two parties

A call that may have to wait is made beside another party. The other party acts
while the call waits, or after the call if it never had to. A call that was made
goes on whatever becomes of the other party, whose failure is then the outcome.
-/
namespace LapRing.Script
variable {W α β : Type}

/-- How the other party ended, once it has acted. -/
abbrev Turn (β : Type) : Type := Option (Except Halt β)

/-- What two parties came to. -/
structure TwoPartyResult (α β : Type) where
  result : α
  other : β
  /-- Whether the call was over before the other party acted. -/
  early : Bool

/-- Makes a call that is given what to do while it waits, beside another party.
The turn must not be taken yet. -/
def callBeside (turn : Part W (Turn β)) (call : Act W Unit → Act W α) (other : Act W β) :
    Act W (TwoPartyResult α β) := do
  let ending ← Act.ending <| call do turn.write (some (← other.ending))
  let during ← turn.read
  let others ← match during with
    | some ending => pure ending
    | none => other.ending
  match others, ending with
  | .ok other, .ok result => return ⟨result, other, during.isNone⟩
  | .error why, _ | .ok _, .error why => throw why

end LapRing.Script
