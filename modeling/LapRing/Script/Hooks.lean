import LapRing.Act

/-!
# Hooks

Steps of a script that run inside a callback, by the number or the sequence at
which the callback runs them. A hook answers with the answers of its steps.
-/
namespace LapRing.Script

abbrev Hooks (Key W α : Type) : Type := List (Key × Act W (List α))

/-- Runs what is hooked to a key, if anything. -/
def Hooks.run {Key W α : Type} [DecidableEq Key] (hooks : Hooks Key W α) (key : Key) :
    Act W (List α) :=
  match hooks.lookup key with
  | none => return []
  | some act => act

end LapRing.Script
