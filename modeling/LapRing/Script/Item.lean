import LapRing.Events
import LapRing.Script.Handling

/-!
# Events of scripts

The events that scripts publish. Each knows the number of its slot and how often
it was written, and carries a value and a text.
-/
namespace LapRing.Script

structure Item where
  id : Nat
  value : Int64
  text : String := ""
  writes : Nat := 0

/-- A factory of items with the given value, which gives up at the call of number
`raiseAt`. -/
def Item.factory {W : Type} (value : Int64) (raiseAt : Option Nat) (k : Nat) : Act W Item := do
  if raiseAt = some k then throw (.raised s!"factory panic at {k}")
  return { id := k, value }

/-- One action of a translator. -/
inductive Edit (Step : Type)
  | set (value : Int64)
  | add (value : Int64)
  | setArg
  | addArg
  | setSequence
  | setText (text : String)
  | append (text : String)
  | run (steps : List Step)
  | raise
  | raiseAt (sequence : Int64)
  | raiseOn (arg : Int64)

/-- What a translator does to the item of a sequence, given its argument. -/
abbrev Translator (W : Type) : Type := Int64 → Int64 → Act (Item × W) Unit

namespace Translator
variable {W : Type}

def change (f : Item → Item) : Act (Item × W) Unit := Part.first.update f

/-- Counts the write, then does the actions in order. -/
def ofActions (actions : List (Translator W)) : Translator W := fun s arg => do
  change fun item => { item with writes := item.writes + 1 }
  for action in actions do action s arg

/-- An action other than nested steps, which are run by `nested`. -/
def ofEdit {Step : Type} (nested : Act W Unit) : Edit Step → Translator W
  | .set v => fun _ _ => change ({ · with value := v })
  | .add v => fun _ _ => change fun item => { item with value := item.value + v }
  | .setArg => fun _ arg => change ({ · with value := arg })
  | .addArg => fun _ arg => change fun item => { item with value := item.value + arg }
  | .setSequence => fun s _ => change ({ · with value := s })
  | .setText t => fun _ _ => change ({ · with text := t })
  | .append t => fun _ _ => change fun item => { item with text := item.text ++ t }
  | .run _ => fun _ _ => Act.outer nested
  | .raise => fun s _ => throw (.raised s!"translator panic at {s}")
  | .raiseAt key => fun s _ => do
    if s = key then throw (.raised s!"translator panic at {s}")
  | .raiseOn x => fun _ arg => do
    if arg = x then throw (.raised s!"translator panic on {x}")

end Translator

end LapRing.Script
