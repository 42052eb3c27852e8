import LapRing.Part

/-!
# Tables of handles

A script numbers the handles of one side in the order in which it obtains them.
A step that uses a handle keeps it from the steps nested in it.
-/
namespace LapRing.Script

inductive HandleState
  | idle | inUse | dropped
deriving DecidableEq

abbrev Handles : Type := Array HandleState

namespace Handles
variable {W α : Type}

def state (hs : Handles) (i : Nat) : HandleState := hs.getD i .dropped

def put (hs : Handles) (i : Nat) (s : HandleState) : Handles := hs.setIfInBounds i s

/-- Whether any handle is still held. -/
def anyAlive (hs : Handles) : Bool := hs.any (· ≠ .dropped)

/-- Adds a handle and returns its number. -/
def add (here : Part W Handles) : Act W Nat := do
  let hs ← here.read
  here.write (hs.push .idle)
  return hs.size

/-- Uses a handle for an action, or answers `missing` if it cannot be used. -/
def withHandle (here : Part W Handles) (i : Nat) (missing : α) (act : Act W α) : Act W α := do
  if (← here.read).state i = .idle then
    here.update (·.put i .inUse)
    act.closing (here.update (·.put i .idle))
  else return missing

/-- Drops a handle for good, and says whether there was one to drop. -/
def drop (here : Part W Handles) (i : Nat) : Act W Bool := do
  if (← here.read).state i = .idle then
    here.update (·.put i .dropped)
    return true
  else return false

end Handles

end LapRing.Script
