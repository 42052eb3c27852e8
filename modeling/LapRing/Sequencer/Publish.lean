import LapRing.Sequencer.Basic

/-!
# Publication

A single producer publishes in order, so the cursor is the last sequence that
consumers may read. Shared producers mark lap flags, and consumers may read up
to the first gap.
-/
namespace LapRing.Sequencer
variable {cap : Capacity} {W : Type}

/-- Moves a single producer's cursor, which never goes back. -/
def advanceCursor (high : Int64) : Act (Sequencer cap) Unit := do
  let s ← get
  if high < s.cursor then throw (.fault (.regressed "cursor" s.cursor high))
  set { s with cursor := high }

/-- Changes the lap flags of shared producers. -/
def mapFlags (f : LapFlags cap → LapFlags cap) (s : Sequencer cap) : Sequencer cap :=
  match s with
  | ⟨cursor, gating, .shared cached flags, tally⟩ =>
    ⟨cursor, gating, .shared cached (f flags), tally⟩
  | s => s

/-- Publishes one claimed sequence. -/
def publish (sequence : Int64) : Act (Sequencer cap) Unit := do
  match (← get).producer with
  | .single => advanceCursor sequence
  | .multi => modify (mapFlags (·.mark sequence))
  modify (·.count (.published 1))

/-- Publishes the claimed sequences from `low` to `high` at once. -/
def publishRange (low high : Int64) : Act (Sequencer cap) Unit := do
  match (← get).producer with
  | .single => advanceCursor high
  | .multi => modify (mapFlags (·.markRange low high))
  if (← get).tally.isSome then
    let size ← Checked.add (← Checked.sub high low) 1
    modify (·.count (.published size.toUInt64))

/-- The last sequence from `first` to `available` that may be read, given that
the cursor has reached `available`; `first - 1` if there is none. -/
def highestPublished (s : Sequencer cap) (first available : Int64) : Act W Int64 :=
  match s.claims with
  | .single .. => return available
  | .shared _ flags => flags.frontier first available

def isPublished (s : Sequencer cap) (sequence : Int64) : Bool :=
  match s.claims with
  | .single .. => sequence ≤ s.cursor
  | .shared _ flags => flags.isAvailable sequence

end LapRing.Sequencer
