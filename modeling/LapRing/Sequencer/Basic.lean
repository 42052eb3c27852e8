import LapRing.Cell
import LapRing.LapFlags
import LapRing.Settings
import LapRing.Tally

/-!
# Sequencers

A sequencer hands out sequences to producers and tells consumers how far they
may read. It keeps two positions: the cursor, up to which sequences are claimed
or published, and gating, up to which consumers have released them.

A single producer counts its claims privately and moves the cursor when it
publishes. Producers that share a ring move the cursor when they claim and
record publication in lap flags. Both kinds remember a value that gating once
had, so that most claims need not look at gating.
-/
namespace LapRing

/-- What producers keep to make their claims. -/
inductive Claims (cap : Capacity)
  | single (claimed cached : Int64)
  | shared (cached : Int64) (flags : LapFlags cap)

structure Sequencer (cap : Capacity) where
  cursor : Int64 := -1
  gating : Int64 := -1
  claims : Claims cap
  tally : Option Tally := none

namespace Sequencer
variable {cap : Capacity}
open Text

def new (cap : Capacity) (producer : Multiplicity) (metrics : Bool) : Sequencer cap where
  claims :=
    match producer with
    | .single => .single (-1) (-1)
    | .multi => .shared (-1) (.new cap)
  tally := if metrics then some {} else none

def producer (s : Sequencer cap) : Multiplicity :=
  match s.claims with
  | .single .. => .single
  | .shared .. => .multi

/-- The last sequence claimed. -/
def claimed (s : Sequencer cap) : Int64 :=
  match s.claims with
  | .single claimed _ => claimed
  | .shared .. => s.cursor

/-- The value of gating that the last claim to look at it saw. -/
def cached (s : Sequencer cap) : Int64 :=
  match s.claims with
  | .single _ cached => cached
  | .shared cached _ => cached

def withClaimed (s : Sequencer cap) (high : Int64) : Sequencer cap :=
  match s with
  | ⟨cursor, gating, .single _ cached, tally⟩ =>
    ⟨cursor, gating, .single high cached, tally⟩
  | ⟨_, gating, .shared cached flags, tally⟩ =>
    ⟨high, gating, .shared cached flags, tally⟩

def withCached (s : Sequencer cap) (seen : Int64) : Sequencer cap :=
  match s with
  | ⟨cursor, gating, .single claimed _, tally⟩ =>
    ⟨cursor, gating, .single claimed seen, tally⟩
  | ⟨cursor, gating, .shared _ flags, tally⟩ =>
    ⟨cursor, gating, .shared seen flags, tally⟩

def withGating (s : Sequencer cap) (gating : Int64) : Sequencer cap := { s with gating }

/-- Counts something if counting is on. -/
def count (s : Sequencer cap) (f : Tally → Tally) : Sequencer cap :=
  { s with tally := s.tally.map f }

/-- The counts so far, all zero if counting is off. -/
def metrics (s : Sequencer cap) : Tally := s.tally.getD {}

/-- Moves gating on from `observed`, and says whether that is done. It has to
wait while an earlier range is not released; a move backwards is no move. -/
def advanceGating (target observed : Int64) (s : Sequencer cap) : Bool × Sequencer cap :=
  if target ≤ observed then (true, s)
  else
    let (moved, gating) := Cell.compareAndSet observed target s.gating
    (moved, s.withGating gating)

def inspect (s : Sequencer cap) : String :=
  record "Sequencer"
    [("producer", s.producer.name), ("capacity", toString cap.slots),
      ("cursor", Cell.inspectSequence s.cursor), ("gating", Cell.inspectSequence s.gating)]

end Sequencer

end LapRing
