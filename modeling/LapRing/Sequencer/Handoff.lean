import LapRing.Sequencer.Basic

/-!
# Handing gating off

Competing consumers finish their ranges in any order, but gating passes over the
ranges in the order in which they were taken. A range whose turn has not come is
left pending until the one before it is done.
-/
namespace LapRing.Sequencer
variable {cap : Capacity}

/-- A move of gating from `observed` to `target`. -/
structure Move where
  target : Int64
  observed : Int64

/-- Attempts every move once, in order, and returns those still pending. -/
def attempt : List Move → Sequencer cap → List Move × Sequencer cap
  | [], s => ([], s)
  | m :: rest, s =>
    let (moved, s) := s.advanceGating m.target m.observed
    let (pending, s) := attempt rest s
    (if moved then pending else m :: pending, s)

/-- Attempts the pending moves again and again, at most `rounds` times. -/
def attemptRounds : Nat → List Move → Sequencer cap → List Move × Sequencer cap
  | 0, moves, s => (moves, s)
  | rounds + 1, moves, s =>
    let (pending, s) := attempt moves s
    attemptRounds rounds pending s

/-- Attempts moves until none of them can be made. Every round but the last
makes one, so there are no more rounds than moves. -/
def settle (moves : List Move) (s : Sequencer cap) : List Move × Sequencer cap :=
  attemptRounds moves.length moves s

end LapRing.Sequencer
