import LapRing.Slots
import LapRing.Checked
import LapRing.Text.Record

/-!
# Lap flags

Producers that share a ring publish in any order, so every slot carries the lap
of the sequence last published in it. A sequence is published when the flag of
its slot shows its lap. A fresh flag shows lap `-1`, the lap before the first.

The frontier of a window is the last sequence before its first gap.
-/
namespace LapRing

structure LapFlags (cap : Capacity) where
  laps : Slots cap Int32

namespace LapFlags
variable {cap : Capacity} {W : Type}

def new (cap : Capacity) : LapFlags cap := ⟨.fill cap (-1)⟩

/-- Marks a sequence published. -/
def mark (flags : LapFlags cap) (s : Int64) : LapFlags cap :=
  ⟨flags.laps.write s (cap.lap s)⟩

def isAvailable (flags : LapFlags cap) (s : Int64) : Bool :=
  flags.laps.read s = cap.lap s

theorem isAvailable_new (s : Int64) : (new cap).isAvailable s ↔ cap.lap s = -1 := by
  simp [new, isAvailable, eq_comm]

@[simp] theorem isAvailable_mark (flags : LapFlags cap) (s t : Int64) :
    (flags.mark s).isAvailable t =
      if cap.slot s = cap.slot t then decide (cap.lap s = cap.lap t) else flags.isAvailable t := by
  simp only [mark, isAvailable, Slots.read_write]
  split <;> rfl

/-- Marks `count` sequences from `s` on, in order. -/
def markFrom (flags : LapFlags cap) (s : Int64) : Nat → LapFlags cap
  | 0 => flags
  | count + 1 => (flags.mark s).markFrom (s + 1) count

/-- Marks the sequences from `low` to `high`, none if `high` is below `low`. -/
def markRange (flags : LapFlags cap) (low high : Int64) : LapFlags cap :=
  flags.markFrom low (high.toInt - low.toInt + 1).toNat

/-- How many of the `count` sequences from `s` on are published without a gap. -/
def streak (flags : LapFlags cap) (s : Int64) : Nat → Nat
  | 0 => 0
  | count + 1 => if flags.isAvailable s then flags.streak (s + 1) count + 1 else 0

theorem streak_le (flags : LapFlags cap) (s : Int64) (count : Nat) :
    flags.streak s count ≤ count := by
  induction count generalizing s with
  | zero => exact Nat.le_refl 0
  | succ count ih =>
    simp only [streak]
    split
    · exact Nat.succ_le_succ (ih (s + 1))
    · exact Nat.zero_le _

/-- The last sequence before the first gap in the window from `low` to `high`,
which is `low - 1` if the window begins with a gap or is empty. The gap itself
must be a word, and so must the sequence before it. -/
def frontier (flags : LapFlags cap) (low high : Int64) : Act W Int64 := do
  let run := flags.streak low (high.toInt - low.toInt + 1).toNat
  let gap ← Checked.word (low.toInt + run) .addOverflow
  Checked.sub gap 1

def inspect (_ : LapFlags cap) : String :=
  Text.openRecord "AvailabilityBuffer" [("capacity", toString cap.slots)]

end LapFlags

end LapRing
