import LapRing.Address

/-!
# Slots

One cell per slot of a ring, addressed by sequence. Sequences that differ by a
multiple of the capacity share a cell.
-/
namespace LapRing

structure Slots (cap : Capacity) (α : Type) where
  cells : Vector α cap.slots

namespace Slots
variable {cap : Capacity} {α : Type}

def fill (cap : Capacity) (x : α) : Slots cap α := ⟨Vector.replicate cap.slots x⟩

/-- The cells in order of their index. -/
def toList (slots : Slots cap α) : List α := slots.cells.toList

def read (slots : Slots cap α) (s : Int64) : α := slots.cells[(cap.slot s).val]

def write (slots : Slots cap α) (s : Int64) (x : α) : Slots cap α :=
  ⟨slots.cells.set (cap.slot s).val x⟩

/-- Puts a value into the cell of a sequence, and returns the one it takes the
place of. -/
def exchange (s : Int64) (x : α) (slots : Slots cap α) : α × Slots cap α :=
  (slots.read s, slots.write s x)

@[simp] theorem read_fill (x : α) (s : Int64) : (fill cap x).read s = x := by
  simp [fill, read]

@[simp] theorem read_write (slots : Slots cap α) (s t : Int64) (x : α) :
    (slots.write s x).read t = if cap.slot s = cap.slot t then x else slots.read t := by
  simp only [read, write, Vector.getElem_set]
  congr 1
  exact propext Fin.ext_iff.symm

@[simp] theorem write_read (slots : Slots cap α) (s : Int64) :
    slots.write s (slots.read s) = slots := by
  simp [read, write]

@[simp] theorem write_write (slots : Slots cap α) (s : Int64) (x y : α) :
    (slots.write s x).write s y = slots.write s y := by
  simp [write]

end Slots

end LapRing
