import LapRing.Act

/-!
# Checked word arithmetic

Sequences are signed 64-bit words. Sums and differences of them are exact or
they are faults; the wrapping operations of the words are used only where a
shared counter is meant to wrap.
-/
namespace LapRing.Checked
variable {W : Type}

/-- The word with the given value, or `fault` if no word has it. -/
def word (value : Int) (fault : Fault) : Act W Int64 :=
  let w := Int64.ofInt value
  if w.toInt = value then pure w else throw (.fault fault)

def add (a b : Int64) : Act W Int64 := word (a.toInt + b.toInt) .addOverflow

def sub (a b : Int64) : Act W Int64 := word (a.toInt - b.toInt) .subOverflow

theorem word_toInt (w : Int64) (fault : Fault) :
    (word w.toInt fault : Act W Int64) = pure w := by
  simp [word]

theorem add_eq {a b : Int64} (h : (a + b).toInt = a.toInt + b.toInt) :
    (add a b : Act W Int64) = pure (a + b) := by
  rw [add, ← h, word_toInt]

theorem sub_eq {a b : Int64} (h : (a - b).toInt = a.toInt - b.toInt) :
    (sub a b : Act W Int64) = pure (a - b) := by
  rw [sub, ← h, word_toInt]

end LapRing.Checked
