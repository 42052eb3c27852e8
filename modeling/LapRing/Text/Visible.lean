import LapRing.Text.Blank
import LapRing.Text.Extender
import LapRing.Text.Reserved

/-!
# Characters that show by themselves

A character is shown as it is in quoted text if it leaves something to see, is
in use, and does not merge with the character before it.
-/
namespace LapRing.Text

/-- Whether a character is shown as it is in quoted text. -/
def isVisible (c : Char) : Bool := !isBlank c && !isExtender c && !isReserved c

theorem isVisible_of_ascii (c : Char) (low : 32 ≤ c.toNat) (high : c.toNat < 127) :
    isVisible c = true := by
  have all : ∀ code : Fin 127, 32 ≤ code.val → isVisible (Char.ofNat code.val) = true := by
    decide +kernel
  simpa using all ⟨c.toNat, high⟩ low

end LapRing.Text
