/-!
# Ranges of code points

A property of characters, as a standard gives it: closed ranges of code points,
ascending and apart. A search may stop at the first range above the character.
-/
namespace LapRing.Text

structure CodeRange where
  low : Nat
  high : Nat

namespace CodeRange

/-- The ranges of a table of pairs. -/
def ofPairs (pairs : List (Nat × Nat)) : List CodeRange :=
  pairs.map fun (low, high) => ⟨low, high⟩

/-- Whether no range is empty and each ends before the next begins. -/
def ascending : List CodeRange → Bool
  | [] => true
  | [r] => r.low ≤ r.high
  | r :: s :: rest => r.low ≤ r.high && r.high < s.low && ascending (s :: rest)

/-- Whether the code point of a character is in one of the ranges, which ascend. -/
def cover : List CodeRange → Char → Bool
  | [], _ => false
  | r :: rest, c => if c.toNat < r.low then false else c.toNat ≤ r.high || cover rest c

theorem ascending_tail {r : CodeRange} {rest : List CodeRange}
    (h : ascending (r :: rest) = true) : ascending rest = true := by
  cases rest with
  | nil => rfl
  | cons s rest =>
    simp only [ascending, Bool.and_eq_true] at h
    exact h.2

theorem low_le_of_mem {r s : CodeRange} {rest : List CodeRange}
    (h : ascending (r :: rest) = true) (hs : s ∈ rest) : r.low ≤ s.low := by
  induction rest generalizing r with
  | nil => simp at hs
  | cons t rest ih =>
    have later := ascending_tail h
    simp only [ascending, Bool.and_eq_true, decide_eq_true_eq] at h
    rcases List.mem_cons.mp hs with rfl | hs
    · omega
    · have := ih later hs
      omega

theorem cover_eq_true {ranges : List CodeRange} (h : ascending ranges = true) (c : Char) :
    cover ranges c = true ↔ ∃ r ∈ ranges, r.low ≤ c.toNat ∧ c.toNat ≤ r.high := by
  induction ranges with
  | nil => simp [cover]
  | cons r rest ih =>
    simp only [cover, List.mem_cons, exists_eq_or_imp]
    split
    case isTrue below =>
      constructor
      · intro absurd
        contradiction
      · rintro (⟨hlow, _⟩ | ⟨s, hs, hlow, _⟩)
        · omega
        · have := low_le_of_mem h hs
          omega
    case isFalse above =>
      rw [Bool.or_eq_true, decide_eq_true_eq, ih (ascending_tail h)]
      constructor
      · rintro (hhigh | later)
        · exact .inl ⟨by omega, hhigh⟩
        · exact .inr later
      · rintro (⟨_, hhigh⟩ | later)
        · exact .inl hhigh
        · exact .inr later

end CodeRange

end LapRing.Text
