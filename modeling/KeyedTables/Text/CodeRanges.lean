/-!
# Sets of code points

A set of code points as a list of ranges, each given by its first and its last member. The ranges
rise, and no two of them touch.
-/
namespace KeyedTables.Text

/-- Ranges of code points, each by its first and its last member. -/
abbrev CodeRanges := List (Nat × Nat)

namespace CodeRanges

/-- Whether a code point lies in one of the ranges. -/
def covers (ranges : CodeRanges) (n : Nat) : Bool := ranges.any fun r => r.1 ≤ n && n ≤ r.2

theorem covers_iff {ranges : CodeRanges} {n : Nat} :
    ranges.covers n = true ↔ ∃ r ∈ ranges, r.1 ≤ n ∧ n ≤ r.2 := by
  simp [covers]

theorem covers_append (xs ys : CodeRanges) (n : Nat) :
    covers (xs ++ ys) n = (covers xs n || covers ys n) := List.any_append

end CodeRanges

end KeyedTables.Text
