/-!
# Sets of code points

A Unicode property is a table of ranges of code points in ascending order. `inRanges` looks a code
point up and stops at the first range that lies beyond it.
-/

namespace TypingAid.Unicode

/-- `n` lies in one of the ranges, which are ascending and given by their first and last element. -/
def inRanges (n : Nat) : List (Nat × Nat) → Bool
  | [] => false
  | (first, last) :: rest => if n < first then false else n ≤ last || inRanges n rest

end TypingAid.Unicode
