import TypingAid.Edit.Basic

/-!
# The smallest span between two texts

`Text.diff?` finds the one span that turns a text into another and takes away and puts in as little
as possible: what stands before it is the longest common beginning of the two texts, what stands
after it the longest common end of what is left.
-/

namespace TypingAid.Text

/-- Length of the longest common beginning. -/
def commonLength : Text → Text → Nat
  | a :: s, b :: t => if a = b then commonLength s t + 1 else 0
  | _, _ => 0

/-- The smallest span that turns `before` into `after`, unless they are equal. -/
def diff? (before after : Text) : Option Span :=
  if before = after then none
  else
    let start := commonLength before after
    let s := before.drop start
    let t := after.drop start
    let tail := commonLength s.reverse t.reverse
    some ⟨start, before.length - tail, t.take (t.length - tail)⟩

end TypingAid.Text
