import TypingAid.Text.Quoted

/-!
# Conversion rules

A rule says what the text around the caret turns into: what stands before and after the caret now,
and what will stand there. Users write each side as a text in which a bar marks the caret, so `··|`
to `|` with a backtick on either side reads: two middle dots before the caret become a pair of
backticks around it.

`Pair.parse` reads one side. It and the other readers of rules fail with a `RuleError`.
-/

namespace TypingAid

/-- Why a rule cannot be read. -/
inductive RuleError where
  /-- A side of a rule does not have exactly one bar. -/
  | cursorCount (text : Text)
  /-- A pair of symbols does not have exactly two characters. -/
  | pairLength (text : Text)
deriving DecidableEq, Repr

/-- The wording of an error. -/
def RuleError.message : RuleError → String
  | cursorCount t => "Rule string " ++ Text.quote t ++ " must contain exactly one '|'."
  | pairLength t => "Symbol pair " ++ Text.quote t ++ " must be exactly two characters."

/-- Two texts with the caret between them. -/
structure Pair where
  left : Text
  right : Text
deriving DecidableEq, Repr

namespace Pair

/-- The two texts without the caret. -/
def text (p : Pair) : Text := p.left ++ p.right

/-- Reads a text in which a bar marks the caret. -/
def parse (t : Text) : Except RuleError Pair :=
  match Text.splitAt '|' t with
  | [left, right] => .ok ⟨left, right⟩
  | _ => .error (.cursorCount t)

end Pair

/-- What stands around the caret, and what will. -/
structure Rule where
  before : Pair
  after : Pair
deriving DecidableEq, Repr

namespace Rule

/-- The character whose input can make the rule apply: the last one before the caret. -/
def trigger? (r : Rule) : Option Char := r.before.left.getLast?

/-- Reads the two sides of a rule. -/
def parse (sides : Text × Text) : Except RuleError Rule := do
  let before ← Pair.parse sides.1
  let after ← Pair.parse sides.2
  return ⟨before, after⟩

/-- Reads a list of rules, up to the first that cannot be read. -/
def parseAll (sides : List (Text × Text)) : Except RuleError (List Rule) := sides.mapM parse

end Rule

end TypingAid
