import TypingAid.Json.Reader
import TypingAid.Unicode.Digit

/-!
# Whole numbers in settings

A setting that is a whole number may be written as any number, as a truth value or as a string.
`Value.whole?` says what is meant, or why nothing is. A string may hold the decimal digits of any
script, a sign in front, single underscores between digits, and blanks around the number.
-/

namespace TypingAid

/-- Why a value does not mean a whole number. -/
inductive NotWhole where
  /-- The value is an infinite number. -/
  | infinite
  /-- The value is a string that writes no whole number, or is no number at all. -/
  | unreadable
  /-- The value is neither a number nor a truth value nor a string. -/
  | unsuitable
deriving DecidableEq, Repr

namespace Text

/-- A blank around a number. The separators U+001C to U+001F are none. -/
def isNumberBlank (c : Char) : Bool := isBlank c && !(28 ≤ c.toNat && c.toNat ≤ 31)

/-- The values of decimal digits, where one underscore may stand between two digits. -/
def digitValues? : Text → Option (List Nat)
  | [] => some []
  | ['_'] => none
  | '_' :: '_' :: _ => none
  | '_' :: t => digitValues? t
  | c :: t => do
    let n ← Unicode.decimalValue? c
    return n :: (← digitValues? t)

/-- The number that digits write. -/
def natural? (t : Text) : Option Nat :=
  if t.head? = some '_' then none
  else match digitValues? t with
    | none => none
    | some [] => none
    | some digits =>
      if Json.digitLimit < digits.length then none else some (digits.foldl (10 * · + ·) 0)

/-- The whole number that a text writes, with blanks around it and a sign in front if there are any.
-/
def whole? (t : Text) : Option Int :=
  match trim isNumberBlank t with
  | '-' :: t => (natural? t).map fun n => -(n : Int)
  | '+' :: t => (natural? t).map Int.ofNat
  | t => (natural? t).map Int.ofNat

end Text

/-- The whole number that a value means. A fraction is dropped. -/
def Value.whole? : Value → Except NotWhole Int
  | .bool b => .ok (if b then 1 else 0)
  | .int n => .ok n
  | .float (.infinite _) => .error .infinite
  | .float x => (x.truncate?.map .ok).getD (.error .unreadable)
  | .str s => ((s.text?.bind Text.whole?).map .ok).getD (.error .unreadable)
  | _ => .error .unsuitable

end TypingAid
