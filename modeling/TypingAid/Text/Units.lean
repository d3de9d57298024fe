import TypingAid.Text.Basic

/-!
# UTF-16 positions

A text widget counts UTF-16 code units: a code point above U+FFFF takes two of them, every other one
takes one. `Text.toUnits` turns an offset in code points into a position in units and
`Text.ofUnits` goes back; a position inside a surrogate pair stands for the place just after the
pair.
-/

namespace TypingAid

/-- Number of UTF-16 code units of a code point. -/
def unitWidth (c : Char) : Nat := if 0xFFFF < c.toNat then 2 else 1

namespace Text

/-- Length in UTF-16 code units. -/
def units : Text → Nat
  | [] => 0
  | c :: t => unitWidth c + units t

/-- The position of an offset; the offset is clamped. -/
def toUnits (t : Text) (offset : Int) : Nat := units (t.take (clamp t offset))

/-- The first offset whose position is at least `position`, or the end of the text. -/
def ofUnits : Text → Int → Nat
  | [], _ => 0
  | c :: t, position => if position ≤ 0 then 0 else 1 + ofUnits t (position - unitWidth c)

/-- `t` with the units from `a` to `b` replaced. -/
def spliceUnits (t : Text) (a b : Nat) (insert : Text) : Text :=
  t.take (ofUnits t a) ++ insert ++ t.drop (ofUnits t b)

end Text

end TypingAid
