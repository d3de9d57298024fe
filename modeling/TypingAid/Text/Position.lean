import TypingAid.Text.Basic

/-!
# Lines and columns

A position is a line and a column, both counted from zero. `Text.position` turns an offset into the
position it has, `Text.offsetAt` a line and a column into an offset. Both clamp: an offset out of
range counts as the nearest end, a column past the end of its line as the end of that line, and a
line past the last one as the end of the text.
-/

namespace TypingAid

/-- A place in a text. -/
structure Position where
  /-- Number of line breaks before the place. -/
  line : Nat
  /-- Number of characters since the last line break. -/
  column : Nat
deriving DecidableEq, Repr

namespace Text

/-- Length of the first line. -/
def firstLineLength (t : Text) : Nat := (t.takeWhile (· ≠ '\n')).length

/-- Length of the last line. -/
def lastLineLength (t : Text) : Nat := firstLineLength t.reverse

/-- The position of an offset. -/
def position (t : Text) (offset : Int) : Position :=
  let before := t.take (clamp t offset)
  ⟨before.count '\n', lastLineLength before⟩

/-- The offset of a column in the line that lies `n` line breaks further on. -/
def offsetFrom : Text → Nat → Int → Nat
  | t, 0, column => min column.toNat (firstLineLength t)
  | [], _ + 1, _ => 0
  | c :: t, n + 1, column =>
    1 + if c = '\n' then offsetFrom t n column else offsetFrom t (n + 1) column

/-- The offset of a line and a column. -/
def offsetAt (t : Text) (line column : Int) : Nat := offsetFrom t line.toNat column

/-- Where the line that holds `offset` starts and ends; the line break is not part of it. -/
def lineBounds (t : Text) (offset : Int) : Nat × Nat :=
  let o := clamp t offset
  (o - lastLineLength (t.take o), o + firstLineLength (t.drop o))

end Text

end TypingAid
