import TypingAid.Text.Basic

/-!
# Blank characters

`Char.isBlank` is the Unicode notion of white space used everywhere a blank is skipped, stripped or
looked for, except where a rule speaks of the plain space U+0020 alone. The zero-width space and
the byte-order mark are not blank.
-/

namespace TypingAid

/-- White space in the Unicode sense: the controls U+0009 to U+000D and U+001C to U+001F, and every
separator. -/
def isBlank (c : Char) : Bool :=
  let n := c.toNat
  (9 ≤ n && n ≤ 13) || (28 ≤ n && n ≤ 32) || n == 0x85 || n == 0xA0 || n == 0x1680 ||
    (0x2000 ≤ n && n ≤ 0x200A) || n == 0x2028 || n == 0x2029 || n == 0x202F || n == 0x205F ||
    n == 0x3000

namespace Text

/-- Without leading blanks. -/
def stripLeft (t : Text) : Text := t.dropWhile isBlank

section
variable {α : Type} (p : α → Bool)

/-- Without the longest tail of elements that satisfy `p`. -/
def dropTail (t : List α) : List α := (t.reverse.dropWhile p).reverse

/-- Without the elements at both ends that satisfy `p`. -/
def trim (t : List α) : List α := dropTail p (t.dropWhile p)

end

/-- Without leading and trailing blanks. -/
def strip (t : Text) : Text := dropTail isBlank (stripLeft t)

end Text

/-- A string without leading and trailing blanks. -/
def stripString (s : String) : String := String.ofList (Text.strip s.toList)

end TypingAid
