import TypingAid.Text.Basic

/-!
# Scripts on a line

The spacing rules tell four classes of characters apart: kana and Chinese characters (`isCjk`), the
full-width punctuation that goes with them, the unaccented Latin letters, and the digits 0 to 9. The
classes are disjoint, and none of them holds a blank.
-/

namespace TypingAid

/-- Hiragana, katakana and Chinese characters. -/
def isCjk (c : Char) : Bool :=
  let n := c.toNat
  (0x3040 ≤ n && n ≤ 0x30FF) || (0x3400 ≤ n && n ≤ 0x4DBF) || (0x4E00 ≤ n && n ≤ 0x9FFF) ||
    (0xF900 ≤ n && n ≤ 0xFAFF)

/-- The full-width marks, quotes and brackets. -/
def fullWidthMarks : List Char :=
  ['、', '。', '！', '，', '：', '；', '？', '“', '”', '‘', '’', '（', '）', '《', '》', '【', '】',
   '「', '」', '『', '』']

/-- Full-width punctuation. -/
def isFullWidthMark (c : Char) : Bool := fullWidthMarks.contains c

/-- A Latin letter without accent. -/
def isLatin (c : Char) : Bool := c.isAlpha

/-- A digit from 0 to 9. -/
def isFigure (c : Char) : Bool := c.isDigit

/-- A lower-case Latin letter without accent. -/
def isSmall (c : Char) : Bool := c.isLower

/-- An upper-case Latin letter without accent. -/
def isCapital (c : Char) : Bool := c.isUpper

end TypingAid
