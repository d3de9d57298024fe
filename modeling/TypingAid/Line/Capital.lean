import TypingAid.Unicode.Alphanumeric
import TypingAid.Text.Blank
import TypingAid.Line.Script

/-!
# Capitals at sentence starts

A sentence starts after a sentence break of the text: a full-width mark, or a half-width one with
blanks behind it, together with those blanks. A full stop after another full stop or after a single
letter is no break. `startsSmallWord` tells whether what stands at a sentence start is a word that
takes a capital.
-/

namespace TypingAid

/-- Half-width marks that end a sentence when blanks follow. -/
def stopMarks : List Char := ['.', '!', '?']

/-- Full-width marks that end a sentence. -/
def fullStopMarks : List Char := ['。', '！', '？']

/-- A single Latin letter stands before the place, with no other word character before it. The
nearest character comes first. -/
def afterInitial : Text → Bool
  | [] => false
  | a :: rest => isLatin a && !rest.head?.any Unicode.isWord

/-- The mark `c`, which `before` precedes and `after` follows, breaks a sentence. -/
def isSentenceBreak (before : Text) (c : Char) (after : Text) : Bool :=
  fullStopMarks.contains c ||
    (stopMarks.contains c && after.head?.any isBlank && before.head? ≠ some '.' &&
      !afterInitial before)

/-- The ends of the sentence breaks, in a text that stands at `offset` after `before`. -/
def sentenceStartsFrom (before : Text) (offset : Nat) : Text → List Nat
  | [] => []
  | c :: t =>
    let rest := sentenceStartsFrom (c :: before) (offset + 1) t
    if isSentenceBreak before c t then (offset + 1 + (t.takeWhile isBlank).length) :: rest else rest

/-- The ends of the sentence breaks of a text. -/
def sentenceStarts (t : Text) : List Nat := sentenceStartsFrom [] 0 t

/-- The character continues a word of small letters. -/
def continuesWord (c : Char) : Bool := isSmall c || c = '\''

/-- The text starts with a word of small letters. The word may end at an apostrophe, but no capital
follows it, and it is not a single letter before a full stop as in an abbreviation. -/
def startsSmallWord (t : Text) : Bool :=
  t.head?.any isSmall &&
    let word := t.takeWhile continuesWord
    let next := (t.dropWhile continuesWord).head?
    if next.any isLatin then word.tail.contains '\''
    else !(word.length == 1 && next == some '.')

/-- A place where a sentence starts, and the text from there to the end of its part. -/
structure SentenceStart where
  offset : Nat
  rest : Text
deriving DecidableEq, Repr

/-- The line with a capital at the given sentence start, if a word there takes one. -/
def capitalizeAt (line : Text) (s : SentenceStart) : Text :=
  if startsSmallWord s.rest then line.modify s.offset Char.toUpper else line

end TypingAid
