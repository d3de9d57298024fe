import TypingAid.Unicode.Alphanumeric
import TypingAid.Inline.Part
import TypingAid.Line.Spacing

/-!
# Blanks between inline parts

`needsBlank` decides whether two parts that follow each other are kept apart by a blank, going by
what they look like after formatting. Next to code and formulas the space mode of the kind decides;
elsewhere Chinese and Japanese are kept apart from Latin letters and digits, as within plain text. A
blank on either side is enough.
-/

namespace TypingAid

/-- A part of a line as its neighbours see it: where it was, and what it looks like now. -/
structure Neighbour where
  kind : PartKind
  /-- Where the part starts and stops in the unformatted line. -/
  start : Nat
  stop : Nat
  /-- The formatted text. -/
  text : Text
  /-- What of a span shows, formatted. -/
  visible : Text
deriving DecidableEq, Repr

namespace Neighbour

/-- What decides about blanks: what shows of a span, if anything does, or else the text. -/
def face (n : Neighbour) : Text :=
  if n.kind = .text || n.visible.isEmpty then n.text else n.visible

/-- The boundary between two parts touches the scope. A span that reaches into the scope is touched
as a whole. -/
def boundaryTouches (scope : Option Scope) (left right : Neighbour) : Bool :=
  Scope.touches scope right.start right.start ||
    (left.kind ≠ .text && Scope.touches scope left.start left.stop) ||
    (right.kind ≠ .text && Scope.touches scope right.start right.stop)

end Neighbour

/-- The space mode of code or of formulas. -/
def Style.spaceMode (style : Style) (kind : PartKind) : SpaceMode :=
  if kind = .code then style.codeSpaces else style.formulaSpaces

/-- One of two characters is Chinese or Japanese, the other a letter or digit that the style keeps
apart from it. -/
def Style.separates (style : Style) (a b : Char) : Bool :=
  if isCjk a = isCjk b then false
  else
    let other := if isCjk a then b else a
    (isLatin other && style.cjkLatinSpace) || (isFigure other && style.cjkFigureSpace)

/-- Two parts that follow each other have no blank between them but need one. -/
def needsBlank (style : Style) (left right : Neighbour) : Bool :=
  match left.text.getLast?, right.text.head? with
  | some a, some b =>
    if isBlank a || isBlank b then false
    else if left.kind.isSpaced || right.kind.isSpaced then
      match style.spaceMode (if right.kind.isSpaced then right.kind else left.kind) with
      | .none => false
      | .strict => true
      | .soft =>
        if left.kind.isSpaced && right.kind.isSpaced then false
        else if left.kind.isSpaced then right.face.head?.any Unicode.isAlphanumeric
        else left.face.getLast?.any Unicode.isAlphanumeric
    else
      match left.face.getLast?, right.face.head? with
      | some a, some b => style.separates a b
      | _, _ => false
  | _, _ => false

end TypingAid
