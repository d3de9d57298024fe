import TypingAid.Inline.Split
import TypingAid.Line.Boundary
import TypingAid.Line.Capital
import TypingAid.Line.Lead

/-!
# Formatting a line

`formatLine` sets one line of prose in a style. The line is cut into inline parts; the spacing
rules work on plain text, also inside emphasis, everything else is copied as it is, and blanks come
between parts that need one. Then sentence starts in plain text outside of emphasis get a capital.

The caret is carried through all of this. A scope limits where blanks come and go; a caret limits
which sentence gets a capital. Without a caret the result has it at the end of the line.
-/

namespace TypingAid

/-- Where a plain part ends up in the formatted line. -/
structure TextSpan where
  start : Nat
  text : Text
  /-- Offset of the first sentence of the line within the part, if it starts there. -/
  firstSentence : Option Nat := none
deriving DecidableEq, Repr

/-- Formatted parts. -/
structure Formatted where
  text : Text := []
  /-- Where the caret ends up, if it was in one of the parts. -/
  caret : Option Int := none
  spans : List TextSpan := []
deriving DecidableEq, Repr

namespace Inline

/-- The caret as seen from a part that stands at `start`, if it touches the part. -/
def localCaret (caret : Option Int) (start stop : Nat) : Option Int :=
  (caret.filter fun c => (start : Int) ≤ c && c ≤ stop).map (· - (start : Int))

/-- Where a caret inside an emphasis span ends up: before the content it stays, in the content it
follows the formatting, behind it it moves along. -/
def emphasisCaret (marker inner newInner : Nat) (innerCaret : Option Int) (caret : Int) : Int :=
  match innerCaret with
  | some c => marker + c
  | none => if marker + inner < caret then caret + newInner - inner else caret

mutual

/-- Formats a part that stands at `start`: the part as its neighbours see it, and the caret as seen
from its formatted text. -/
def format (style : Style) (caret : Option Int) (scope : Option Scope) (start : Nat) :
    Inline → Neighbour × Option Int
  | leaf kind t visible =>
    let stop := start + t.length
    let caret := localCaret caret start stop
    if kind = .text then
      let tracked := Tracked.respace style ⟨t, caret, scope.map (·.relativeTo start)⟩
      (⟨kind, start, stop, tracked.text, visible⟩, tracked.caret)
    else (⟨kind, start, stop, t, visible⟩, caret)
  | emphasis marker inner =>
    let innerStart := marker.length
    let innerLength := (textOf inner).length
    let stop := start + (innerStart + innerLength + marker.length)
    let caret := localCaret caret start stop
    let innerScope := scope.map fun s => (s.relativeTo start).relativeTo innerStart
    let result :=
      formatAll style (caret.bind (localCaret · innerStart (innerStart + innerLength))) innerScope
        none 0 none 0 inner
    (⟨.emphasis, start, stop, marker ++ result.text ++ marker, result.text⟩,
      caret.map (emphasisCaret innerStart innerLength result.text.length result.caret))

/-- Formats parts that stand at `start` after the part `previous`, while the text formatted so far
has length `length`. `firstSentence` is where the first sentence of the line starts. -/
def formatAll (style : Style) (caret : Option Int) (scope : Option Scope)
    (firstSentence : Option Nat) (start : Nat) (previous : Option Neighbour) (length : Nat) :
    List Inline → Formatted
  | [] => {}
  | p :: rest =>
    let (now, local?) := p.format style caret scope start
    let blank : Text :=
      match previous with
      | none => []
      | some left =>
        if left.boundaryTouches scope now && needsBlank style left now then [' '] else []
    let place := length + blank.length
    let result :=
      formatAll style caret scope firstSentence now.stop (some now) (place + now.text.length) rest
    let first := firstSentence.filter fun s => start ≤ s && s ≤ now.stop
    { text := blank ++ now.text ++ result.text
      caret := (local?.map ((place : Int) + ·)).or result.caret
      spans :=
        if now.kind = .text then ⟨place, now.text, first.map (· - start)⟩ :: result.spans
        else result.spans }

end

end Inline

/-- The places in a plain part where a sentence starts. -/
def TextSpan.sentences (s : TextSpan) : List SentenceStart :=
  (s.firstSentence.toList ++ sentenceStarts s.text).map fun n => ⟨s.start + n, s.text.drop n⟩

/-- The sentence starts that get a capital: the last one before the caret, or all of them. -/
def Style.chosenSentences (style : Style) (caret : Option Int) (all : List SentenceStart) :
    List SentenceStart :=
  match caret, style.capitalMode with
  | some c, .typing => ((all.filter fun s => s.offset < c).getLast?).toList
  | _, _ => all

/-- The formatted line with its capitals. -/
def Formatted.capitalize (style : Style) (f : Formatted) : Text :=
  if style.autoCapital then
    (style.chosenSentences f.caret (f.spans.flatMap TextSpan.sentences)).foldl capitalizeAt f.text
  else f.text

/-- The line set in a style, and where the caret ends up. -/
def formatLine (style : Style) (line : Text) (caret : Option Int := none)
    (scope : Option Scope := none) : Text × Int :=
  if line.isEmpty then (line, 0)
  else
    let caret := caret.map fun c => (Text.clamp line c : Int)
    let parts := Inline.parse line
    let f := Inline.formatAll style caret scope (some (leadLength line)) 0 none 0 parts
    let newLine := f.capitalize style
    (newLine, f.caret.getD newLine.length)

end TypingAid
