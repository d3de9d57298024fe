import TypingAid.Text.Blank
import TypingAid.Line.Script
import TypingAid.Settings.Basic

/-!
# Spacing of plain text

A spacing rule finds the places of a text that it wants to change, as a list of `Fix`es in ascending
order: a stretch of blanks that has to go, or a gap that needs one. `Tracked.adjust` carries out the
fixes that touch the scope and moves the caret and the scope along. The rules of a style apply one
after the other (`spacingRules`), each to the text that the ones before it have left.

Fixes only ever take away or put in the plain space U+0020.
-/

namespace TypingAid

/-! ### Scopes -/

/-- The stretch of a text that an edit may have touched, both ends included. -/
structure Scope where
  start : Int
  stop : Int
deriving DecidableEq, Repr

namespace Scope

/-- The stretch from `start` to `stop` touches the scope; without a scope everything is touched. -/
def touches (scope : Option Scope) (start stop : Int) : Bool :=
  match scope with
  | none => true
  | some s => s.start ≤ stop && start ≤ s.stop

/-- The scope as seen from `offset`. -/
def relativeTo (s : Scope) (offset : Int) : Scope := ⟨s.start - offset, s.stop - offset⟩

end Scope

/-! ### Fixes -/

/-- The part of a text from `start` to `stop`, and what replaces it. -/
structure Fix where
  start : Nat
  stop : Nat
  insert : Text
deriving DecidableEq, Repr

namespace Fix

/-- Where an offset lands when the fix is carried out: offsets behind it move along, offsets inside
it stay where they are as far as the inserted text goes. -/
def shift (f : Fix) (offset : Int) : Int :=
  if f.stop ≤ offset then offset + f.insert.length - (f.stop - f.start)
  else if f.start < offset then f.start + min (f.insert.length : Int) (offset - f.start)
  else offset

/-- How far fixes that do not overlap move an offset. -/
def drift (offset : Int) : List Fix → Int
  | [] => 0
  | f :: rest => f.shift offset - offset + drift offset rest

/-- Where an offset lands when all the fixes, which do not overlap, are carried out. -/
def shiftAll (fixes : List Fix) (offset : Int) : Int := offset + drift offset fixes

/-- Carries out ascending fixes on a text that stands at `offset`. -/
def applyFrom (offset : Nat) (t : Text) : List Fix → Text
  | [] => t
  | f :: rest =>
    t.take (f.start - offset) ++ f.insert ++ applyFrom f.stop (t.drop (f.stop - offset)) rest

end Fix

/-- A text with the caret and the scope that go with it. -/
structure Tracked where
  text : Text
  caret : Option Int := none
  scope : Option Scope := none
deriving DecidableEq, Repr

namespace Tracked

/-- Carries out the fixes that touch the scope. -/
def adjust (t : Tracked) (fixes : List Fix) : Tracked :=
  let fixes := fixes.filter fun f => Scope.touches t.scope f.start f.stop
  { text := Fix.applyFrom 0 t.text fixes
    caret := t.caret.map (Fix.shiftAll fixes)
    scope := t.scope.map fun s => ⟨Fix.shiftAll fixes s.start, Fix.shiftAll fixes s.stop⟩ }

end Tracked

/-! ### Rules for gaps -/

/-- A condition on the characters before a gap, the nearest first, and the character after it. -/
abbrev GapRule := Text → Char → Bool

/-- A blank for every gap that meets the rule, in a text that stands at `offset` after `before`. -/
def gapsFrom (rule : GapRule) (before : Text) (offset : Nat) : Text → List Fix
  | [] => []
  | c :: t =>
    let rest := gapsFrom rule (c :: before) (offset + 1) t
    if rule before c then ⟨offset, offset, [' ']⟩ :: rest else rest

/-- A blank for every gap of a text that meets the rule. -/
def gaps (rule : GapRule) (t : Text) : List Fix := gapsFrom rule [] 0 t

/-- The character just before the gap is in one class and the one after it in the other. -/
def between (p q : Char → Bool) : GapRule := fun before c =>
  match before with
  | [] => false
  | a :: _ => (p a && q c) || (q a && p c)

/-- Half-width marks that a blank follows, the full stop apart. -/
def pauseMarks : List Char := [',', ';', ':', '!', '?']

/-- A Latin letter follows a mark that is the first one after something other than a blank or a
colon, or a capital follows a full stop after two small letters. -/
def afterPunctuation : GapRule := fun before c =>
  match before with
  | mark :: a :: rest =>
    (pauseMarks.contains mark && a ≠ ':' && !isBlank a && isLatin c) ||
      (mark = '.' && isSmall a && rest.head?.any isSmall && isCapital c)
  | _ => false

/-! ### The rule against blanks -/

/-- The character sets its neighbours of the same class without a blank. -/
def isTight (c : Char) : Bool := isCjk c || isFullWidthMark c

/-- The runs of spaces between two tight characters, in a text that stands at `offset` after
`before`. -/
def loosenedFrom (before : Option Char) (offset : Nat) : Text → List Fix
  | [] => []
  | c :: t =>
    let rest := loosenedFrom (some c) (offset + 1) t
    if c = ' ' && before.any isTight && (t.dropWhile (· = ' ')).head?.any isTight then
      ⟨offset, offset + (t.takeWhile (· = ' ')).length + 1, []⟩ :: rest
    else rest

/-- The runs of spaces between two tight characters. -/
def loosened (t : Text) : List Fix := loosenedFrom none 0 t

/-! ### All rules of a style -/

/-- A spacing rule: the fixes that a text needs. -/
abbrev SpacingRule := Text → List Fix

/-- The rules that a style asks for, in the order in which they apply. -/
def spacingRules (style : Style) : List SpacingRule :=
  (if style.cjkNoSpace then [loosened] else []) ++
  (if style.cjkLatinSpace then [gaps (between isCjk isLatin)] else []) ++
  (if style.cjkFigureSpace then [gaps (between isCjk isFigure)] else []) ++
  (if style.latinFigureSpace then [gaps (between isLatin isFigure)] else []) ++
  (if style.punctuationSpace then [gaps afterPunctuation] else [])

/-- A plain text after all spacing rules of a style. -/
def Tracked.respace (style : Style) (t : Tracked) : Tracked :=
  (spacingRules style).foldl (fun t rule => t.adjust (rule t.text)) t

end TypingAid
