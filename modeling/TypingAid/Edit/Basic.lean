import TypingAid.Text.Basic

/-!
# Edits

An edit is a list of spans to replace, all counted in the text before the edit, with a note of what
caused it. `Edit.apply` carries it out. `Edit.views` shows each span from both sides of the edit:
where it was, where it is now, what it took away and what it put there.

Spans may come in any order. They are taken by their start, and spans that start at one place keep
the order in which they are listed.
-/

namespace TypingAid

/-- What caused an edit. -/
inductive Origin where
  /-- A typed character. -/
  | typed
  /-- Other direct input, such as a line break. -/
  | input
  /-- Text of an input method that may still change. -/
  | composing
  /-- Text that an input method has settled on. -/
  | composed
  /-- Input over a selection. -/
  | replaceSelection
  | paste
  | deleteBackward
  | deleteForward
  /-- Anything the user did not do directly. -/
  | program
deriving DecidableEq, Repr

namespace Origin

/-- The written name. -/
def name : Origin → String
  | typed => "input.type"
  | input => "input"
  | composing => "input.type.compose"
  | composed => "input.type.compose.end"
  | replaceSelection => "input.replace"
  | paste => "input.paste"
  | deleteBackward => "delete.backward"
  | deleteForward => "delete.forward"
  | program => "programmatic"

/-- All origins. -/
def all : List Origin :=
  [typed, input, composing, composed, replaceSelection, paste, deleteBackward, deleteForward,
    program]

/-- The origin that has the given written name. -/
def ofName? (s : String) : Option Origin := all.find? (·.name == s)

/-- Input of characters, one way or another. -/
def isCharacterInput : Origin → Bool
  | typed | composing | composed => true
  | _ => false

end Origin

/-- The part of a text from `start` to `stop`, and what replaces it. -/
structure Span where
  start : Int
  stop : Int
  insert : Text := []
deriving DecidableEq, Repr

namespace Span

/-- Length of the part that goes away. -/
def removedLength (s : Span) : Int := s.stop - s.start

/-- How much longer the span makes the text. -/
def growth (s : Span) : Int := s.insert.length - s.removedLength

/-- The span takes something away or puts something in. -/
def isChange (s : Span) : Bool := s.removedLength ≠ 0 || !s.insert.isEmpty

/-- Puts `s` before the first span that must come after it. -/
def insertBy (le : Span → Span → Bool) (s : Span) : List Span → List Span
  | [] => [s]
  | x :: xs => if le s x then s :: x :: xs else x :: insertBy le s xs

/-- Sorts, keeping the order of spans of which neither must come after the other. -/
def sortBy (le : Span → Span → Bool) (spans : List Span) : List Span :=
  spans.foldr (insertBy le) []

/-- By start, first span first. -/
def ascending (spans : List Span) : List Span := sortBy (fun a b => a.start ≤ b.start) spans

/-- By start, last span first. -/
def descending (spans : List Span) : List Span := sortBy (fun a b => b.start ≤ a.start) spans

end Span

/-- A candidate or committed change of a text. -/
structure Edit where
  /-- The parts to replace, in offsets of the text before the edit. -/
  spans : List Span := []
  origin : Origin := .program
  /-- Where the caret goes, in offsets of the text after the edit, if the edit says so. -/
  caret : Option Int := none
  /-- A tag that tells which feature made the edit; empty for the user's own. -/
  event : String := ""
deriving DecidableEq, Repr

namespace Edit

/-- The tag of an edit that replaces what the user was about to do. -/
def changeEvent : String := "EasyTyping.change"

/-- The tag of an edit that tidies a line. -/
def formatEvent : String := "EasyTyping.format"

/-- An edit with one span. -/
def single (start stop : Int) (insert : Text) (origin : Origin)
    (caret : Option Int := none) (event : String := "") : Edit :=
  ⟨[⟨start, stop, insert⟩], origin, caret, event⟩

/-- The edit changes the text. -/
def isChange (e : Edit) : Bool := e.spans.any Span.isChange

/-- The edit was made by a feature, not by the user. -/
def isAutomatic (e : Edit) : Bool := e.event == changeEvent || e.event == formatEvent

/-- The text after the edit. Spans are carried out from the last to the first, so that the offsets
of those still to come stay right. -/
def apply (e : Edit) (t : Text) : Text :=
  (Span.descending e.spans).foldl (fun out s => Text.splice out s.start s.stop s.insert) t

/-- One span, seen from both sides of its edit. -/
structure View where
  /-- Where the span starts and stops before the edit. -/
  start : Int
  stop : Int
  /-- Where what it inserts starts and stops after the edit. -/
  newStart : Int
  newStop : Int
  inserted : Text
  removed : Text
deriving DecidableEq, Repr

/-- The views of spans in ascending order, when the text before them has grown by `shift`. -/
def viewsFrom (before : Text) (shift : Int) : List Span → List View
  | [] => []
  | s :: rest =>
    { start := s.start, stop := s.stop
      newStart := s.start + shift, newStop := s.start + shift + s.insert.length
      inserted := s.insert, removed := Text.sliceRel before s.start s.stop } ::
      viewsFrom before (shift + s.growth) rest

/-- Every span of the edit as it looks before and after, first span first. -/
def views (e : Edit) (before : Text) : List View := viewsFrom before 0 (Span.ascending e.spans)

/-- The end of the last inserted text, when the text before the spans has grown by `shift`. -/
def lastStop (shift : Int) : List Span → Option Int
  | [] => none
  | s :: rest =>
    (lastStop (shift + s.growth) rest).or (some (s.start + shift + s.insert.length))

/-- Where the caret comes to stand by itself: after the last inserted text. -/
def naturalCaret (e : Edit) : Option Int := lastStop 0 (Span.ascending e.spans)

/-- Where the caret goes. -/
def targetCaret (e : Edit) : Option Int := e.caret.or e.naturalCaret

end Edit

end TypingAid
