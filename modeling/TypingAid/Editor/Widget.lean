import TypingAid.Text.Units

/-!
# Text widgets

A `Widget` holds the text on the screen and the user's cursor. Its positions count UTF-16 code
units. A text is changed with a `Cursor` of one's own: it is moved, it selects, and what is typed at
it replaces its selection. Every replacement moves the user's cursor along with the text it stands
in.

A position behind the end of the text is none: a cursor that is sent there stays where it is.
-/

namespace TypingAid

/-- A place in a widget's text, and where the selection that ends there starts. -/
structure Cursor where
  anchor : Nat := 0
  position : Nat := 0
deriving DecidableEq, Repr

/-- A part of a widget's text, and the text that takes its place. -/
structure Replacement where
  start : Nat
  stop : Nat
  text : Text
deriving DecidableEq, Repr

/-- The text on the screen, and the user's cursor. -/
structure Widget where
  text : Text := []
  cursor : Cursor := {}
deriving DecidableEq, Repr

namespace Cursor

/-- Goes to a position and selects nothing. -/
def moveTo (c : Cursor) (length position : Nat) : Cursor :=
  if position ≤ length then ⟨position, position⟩ else c

/-- Goes to a position and selects what lies between. -/
def extendTo (c : Cursor) (length position : Nat) : Cursor :=
  if position ≤ length then { c with position } else c

/-- The replacement of what is selected. -/
def replacement (c : Cursor) (t : Text) : Replacement :=
  ⟨min c.anchor c.position, max c.anchor c.position, t⟩

end Cursor

namespace Replacement

/-- The position behind the new text. -/
def newStop (r : Replacement) : Nat := r.start + Text.units r.text

/-- Where a position comes to lie. One inside the replaced part goes behind the new text. -/
def move (r : Replacement) (position : Nat) : Nat :=
  let kept := if r.stop ≤ position then position - (r.stop - r.start) else min position r.start
  if r.start ≤ kept then kept + Text.units r.text else kept

end Replacement

namespace Widget

variable (w : Widget)

/-- Length of the text. -/
def length : Nat := Text.units w.text

/-- The offset at which the selection starts. -/
def anchor : Nat := Text.ofUnits w.text w.cursor.anchor

/-- The offset of the caret. -/
def head : Nat := Text.ofUnits w.text w.cursor.position

/-- Carries out a replacement. -/
def replace (r : Replacement) : Widget :=
  { text := Text.spliceUnits w.text r.start r.stop r.text
    cursor := ⟨r.move w.cursor.anchor, r.move w.cursor.position⟩ }

/-- Puts the user's cursor somewhere. -/
def setCursor (position : Nat) : Widget :=
  { w with cursor := w.cursor.moveTo w.length position }

/-- Puts the user's cursor at an offset. -/
def setCaret (offset : Int) : Widget := w.setCursor (Text.toUnits w.text offset)

/-- Selects from one position to another. -/
def select (anchor position : Nat) : Widget :=
  { w with cursor := (w.cursor.moveTo w.length anchor).extendTo w.length position }

end Widget

end TypingAid
