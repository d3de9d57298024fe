import TypingAid.Editor.Highlight
import TypingAid.Editor.Widget

/-!
# Events

What an editor does on the screen, and what it leaves to its widget, as a list that tells what
happened in which order.
-/

namespace TypingAid

/-- Something that happened in an editor or around it. -/
inductive Event where
  /-- Parts of the text were replaced, and undoing takes that back as one step. -/
  | edited (replacements : List Replacement)
  /-- All lines were given their looks. -/
  | repainted (shades : List Shade)
  /-- The user was told something. -/
  | notice (message : String)
  /-- Something is put off until the widget is idle, and at least for so many milliseconds. -/
  | deferred (milliseconds : Nat)
  /-- A key press was left to the widget. -/
  | keyLeft
  /-- The input of an input method was left to the widget. -/
  | inputLeft (commit preedit : Text)
  /-- A paste was left to the widget. -/
  | pasteLeft
  /-- The closing of a window was left to the widget. -/
  | closeLeft
  /-- The program was given its name. -/
  | named (name : String)
  /-- The status line showed a message for so many milliseconds. -/
  | status (message : String) (milliseconds : Nat)
deriving DecidableEq, Repr

end TypingAid
