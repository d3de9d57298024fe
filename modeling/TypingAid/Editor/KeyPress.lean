import TypingAid.Edit.Basic
import TypingAid.Unicode.Printable

/-!
# Key presses

What the user wants with a key press, as an edit. The keys that delete and the one that breaks the
line have a meaning of their own; any other key puts its text in, if that can be printed. A press
that means nothing here is left to the widget.
-/

namespace TypingAid

/-- A key. -/
inductive Key where
  | backspace
  | delete
  | enter
  | other
deriving DecidableEq, Repr

/-- A key press with the modifiers that are down. -/
structure KeyPress where
  key : Key := .other
  shift : Bool := false
  ctrl : Bool := false
  alt : Bool := false
  super : Bool := false
  /-- The text that the key stands for. -/
  text : Text := []
deriving DecidableEq, Repr

namespace KeyPress

/-- The press of a key that stands for one character. -/
def ofChar (c : Char) : KeyPress := { text := [c] }

/-- The modifiers that are down give a key with a meaning of its own another one. -/
def isShortcut (k : KeyPress) : Bool := k.ctrl || k.alt || k.super

/-- The edit that is meant, when the selection lies between two offsets of a text. -/
def edit? (k : KeyPress) (a b : Int) (doc : Text) : Option Edit :=
  let start := min a b
  let stop := max a b
  match k.key with
  | .backspace =>
    if k.isShortcut || (start = stop && start = 0) then none
    else some (.single (if start = stop then start - 1 else start) stop [] .deleteBackward)
  | .delete =>
    if k.isShortcut || (start = stop && doc.length ≤ stop) then none
    else some (.single start (if start = stop then stop + 1 else stop) [] .deleteForward)
  | .enter => if k.isShortcut then none else some (.single start stop ['\n'] .input)
  | .other =>
    if k.ctrl || k.super || k.text.isEmpty || !k.text.all Unicode.isPrintable then none
    else some (.single start stop k.text .typed)

end KeyPress

/-- The edit by which an input method puts a finished text in the place of the selection. -/
def composedEdit? (commit : Text) (a b : Int) : Option Edit :=
  if commit.isEmpty then none else some (.single (min a b) (max a b) commit .composed)

end TypingAid
