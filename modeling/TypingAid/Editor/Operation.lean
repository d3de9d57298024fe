import TypingAid.Editor.Basic

/-!
# Operations on an editor

All that the user, the widget and the program around it can do to an editor, as data: an
`Editor.Operation` is one action, `Editor.perform` carries it out, and `Editor.run` carries out a
sequence.
-/

namespace TypingAid.Editor

/-- Something that is done to an editor. -/
inductive Operation where
  | press (k : KeyPress)
  /-- Presses a key for each character. -/
  | type (t : Text)
  /-- Takes the input of an input method. -/
  | compose (finished unfinished : Text) (takesAway : Bool)
  | paste (t : Text)
  /-- Others replace a part of the text. -/
  | alter (start stop : Int) (t : Text)
  | select (anchor head : Int)
  | setCaret (offset : Int)
  | openDocument (path : String) (t : Text)
  | setReadOnly (on : Bool)
  | command (c : Command)
  | strike (chord : Points)
  | updateSettings (settings : Value)
  | bindKeys (bindings : Value)
  /-- Chooses a font, as a user writes it. -/
  | setFont (family size : Value)
  | replaceRange (start stop : Int) (t : Text)

/-- What an operation answers. -/
inductive Outcome where
  | done
  | flag (b : Bool)
  /-- Nothing has been done, because a value does not mean a whole number. -/
  | refused (why : NotWhole)
deriving DecidableEq, Repr

/-- Carries out an operation. -/
def perform (ed : Editor) : Operation → Editor × Outcome
  | .press k => let (ed, taken) := ed.press k; (ed, .flag taken)
  | .type t => (t.foldl (fun ed c => (ed.press (.ofChar c)).1) ed, .done)
  | .compose finished unfinished takesAway =>
    let (ed, taken) := ed.compose finished unfinished takesAway
    (ed, .flag taken)
  | .paste t => (ed.paste t, .done)
  | .alter start stop t => (ed.alter start stop t, .done)
  | .select anchor head => (ed.select anchor head, .done)
  | .setCaret offset => (ed.setCaret offset, .done)
  | .openDocument path t => (ed.openDocument path t, .done)
  | .setReadOnly on => ({ ed with readOnly := on }, .done)
  | .command c => let (ed, on) := ed.command c; (ed, (on.map .flag).getD .done)
  | .strike chord => (ed.strike chord, .done)
  | .updateSettings settings => (ed.updateSettings settings, .done)
  | .bindKeys bindings => (ed.bindKeys bindings, .done)
  | .setFont family size =>
    match Font.read? family size with
    | .ok f => (ed.setFont f, .done)
    | .error why => (ed, .refused why)
  | .replaceRange start stop t => (ed.replaceRange start stop t, .done)

/-- Carries out operations one after the other. -/
def run (ed : Editor) (ops : List Operation) : Editor :=
  ops.foldl (fun ed op => (ed.perform op).1) ed

end TypingAid.Editor
