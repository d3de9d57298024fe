import TypingAid.Keys.Binding

/-!
# Shortcuts

A shortcut is a chord that gives a command. The chords are taken from the bindings as they read
after they have been written down, so a chord that cannot be read back makes no shortcut.

The shortcuts of an editor stand in the order in which they were made; binding the keys anew takes
those of the four commands away and makes new ones behind all others.
-/

namespace TypingAid

/-- A command that can be given by a chord. -/
inductive Command where
  | formatArticle
  | formatSelection
  | insertCodeBlock
  | toggleAutoFormat
  /-- Saves the document. This chord cannot be bound to other keys. -/
  | save
deriving DecidableEq, Repr

namespace Command

/-- The commands whose chords can be chosen, in the order in which they are listed. -/
def bindable : List Command := [formatArticle, formatSelection, insertCodeBlock, toggleAutoFormat]

/-- The id by which the bindings know a command. -/
def id : Command → String
  | formatArticle => "action.format_article"
  | formatSelection => "action.format_selection"
  | insertCodeBlock => "action.insert_code_block"
  | toggleAutoFormat => "action.toggle_auto_format"
  | save => ""

end Command

/-- A chord that gives a command. -/
structure Shortcut where
  chord : Points
  command : Command
deriving DecidableEq, Repr

namespace Shortcut

/-- The chord for saving that is usual on the system. -/
def standardSave : Shortcut := ⟨Str.points "StandardKey.Save", .save⟩

/-- A shortcut for every chord of every command that can be bound, as the bindings read. -/
def ofBindings (b : Bindings) : List Shortcut :=
  Command.bindable.flatMap fun command =>
    (b.reread.chords command.id).map fun chord => ⟨chord, command⟩

/-- The shortcuts after the keys have been bound anew. -/
def rebind (old : List Shortcut) (b : Bindings) : List Shortcut :=
  old.filter (fun s => !Command.bindable.contains s.command) ++ ofBindings b

/-- The commands that a chord gives. -/
def commandsOf (shortcuts : List Shortcut) (chord : Points) : List Command :=
  (shortcuts.filter (·.chord == chord)).map Shortcut.command

end Shortcut

end TypingAid
