import TypingAid.Json.Value
import TypingAid.Keys.Chord

/-!
# Key bindings

Four commands of the editor can be bound to chords. `Bindings.normalize` lays what a user has
written over the default bindings: unknown commands are dropped, a value that names no chord is
passed over, and an empty list takes a command's chords away. `Bindings.conflicts` lists the chords
that more than one command has.
-/

namespace TypingAid

/-- The part of the program that the commands belong to. -/
def editorScope : String := "editor"

/-- A command that chords can be bound to. -/
structure Action where
  scope : String
  id : String
  name : String
  chords : List Points
deriving DecidableEq, Repr

namespace Action

/-- All commands, in the order in which they are listed. -/
def all : List Action :=
  [⟨editorScope, "action.format_article", "Format Current Article", [Str.points "Ctrl+Shift+S"]⟩,
   ⟨editorScope, "action.format_selection", "Format Selected Text or Current Line",
    [Str.points "Ctrl+Shift+L"]⟩,
   ⟨editorScope, "action.insert_code_block", "Insert Code Block", [Str.points "Ctrl+Shift+N"]⟩,
   ⟨editorScope, "action.toggle_auto_format", "Switch Autoformat", [Str.points "Ctrl+Tab"]⟩]

/-- The command with an id; blanks around the id do not count. -/
def ofId? (id : Str) : Option Action := all.find? (.text ·.id == id.strip)

end Action

/-- The chords of each command, by its id. -/
abbrev Bindings := List (String × List Points)

/-- A list without what has come before in it. -/
def dropRepeated {α : Type} [DecidableEq α] (xs : List α) : List α :=
  xs.foldl (fun seen x => if seen.contains x then seen else seen ++ [x]) []

/-- The strings of a list, or the one string. -/
def Value.strings : Value → List Points
  | .str s => [s.points]
  | .list items => items.filterMap fun
    | .str s => some s.points
    | _ => none
  | _ => []

/-- The chords that a value names, in canonical form and each once. Commas separate chords. -/
def chordsOf (v : Value) : List Points :=
  let pieces := v.strings.flatMap (Text.splitAt (.char ','))
  dropRepeated ((pieces.map Chord.canonical).filter (!·.isEmpty))

namespace Bindings

/-- The default bindings. -/
def default : Bindings := Action.all.map fun a => (a.id, a.chords)

/-- Lays one entry of a user's bindings over others. -/
def bind (b : Bindings) (id : Str) (v : Value) : Bindings :=
  match Action.ofId? id with
  | none => b
  | some action =>
    match v, chordsOf v with
    | .list [], _ => Assoc.put action.id [] b
    | _, [] => b
    | _, chords => Assoc.put action.id chords b

/-- The bindings that a user's value means. -/
def normalize (raw : Value) : Bindings :=
  raw.fields.foldl (fun b (scope, entries) =>
    if scope.strip.lower = editorScope then
      entries.fields.foldl (fun b (id, v) => b.bind id v) b
    else b) default

/-- The bindings as a value. -/
def toValue (b : Bindings) : Value :=
  .object [(editorScope, .object (b.map fun (id, chords) =>
    (id, .list (chords.map fun c => .str (.ofPoints c)))))]

/-- The bindings after they have been written down and read again. The plus sign alone is not read
as a chord, so it goes; a command that had no other chord gets its default ones. -/
def reread (b : Bindings) : Bindings := normalize b.toValue

/-- The chords of the command with an id. -/
def chords (b : Bindings) (id : Str) : List Points :=
  ((Action.ofId? id).bind fun a => Assoc.get? a.id b).getD []

/-- The chords of all commands, in the order of the commands, each with the id of its command. -/
def uses (b : Bindings) : List (Points × String) :=
  Action.all.flatMap fun a => (b.chords a.id).map fun chord => (chord, a.id)

/-- The chords that more than one command has, with the ids of these commands. -/
def conflicts (b : Bindings) : List (Points × List String) :=
  (Assoc.group b.uses).filter fun (_, ids) => 1 < ids.length

end Bindings

end TypingAid
