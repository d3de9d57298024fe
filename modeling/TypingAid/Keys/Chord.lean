import TypingAid.Text.Str
import TypingAid.Unicode.Digit

/-!
# Key chords

A chord is a key with modifiers. `Chord.portable` writes it in the portable form, such as
`Ctrl+Shift+S`; `Chord.ofPoints?` reads what users write, with any of the usual names of a modifier
in any order. Reading and writing again gives the canonical form, by which two chords are compared.

The last word of a chord is its key, even if it names a modifier; a word before it that names none
is dropped. A chord that ends in two plus signs has the plus sign for its key.
-/

namespace TypingAid

/-- A modifier key. -/
inductive Modifier where
  | ctrl
  | alt
  | shift
  | super
deriving DecidableEq, Repr

/-- The modifier that a word names. -/
def Modifier.ofWord? (word : Points) : Option Modifier :=
  match Str.ofPoints (word.map Point.lower) with
  | .text "ctrl" | .text "control" => some .ctrl
  | .text "alt" | .text "option" => some .alt
  | .text "shift" => some .shift
  | .text "meta" | .text "cmd" | .text "command" | .text "super" | .text "win" => some .super
  | _ => none

/-- The upper case of a letter. -/
def Point.letterUpper : Point → Points
  | .char c => (Unicode.letterUpper c).map .char
  | p => [p]

/-- It is a digit. -/
def Point.isDigit (p : Point) : Bool := p.char?.any Unicode.isDigit

/-- A key with modifiers. -/
structure Chord where
  key : Points
  ctrl : Bool := false
  alt : Bool := false
  shift : Bool := false
  super : Bool := false
deriving DecidableEq, Repr

namespace Chord

/-- The portable name of a key that has other names as well. -/
def keyAlias? (word : Points) : Option Points :=
  match Str.ofPoints (word.map Point.lower) with
  | .text "tab" => some (Str.points "Tab")
  | .text "space" => some (Str.points "Space")
  | .text "enter" | .text "return" => some (Str.points "Return")
  | .text "esc" | .text "escape" => some (Str.points "Esc")
  | .text "backspace" => some (Str.points "Backspace")
  | .text "del" | .text "delete" => some (Str.points "Del")
  | .text "slash" => some [.char '/']
  | _ => none

/-- The portable name of a key: a letter is in upper case, and so is the F of a function key. -/
def keyName (word : Points) : Points :=
  match (keyAlias? word).getD word with
  | [] => []
  | [p] => p.letterUpper
  | p :: rest =>
    if (p = .char 'f' || p = .char 'F') && rest.all Point.isDigit then .char 'F' :: rest
    else p :: rest

/-- The pieces between plus signs that are not blank. -/
def plainWords (t : Points) : List Points :=
  ((Text.splitAt (.char '+') t).map Points.strip).filter (!·.isEmpty)

/-- The words of a chord. -/
def words (t : Points) : List Points :=
  if [.char '+', .char '+'].isSuffixOf t then
    plainWords (t.take (t.length - 2)) ++ [[.char '+']]
  else plainWords t

/-- The chord that a user's string means, unless it has no words. -/
def ofPoints? (t : Points) : Option Chord :=
  let ws := words t.strip
  ws.getLast?.map fun key =>
    let modifiers := ws.dropLast.filterMap Modifier.ofWord?
    { key := keyName key
      ctrl := modifiers.contains .ctrl
      alt := modifiers.contains .alt
      shift := modifiers.contains .shift
      super := modifiers.contains .super }

/-- The chord in portable form. -/
def portable (c : Chord) : Points :=
  let parts : List Points :=
    [if c.ctrl then Str.points "Ctrl" else [], if c.alt then Str.points "Alt" else [],
      if c.shift then Str.points "Shift" else [], if c.super then Str.points "Meta" else [],
      c.key.strip]
  List.intercalate [.char '+'] (parts.filter (!·.isEmpty))

/-- The portable form of the chord that a user's string means; empty if it means none. -/
def canonical (t : Points) : Points := ((ofPoints? t).map portable).getD []

end Chord

end TypingAid
