import TypingAid.Json.Value

/-!
# Writing JSON

`Value.pretty` writes a value as a settings file has it: two blanks for each level, one item or
field on a line, fields by the order of the code points of their names, and no line break at the
end. `Value.compact` writes it on one line, with the fields in their own order. Both leave every
character as it is that JSON does not force to be escaped.

Half of a surrogate pair is not escaped in a settings file, so that what is written for a value that
holds one is not a text. On one line it is escaped.
-/

namespace TypingAid

namespace Json

/-- A character inside a string. -/
def stringChar (c : Char) : Text :=
  if c = '"' then ['\\', '"']
  else if c = '\\' then ['\\', '\\']
  else if c = '\n' then ['\\', 'n']
  else if c = '\r' then ['\\', 'r']
  else if c = '\t' then ['\\', 't']
  else if c = '\x08' then ['\\', 'b']
  else if c = '\x0c' then ['\\', 'f']
  else if c.toNat < 0x20 then '\\' :: 'u' :: Text.hexDigits 4 c.toNat
  else [c]

/-- A code point inside a string. -/
def stringPoint : Point → Points
  | .char c => (stringChar c).map .char
  | p => [p]

/-- A string in quotes. -/
def stringText (s : Str) : Points := .char '"' :: s.points.flatMap stringPoint ++ [.char '"']

/-- Puts a field in front of the first one whose name does not come before its own. -/
def insertField {α : Type} (field : Str × α) : List (Str × α) → List (Str × α)
  | [] => [field]
  | other :: rest =>
    if other.1 < field.1 then other :: insertField field rest else field :: other :: rest

/-- The fields by the order of their names. -/
def sortFields {α : Type} (fields : List (Str × α)) : List (Str × α) :=
  fields.foldr insertField []

end Json

namespace Value

/-- What has no parts: everything but lists and objects. -/
def scalarText : Value → Points
  | bool b => Str.points (if b then "true" else "false")
  | int n => Str.points (toString n)
  | float x => Str.points (x.text "Infinity" "NaN")
  | str s => Json.stringText s
  | _ => Str.points "null"

/-- A line break and the blanks of a level. -/
def newLine (level : Nat) : Points := .char '\n' :: List.replicate (2 * level) (.char ' ')

/-- Parts between an opening and a closing mark, with line breaks at the given level. -/
def block (opening closing : Char) (level : Nat) (parts : List Points) : Points :=
  if parts.isEmpty then [.char opening, .char closing]
  else
    .char opening :: (newLine (level + 1) ++ (.char ',' :: newLine (level + 1)).intercalate parts ++
      newLine level ++ [.char closing])

mutual

/-- The value as it is written at a level of a settings file. -/
def prettyAt (level : Nat) : Value → Points
  | list items => block '[' ']' level (prettyItems (level + 1) items)
  | object fs =>
    block '\x7b' '\x7d' level ((Json.sortFields (prettyFields (level + 1) fs)).map fun (key, ps) =>
      Json.stringText key ++ [.char ':', .char ' '] ++ ps)
  | v => scalarText v

/-- The items as they are written. -/
def prettyItems (level : Nat) : List Value → List Points
  | [] => []
  | v :: rest => prettyAt level v :: prettyItems level rest

/-- The names of fields, and their values as they are written. -/
def prettyFields (level : Nat) : Fields → List (Str × Points)
  | [] => []
  | (key, v) :: rest => (key, prettyAt level v) :: prettyFields level rest

end

/-- What a settings file is to hold for the value. -/
def pretty (v : Value) : Str := .ofPoints (prettyAt 0 v)

mutual

/-- The value as it is written on one line. -/
def flat : Value → Points
  | list items => .char '[' :: [.char ','].intercalate (flatItems items) ++ [.char ']']
  | object fs => .char '\x7b' :: [.char ','].intercalate (flatFields fs) ++ [.char '\x7d']
  | v => scalarText v

/-- The items on one line. -/
def flatItems : List Value → List Points
  | [] => []
  | v :: rest => flat v :: flatItems rest

/-- The fields on one line. -/
def flatFields : Fields → List Points
  | [] => []
  | (key, v) :: rest => (Json.stringText key ++ .char ':' :: flat v) :: flatFields rest

end

/-- The value on one line. -/
def compact (v : Value) : String :=
  String.ofList <| (flat v).flatMap fun
    | .char c => [c]
    | p => '\\' :: 'u' :: Text.hexDigits 4 p.code

end Value

end TypingAid
