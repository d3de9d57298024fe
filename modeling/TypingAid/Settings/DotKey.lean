import TypingAid.Json.Value

/-!
# Dotted keys

A value deep inside an object is named by the names of the fields on the way to it, joined by dots.
The empty key names the object itself.

* `Fields.at?` looks a value up.
* `Fields.setAt?` puts a value there and makes the objects on the way that are missing; what is in
  the way and is no object is replaced.
* `Fields.deleteAt?` takes a value away, and with it the objects that become empty.
* `Fields.mergeDefaults` fills in what is missing and never replaces what is there.
-/

namespace TypingAid

/-- The names of the fields on the way to a value. -/
def keyParts (key : Str) : List Str := (Text.splitAt (.char '.') key.points).map .ofPoints

namespace Value

/-- The value at the end of a way through objects. -/
def at? : Value → List Str → Option Value
  | v, [] => some v
  | v, name :: rest =>
    match v with
    | object fs => (Assoc.get? name fs).bind (at? · rest)
    | _ => none

end Value

namespace Fields

/-- The value that a dotted key names. -/
def at? (fs : Fields) (key : Str) : Option Value :=
  if key = "" then some (.object fs) else (Value.object fs).at? (keyParts key)

/-- Puts a value at the end of a way. -/
def setParts (fs : Fields) : List Str → Value → Fields
  | [], _ => fs
  | [name], v => Assoc.put name v fs
  | name :: rest, v =>
    Assoc.put name (.object (setParts (((Assoc.get? name fs).map Value.fields).getD []) rest v)) fs

/-- Puts a value where a dotted key says; the empty key says nothing. -/
def setAt? (fs : Fields) (key : Str) (v : Value) : Option Fields :=
  if key = "" then none else some (setParts fs (keyParts key) v)

/-- Takes away the value at the end of a way, and the objects that become empty, if it is there. -/
def deleteParts? (fs : Fields) : List Str → Option Fields
  | [] => none
  | [name] => if Assoc.has name fs then some (Assoc.erase name fs) else none
  | name :: rest =>
    match Assoc.get? name fs with
    | some (.object inner) =>
      (deleteParts? inner rest).map fun inner =>
        if inner.isEmpty then Assoc.erase name fs else Assoc.put name (.object inner) fs
    | _ => none

/-- Takes away the value that a dotted key names, if it is there. -/
def deleteAt? (fs : Fields) (key : Str) : Option Fields :=
  if key = "" then none else deleteParts? fs (keyParts key)

mutual

/-- The fields with defaults for those that are missing, also inside objects. -/
def mergeDefaults (fs : Fields) : Fields → Fields
  | [] => fs
  | (name, default) :: rest =>
    mergeDefaults
      (match Assoc.get? name fs with
      | none => Assoc.put name default fs
      | some v => Assoc.put name (mergeValue v default) fs)
      rest

/-- The value with the defaults of an object, if both are objects. -/
def mergeValue (v : Value) : Value → Value
  | .object defaults =>
    match v with
    | .object fs => .object (mergeDefaults fs defaults)
    | _ => v
  | _ => v

end

end Fields

end TypingAid
