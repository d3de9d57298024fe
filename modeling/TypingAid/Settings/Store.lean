import TypingAid.Json.Printer
import TypingAid.Json.Reader
import TypingAid.Session.Log
import TypingAid.Settings.DotKey
import TypingAid.Storage.Disk

/-!
# The settings store

A `Store` keeps the content of a settings file, with defaults for what the file does not say. A file
that cannot be read does no harm: the defaults are used, the reason is kept, and the file is left
alone until somebody saves. A store that is not persistent never looks at the disk.
-/

namespace TypingAid

/-- Why a settings file is not used. -/
inductive LoadError where
  /-- It is not a text, or not a JSON document. -/
  | unreadable
  /-- It holds a value that is not an object. -/
  | notObject (kind : String)
deriving DecidableEq, Repr

/-- The reason in words. -/
def LoadError.message (path : Path) : LoadError → String
  | unreadable => "Could not read settings file '" ++ path.text ++ "'"
  | notObject kind =>
    "Settings root in '" ++ path.text ++ "' must be a JSON object, found " ++ kind ++ "."

/-- The content of a settings file. -/
structure Store where
  path : Path
  /-- What counts for what the file does not say. -/
  defaults : Fields
  persistent : Bool := true
  data : Fields := []
  /-- There is something to save. -/
  dirty : Bool := false
  lastError : Option LoadError := none

namespace Store

/-- The value of a settings file, or why there is none. -/
def readFile (d : Disk) (path : Path) : Except LoadError Fields :=
  match d.readText path with
  | .error _ => .error .unreadable
  | .ok t =>
    match Value.parse? t with
    | none => .error .unreadable
    | some (.object fs) => .ok fs
    | some v => .error (.notObject v.kindName)

/-- The warning about a file that is not used. -/
def warning (path : Path) (e : LoadError) : LogLine :=
  match e with
  | .unreadable => ⟨.warning, e.message path⟩
  | .notObject _ => ⟨.warning, e.message path ++ " Using defaults."⟩

/-- Takes the content of the file over. -/
def load (s : Store) (d : Disk) : Store × List LogLine :=
  let fresh := Fields.mergeDefaults [] s.defaults
  if !s.persistent then ({ s with data := fresh, dirty := false, lastError := none }, [])
  else if !d.holds s.path then ({ s with data := fresh, dirty := true, lastError := none }, [])
  else match readFile d s.path with
    | .ok fs =>
      ({ s with data := Fields.mergeDefaults fs s.defaults, dirty := false, lastError := none }, [])
    | .error e =>
      ({ s with
          data := Fields.mergeDefaults s.data s.defaults, dirty := false, lastError := some e },
        [warning s.path e])

/-- What the settings file is to hold. -/
def content (s : Store) : Str := (Value.object s.data).pretty

/-- Writes the settings file. -/
def save (s : Store) (d : Disk) : Store × Disk × Option FileError :=
  if !s.persistent then ({ s with dirty := false }, d, none)
  else match d.writeSafely s.path s.content with
    | (d, some e) => (s, d, some e)
    | (d, none) => ({ s with dirty := false, lastError := none }, d, none)

/-- What is said when the file cannot be written. -/
def writeFailure (s : Store) : String := "Could not write settings file '" ++ s.path.text ++ "'"

/-- The value that a dotted key names. -/
def get? (s : Store) (key : Str) : Option Value := Fields.at? s.data key

/-- Nothing changes when this value comes in the place of that one. -/
def isSame (old new : Value) : Bool := old.looselyEqual new && !old.isNan

/-- Gives a dotted key a value, unless it has an equal one. The result tells whether it was given
one. The empty key cannot be given another value. -/
def set? (s : Store) (key : Str) (v : Value) : Option (Store × Bool) :=
  if (s.get? key).any fun old => isSame old v then some (s, false)
  else (Fields.setAt? s.data key v).map fun data => ({ s with data, dirty := true }, true)

/-- Gives a dotted key that is not empty a value. -/
def set (s : Store) (key : Str) (v : Value) : Store := ((s.set? key v).map Prod.fst).getD s

/-- Takes away the value of a dotted key. The result tells whether there was one. -/
def delete (s : Store) (key : Str) : Store × Bool :=
  match Fields.deleteAt? s.data key with
  | none => (s, false)
  | some data => ({ s with data, dirty := true }, true)

/-- A dotted key has a value. -/
def has (s : Store) (key : Str) : Bool := (s.get? key).isSome

/-- Goes back to the defaults. -/
def restoreDefaults (s : Store) : Store := { s with data := s.defaults, dirty := true }

end Store

end TypingAid
