import TypingAid.Settings.App
import TypingAid.Settings.Store

/-!
# Preferences

`Preferences` is the store of the program's own settings file. Loading normalizes what the file
says, and saves the file if it was missing or had to be changed. A file that could not be read is
not saved over.
-/

namespace TypingAid

/-- The program's own settings. -/
structure Preferences where
  store : Store

/-- Why the program's settings cannot be made ready. -/
inductive PreferencesError where
  /-- The settings file cannot be written. -/
  | notWritten
  /-- The settings hold a string that is not a text, and no file can hold it. -/
  | notText
  /-- A number of the settings file is infinite. -/
  | infiniteNumber
deriving DecidableEq, Repr

/-- What it is to the settings that their file cannot be written. -/
def PreferencesError.ofFileError : FileError → PreferencesError
  | .unencodable => .notText
  | _ => .notWritten

/-- What comes of loading. -/
structure Loaded where
  preferences : Preferences
  disk : Disk
  error : Option PreferencesError := none
  log : List LogLine := []

namespace Preferences

/-- The name of the settings file. -/
def defaultFileName : String := "settings.json"

/-- The settings in a folder. -/
def create (folder : Path) (fileName : String := defaultFileName) (persistent : Bool := true) :
    Preferences :=
  ⟨{ path := folder ++ .ofString fileName, defaults := AppFields.defaults, persistent }⟩

variable (p : Preferences)

/-- Writes the settings file. -/
def save (d : Disk) : Preferences × Disk × Option PreferencesError :=
  let (store, d, e) := p.store.save d
  (⟨store⟩, d, e.map .ofFileError)

/-- Makes what was loaded what the program needs. The result tells whether that changed anything; if
it could not be done, there is none. -/
def normalize : Preferences × Option Bool :=
  let (data, complete) := AppFields.normalize p.store.data
  let changed := !(Value.object data).looselyEqual (.object p.store.data)
  if !complete then (⟨{ p.store with data }⟩, none)
  else (⟨{ p.store with data, dirty := p.store.dirty || changed }⟩, some changed)

/-- Takes the settings file over. -/
def load (d : Disk) : Loaded :=
  let (store, log) := p.store.load d
  match (Preferences.mk store).normalize with
  | (p, none) => { preferences := p, disk := d, error := some .infiniteNumber, log }
  | (p, some changed) =>
    let log :=
      if changed then log ++ [⟨.debug, "settings normalized in " ++ p.store.path.text⟩] else log
    if p.store.lastError.isNone && p.store.dirty then
      let (p, d, error) := p.save d
      { preferences := p, disk := d, error, log }
    else { preferences := p, disk := d, log }

/-- Why the settings file is not used; empty if it is. -/
def loadError : String := ((p.store.lastError.map (·.message p.store.path)).getD "")

/-- The value that a dotted key names; null if there is none. -/
def value (key : Str) : Value := (p.store.get? key).getD .null

/-- The typing settings. -/
def settings : Settings := .normalize (p.value "easy_typing")

/-- The key bindings. -/
def bindings : Bindings := .normalize (p.value "keybindings")

/-- The looks of the editor. -/
def editor : Value := if (p.value "editor").isTruthy then p.value "editor" else .object []

/-- Changes some of the typing settings. The result holds the settings after the change. -/
def updateSettings (changes : Fields) : Preferences × Settings :=
  let merged := changes.foldl (fun fs (name, v) => Assoc.put name v fs) p.settings.toFields
  let settings := Settings.normalize (.object merged)
  (⟨p.store.set "easy_typing" settings.toValue⟩, settings)

end Preferences

end TypingAid
