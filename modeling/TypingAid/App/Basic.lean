import TypingAid.Editor.Operation
import TypingAid.Settings.Preferences

/-!
# The program

An `App` is a window with an editor, and the program's settings on a disk. At the start it reads the
settings, makes the editor as they say, and opens the first file that there is of those named on the
command line and of the one opened last. When the window is closed, the settings are saved, with the
switches as they are in the editor.

Notices of the editor go to the status line.
-/

namespace TypingAid

/-- A window with an editor, and the program's settings on a disk. -/
structure App where
  editor : Editor
  preferences : Preferences
  disk : Disk
  title : String := ""
  width : Int
  height : Int
  /-- Width of a tab, in blanks. -/
  tabStop : Int
  /-- Lines that are too long are broken on the screen. -/
  wraps : Bool
  /-- What is noted in the log. -/
  level : LogLevel

/-- Why the program cannot start. -/
inductive StartError where
  /-- The settings cannot be made ready. -/
  | preferences (e : PreferencesError)
  /-- A path starts in the home of a user who is not known. -/
  | unknownHome
  /-- The file to open cannot be read. -/
  | document (e : FileError)
deriving DecidableEq, Repr

namespace App

/-- The name of the program. -/
def appName : String := "EasyTyping"

/-- The folder in the user's home that holds the settings. -/
def settingsFolderName : String := ".easytyping"

/-- The folder that holds the settings: the one asked for, if any. -/
def settingsFolder? (d : Disk) (wanted : String) : Option Path :=
  let wanted := stripString wanted
  let folder? :=
    if wanted = "" then some (d.home ++ .ofString settingsFolderName)
    else (Path.ofString wanted).expandHome? d.home
  folder?.map (·.resolve d.workDir)

/-- The first of the named files that there is. A string that is not a text names no file. -/
def firstFile (d : Disk) : List Str → Except StartError (Option Path)
  | [] => .ok none
  | name :: rest =>
    match (Path.ofText name.legible).expandHome? d.home with
    | none => .error .unknownHome
    | some path => if name.isText && d.isFile path then .ok (some path) else firstFile d rest

/-- The files to try at the start: those of the command line, then the one opened last. -/
def candidates (p : Preferences) (arguments : List String) : List Str :=
  let last := (p.value "window.last_open_file").word
  arguments.map .text ++ if last = "" then [] else [last]

/-- How long the status line shows a notice, in milliseconds. -/
def noticeTime : Nat := 4000

/-- How long the status line tells of a saved file, in milliseconds. -/
def savedTime : Nat := 2000

variable (app : App)

/-- Adds an event. -/
def tell (e : Event) : App := { app with editor := app.editor.tell e }

/-- Adds a line to the log. -/
def note (level : LogLevel) (message : String) : App :=
  { app with editor := app.editor.note [⟨level, message⟩] }

/-- What has happened. Notices are messages of the status line. -/
def events : List Event :=
  app.editor.events.map fun
    | .notice message => .status message noticeTime
    | e => e

/-- What the log says. -/
def log : List LogLine := LogLine.atLeast app.level app.editor.log

/-! ### Files -/

/-- Opens a file. -/
def openFile (path : Path) : Except FileError App :=
  match app.disk.readText path with
  | .error e => .error e
  | .ok t =>
    .ok { app with
      editor := app.editor.openDocument path.text t
      preferences := ⟨app.preferences.store.set "window.last_open_file" (.str path.text)⟩
      title := appName ++ " [" ++ path.name ++ "]" }

/-- Saves the document, if it is stored anywhere. -/
def saveFile : App :=
  let path := app.editor.filePath
  if path = "" then app
  else match app.disk.writeText (.ofString path) app.editor.text with
    | .error _ => app.note .error ("Could not save " ++ path)
    | .ok disk => { app with disk }.tell (.status ("Saved " ++ path) savedTime)

/-! ### The window -/

/-- The window for settings that have been read. -/
def window (p : Preferences) (d : Disk) : App :=
  let looks := AppFields.field p.editor.fields
  let whole (v : Value) (default : Int) : Int :=
    match v.whole? with
    | .ok n => if v.isTruthy then n else default
    | .error _ => default
  let font : Font :=
    { family := Font.family? (looks "font_family")
      size := some (whole (looks "font_size") AppFields.fontSize.default) }
  let editor := (Editor.create p.settings.toValue p.bindings.toValue).setFont font
  { editor := { editor with shortcuts := editor.shortcuts ++ [.standardSave] }
    preferences := p
    disk := d
    width := whole (p.value "window.width") AppFields.windowWidth.default
    height := whole (p.value "window.height") AppFields.windowHeight.default
    tabStop := whole (looks "tab_width") AppFields.tabWidth.default
    wraps := (looks "word_wrap").isTruthy
    level := if (p.value "easy_typing.debug").isTruthy then .debug else .info }

/-- What the log says about reading the settings. -/
def loadingLog (l : Loaded) : List LogLine :=
  let reason := l.preferences.loadError
  LogLine.atLeast .info <|
    l.log ++ if reason = "" then [] else [⟨.warning, "Settings not loaded: " ++ reason⟩]

/-- Starts the program. -/
def start (d : Disk) (wantedFolder : String) (arguments : List String) : Except StartError App :=
  match settingsFolder? d wantedFolder with
  | none => .error .unknownHome
  | some folder =>
    let loaded := (Preferences.create folder).load d
    match loaded.error with
    | some e => .error (.preferences e)
    | none =>
      let app := window loaded.preferences loaded.disk
      let app := { app with editor := (app.editor.note (loadingLog loaded)).tell (.named appName) }
      match firstFile app.disk (candidates app.preferences arguments) with
      | .error e => .error e
      | .ok none => .ok app
      | .ok (some path) => (app.openFile path).mapError .document

/-- Makes the window another size. -/
def resize (width height : Int) : App := { app with width, height }

/-- The preferences with the switches and the size of the window as they are now. -/
def leaving : Preferences :=
  let p := (app.preferences.updateSettings app.editor.session.settings.toFields).1
  ⟨(p.store.set "window.width" (.int app.width)).set "window.height" (.int app.height)⟩

/-- Closes the window and saves the settings. If they cannot be saved the log says so, but settings
that are not texts stop the closing. -/
def close : App :=
  let (preferences, disk, error) := app.leaving.save app.disk
  let app := { app with preferences, disk }
  match error with
  | none => app.tell .closeLeft
  | some .notText => app
  | some _ => (app.note .error "Could not save settings").tell .closeLeft

/-- Carries out what a chord stands for. -/
def strike (chord : Points) : App :=
  (Shortcut.commandsOf app.editor.shortcuts chord).foldl
    (fun app c =>
      if c = .save then app.saveFile else { app with editor := (app.editor.command c).1 }) app

/-- Carries out an operation of the editor. -/
def perform (op : Editor.Operation) : App × Editor.Outcome :=
  match op with
  | .strike chord => (app.strike chord, .done)
  | op =>
    let (editor, outcome) := app.editor.perform op
    ({ app with editor }, outcome)

end App

end TypingAid
