import TypingAid.App.Basic

/-!
# The command line

The program opens the first of the named files that there is, or else the one opened last. It types
standard input into it as a user would, saves it, and closes the window, which saves the settings.

Standard output shows the messages of the status line, standard error the log. The variable
`EASYTYPING_APP_DIR` names the folder of the settings.
-/

namespace TypingAid

/-- The disk with a file as it is found now, if it can be read. -/
def fetch (d : Disk) (path : Path) : IO Disk := do
  match ← (IO.FS.readBinFile path.text).toBaseIO with
  | .error _ => return d
  | .ok content =>
    let added := (d.makeFolder path.parent).bind (·.write path content.toList)
    return added.toOption.getD d

/-- The disk with the named files. -/
def fetchAll (d : Disk) (names : List Str) : IO Disk :=
  names.foldlM
    (fun d name =>
      match (Path.ofText name.legible).expandHome? d.home with
      | none => pure d
      | some path => fetch d (path.resolve d.workDir)) d

/-- Writes the files that have changed. -/
def store (old new : Disk) : IO Unit :=
  for (place, node) in new.nodes do
    match node with
    | .folder => pure ()
    | .file content =>
      if old.node? place ≠ some node then
        let path : Path := ⟨1, place⟩
        IO.FS.createDirAll path.parent.text
        IO.FS.writeBinFile path.text ⟨content.toArray⟩

/-- All of a stream. -/
partial def readAll (input : IO.FS.Stream) (done : String) : IO String := do
  let line ← input.getLine
  if line.isEmpty then return done else readAll input (done ++ line)

/-- The key for a character. -/
def keyFor (c : Char) : KeyPress := if c = '\n' then { key := .enter } else .ofChar c

/-- The program after a text has been typed, and the document and the settings have been saved. -/
def App.typeAndClose (app : App) (t : Text) : App :=
  (t.foldl (fun app c => (app.perform (.press (keyFor c))).1) app).saveFile.close

/-- What is said when the program cannot start. -/
def StartError.message : StartError → String
  | .preferences .notWritten => "The settings cannot be written."
  | .preferences .notText => "The settings hold a string that is not a text."
  | .preferences .infiniteNumber => "A number of the settings is infinite."
  | .unknownHome => "The home of this user is not known."
  | .document .undecodable => "The file is not a text."
  | .document _ => "The file cannot be read."

/-- Runs the program on the files that are found. -/
def runProgram (arguments : List String) : IO UInt32 := do
  let workDir := Path.ofString (← IO.currentDir).toString
  let home := ((← IO.getEnv "HOME").map Path.ofString).getD workDir
  let wanted := (← IO.getEnv "EASYTYPING_APP_DIR").getD ""
  let d ← fetchAll { workDir, home } (arguments.map .text)
  let d ← match App.settingsFolder? d wanted with
    | none => pure d
    | some folder => do
      let d ← fetch d (folder ++ .ofString Preferences.defaultFileName)
      fetchAll d (App.candidates ((Preferences.create folder).load d).preferences [])
  match App.start d wanted arguments with
  | .error e =>
    IO.eprintln e.message
    return 1
  | .ok app =>
    let app := app.typeAndClose (← readAll (← IO.getStdin) "").toList
    store d app.disk
    for line in app.log do
      IO.eprintln line.text
    for event in app.events do
      match event with
      | .status message _ => IO.println message
      | _ => pure ()
    return 0

end TypingAid

def main (arguments : List String) : IO UInt32 := TypingAid.runProgram arguments
