import TypingAid.App.Basic

/-!
# What happens to a window

All that can happen to a window between its start and its end, as data: an `App.Action` is one
event, `App.act` is what becomes of the window, and `App.run` takes a sequence of them.
-/

namespace TypingAid.App

/-- Something that happens to a window. -/
inductive Action where
  /-- Something is done to the editor. -/
  | edit (op : Editor.Operation)
  /-- A file is opened, if it can be read. -/
  | openFile (path : Path)
  | saveFile
  | resize (width height : Int)
  /-- Other programs change the disk. -/
  | disturb (d : Disk)

/-- The window after that. -/
def act (app : App) : Action → App
  | .edit op => (app.perform op).1
  | .openFile path => (app.openFile path).toOption.getD app
  | .saveFile => app.saveFile
  | .resize width height => app.resize width height
  | .disturb disk => { app with disk }

/-- The window after one thing has happened after the other. -/
def run (app : App) (actions : List Action) : App := actions.foldl act app

end TypingAid.App
