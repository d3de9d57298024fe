import TypingAid.Keys.Binding
import TypingAid.Settings.DotKey
import TypingAid.Settings.Fields
import TypingAid.Settings.WholeNumber

/-!
# Settings of the program

The settings file has four objects: the typing settings, the key bindings, the looks of the editor
and the window. `AppFields.normalize` makes each of them what the program needs and leaves all else
in the file as it is. A number out of range is moved to the nearest end of the range, and what is no
number gives the default. An infinite number cannot be moved anywhere: the fields that come after it
stay as they are, and the program is told.
-/

namespace TypingAid

/-! ### Ranges -/

/-- A range of whole numbers, and the number that counts when there is none. -/
structure NumberRange where
  least : Int
  greatest : Int
  default : Int
deriving DecidableEq, Repr

namespace NumberRange

/-- The number of the range that is nearest. -/
def clamp (r : NumberRange) (n : Int) : Int := max r.least (min r.greatest n)

/-- The number of the range that a value means, unless it is infinite. -/
def read? (r : NumberRange) (v : Value) : Option Int :=
  match v.whole? with
  | .ok n => some (r.clamp n)
  | .error .infinite => none
  | .error _ => some r.default

end NumberRange

/-! ### Fields -/

namespace AppFields

def fontSize : NumberRange := ⟨6, 48, 11⟩
def tabWidth : NumberRange := ⟨1, 16, 4⟩
def windowWidth : NumberRange := ⟨320, 10000, 960⟩
def windowHeight : NumberRange := ⟨240, 10000, 720⟩

/-- The looks of the editor by default. -/
def editorDefaults : Fields :=
  [("font_family", .str ""), ("font_size", .int fontSize.default),
    ("tab_width", .int tabWidth.default), ("word_wrap", .bool true)]

/-- The window by default. -/
def windowDefaults : Fields :=
  [("width", .int windowWidth.default), ("height", .int windowHeight.default),
    ("last_open_file", .str "")]

/-- The settings file by default. -/
def defaults : Fields :=
  [("easy_typing", ({} : Settings).toValue), ("editor", .object editorDefaults),
    ("window", .object windowDefaults), ("keybindings", Bindings.default.toValue)]

/-- The field with a name; null if there is none. -/
def field (fs : Fields) (name : Str) : Value := (Assoc.get? name fs).getD .null

/-- The looks of the editor that a value means. -/
def editor? (v : Value) : Option Fields := do
  let fs := Fields.mergeDefaults v.fields editorDefaults
  let size ← fontSize.read? (field fs "font_size")
  let tab ← tabWidth.read? (field fs "tab_width")
  let fs := Assoc.put ↑"font_family" (.str (field fs "font_family").word) fs
  let fs := Assoc.put ↑"font_size" (.int size) fs
  let fs := Assoc.put ↑"tab_width" (.int tab) fs
  return Assoc.put ↑"word_wrap" (.bool ((field fs "word_wrap").toSwitch true)) fs

/-- The window that a value means. -/
def window? (v : Value) : Option Fields := do
  let fs := Fields.mergeDefaults v.fields windowDefaults
  let width ← windowWidth.read? (field fs "width")
  let height ← windowHeight.read? (field fs "height")
  let fs := Assoc.put ↑"width" (.int width) fs
  let fs := Assoc.put ↑"height" (.int height) fs
  return Assoc.put ↑"last_open_file" (.str (field fs "last_open_file").word) fs

/-- The fields with a new object under a name, and the rest of the work; if there is no new object,
the work ends here, and is not complete. -/
def putOr (name : Str) (new : Option Fields) (fs : Fields) (next : Fields → Fields × Bool) :
    Fields × Bool :=
  match new with
  | none => (fs, false)
  | some inner => next (Assoc.put name (.object inner) fs)

/-- The fields as the program needs them. The second part tells whether all is done. -/
def normalize (fs : Fields) : Fields × Bool :=
  let fs := Assoc.put ↑"easy_typing" (Settings.normalize (field fs "easy_typing")).toValue fs
  let fs := Assoc.put ↑"keybindings" (Bindings.normalize (field fs "keybindings")).toValue fs
  putOr "editor" (editor? (field fs "editor")) fs fun fs =>
    putOr "window" (window? (field fs "window")) fs fun fs => (fs, true)

end AppFields

end TypingAid
