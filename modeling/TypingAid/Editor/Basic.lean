import TypingAid.Edit.Diff
import TypingAid.Editor.Event
import TypingAid.Editor.KeyPress
import TypingAid.Editor.Shortcut
import TypingAid.Session.Command
import TypingAid.Settings.WholeNumber

/-!
# Editors

An `Editor` is a widget with a session. The user's key presses become edits; the session sees each
of them, and what it makes of an edit is carried out on the widget, as is what follows from it. The
text can change in other ways as well: the user pastes, drops or takes a change back, and the widget
does that alone. Then the editor compares the text with the last one it knows, and tells the session
what has changed. It listens to every change of the text but those that it makes itself.

The lines are painted anew when the outline has other kinds of lines than before. A change that the
widget made alone is painted only when the widget is idle.
-/

namespace TypingAid

/-- A font, as far as it has been chosen. -/
structure Font where
  family : Option Str := none
  size : Option Int := none
deriving DecidableEq, Repr

namespace Font

/-- The family that a value names. A value that does not count as true names none. -/
def family? (v : Value) : Option Str := if v.isTruthy then some v.display else none

/-- The size that a value means. A value that does not count as true leaves the size open. -/
def size? (v : Value) : Except NotWhole (Option Int) :=
  if v.isTruthy then v.whole?.map some else .ok none

/-- The font that two values mean, if the second one can be a size. -/
def read? (family size : Value) : Except NotWhole Font :=
  (size? size).map fun size => { family := family? family, size }

/-- The font, with what has not been chosen taken from another one. -/
def fillFrom (f g : Font) : Font := { family := f.family.or g.family, size := f.size.or g.size }

end Font

/-- A widget with a session. -/
structure Editor where
  session : Session
  widget : Widget := {}
  /-- The last text that the editor knows of. -/
  snapshot : Text := []
  /-- The editor is changing the text itself, and does not listen. -/
  applying : Bool := false
  /-- What causes the change that the widget is about to make, if that is known. -/
  pendingOrigin : Option Origin := none
  /-- Where the document is stored; empty if nowhere. -/
  filePath : String := ""
  readOnly : Bool := false
  /-- The lines are to be painted as soon as the widget is idle. -/
  repaintDue : Bool := false
  /-- The kinds of lines that were last painted. -/
  painted : List LineKind := [.text]
  font : Font := {}
  shortcuts : List Shortcut := []
  /-- What has happened, the first event first. -/
  events : List Event := []
  log : List LogLine := []
deriving DecidableEq, Repr

namespace Editor

/-- An editor with no text, for settings and key bindings as a user writes them. -/
def create (settings bindings : Value) : Editor :=
  { session := { Session.create settings with outline := .ofText [] }
    shortcuts := Shortcut.ofBindings (.normalize bindings) }

variable (ed : Editor)

/-! ### The text and the selection -/

/-- The text. -/
def text : Text := ed.widget.text

/-- What a session sees of the editor. -/
def view : HostView := ⟨ed.text, ed.widget.anchor, ed.widget.head⟩

/-- The kinds of the lines. -/
def kinds : List LineKind := ed.session.outline.kinds

/-- Adds an event. -/
def tell (e : Event) : Editor := { ed with events := ed.events ++ [e] }

/-- Adds lines to the log. -/
def note (lines : List LogLine) : Editor := { ed with log := ed.log ++ lines }

/-- Puts the caret somewhere and selects nothing. -/
def setCaret (offset : Int) : Editor := { ed with widget := ed.widget.setCaret offset }

/-- Selects from one offset to another. A negative offset counts from the end. -/
def select (anchor head : Int) : Editor :=
  let units (n : Int) : Nat := Text.toUnits ed.text (Text.resolve ed.text n)
  { ed with widget := ed.widget.select (units anchor) (units head) }

/-! ### Painting -/

/-- Paints all lines. -/
def repaint : Editor :=
  { ed.tell (.repainted (shades ed.text ed.kinds)) with painted := ed.kinds }

/-- Paints the lines if their kinds are not these. -/
def repaintUnless (kinds : List LineKind) : Editor := if ed.kinds = kinds then ed else ed.repaint

/-- Does what has been put off. -/
def settle : Editor :=
  if ed.repaintDue then { ed.repaint with repaintDue := false } else ed

/-! ### Changes of the text -/

/-- Tells the session about an edit that turned `before` into the text. The result holds the edits
that follow from it. -/
def report (before : Text) (e : Edit) (anchor head : Int) : Editor × List Edit :=
  let (session, edits, log) := ed.session.afterCommit before ed.text e anchor head
  ({ ed with session }.note log, edits)

/-- Takes note of a text that has changed, unless the editor is changing it itself. The caret is
taken to stand behind the change. -/
def hear : Editor :=
  if ed.applying then ed
  else match Text.diff? ed.snapshot ed.text with
    | none => ed
    | some span =>
      let caret := span.start + span.insert.length
      let heard := ({ ed with snapshot := ed.text }.report ed.snapshot
        { spans := [span], origin := ed.pendingOrigin.getD .program } caret caret).1
      if heard.kinds = ed.kinds then heard else { heard.tell (.deferred 0) with repaintDue := true }

/-- Replaces a part of the widget's text. The widget tells the editor, which may listen. -/
def change (r : Replacement) : Editor := { ed with widget := ed.widget.replace r }.hear

/-- Does something without listening. -/
def unheard (f : Editor → Editor) : Editor :=
  { f { ed with applying := true } with applying := false }

/-- Replaces one part of the text after the other with a single cursor. Each part is given by
offsets of the text `doc`. The result holds what was replaced, the first replacement first. -/
def changeEach (doc : Text) : Editor → Cursor → List (Int × Int × Text) →
    Editor × List Replacement
  | ed, _, [] => (ed, [])
  | ed, c, (start, stop, t) :: rest =>
    let c := c.moveTo ed.widget.length (Text.toUnits doc start)
    let c := c.extendTo ed.widget.length (Text.toUnits doc stop)
    let r := c.replacement t
    let (done, rs) := changeEach doc (ed.change r) ⟨r.newStop, r.newStop⟩ rest
    (done, r :: rs)

/-- Replaces parts of the text, as one step for undoing. -/
def replaceEach (doc : Text) (parts : List (Int × Int × Text)) : Editor :=
  let (done, replacements) := changeEach doc ed {} parts
  done.tell (.edited replacements)

/-- Replaces a part of the text for the session or the program, and puts the caret behind it. -/
def replaceRange (start stop : Int) (t : Text) : Editor :=
  let done := ed.unheard fun ed => ed.replaceEach ed.text [(start, stop, t)]
  { done with snapshot := done.text }.setCaret (start + t.length)

/-! ### Edits -/

/-- Carries out an edit of the text. -/
def carryOut (e : Edit) : Editor :=
  ed.unheard fun ed =>
    let done :=
      if e.isChange then
        ed.replaceEach ed.text
          ((Span.descending e.spans).map fun s => (s.start, s.stop, s.insert))
      else ed
    match e.targetCaret with
    | some caret => done.setCaret caret
    | none => done

/-- Carries out an edit and tells the session. The result holds the edits that follow from it. -/
def commitOne (e : Edit) : Editor × List Edit :=
  let done := ed.carryOut e
  done.report ed.text e done.widget.anchor done.widget.head

/-- Shows an edit to the session, carries out what it makes of it, and what follows. -/
def commit (e : Edit) : Editor :=
  let e' := ed.session.filter ed.text e
  let (done, followUps) := (ed.note (ed.session.filterLog ed.text e)).commitOne e'
  let done := followUps.foldl (fun ed e => (ed.commitOne e).1) done
  { done with snapshot := done.text }.repaintUnless ed.kinds

/-- Does what a session asks for. -/
def act : HostAction → Editor
  | .replace start stop t => ed.replaceRange start stop t
  | .setCaret offset => ed.setCaret offset
  | .notify message => ed.tell (.notice message)

/-! ### Input -/

/-- Takes a key press. The result tells whether the editor has dealt with it. -/
def press (k : KeyPress) : Editor × Bool :=
  let edit? := if ed.readOnly then none else k.edit? ed.widget.anchor ed.widget.head ed.text
  match edit? with
  | none => (ed.tell .keyLeft, false)
  | some e => (ed.commit e, true)

/-- Takes what an input method gives: text to put in, text that may still change, and how much of
the text to take away first. Only finished text that takes nothing away is dealt with here. -/
def compose (finished unfinished : Text) (takesAway : Bool) : Editor × Bool :=
  if ed.readOnly || !unfinished.isEmpty || takesAway then
    (ed.tell (.inputLeft finished unfinished), false)
  else match composedEdit? finished ed.widget.anchor ed.widget.head with
    | none => (ed.tell (.inputLeft finished unfinished), false)
    | some e => ((ed.tell (.inputLeft [] [])).commit e, true)

/-- Lets the widget put a text in the place of the selection. -/
def paste (t : Text) : Editor :=
  let ed := { ed with pendingOrigin := some .paste }.tell .pasteLeft
  let done := ed.change (ed.widget.cursor.replacement t)
  { done with pendingOrigin := none }.settle

/-- Another part of the program replaces a part of the text and puts the caret behind it. A negative
offset counts from the end. -/
def alter (start stop : Int) (t : Text) : Editor :=
  let units (n : Int) : Nat := Text.toUnits ed.text (Text.resolve ed.text n)
  let r := Cursor.replacement ⟨units start, units stop⟩ t
  let ed := ed.change r
  { ed with widget := ed.widget.setCursor r.newStop }.settle

/-! ### Documents, settings and commands -/

/-- Shows the document that is stored under a path. -/
def openDocument (path : String) (t : Text) : Editor :=
  let shown := ed.unheard fun ed => { ed with widget := { text := t } }.hear
  let r := shown.session.activate path shown.text true
  let ed := { shown with session := r.session, snapshot := shown.text, filePath := path }
  (r.actions.foldl act (ed.note r.log)).repaint

/-- Takes other typing settings, as a user writes them. -/
def updateSettings (settings : Value) : Editor :=
  { ed with session := ed.session.updateSettings settings }

/-- Binds the keys anew, as a user writes it. -/
def bindKeys (bindings : Value) : Editor :=
  { ed with shortcuts := Shortcut.rebind ed.shortcuts (.normalize bindings) }

/-- Chooses a font. What has not been chosen stays as it was. -/
def setFont (f : Font) : Editor := { ed with font := f.fillFrom ed.font }

/-- Lets the session run a command that changes the text. -/
def runCommand {α : Type} (run : Session → Response α) : Editor :=
  let r := run ed.session
  let done := r.actions.foldl act ({ ed with session := r.session }.note r.log)
  { done with snapshot := done.text }.repaintUnless ed.kinds

/-- Switches tidying on or off. The result tells which. -/
def toggleAutoFormat : Editor × Bool :=
  let r := ed.session.toggleAutoFormat true
  (r.actions.foldl act ({ ed with session := r.session }.note r.log), r.result)

/-- Carries out a command. A command that switches something tells how it is now. Saving is not up
to the editor. -/
def command : Command → Editor × Option Bool
  | .formatArticle => (ed.runCommand (·.formatArticle (some ed.view)), none)
  | .formatSelection => (ed.runCommand (·.formatSelection (some ed.view)), none)
  | .insertCodeBlock => (ed.runCommand (·.insertCodeBlock (some ed.view)), none)
  | .toggleAutoFormat => let (ed, on) := ed.toggleAutoFormat; (ed, some on)
  | .save => (ed, none)

/-- Carries out what a chord stands for. -/
def strike (chord : Points) : Editor :=
  (Shortcut.commandsOf ed.shortcuts chord).foldl (fun ed c => (ed.command c).1) ed

end Editor

end TypingAid
