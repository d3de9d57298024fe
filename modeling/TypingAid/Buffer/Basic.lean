import TypingAid.Session.Command

/-!
# Buffers

A `Buffer` is an editor without a screen: a text, a selection and a history for undoing. It runs
edits through its session as an editor on the screen does. Every change of the text is one step of
the history, and so is every edit that follows from another.

Undoing takes the text and the selection of the last step back. The session hears of it as of an
edit that replaces the whole text, and nothing follows from that.
-/

namespace TypingAid

/-- A text and a selection that undoing can go back to. -/
structure Snapshot where
  text : Text
  anchor : Nat
  head : Nat
deriving DecidableEq, Repr

/-- An editor without a screen. -/
structure Buffer where
  text : Text
  anchor : Nat
  head : Nat
  session : Option Session := none
  /-- Notices for the user, the first one first. -/
  notices : List String := []
  /-- What undoing goes back to, the last step first. -/
  history : List Snapshot := []
  log : List LogLine := []
deriving DecidableEq, Repr

namespace Buffer

/-! ### The text and the selection -/

/-- What a session sees of the buffer. -/
def view (b : Buffer) : HostView := ⟨b.text, b.anchor, b.head⟩

/-- The start and the end of the selection. -/
def selection (b : Buffer) : Nat × Nat := (min b.anchor b.head, max b.anchor b.head)

/-- Selects from one offset to another, both clamped. -/
def select (b : Buffer) (anchor head : Int) : Buffer :=
  { b with anchor := Text.clamp b.text anchor, head := Text.clamp b.text head }

/-- Puts the caret somewhere and selects nothing. -/
def setCaret (b : Buffer) (offset : Int) : Buffer := b.select offset offset

/-- Notes the present text and selection in the history. -/
def remember (b : Buffer) : Buffer :=
  { b with history := ⟨b.text, b.anchor, b.head⟩ :: b.history }

/-- Replaces a part of the text behind the session's back and puts the caret behind it. Negative
offsets count from the end. -/
def replaceRange (b : Buffer) (start stop : Int) (t : Text) : Buffer :=
  let b := b.remember
  { b with text := Text.spliceRel b.text start stop t }.setCaret (start + t.length)

/-- Does what a session asks for. -/
def act (b : Buffer) : HostAction → Buffer
  | .replace start stop t => b.replaceRange start stop t
  | .setCaret offset => b.setCaret offset
  | .notify message => { b with notices := b.notices ++ [message] }

/-- Adds lines to the log. -/
def note (b : Buffer) (lines : List LogLine) : Buffer := { b with log := b.log ++ lines }

/-! ### Edits -/

/-- Carries out an edit as it is. -/
def commit (b : Buffer) (e : Edit) : Buffer :=
  let b := if e.isChange then let b := b.remember; { b with text := e.apply b.text } else b
  match e.targetCaret with
  | some caret => b.setCaret caret
  | none => b

/-- Tells the session about an edit that has been committed to `before`. The result holds the edits
that follow from it. -/
def report (b : Buffer) (before : Text) (e : Edit) : Buffer × List Edit :=
  match b.session with
  | none => (b, [])
  | some s =>
    let (s, edits, log) := s.afterCommit before b.text e b.anchor b.head
    ({ b with session := some s }.note log, edits)

/-- Commits an edit that follows from another, and from which nothing follows. -/
def commitFollowUp (b : Buffer) (e : Edit) : Buffer := ((b.commit e).report b.text e).1

/-- Shows an edit to the session, commits what it makes of it, and commits what follows. The result
holds the edit that was committed. -/
def dispatch (b : Buffer) (e : Edit) : Buffer × Edit :=
  let (e', log) :=
    match b.session with
    | none => (e, [])
    | some s => (s.filter b.text e, s.filterLog b.text e)
  let (done, followUps) := ((b.note log).commit e').report b.text e'
  (followUps.foldl commitFollowUp done, e')

/-- Puts a text in place of the selection. -/
def insert (b : Buffer) (t : Text) (origin : Origin := .typed) : Buffer × Edit :=
  b.dispatch (.single b.selection.1 b.selection.2 t origin)

/-- Puts characters in one by one. -/
def type (b : Buffer) (t : Text) (origin : Origin := .typed) : Buffer :=
  t.foldl (fun b c => (b.insert [c] origin).1) b

/-- Breaks the line. -/
def pressEnter (b : Buffer) : Buffer × Edit := b.insert ['\n'] .input

/-- Deletes the selection, or the character before the caret if there is one. -/
def backspace (b : Buffer) : Buffer × Option Edit :=
  let (start, stop) := b.selection
  let start := if start = stop then start - 1 else start
  if start = stop then (b, none)
  else
    let (b, e) := b.dispatch (.single start stop [] .deleteBackward)
    (b, some e)

/-- Goes one step back in the history. The result tells whether there was one. -/
def undo (b : Buffer) : Buffer × Bool :=
  match b.history with
  | [] => (b, false)
  | last :: rest =>
    let back := { b with text := last.text, history := rest }.select last.anchor last.head
    ((back.report b.text (.single 0 b.text.length last.text .program)).1, true)

/-! ### Commands of the session -/

/-- Gives the session a command, and does what it asks for. Without a session the buffer stays. -/
def command {α : Type} (b : Buffer) (run : Session → Response α) : Buffer × Option α :=
  match b.session with
  | none => (b, none)
  | some s =>
    let r := run s
    (r.actions.foldl act ({ b with session := some r.session }.note r.log), some r.result)

/-- What a command sees: the buffer, or no editor at all. -/
def hostView (b : Buffer) (asHost : Bool) : Option HostView := if asHost then some b.view else none

/-- A buffer with a text, the caret at its end. The session, if there is one, takes the text as that
of a document. -/
def create (t : Text) (session : Option Session := none) (identity : String := "untitled.md") :
    Buffer :=
  (({ text := t, anchor := t.length, head := t.length, session } : Buffer).command
    (·.activate identity t true)).1

end Buffer

end TypingAid
