import TypingAid.Rule.Intervention
import TypingAid.Session.Aftermath
import TypingAid.Settings.Fields

/-!
# Sessions

A `Session` is what the typing aid knows about the document in an editor: the settings, the rules,
the outline of the text and which document it is. An editor shows every candidate edit to
`Session.filter` and every committed one to `Session.afterCommit`.

Whatever a session wants from its editor, it asks for by a list of `HostAction`s. So a command is a
function of what the editor shows, and every editor that carries out the actions faithfully gives
the same result.
-/

namespace TypingAid

/-- What a session sees of an editor. -/
structure HostView where
  text : Text
  /-- Where the selection starts. -/
  anchor : Nat
  /-- Where the selection ends, which is where the caret is. -/
  head : Nat
deriving DecidableEq, Repr

/-- What a session asks of an editor. -/
inductive HostAction where
  /-- Replace a part of the text and put the caret behind it. -/
  | replace (start stop : Nat) (text : Text)
  | setCaret (offset : Nat)
  | notify (message : String)
deriving DecidableEq, Repr

/-- What the typing aid knows about the document in an editor. -/
structure Session where
  settings : Settings := {}
  rules : RuleTable := .default
  outline : Outline := .empty
  /-- Which document is in the editor, once one is. -/
  active : Option String := none
deriving DecidableEq, Repr

/-- What comes of a command. -/
structure Response (α : Type) where
  session : Session
  result : α
  actions : List HostAction := []
  log : List LogLine := []

namespace Session

/-- A session for settings as a user writes them. -/
def create (settings : Value) (rules : RuleTable := .default) : Session :=
  { settings := .normalize settings, rules }

/-- The session with other settings, as a user writes them. -/
def updateSettings (s : Session) (settings : Value) : Session :=
  { s with settings := .normalize settings }

/-- The edit that is to be committed in place of a candidate. -/
def filter (s : Session) (doc : Text) (e : Edit) : Edit := intervene s.settings s.rules doc e

/-- What the log says about a candidate. -/
def filterLog (s : Session) (doc : Text) (e : Edit) : List LogLine :=
  LogLine.debugAll (interventionLog s.settings s.rules doc e)

/-- The session after an edit, the edits to commit next, and what the log says. -/
def afterCommit (s : Session) (before after : Text) (e : Edit) (anchor head : Int) :
    Session × List Edit × List LogLine :=
  let a := afterEdit s.settings s.outline before after e anchor head
  ({ s with outline := a.outline }, a.edits, a.log)

/-- What every notice starts with. -/
def noticeStart : String := "EasyTyping: "

/-- A notice for the user, or for the log if there is no editor. -/
def announce (hasHost : Bool) (message : String) : List HostAction × List LogLine :=
  if hasHost then ([.notify (noticeStart ++ message)], [])
  else ([], [⟨.info, noticeStart ++ message⟩])

/-- The session with an outline of the text, a new one if the text is not the one it knows. -/
def sync (s : Session) (t : Text) : Session :=
  if s.outline.isEmpty ∨ t ≠ s.outline.content then { s with outline := .ofText t } else s

/-- A document comes into the editor. The result tells whether it is another one than before; if it
is not, a changed text is taken over without notice. -/
def activate (s : Session) (identity : String) (t : Text) (hasHost : Bool) : Response Bool :=
  let identity := stripString identity
  if s.active = some identity ∧ !s.outline.isEmpty then ⟨s.sync t, false, [], []⟩
  else
    let (actions, log) := announce hasHost ("Parse New Active Article: " ++ identity)
    ⟨{ s with outline := .ofText t, active := some identity }, true, actions, log⟩

end Session

end TypingAid
