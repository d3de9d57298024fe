import TypingAid.Buffer.Basic

/-!
# Operations on a buffer

All that can be done to a buffer, as data: an `Operation` is one action of the user or of the
program around the buffer, `Buffer.perform` carries it out, and `Buffer.run` carries out a sequence.
-/

namespace TypingAid

/-- Something that is done to a buffer. Of a command, `asHost` tells whether it has the buffer as
its editor or no editor at all. -/
inductive Operation where
  | type (t : Text) (origin : Origin)
  | insert (t : Text) (origin : Origin)
  | enter
  | backspace
  | undo
  | select (anchor head : Int)
  | setCaret (offset : Int)
  | dispatch (e : Edit)
  | replaceRange (start stop : Int) (t : Text)
  /-- The text becomes another one and nobody is told; the selection stays. -/
  | assignText (t : Text)
  | formatArticle (asHost : Bool)
  | formatOneLine (line : Int) (asHost : Bool)
  | formatSelection (asHost : Bool)
  | insertCodeBlock (asHost : Bool)
  | toggleAutoFormat (asHost : Bool)
  | updateSettings (settings : Value)
  | activate (identity : String) (t : Text) (asHost : Bool)

/-- What an operation answers. -/
inductive Outcome where
  | done
  /-- The edit that was committed, if one was. -/
  | committed (e : Option Edit)
  | flag (b : Bool)
  /-- There is no session that could take the command. -/
  | noSession

namespace Buffer

/-- The answer of a command with the given result, if a session took it. -/
private def commandOutcome {α : Type} (answer : α → Outcome) (r : Buffer × Option α) :
    Buffer × Outcome :=
  (r.1, (r.2.map answer).getD .noSession)

/-- Carries out an operation. -/
def perform (b : Buffer) : Operation → Buffer × Outcome
  | .type t origin => (b.type t origin, .done)
  | .insert t origin => let (b, e) := b.insert t origin; (b, .committed (some e))
  | .enter => let (b, e) := b.pressEnter; (b, .committed (some e))
  | .backspace => let (b, e) := b.backspace; (b, .committed e)
  | .undo => let (b, ok) := b.undo; (b, .flag ok)
  | .select anchor head => (b.select anchor head, .done)
  | .setCaret offset => (b.setCaret offset, .done)
  | .dispatch e => let (b, e) := b.dispatch e; (b, .committed (some e))
  | .replaceRange start stop t => (b.replaceRange start stop t, .done)
  | .assignText t => ({ b with text := t }, .done)
  | .formatArticle asHost =>
    commandOutcome (fun _ => .done) (b.command (·.formatArticle (b.hostView asHost)))
  | .formatOneLine line asHost =>
    commandOutcome .flag (b.command (·.formatOneLine (b.hostView asHost) line))
  | .formatSelection asHost =>
    commandOutcome (fun _ => .done) (b.command (·.formatSelection (b.hostView asHost)))
  | .insertCodeBlock asHost =>
    commandOutcome (fun _ => .done) (b.command (·.insertCodeBlock (b.hostView asHost)))
  | .toggleAutoFormat asHost => commandOutcome .flag (b.command (·.toggleAutoFormat asHost))
  | .updateSettings settings =>
    commandOutcome (fun _ => .done)
      (b.command fun s => (⟨s.updateSettings settings, (), [], []⟩ : Response Unit))
  | .activate identity t asHost => commandOutcome .flag (b.command (·.activate identity t asHost))

/-- Carries out operations one after the other. -/
def run (b : Buffer) (ops : List Operation) : Buffer := ops.foldl (fun b op => (b.perform op).1) b

end Buffer

end TypingAid
