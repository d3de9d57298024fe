import TypingAid.Block.Outline
import TypingAid.Line.Tidy
import TypingAid.Session.Log

/-!
# After an edit

When an edit has been committed, the outline of the document has to follow, and the line of the edit
may have to be tidied. `Outline.follow` does the first: it looks at the line where each span of the
edit now starts, and classifies anew from there if the edit could have opened, closed or split a
block, or if the line is no longer what it was. `afterEdit` does both and gives the edits that tidy
the line. Only settled input into prose is tidied, and only if nothing was taken away and nothing is
selected.
-/

namespace TypingAid

/-- What follows from an edit. -/
structure Aftermath where
  outline : Outline
  /-- The edits to commit next, in this order. -/
  edits : List Edit := []
  log : List LogLine := []
deriving DecidableEq, Repr

namespace Outline

/-- The line on which what a span inserted starts. -/
def lineOf (after : Text) (view : Edit.View) : Nat := (Text.position after view.newStart).line

/-- The outline has to be brought up to date from the line of a span on. -/
def needsReparse (o : Outline) (after : Text) (view : Edit.View) : Bool :=
  let line := lineOf after view
  mayReshape view.inserted view.removed (line = 0) || o.isStale after line

/-- The outline after the spans of an edit, and the lines from which it was brought up to date. -/
def followViews (o : Outline) (after : Text) : List Edit.View → Outline × List Nat
  | [] => (o, [])
  | view :: rest =>
    if o.needsReparse after view then
      let line := lineOf after view
      let (o', lines) := followViews (o.reparse after line) after rest
      (o', line :: lines)
    else followViews o after rest

/-- The outline of `after`, reached from that of `before` by looking at the spans of the edit. -/
def follow (o : Outline) (before after : Text) (e : Edit) : Outline :=
  (followViews o after (e.views before)).1.setContent after

end Outline

/-- The input is finished, so that the line can be tidied. Text of an input method that may still
change counts as finished when the caret stands behind it and it holds Chinese or Japanese. -/
def Edit.isSettled (e : Edit) (view : Edit.View) (head : Int) : Bool :=
  match e.origin with
  | .typed | .input | .composed => true
  | .composing => head = view.newStop && view.inserted.any isCjk
  | _ => false

/-- The line that is to be tidied after an edit, and the span that asks for it: the last one. -/
def tidyTarget? (settings : Settings) (o : Outline) (before after : Text) (e : Edit)
    (anchor head : Int) : Option (Nat × Edit.View) :=
  let views := e.views before
  if e.isAutomatic || !settings.autoFormat || anchor ≠ head ||
      views.any fun view => !view.removed.isEmpty then none
  else
    match views.getLast? with
    | none => none
    | some view =>
      let line := Outline.lineOf after view
      if e.isSettled view head && o.isProse line then some (line, view) else none

/-- What follows from an edit that turned `before` into `after` and left the selection between
`anchor` and `head`. -/
def afterEdit (settings : Settings) (o : Outline) (before after : Text) (e : Edit)
    (anchor head : Int) : Aftermath :=
  if !e.isChange then { outline := o }
  else
    let outline := o.follow before after e
    let reparsed := (o.followViews after (e.views before)).2.map fun line =>
      "EasyTyping: Reparse At Line: " ++ toString line
    let tidied := (tidyTarget? settings outline before after e anchor head).bind
      fun (line, view) =>
        (tidyLine? settings.style after view.newStart head view.inserted).map fun edits =>
          (line, edits)
    let noted := tidied.toList.map fun (line, _) => "format follow-up for line " ++ toString line
    { outline
      edits := (tidied.map fun (_, fix, caret) => [fix, caret]).getD []
      log := if settings.debug then LogLine.debugAll (reparsed ++ noted) else [] }

end TypingAid
