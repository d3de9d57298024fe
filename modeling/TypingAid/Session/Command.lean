import TypingAid.Session.Basic

/-!
# Commands

The commands that a user gives to a session: set the whole document, one line, or the selected
lines; put the selection into a code block; switch tidying on and off. Each one is a function of the
session and of what the editor shows, if there is an editor.

Setting lines never changes what a line of the document is, so the outline is kept and only its text
replaced. A code block is classified anew.
-/

namespace TypingAid.Session

variable (s : Session)

/-- The answer of a command that has no editor to work on. -/
def withoutHost {α : Type} (command : String) (result : α) : Response α :=
  ⟨s, result, [], [⟨.info, command ++ ": no active editor"⟩]⟩

/-- Sets each of the lines that is prose; the first one has number `first` in the document. -/
def formatLines (first : Nat) (ls : List Text) : List Text :=
  ls.mapIdx fun i line =>
    if s.outline.isProse (first + i) then (formatLine s.settings.style line).1 else line

/-- Sets the whole document. The caret keeps its line and, as far as possible, its column. -/
def formatArticle (host : Option HostView) : Response Unit :=
  match host with
  | none => s.withoutHost "format_article" ()
  | some view =>
    if s.outline.isEmpty then ⟨s, (), [], [⟨.info, "format_article: no parsed article"⟩]⟩
    else
      let s := s.sync view.text
      let newText := Text.ofLines (s.formatLines 0 (Text.lines view.text))
      let done := .notify (noticeStart ++ "Format Article Done!")
      if newText = view.text then ⟨s, (), [done], []⟩
      else
        let caret := Text.position view.text view.head
        ⟨{ s with outline := s.outline.setContent newText }, (),
          [.replace 0 view.text.length newText,
            .setCaret (Text.offsetAt newText caret.line caret.column), done], []⟩

/-- Sets one line. The result tells whether that changed anything. -/
def formatOneLine (host : Option HostView) (line : Int) : Response Bool :=
  match host with
  | none => s.withoutHost "format_one_line" false
  | some view =>
    let s := s.sync view.text
    if !s.outline.isProse line then ⟨s, false, [], []⟩
    else
      let old := Text.line view.text line
      let new := (formatLine s.settings.style old).1
      if new = old then ⟨s, false, [], []⟩
      else
        let start := Text.offsetAt view.text line 0
        let stop := start + old.length
        ⟨{ s with outline := s.outline.setContent (Text.splice view.text start stop new) }, true,
          [.replace start stop new, .setCaret (start + new.length)], []⟩

/-- Sets the lines that the selection touches, or the line of the caret if nothing is selected. -/
def formatSelection (host : Option HostView) : Response Unit :=
  match host with
  | none => s.withoutHost "format_selection_or_line" ()
  | some view =>
    let s := s.sync view.text
    let text := view.text
    if view.anchor = view.head then
      let r := s.formatOneLine host (Text.position text view.head).line
      ⟨r.session, (), r.actions, r.log⟩
    else
      let first := (Text.position text (min view.anchor view.head)).line
      let last := (Text.position text (max view.anchor view.head)).line
      let start := Text.offsetAt text first 0
      let stop := (Text.lineBounds text (Text.offsetAt text last 0)).2
      let old := Text.slice text start stop
      let new := Text.ofLines (s.formatLines first (Text.lines old))
      if new = old then ⟨s, (), [], []⟩
      else
        ⟨{ s with outline := s.outline.setContent (Text.splice text start stop new) }, (),
          [.replace start stop new, .setCaret (start + new.length)], []⟩

/-- The fence of an inserted code block. -/
def codeFence : Text := [backtick, backtick, backtick]

/-- Puts the selection on lines of its own between two fences, or opens an empty block at the caret,
and puts the caret behind the opening fence. -/
def insertCodeBlock (host : Option HostView) : Response Unit :=
  match host with
  | none => s.withoutHost "insert_code_block" ()
  | some view =>
    let text := view.text
    let start := min view.anchor view.head
    let stop := max view.anchor view.head
    let first := (Text.position text start).line
    let lead : Text := if start ≠ (Text.lineBounds text start).1 then ['\n'] else []
    let tail : Text := if stop ≠ (Text.lineBounds text stop).2 then ['\n'] else []
    let body :=
      if start ≠ stop then
        codeFence ++ '\n' :: Text.slice text start stop ++ '\n' :: codeFence
      else codeFence ++ '\n' :: codeFence
    let block := lead ++ body ++ tail
    let newText := Text.splice text start stop block
    ⟨{ s with outline := s.outline.reparse newText first }, (),
      [.replace start stop block, .setCaret (Text.offsetAt newText (first + lead.length) 3)],
      if s.settings.debug then
        [⟨.debug, "insert code block at " ++ toString start ++ "-" ++ toString stop⟩]
      else []⟩

/-- Switches tidying on or off. The result tells which. -/
def toggleAutoFormat (hasHost : Bool) : Response Bool :=
  let enabled := !s.settings.autoFormat
  let (actions, log) :=
    announce hasHost ("Autoformat is " ++ (if enabled then "on" else "off") ++ "!")
  ⟨{ s with settings := { s.settings with autoFormat := enabled } }, enabled, actions, log⟩

end TypingAid.Session
