import TypingAid.Edit.Basic
import TypingAid.Text.Position
import TypingAid.Line.Format

/-!
# Tidying the line of an edit

`tidyLine?` formats the line of a document in which something has just been inserted and gives the
two edits that bring it about: one that replaces the line, and one that moves the caret. If the
caret is on the line, blanks change only near the inserted text; if it is not, as after a line
break, the whole line is set.
-/

namespace TypingAid

/-- Number of characters before an insertion that typing may still tidy. -/
def typingContext : Int := 4

/-- The edits that tidy the line around `start`, unless it is fine as it is. -/
def tidyLine? (style : Style) (doc : Text) (start caret : Int) (inserted : Text) :
    Option (Edit × Edit) :=
  let (first, last) := Text.lineBounds doc start
  let line := Text.slice doc first last
  let (newLine, newCaret) : Text × Int :=
    if (first : Int) ≤ caret ∧ caret ≤ last then
      let from' := start - first
      let caret' := caret - first
      let scope : Scope :=
        { start := max 0 (from' - typingContext)
          stop := max caret' (min (from' + inserted.length) line.length) }
      let (newLine, newCaret) := formatLine style line (some caret') (some scope)
      (newLine, first + newCaret)
    else
      let newLine := (formatLine style line).1
      (newLine, if (last : Int) < caret then caret + newLine.length - line.length else caret)
  if newLine = line then none
  else
    some (Edit.single first last newLine .program (some newCaret) Edit.formatEvent,
      { caret := some newCaret, event := Edit.formatEvent })

end TypingAid
