import TypingAid.Block.Basic

/-!
# The outline of a document

An `Outline` holds a text and what each of its lines is. `Outline.ofText` classifies every line.
`Outline.reparse` keeps the lines before a given one and classifies the rest, which is right when
the kept lines are still those of the text: the block open after the last kept line is stored with
it, so nothing above needs to be looked at.

An edit that is known to leave every line what it is only needs `Outline.setContent`; `mayReshape`
and `Outline.isStale` are the tests for the other ones.
-/

namespace TypingAid

/-- A text together with what each of its lines is. -/
structure Outline where
  content : Text := []
  lines : List LineInfo := []
deriving DecidableEq, Repr

namespace Outline

/-- Classifies lines, the first of which has number `index`, after the given open block. -/
def scan : List Text → Nat → OpenBlock → List LineInfo
  | [], _, _ => []
  | line :: rest, index, before =>
    let info := classify line index before
    info :: scan rest (index + 1) info.after

/-- The outline of nothing at all: not even one line has been classified. -/
def empty : Outline := {}

/-- The outline of a text. -/
def ofText (t : Text) : Outline := ⟨t, scan (Text.lines t) 0 .none⟩

/-- No line has been classified. -/
def isEmpty (o : Outline) : Bool := o.lines.isEmpty

/-- The block that is open before line `n`. -/
def openBefore (o : Outline) (n : Nat) : OpenBlock :=
  if n = 0 then .none else (o.lines[n - 1]?.map LineInfo.after).getD .none

/-- The outline of `t`, classified anew from line `start` on and taken over before it. A start that
lies beyond the known lines or beyond those of `t` means to classify all of `t`. -/
def reparse (o : Outline) (t : Text) (start : Int) : Outline :=
  let n := start.toNat
  let ls := Text.lines t
  if o.isEmpty ∨ o.lines.length < n ∨ ls.length < n then ofText t
  else ⟨t, o.lines.take n ++ scan (ls.drop n) n (o.openBefore n)⟩

/-- The same lines over another text. -/
def setContent (o : Outline) (t : Text) : Outline := { o with content := t }

/-- Line `n` of `t` is not what the outline says, or leaves another block open, or one of the two
has no such line. -/
def isStale (o : Outline) (t : Text) (n : Int) : Bool :=
  if n < 0 then true
  else match o.lines[n.toNat]?, (Text.lines t)[n.toNat]? with
    | some info, some line => classify line n.toNat (o.openBefore n.toNat) ≠ info
    | _, _ => true

/-- What line `n` is, if there is such a line. -/
def kind? (o : Outline) (n : Int) : Option LineKind :=
  if n < 0 then none else o.lines[n.toNat]?.map LineInfo.kind

/-- Line `n` exists and is prose. -/
def isProse (o : Outline) (n : Int) : Bool := o.kind? n == some .text

/-- What each line is. -/
def kinds (o : Outline) : List LineKind := o.lines.map LineInfo.kind

/-- One row for each line: its number in a field of five, and what it is. -/
def describe (o : Outline) : String :=
  let row (n : Nat) (kind : LineKind) : String :=
    let number := toString n
    String.ofList (List.replicate (5 - number.length) ' ') ++ number ++ " " ++ kind.name
  "\n".intercalate (o.kinds.mapIdx row)

end Outline

/-- An edit that puts in or takes away such text may open, close or split a block. On the first
line the marks of front matter count too. -/
def mayReshape (inserted removed : Text) (firstLine : Bool) : Bool :=
  let isMark (c : Char) : Bool :=
    c = backtick || c = '$' || c = '~' || c = '\n' || (firstLine && (c = '-' || c = '.'))
  inserted.any isMark || removed.any isMark

end TypingAid
