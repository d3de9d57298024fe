import TypingAid.Text.Blank
import TypingAid.Line.Script
import TypingAid.Inline.Part

/-!
# Recognising inline spans

`spanAt? t` is the span that the text `t` starts with, if it starts with one. Each kind has a
recogniser of its own, and the first that accepts wins, in this order:

* **code**: a run of backticks, a character that is none, and all up to the first run of exactly as
  many backticks;
* **formula**: content without a dollar between two pairs of dollars, or else between two dollars;
* **wikilink**: content without a closing bracket between `[[` and `]]`;
* **link**: a text between brackets and a target between parentheses, both possibly empty;
* **url**: a scheme with `://` and all that can stand in an address;
* **emphasis**: content between two equal markers, which neither starts nor ends with a blank, up to
  the first marker that can close it.

An exclamation mark before a link or wikilink belongs to it. No span goes over a line break, except
that the first character inside code may be one.
-/

namespace TypingAid

/-- The length of a recognised span, its marker and what of it shows. -/
structure Recognised where
  kind : PartKind
  /-- Number of characters that the span takes. -/
  length : Nat
  marker : Text := []
  visible : Text := []
deriving DecidableEq, Repr

namespace Recognised

/-! ### Code -/

/-- Number of characters up to the end of the first run of exactly `width` backticks. `afterTick`
says that the character just before `t` is a backtick, so that no run starts here. -/
def closingTicks (width : Nat) (afterTick : Bool) : Text → Option Nat
  | [] => none
  | c :: t =>
    if !afterTick && ((c :: t).takeWhile (· = '\x60')).length == width then some width
    else if c = '\n' then none
    else (closingTicks width (c = '\x60') t).map (· + 1)

/-- A code span. -/
def code? (t : Text) : Option Recognised :=
  let width := (t.takeWhile (· = '\x60')).length
  match t.drop width with
  | [] => none
  | _ :: rest =>
    if width = 0 then none
    else (closingTicks width false rest).map fun n =>
      { kind := .code, length := width + 1 + n, visible := t.take (width + 1 + n) }

/-! ### Formulas -/

/-- Content without a dollar, and at least one character of it, between two copies of `mark`. -/
def enclosedFormula? (mark : Text) (t : Text) : Option Recognised :=
  if mark.isPrefixOf t then
    let body := (t.drop mark.length).takeWhile fun c => c ≠ '$' && c ≠ '\n'
    let n := mark.length + body.length
    if body ≠ [] ∧ mark.isPrefixOf (t.drop n) then
      some { kind := .formula, length := n + mark.length, visible := t.take (n + mark.length) }
    else none
  else none

/-- A formula, between pairs of dollars or between single ones. -/
def formula? (t : Text) : Option Recognised :=
  (enclosedFormula? ['$', '$'] t).or (enclosedFormula? ['$'] t)

/-! ### Links -/

/-- Number of exclamation marks that a link may take along: one if there is one. -/
def bangs (t : Text) : Nat := if t.head? = some '!' then 1 else 0

/-- What stands after the last bar. -/
def afterLastBar (t : Text) : Text := (Text.splitAt '|' t).getLast?.getD []

/-- A wikilink. -/
def wikilink? (t : Text) : Option Recognised :=
  let start := bangs t + 2
  if ['[', '['].isPrefixOf (t.drop (bangs t)) then
    let body := (t.drop start).takeWhile fun c => c ≠ ']' && c ≠ '\n'
    if body ≠ [] ∧ [']', ']'].isPrefixOf (t.drop (start + body.length)) then
      some { kind := .wikilink, length := start + body.length + 2, visible := afterLastBar body }
    else none
  else none

/-- A link with a text and a target. -/
def link? (t : Text) : Option Recognised :=
  let start := bangs t + 1
  if ['['].isPrefixOf (t.drop (bangs t)) then
    let shown := (t.drop start).takeWhile fun c => c ≠ ']' && c ≠ '\n'
    let middle := start + shown.length + 2
    if [']', '('].isPrefixOf (t.drop (start + shown.length)) then
      let target := (t.drop middle).takeWhile fun c => c ≠ ')' && c ≠ '\n'
      if [')'].isPrefixOf (t.drop (middle + target.length)) then
        some { kind := .link, length := middle + target.length + 1, visible := shown }
      else none
    else none
  else none

/-! ### Addresses -/

/-- What an address starts with. -/
def schemes : List Text :=
  [['h', 't', 't', 'p', 's', ':', '/', '/'], ['h', 't', 't', 'p', ':', '/', '/'],
    ['f', 't', 'p', ':', '/', '/']]

/-- The character can stand in an address. -/
def isAddress (c : Char) : Bool :=
  !(isBlank c || ['<', '>', '(', ')', '[', ']', '\x60'].contains c || isCjk c || isFullWidthMark c)

/-- A bare address. -/
def url? (t : Text) : Option Recognised :=
  match schemes.find? (·.isPrefixOf t) with
  | none => none
  | some scheme =>
    let rest := (t.drop scheme.length).takeWhile isAddress
    if rest = [] then none
    else
      let n := scheme.length + rest.length
      some { kind := .url, length := n, visible := t.take n }

/-! ### Emphasis -/

/-- The characters that make an emphasis marker when they stand twice. -/
def markerChars : List Char := ['*', '_', '~', '=']

/-- Number of characters before the first two `m` in a row that follow a character which is not
blank; `previous` is the character just before `t`. -/
def closingMarker (m : Char) (previous : Char) : Text → Option Nat
  | [] => none
  | c :: t =>
    if !isBlank previous && c = m && t.head? = some m then some 0
    else if c = '\n' then none
    else (closingMarker m c t).map (· + 1)

/-- An emphasis span. -/
def emphasis? (t : Text) : Option Recognised :=
  match t with
  | a :: b :: c :: rest =>
    if a = b && markerChars.contains a && !isBlank c then
      (closingMarker a c rest).map fun n =>
        { kind := .emphasis, length := n + 5, marker := [a, a]
          visible := (c :: rest).take (n + 1) }
    else none
  | _ => none

end Recognised

/-- The span that `t` starts with. -/
def spanAt? (t : Text) : Option Recognised :=
  (Recognised.code? t).or <| (Recognised.formula? t).or <| (Recognised.wikilink? t).or <|
    (Recognised.link? t).or <| (Recognised.url? t).or (Recognised.emphasis? t)

end TypingAid
