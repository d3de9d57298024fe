import TypingAid.Text.Basic

/-!
# Inline parts

A line of prose is a sequence of parts: plain text, and spans that Markdown sets apart. Every part
knows its text and where it stands in the line; an emphasis span also knows its marker, and a span
knows which of its text shows when the line is rendered.
-/

namespace TypingAid

/-- What an inline part is. -/
inductive PartKind where
  | text
  | code
  | formula
  | wikilink
  | link
  | url
  | emphasis
deriving DecidableEq, Repr

namespace PartKind

/-- The written name. -/
def name : PartKind → String
  | text => "text"
  | code => "code"
  | formula => "formula"
  | wikilink => "wikilink"
  | link => "link"
  | url => "url"
  | emphasis => "emphasis"

/-- Code and formulas have a space mode of their own. -/
def isSpaced : PartKind → Bool
  | code | formula => true
  | _ => false

end PartKind

/-- A stretch of a line. -/
structure Part where
  kind : PartKind
  text : Text
  /-- Offset of the first character in the line. -/
  start : Nat
  /-- What encloses an emphasis span on both sides; empty for the other kinds. -/
  marker : Text := []
  /-- What of a span shows; empty for plain text. -/
  visible : Text := []
deriving DecidableEq, Repr

namespace Part

/-- Offset just after the last character in the line. -/
def stop (p : Part) : Nat := p.start + p.text.length

/-- Plain text. -/
def isText (p : Part) : Bool := p.kind == .text

/-- What an emphasis span encloses. -/
def inner (p : Part) : Text :=
  (p.text.take (p.text.length - p.marker.length)).drop p.marker.length

end Part

end TypingAid
