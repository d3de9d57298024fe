import TypingAid.Block.Outline

/-!
# Highlighting

Lines of code, formulas and front matter are shown in colours of their own. `shades` says how the
lines of a text look when each is of a given kind; a line without a look of its own is not listed.
-/

namespace TypingAid

/-- How the characters of a line look. -/
structure Look where
  colour : String
  /-- The font family; empty for that of the editor. -/
  family : String := ""
  italic : Bool := false
deriving DecidableEq, Repr

/-- The look of a kind of line, if it has one of its own. -/
def LineKind.look? : LineKind → Option Look
  | text => none
  | code => some { colour := "#D7BA7D", family := "monospace" }
  | formula => some { colour := "#C586C0" }
  | frontMatter => some { colour := "#808080", italic := true }

/-- The look of a line, which is that of its characters from the first on. -/
structure Shade where
  line : Nat
  /-- Number of characters. -/
  length : Nat
  look : Look
deriving DecidableEq, Repr

/-- The looks of lines from number `n` on; a line without a kind has no look. -/
def shadesFrom (n : Nat) : List Text → List LineKind → List Shade
  | line :: ls, kind :: kinds =>
    let rest := shadesFrom (n + 1) ls kinds
    match kind.look? with
    | some look => if line.isEmpty then rest else ⟨n, line.length, look⟩ :: rest
    | none => rest
  | _, _ => []

/-- The looks of the lines of a text. -/
def shades (t : Text) (kinds : List LineKind) : List Shade := shadesFrom 0 (Text.lines t) kinds

end TypingAid
