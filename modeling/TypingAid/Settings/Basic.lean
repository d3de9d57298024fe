/-!
# Settings of the typing aid

`Style` says how a line is to be set: which gaps get a blank, which blanks go away, and what becomes
of sentence starts. `Settings` adds the switches for what happens while the user types. The
defaults of the fields are the defaults of the program.
-/

namespace TypingAid

/-- Which sentence starts get a capital. -/
inductive CapitalMode where
  /-- While a caret is on the line, only the sentence that the caret is in. -/
  | typing
  /-- Every sentence of the line. -/
  | everywhere
deriving DecidableEq, Repr

/-- Which neighbours of code or a formula are kept apart from it by a blank. -/
inductive SpaceMode where
  | none
  /-- Letters and numbers. -/
  | soft
  /-- Everything. -/
  | strict
deriving DecidableEq, Repr

/-- How a line of prose is set. -/
structure Style where
  /-- A blank between Chinese or Japanese and Latin letters. -/
  cjkLatinSpace : Bool := true
  /-- A blank between Chinese or Japanese and digits. -/
  cjkFigureSpace : Bool := true
  /-- A blank between Latin letters and digits. -/
  latinFigureSpace : Bool := false
  /-- No blanks between Chinese, Japanese and full-width punctuation. -/
  cjkNoSpace : Bool := true
  /-- A blank after punctuation before a Latin letter. -/
  punctuationSpace : Bool := true
  /-- A capital at the start of a sentence. -/
  autoCapital : Bool := true
  capitalMode : CapitalMode := .typing
  codeSpaces : SpaceMode := .soft
  formulaSpaces : SpaceMode := .soft
deriving DecidableEq, Repr

/-- What happens while the user types. -/
structure Settings where
  /-- A bracket or quote typed over a selection encloses it. -/
  wrapSelection : Bool := true
  /-- Brackets and quotes come and go in pairs. -/
  pairSymbols : Bool := true
  /-- The basic conversion rules apply. -/
  convertBasic : Bool := true
  /-- The rules from full-width to half-width punctuation apply. -/
  convertFullWidth : Bool := true
  /-- The line is tidied after input. -/
  autoFormat : Bool := true
  /-- What happens is noted in the log in detail. -/
  debug : Bool := false
  style : Style := {}
deriving DecidableEq, Repr

end TypingAid
