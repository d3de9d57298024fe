import TypingAid.Text.Blank

/-!
# Blocks of a document

A line of a document is prose, or it belongs to a fenced code block, a display formula or the front
matter. What a line is depends on the line, on its number, and on the block that is open before it;
`classify` says what it is and what is open after it.

* A code block opens at a fence, a run of at least three backticks or tildes after blanks. The rest
  of the line of a backtick fence holds no backtick. It closes at a line that has nothing but a run
  of the same character that is at least as long.
* A formula opens at a line that starts with `$$`, blanks apart, and closes at one that ends so.
  A line that does both, with four characters at least, is a block of its own.
* Front matter opens only at the first line, which is `---`, and closes at `---` or `...`.

Carriage returns at the end of a line do not count.
-/

namespace TypingAid

/-- What a line belongs to. -/
inductive LineKind where
  | text
  | code
  | formula
  | frontMatter
deriving DecidableEq, Repr

namespace LineKind

/-- The written name. -/
def name : LineKind → String
  | text => "text"
  | code => "codeblock"
  | formula => "formula"
  | frontMatter => "frontmatter"

end LineKind

/-- The block that is open between two lines. -/
inductive OpenBlock where
  | none
  /-- A code block whose fence is `width` times `mark`. -/
  | code (mark : Char) (width : Nat)
  | formula
  | frontMatter
deriving DecidableEq, Repr

/-- A classified line. -/
structure LineInfo where
  kind : LineKind
  /-- The block that is open after the line. -/
  after : OpenBlock
deriving DecidableEq, Repr

/-- The backtick. -/
def backtick : Char := '\x60'

/-- A run of at least three backticks or tildes after blanks, and what follows it. -/
structure Fence where
  mark : Char
  width : Nat
  info : Text
deriving DecidableEq, Repr

namespace Fence

/-- The fence that a line starts with. -/
def ofLine? (line : Text) : Option Fence :=
  match Text.stripLeft line with
  | [] => none
  | c :: rest =>
    let width := (rest.takeWhile (· = c)).length + 1
    if (c = backtick ∨ c = '~') ∧ 3 ≤ width then some ⟨c, width, rest.dropWhile (· = c)⟩ else none

/-- The fence opens a code block. -/
def opens (f : Fence) : Bool := !(f.mark == backtick && f.info.contains backtick)

/-- The fence closes a code block opened by `width` times `mark`. -/
def closes (f : Fence) (mark : Char) (width : Nat) : Bool :=
  f.mark == mark && width ≤ f.width && f.info.all isBlank

end Fence

/-- The mark of a display formula. -/
def formulaMark : Text := ['$', '$']

/-- The line that opens front matter. -/
def frontMatterMark : Text := ['-', '-', '-']

/-- What a line is when no block is open before it. -/
def classifyOutside (line : Text) (index : Nat) : LineInfo :=
  let stripped := Text.strip line
  if index = 0 ∧ line = frontMatterMark then ⟨.frontMatter, .frontMatter⟩
  else match (Fence.ofLine? line).filter Fence.opens with
    | some fence => ⟨.code, .code fence.mark fence.width⟩
    | none =>
      if formulaMark.isPrefixOf stripped then
        if 4 ≤ stripped.length ∧ formulaMark.isSuffixOf stripped then ⟨.formula, .none⟩
        else ⟨.formula, .formula⟩
      else ⟨.text, .none⟩

/-- What a line is, and what is open after it, given the block that is open before it. -/
def classify (line : Text) (index : Nat) (before : OpenBlock) : LineInfo :=
  let line := Text.dropTail (· = '\r') line
  match before with
  | .none => classifyOutside line index
  | .code mark width =>
    ⟨.code, if (Fence.ofLine? line).any (·.closes mark width) then .none else before⟩
  | .formula =>
    ⟨.formula, if formulaMark.isSuffixOf (Text.strip line) then .none else before⟩
  | .frontMatter =>
    ⟨.frontMatter, if line = frontMatterMark ∨ line = ['.', '.', '.'] then .none else before⟩

end TypingAid
