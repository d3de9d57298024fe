import TypingAid.Block.Outline

/-!
# Block ranges

`Outline.blocks` lists the blocks of a document that are not prose, each with its first and last
line. Two blocks of one kind that follow each other without prose in between are two: the first one
ends where its closing line is.
-/

namespace TypingAid

/-- A block that is not prose, with the numbers of its first and last line. -/
structure Block where
  kind : LineKind
  first : Nat
  last : Nat
deriving DecidableEq, Repr

namespace Outline

/-- The blocks of the lines from number `n` on. `current` is the kind and the first line of the
block that the line before belongs to, and `before` the block open between the two. -/
def blocksFrom (n : Nat) (current : Option (LineKind × Nat)) (before : OpenBlock) :
    List LineInfo → List Block
  | [] => current.toList.map fun (kind, first) => ⟨kind, first, n - 1⟩
  | info :: rest =>
    let ended := current.toList.map fun (kind, first) => Block.mk kind first (n - 1)
    if info.kind = .text then ended ++ blocksFrom (n + 1) none info.after rest
    else match current with
      | none => blocksFrom (n + 1) (some (info.kind, n)) info.after rest
      | some (kind, first) =>
        if info.kind ≠ kind ∨ before = .none then
          ended ++ blocksFrom (n + 1) (some (info.kind, n)) info.after rest
        else blocksFrom (n + 1) (some (kind, first)) info.after rest

/-- The blocks that are not prose, from the first to the last. -/
def blocks (o : Outline) : List Block := blocksFrom 0 none .none o.lines

end Outline

end TypingAid
