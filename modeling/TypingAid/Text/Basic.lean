/-!
# Texts and offsets

A text is its list of code points, and every offset into it counts code points. Offsets that come
from outside are integers, and there are two ways to read one that lies out of range:

* `Text.slice` and `Text.splice` *clamp*: an offset is moved to the nearest end of the text;
* `Text.sliceRel` and `Text.spliceRel` read a negative offset as counted *from the end*, and clamp
  only what is still out of range.

The two agree on offsets that lie in the text.
-/

namespace TypingAid

/-- A text, as the list of its code points. -/
abbrev Text := List Char

namespace Text

/-! ### Reading an offset -/

/-- The offset moved into `0..t.length`. -/
def clamp (t : Text) (i : Int) : Nat := min i.toNat t.length

/-- The offset an index stands for when negative indexes count from the end. -/
def resolve (t : Text) (i : Int) : Nat :=
  if i < 0 then (i + t.length).toNat else min i.toNat t.length

/-! ### Cutting and replacing -/

/-- The part of `t` from `a` to `b`, with clamped ends. -/
def slice (t : Text) (a b : Int) : Text := (t.take b.toNat).drop a.toNat

/-- The part of `t` from `a` to `b`, where negative indexes count from the end. -/
def sliceRel (t : Text) (a b : Int) : Text := (t.take (resolve t b)).drop (resolve t a)

/-- `t` with the part from `a` to `b` replaced, with clamped ends and an end no earlier than the
start. -/
def splice (t : Text) (a b : Int) (insert : Text) : Text :=
  t.take (clamp t a) ++ insert ++ t.drop (max (clamp t a) (clamp t b))

/-- All of `t` before `a`, the inserted text, and all of `t` from `b` on, where negative indexes
count from the end. -/
def spliceRel (t : Text) (a b : Int) (insert : Text) : Text :=
  t.take (resolve t a) ++ insert ++ t.drop (resolve t b)

/-! ### Lines -/

/-- The pieces of `t` between the occurrences of `sep`; there is always at least one. -/
def splitAt {α : Type} [DecidableEq α] (sep : α) : List α → List (List α)
  | [] => [[]]
  | c :: t =>
    if c = sep then [] :: splitAt sep t
    else match splitAt sep t with
      | [] => [[c]]
      | piece :: rest => (c :: piece) :: rest

/-- The lines of `t`, without their line breaks. -/
def lines (t : Text) : List Text := splitAt '\n' t

/-- The text that has the given lines. -/
def ofLines (ls : List Text) : Text := List.intercalate ['\n'] ls

/-- Number of lines: one more than there are line breaks. -/
def lineCount (t : Text) : Nat := t.count '\n' + 1

/-- The line with the given number, or nothing out of range. -/
def line (t : Text) (n : Int) : Text :=
  if n < 0 then [] else (lines t)[n.toNat]?.getD []

end Text

end TypingAid
