import TypingAid.Text.Basic

/-!
# Paths

A `Path` is a way through folders as it is written: from the root or from wherever one is, and then
from name to name. Empty names and the name `.` say nothing and are dropped, so that a path has one
written form, `Path.text`. The name `..` is kept: where it leads depends on the folder before it.
Only `Path.resolve` works it out.

Three forms of root are told apart: none, `/` and `//`; more slashes count as one.
-/

namespace TypingAid

/-- A path as it is written. -/
structure Path where
  /-- Number of slashes in front: none, one or two. -/
  slashes : Nat
  names : List String
deriving DecidableEq, Repr

namespace Path

/-- The name of the folder above. -/
def up : String := ".."

/-- The path that a text means. -/
def ofText (t : Text) : Path :=
  let n := (t.takeWhile (· = '/')).length
  let pieces := (Text.splitAt '/' t).map String.ofList
  ⟨if n ≤ 2 then n else 1, pieces.filter fun name => name ≠ "" && name ≠ "."⟩

/-- The path that a string means. -/
def ofString (s : String) : Path := ofText s.toList

/-- The written form; the empty path is written as a point. -/
def text (p : Path) : String :=
  let body := "/".intercalate p.names
  if p.slashes = 0 && p.names.isEmpty then "."
  else String.ofList (List.replicate p.slashes '/') ++ body

/-- The last name. -/
def name (p : Path) : String := p.names.getLast?.getD ""

/-- The path without its last name. -/
def parent (p : Path) : Path := { p with names := p.names.dropLast }

/-- The path with another last name. -/
def withName (p : Path) (name : String) : Path := { p with names := p.names.dropLast ++ [name] }

/-- The path `q`, taken from where `p` leads. -/
def append (p q : Path) : Path :=
  if q.slashes = 0 then { p with names := p.names ++ q.names } else q

instance : Append Path := ⟨append⟩

/-- The path with the user's home for a tilde in front. The home of another user is not known. -/
def expandHome? (p home : Path) : Option Path :=
  match p.slashes, p.names with
  | 0, first :: rest =>
    if first = "~" then some (home ++ ⟨0, rest⟩)
    else if first.toList.head? = some '~' then none
    else some p
  | _, _ => some p

/-- Names without `..`: each takes away the name before it, and nothing at the root. -/
def climb (names : List String) : List String :=
  names.foldl (fun done name => if name = up then done.dropLast else done ++ [name]) []

/-- The path from the root that leads to the same place, without `..`. -/
def resolve (p workDir : Path) : Path := ⟨1, climb (workDir ++ p).names⟩

end Path

end TypingAid
