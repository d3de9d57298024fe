import TypingAid.Text.Blank
import TypingAid.Unicode.UpperCase

/-!
# Strings

A JSON document can escape one half of a surrogate pair and leave the other half out. No text holds
such a half, so what a document says is a `Str`: a text, or code points with a half among them.
`Str.points` and `Str.ofPoints` go from a string to its code points and back.

A string that is not a text can be compared, cut and shown, but it has no bytes: `Str.text?` is what
can be written to a file.
-/

namespace TypingAid

/-- A code point: a character, or half of a surrogate pair that stands alone. -/
inductive Point where
  | char (c : Char)
  /-- The half with the number `0xD800 + n`. -/
  | half (n : Fin 0x800)
deriving DecidableEq, Repr

/-- The code points of a string. -/
abbrev Points := List Point

namespace Point

/-- The number of a code point. -/
def code : Point → Nat
  | char c => c.toNat
  | half n => 0xD800 + n

/-- The code point with a number. -/
def ofCode (n : Nat) : Point :=
  if h : 0xD800 ≤ n ∧ n < 0xE000 then half ⟨n - 0xD800, by omega⟩ else char (Char.ofNat n)

/-- Code points are ordered by their numbers. -/
instance : LT Point := ⟨fun p q => p.code < q.code⟩

instance : DecidableLT Point := fun p q => Nat.decLt p.code q.code

/-- The character, unless it is a half. -/
def char? : Point → Option Char
  | char c => some c
  | half _ => none

/-- It is half of a surrogate pair. -/
def isHalf (p : Point) : Bool := p.char?.isNone

/-- It is a blank character. -/
def isBlank (p : Point) : Bool := p.char?.any TypingAid.isBlank

/-- The lower case, as far as it can make an ASCII word. -/
def lower : Point → Point
  | char c => char (Unicode.asciiLower c)
  | p => p

end Point

/-- Without blanks at the ends. -/
def Points.strip (ps : Points) : Points := Text.trim Point.isBlank ps

/-- A string: a text, or code points that are none. -/
inductive Str where
  | text (s : String)
  | broken (ps : Points) (h : ps.any Point.isHalf = true)
deriving DecidableEq, Repr

instance : Coe String Str := ⟨.text⟩

namespace Str

/-- The code points. -/
def points : Str → Points
  | text s => s.toList.map .char
  | broken ps _ => ps

/-- The string with the given code points. -/
def ofPoints (ps : Points) : Str :=
  if h : ps.any Point.isHalf = true then broken ps h
  else text (String.ofList (ps.filterMap Point.char?))

/-- The text, if it is one. -/
def text? : Str → Option Text
  | text s => some s.toList
  | broken _ _ => none

/-- It is a text. -/
def isText (s : Str) : Bool := s.text?.isSome

/-- The string as it is read, with the replacement character for each half. -/
def legible (s : Str) : Text := s.points.map fun p => p.char?.getD '\ufffd'

/-- Strings are ordered by their code points. -/
instance : LT Str := ⟨fun s t => s.points < t.points⟩

instance : DecidableLT Str := fun s t => inferInstanceAs (Decidable (s.points < t.points))

/-- Without blanks at the ends. -/
def strip (s : Str) : Str := ofPoints s.points.strip

/-- In lower case, as far as it can make an ASCII word. -/
def lower (s : Str) : Str := ofPoints (s.points.map Point.lower)

end Str

end TypingAid
