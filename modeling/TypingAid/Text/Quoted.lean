import TypingAid.Text.Str
import TypingAid.Unicode.Printable

/-!
# Quoted strings

Messages and the log show a string in quotes, so that its ends and what does not print can be seen.
The quotes are single ones unless the string holds a single quote and no double one. Inside, the
quote itself and the backslash have a backslash before them, and a code point that does not print is
written as an escape with its number. So a string in quotes is always a text.
-/

namespace TypingAid

/-- The last `width` hexadecimal digits of a number, in lower case. -/
def Text.hexDigits : Nat → Nat → Text
  | 0, _ => []
  | width + 1, n => hexDigits width (n / 16) ++ [Nat.digitChar (n % 16)]

/-- A code point between two quotes `quote`. -/
def Point.quoted (quote : Char) : Point → Text
  | .char c =>
    if c = quote || c = '\\' then ['\\', c]
    else if c = '\n' then ['\\', 'n']
    else if c = '\r' then ['\\', 'r']
    else if c = '\t' then ['\\', 't']
    else if Unicode.isPrintable c then [c]
    else if c.toNat < 0x100 then '\\' :: 'x' :: Text.hexDigits 2 c.toNat
    else if c.toNat < 0x10000 then '\\' :: 'u' :: Text.hexDigits 4 c.toNat
    else '\\' :: 'U' :: Text.hexDigits 8 c.toNat
  | p => '\\' :: 'u' :: Text.hexDigits 4 p.code

/-- The string with the given code points, in quotes. -/
def Points.quoted (ps : Points) : Text :=
  let quote := if ps.contains (.char '\'') && !ps.contains (.char '"') then '"' else '\''
  quote :: ps.flatMap (Point.quoted quote) ++ [quote]

/-- The string in quotes. -/
def Str.quote (s : Str) : String := String.ofList s.points.quoted

/-- The text in quotes. -/
def Text.quote (t : Text) : String := String.ofList (Points.quoted (t.map .char))

end TypingAid
