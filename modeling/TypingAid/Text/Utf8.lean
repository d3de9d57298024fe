import TypingAid.Text.Basic

/-!
# UTF-8

Files hold bytes. `Utf8.encode` writes a text, `Utf8.decode?` reads one back and refuses bytes that
no text is written as: a byte out of place, a form longer than needed, a surrogate, or a number
beyond the last code point.

`Text.unifyBreaks` turns the line breaks of other systems into `\n`, as reading a text file does.
-/

namespace TypingAid

/-- The content of a file. -/
abbrev Bytes := List UInt8

namespace Utf8

/-- The bytes of a code point. -/
def encodeChar (c : Char) : Bytes :=
  let n := c.toNat
  let tail (shift : Nat) : UInt8 := (0x80 + (n >>> shift) % 64).toUInt8
  if n < 0x80 then [n.toUInt8]
  else if n < 0x800 then [(0xC0 + n / 64).toUInt8, tail 0]
  else if n < 0x10000 then [(0xE0 + n / 4096).toUInt8, tail 6, tail 0]
  else [(0xF0 + n / 262144).toUInt8, tail 12, tail 6, tail 0]

/-- The bytes of a text. -/
def encode (t : Text) : Bytes := t.flatMap encodeChar

/-- The six bits of a byte that continues a code point. -/
def tail? (b : UInt8) : Option Nat :=
  if 0x80 ≤ b && b ≤ 0xBF then some (b.toNat - 0x80) else none

/-- The code point with the given number, if it is one and needs at least `least`. -/
def char? (least n : Nat) : Option Char :=
  if h : n.isValidChar then if least ≤ n then some (Char.ofNatAux n h) else none else none

/-- The text that has the given bytes. -/
def decode? : Bytes → Option Text
  | [] => some []
  | a :: rest =>
    if a < 0x80 then (decode? rest).map (Char.ofNat a.toNat :: ·)
    else match rest with
      | [] => none
      | b :: rest =>
        match tail? b with
        | none => none
        | some y =>
          if a < 0xC2 then none
          else if a < 0xE0 then do
            let c ← char? 0x80 ((a.toNat - 0xC0) * 64 + y)
            return c :: (← decode? rest)
          else match rest with
            | [] => none
            | c :: rest =>
              match tail? c with
              | none => none
              | some z =>
                if a < 0xF0 then do
                  let c ← char? 0x800 ((a.toNat - 0xE0) * 4096 + y * 64 + z)
                  return c :: (← decode? rest)
                else match rest with
                  | [] => none
                  | d :: rest => do
                    let w ← tail? d
                    let c ← char? 0x10000 ((a.toNat - 0xF0) * 262144 + y * 4096 + z * 64 + w)
                    return c :: (← decode? rest)

end Utf8

/-- Every carriage return becomes a line break, together with the line feed after it. -/
def Text.unifyBreaks : Text → Text
  | [] => []
  | '\r' :: '\n' :: t => '\n' :: Text.unifyBreaks t
  | c :: t => (if c = '\r' then '\n' else c) :: Text.unifyBreaks t

end TypingAid
