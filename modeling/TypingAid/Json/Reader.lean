import TypingAid.Json.Value

/-!
# Reading JSON

`Value.parse?` reads a JSON document. It is strict about the grammar: no comments, no trailing
commas, no control characters inside strings, nothing but blanks around the value. It is lenient in
four points: a field may come several times, and the last value counts; `NaN`, `Infinity` and
`-Infinity` are numbers; a number that is too great is infinite; and half of a surrogate pair may be
escaped without the other half.

A whole number with more than `digitLimit` digits is refused.
-/

namespace TypingAid

namespace Json

/-- The greatest number of digits of a whole number. -/
def digitLimit : Nat := 4300

/-- Blanks between the tokens of a document. -/
def isGap (c : Char) : Bool := c = ' ' || c = '\t' || c = '\n' || c = '\r'

/-- Without leading blanks. -/
def skipGaps (t : Text) : Text := t.dropWhile isGap

/-- What follows `word`, if the text starts with it. -/
def after? (word t : Text) : Option Text :=
  if word.isPrefixOf t then some (t.drop word.length) else none

/-! ### Strings -/

/-- The value of a hexadecimal digit. -/
def hexValue? (c : Char) : Option Nat :=
  if c.isDigit then some (c.toNat - 48)
  else if 'a' ≤ c && c ≤ 'f' then some (c.toNat - 87)
  else if 'A' ≤ c && c ≤ 'F' then some (c.toNat - 55)
  else none

/-- The number that four hexadecimal digits make. -/
def hexNumber? (a b c d : Char) : Option Nat := do
  let digits ← [a, b, c, d].mapM hexValue?
  return digits.foldl (16 * · + ·) 0

/-- The character of a one-letter escape. -/
def escaped? : Char → Option Char
  | '"' => some '"'
  | '\\' => some '\\'
  | '/' => some '/'
  | 'b' => some '\x08'
  | 'f' => some '\x0c'
  | 'n' => some '\n'
  | 'r' => some '\r'
  | 't' => some '\t'
  | _ => none

/-- The numbers of the characters up to the closing quote, and what follows it. An escape with a
number may name one half of a surrogate pair. -/
def readUnits : Text → Option (List Nat × Text)
  | [] => none
  | '"' :: t => some ([], t)
  | '\\' :: 'u' :: a :: b :: c :: d :: t => do
    let n ← hexNumber? a b c d
    let (ns, rest) ← readUnits t
    return (n :: ns, rest)
  | '\\' :: c :: t => do
    let e ← escaped? c
    let (ns, rest) ← readUnits t
    return (e.toNat :: ns, rest)
  | c :: t =>
    if c.toNat < 0x20 || c = '\\' then none
    else do
      let (ns, rest) ← readUnits t
      return (c.toNat :: ns, rest)

/-- The first half of a surrogate pair. -/
def isHighHalf (n : Nat) : Bool := 0xD800 ≤ n && n ≤ 0xDBFF

/-- The second half of a surrogate pair. -/
def isLowHalf (n : Nat) : Bool := 0xDC00 ≤ n && n ≤ 0xDFFF

/-- Puts the halves of surrogate pairs together. A half without the other one stays what it is. -/
def joinHalves : List Nat → Points
  | [] => []
  | [n] => [.ofCode n]
  | a :: b :: rest =>
    if isHighHalf a && isLowHalf b then
      .char (Char.ofNat (0x10000 + (a - 0xD800) * 0x400 + (b - 0xDC00))) :: joinHalves rest
    else .ofCode a :: joinHalves (b :: rest)

/-- A string whose opening quote has been read, and what follows it. -/
def readString (t : Text) : Option (Str × Text) :=
  (readUnits t).map fun (ns, rest) => (.ofPoints (joinHalves ns), rest)

/-! ### Numbers -/

/-- The number that decimal digits make. -/
def digitsValue (digits : Text) : Nat := digits.foldl (fun n c => 10 * n + (c.toNat - 48)) 0

/-- The digits of a whole number, without leading zeros, and what follows. -/
def readWhole : Text → Option (Text × Text)
  | [] => none
  | c :: t =>
    if c = '0' then some (['0'], t)
    else if c.isDigit then some (c :: t.takeWhile Char.isDigit, t.dropWhile Char.isDigit)
    else none

/-- The digits after a decimal point, if there are a point and digits. -/
def readFraction : Text → Option (Text × Text)
  | '.' :: t =>
    let digits := t.takeWhile Char.isDigit
    if digits.isEmpty then none else some (digits, t.dropWhile Char.isDigit)
  | _ => none

/-- The power of ten after a letter e, if there are the letter and digits. -/
def readPower : Text → Option (Int × Text)
  | c :: t =>
    if c = 'e' || c = 'E' then
      let negative := t.head? = some '-'
      let t := if negative || t.head? = some '+' then t.drop 1 else t
      let digits := t.takeWhile Char.isDigit
      if digits.isEmpty then none
      else
        let n : Int := digitsValue digits
        some (if negative then -n else n, t.dropWhile Char.isDigit)
    else none
  | [] => none

/-- A number, and what follows it. -/
def readNumber (t : Text) : Option (Value × Text) := do
  let negative := t.head? = some '-'
  let (whole, t) ← readWhole (if negative then t.drop 1 else t)
  let fraction := readFraction t
  let t := (fraction.map Prod.snd).getD t
  let power := readPower t
  let rest := (power.map Prod.snd).getD t
  if fraction.isNone && power.isNone then
    if digitLimit < whole.length then none
    else
      let n : Int := digitsValue whole
      return (.int (if negative then -n else n), rest)
  else
    let places := (fraction.map Prod.fst).getD []
    let exponent := (power.map Prod.fst).getD 0 - places.length
    return (.float (Binary64.ofDecimal negative (digitsValue (whole ++ places)) exponent), rest)

/-! ### Values -/

/-- The words that stand for a value. -/
def words : List (Text × Value) :=
  [("null".toList, .null), ("true".toList, .bool true), ("false".toList, .bool false),
    ("NaN".toList, .float .nan), ("Infinity".toList, .float (.infinite false)),
    ("-Infinity".toList, .float (.infinite true))]

/-- A word that stands for a value, and what follows it. -/
def readWord (t : Text) : Option (Value × Text) :=
  words.findSome? fun (word, v) => (after? word t).map fun rest => (v, rest)

mutual

/-- A value, and what follows it. The first argument bounds how deep values lie in each other and
how many there are. -/
def readValue : Nat → Text → Option (Value × Text)
  | 0, _ => none
  | fuel + 1, t =>
    match t with
    | '"' :: t => (readString t).map fun (s, rest) => (.str s, rest)
    | '[' :: t =>
      match skipGaps t with
      | ']' :: rest => some (.list [], rest)
      | t => (readItems fuel t).map fun (items, rest) => (.list items, rest)
    | '{' :: t =>
      match skipGaps t with
      | '}' :: rest => some (.object [], rest)
      | t => (readFields fuel t).map fun (fs, rest) => (.object (Assoc.ofList fs), rest)
    | t => (readWord t).or (readNumber t)

/-- The items of a list up to its closing bracket, and what follows it. -/
def readItems : Nat → Text → Option (List Value × Text)
  | 0, _ => none
  | fuel + 1, t => do
    let (v, t) ← readValue fuel t
    match skipGaps t with
    | ',' :: t =>
      let (items, rest) ← readItems fuel (skipGaps t)
      return (v :: items, rest)
    | ']' :: rest => return ([v], rest)
    | _ => none

/-- The fields of an object up to its closing brace, and what follows it. -/
def readFields : Nat → Text → Option (Fields × Text)
  | 0, _ => none
  | fuel + 1, t => do
    match t with
    | '"' :: t =>
      let (key, t) ← readString t
      let t ← after? [':'] (skipGaps t)
      let (v, t) ← readValue fuel (skipGaps t)
      match skipGaps t with
      | ',' :: t =>
        let (fs, rest) ← readFields fuel (skipGaps t)
        return ((key, v) :: fs, rest)
      | '}' :: rest => return ([(key, v)], rest)
      | _ => none
    | _ => none

end

end Json

/-- The value of a JSON document. -/
def Value.parse? (t : Text) : Option Value :=
  match Json.readValue (2 * t.length + 1) (Json.skipGaps t) with
  | some (v, rest) => if (Json.skipGaps rest).isEmpty then some v else none
  | none => none

end TypingAid
