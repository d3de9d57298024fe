/-!
# Binary floating-point numbers

`Binary64` holds the numbers of the 64-bit binary format as what they are: a whole number of at most
53 bits times a power of two, an infinity, or not a number. All arithmetic on them here is exact.

* `Binary64.ofDecimal` reads a decimal: the nearest number, and of two equally near ones the one
  with the even mantissa.
* `Binary64.shortest` is the other way: the fewest decimal digits that read back, and of those the
  nearest.
* `Binary64.text` writes a number with these digits.
-/

namespace TypingAid

/-- A number of the 64-bit binary floating-point format. -/
inductive Binary64 where
  /-- `mantissa * 2 ^ exponent`, or its negative. -/
  | finite (negative : Bool) (mantissa : Nat) (exponent : Int)
  | infinite (negative : Bool)
  | nan
deriving DecidableEq, Repr

namespace Binary64

/-- Two to a power. -/
def twoTo (n : Nat) : Nat := Nat.pow 2 n

/-- Ten to a power. -/
def tenTo (n : Nat) : Nat := Nat.pow 10 n

/-- The exponent of the smallest numbers. -/
def leastExponent : Int := -1074

/-- The exponent of the greatest numbers. -/
def greatestExponent : Int := 971

/-- Zero, with a sign. -/
def zero (negative : Bool) : Binary64 := finite negative 0 leastExponent

/-- The quotient to the nearest whole number, a tie to the even one. -/
def divNearest (a b : Nat) : Nat :=
  let q := a / b
  let r := a % b
  if 2 * r < b then q else if b < 2 * r then q + 1 else q + q % 2

/-- The number nearest to a positive quotient. -/
def ofRatio (negative : Bool) (num den : Nat) : Binary64 :=
  let scaled (e : Int) : Nat × Nat :=
    if 0 ≤ e then (num, den * twoTo e.toNat) else (num * twoTo (-e).toNat, den)
  let guess : Int := (num.log2 : Int) - den.log2 - 52
  let (a, b) := scaled guess
  let e := max leastExponent (if a < twoTo 52 * b then guess - 1 else guess)
  let (a, b) := scaled e
  let m := divNearest a b
  let (m, e) := if m = twoTo 53 then (twoTo 52, e + 1) else (m, e)
  if greatestExponent < e then infinite negative else finite negative m e

/-- The number nearest to `digits * 10 ^ exponent`. -/
def ofDecimal (negative : Bool) (digits : Nat) (exponent : Int) : Binary64 :=
  if digits = 0 then zero negative
  else
    let magnitude := exponent + (Nat.toDigits 10 digits).length
    if 400 < magnitude then infinite negative
    else if magnitude < -400 then zero negative
    else if 0 ≤ exponent then ofRatio negative (digits * tenTo exponent.toNat) 1
    else ofRatio negative digits (tenTo (-exponent).toNat)

/-- Zero, of either sign. -/
def isZero : Binary64 → Bool
  | finite _ m _ => m = 0
  | _ => false

/-- The whole number that a finite number becomes when its fraction is dropped. -/
def truncate? : Binary64 → Option Int
  | finite negative m e =>
    let n : Nat := if 0 ≤ e then m * twoTo e.toNat else m / twoTo (-e).toNat
    some (if negative then -n else n)
  | _ => none

/-- The number is whole and equal to `n`. -/
def isInt (x : Binary64) (n : Int) : Bool :=
  match x with
  | finite negative m e =>
    let m : Int := if negative then -m else m
    if 0 ≤ e then m * twoTo e.toNat = n else m = n * twoTo (-e).toNat
  | _ => false

/-- Equal as numbers: the two zeros are equal, and what is not a number is taken to equal itself. -/
def sameNumber (x y : Binary64) : Bool := x = y || (x.isZero && y.isZero)

/-! ### Shortest decimals -/

/-- The number of decimal digits before the point of `num / den`, counted as zero or less when zeros
follow the point. -/
def pointPosition (num den : Nat) : Int :=
  if den ≤ num then (Nat.toDigits 10 (num / den)).length
  else
    let rec search : Nat → Nat → Int → Int
      | 0, _, position => position
      | fuel + 1, num, position =>
        if den ≤ num * 10 then position else search fuel (num * 10) (position - 1)
    search 400 num 0

/-- A decimal with at most `n` digits that lies between `low` and `high`, all of them given in parts
of `unit`: of the two decimals next to `mid` the nearer one that does. The point stands at
`position`; the result is a whole number of units of the last digit. -/
def decimalWithin? (low mid high unit : Nat) (closed : Bool) (position : Int) (n : Nat) :
    Option Nat :=
  let grid := position - n
  let up : Nat := if 0 ≤ grid then 1 else tenTo (-grid).toNat
  let step : Nat := unit * if 0 ≤ grid then tenTo grid.toNat else 1
  let inside (d : Nat) : Bool :=
    if closed then low * up ≤ d * step && d * step ≤ high * up
    else low * up < d * step && d * step < high * up
  let d := mid * up / step
  let below := mid * up - d * step
  let above := (d + 1) * step - mid * up
  match inside d, inside (d + 1) with
  | true, true =>
    some (if below < above then d else if above < below then d + 1 else d + d % 2)
  | true, false => some d
  | false, true => some (d + 1)
  | false, false => none

/-- The shortest decimal that reads back as `m * 2 ^ e`: its digits as a whole number, and the
position of the point. -/
def shortest (m : Nat) (e : Int) : Nat × Int :=
  let scale : Nat := if 0 ≤ e then twoTo e.toNat else 1
  let unit : Nat := 4 * if 0 ≤ e then 1 else twoTo (-e).toNat
  let mid := 4 * m * scale
  let low := mid - (if m = twoTo 52 ∧ leastExponent < e then scale else 2 * scale)
  let high := mid + 2 * scale
  let position := pointPosition mid unit
  let rec search : Nat → Nat → Nat × Int
    | 0, n => (mid * tenTo n / unit, position)
    | fuel + 1, n =>
      match decimalWithin? low mid high unit (m % 2 = 0) position n with
      | some d => if d = tenTo n then (1, position + 1) else (d, position)
      | none => search fuel (n + 1)
  search 18 1

/-- Digits with a point at `position`, and at least one digit on either side of it. A point far
away from the digits is written as a power of ten. -/
def decimalText (digits : List Char) (position : Int) : List Char :=
  if position ≤ -4 ∨ 16 < position then
    let exponent := position - 1
    let power := Nat.toDigits 10 exponent.natAbs
    digits.take 1 ++ (if digits.length = 1 then [] else '.' :: digits.drop 1) ++
      'e' :: (if exponent < 0 then '-' else '+') ::
      (if power.length = 1 then '0' :: power else power)
  else if position ≤ 0 then
    '0' :: '.' :: (List.replicate (-position).toNat '0' ++ digits)
  else
    let n := position.toNat
    if digits.length ≤ n then digits ++ List.replicate (n - digits.length) '0' ++ ['.', '0']
    else digits.take n ++ '.' :: digits.drop n

/-- The decimal text of a number; `infinity` and `notNumber` are the words for what has none. -/
def text (x : Binary64) (infinity notNumber : String) : String :=
  match x with
  | finite negative m e =>
    let sign := if negative then ['-'] else []
    let body :=
      if m = 0 then ['0', '.', '0']
      else
        let (digits, position) := shortest m e
        decimalText (Nat.toDigits 10 digits) position
    String.ofList (sign ++ body)
  | infinite negative => (if negative then "-" else "") ++ infinity
  | nan => notNumber

end Binary64

end TypingAid
