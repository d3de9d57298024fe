import TypingAid.Assoc
import TypingAid.Json.Binary64
import TypingAid.Text.Quoted

/-!
# Values of the settings

A settings file holds a JSON document, and a field of it can hold any value at all. Whole numbers
have no bound and are kept apart from fractional ones; the fields of an object keep their order, and
neither their names nor the strings in a value have to be texts.

Values are judged loosely in three ways: every value counts as true or as false
(`Value.isTruthy`), numbers and truth values are equal when they have one numeric value
(`Value.looselyEqual`), and every value can be shown (`Value.display`).
-/

namespace TypingAid

/-- A JSON value. -/
inductive Value where
  | null
  | bool (b : Bool)
  | int (n : Int)
  | float (x : Binary64)
  | str (s : Str)
  | list (items : List Value)
  | object (fields : List (Str × Value))
deriving Repr

/-- The fields of an object. -/
abbrev Fields := List (Str × Value)

namespace Value

instance : Inhabited Value := ⟨null⟩

/-- The fields of an object; any other value has none. -/
def fields : Value → Fields
  | object fs => fs
  | _ => []

/-- The value is an object. -/
def isObject : Value → Bool
  | object _ => true
  | _ => false

/-- The name of the kind of value. -/
def kindName : Value → String
  | null => "NoneType"
  | bool _ => "bool"
  | int _ => "int"
  | float _ => "float"
  | str _ => "str"
  | list _ => "list"
  | object _ => "object"

/-- The value counts as true: it is not null, false, zero or empty. -/
def isTruthy : Value → Bool
  | null => false
  | bool b => b
  | int n => n ≠ 0
  | float x => !x.isZero
  | str s => s ≠ ""
  | list items => !items.isEmpty
  | object fs => !fs.isEmpty

/-- The value is the float that is no number. -/
def isNan : Value → Bool
  | float .nan => true
  | _ => false

/-! ### Equality -/

/-- The whole number that a truth value or whole number stands for. -/
def asInt? : Value → Option Int
  | bool b => some (if b then 1 else 0)
  | int n => some n
  | _ => none

mutual

/-- Equal as numbers, as strings, item by item, or field by field in any order. -/
def looselyEqual : Value → Value → Bool
  | null, w => match w with
    | null => true
    | _ => false
  | bool b, w => match w with
    | float y => y.isInt (if b then 1 else 0)
    | _ => w.asInt? == some (if b then 1 else 0)
  | int n, w => match w with
    | float y => y.isInt n
    | _ => w.asInt? == some n
  | float x, w => match w with
    | float y => x.sameNumber y
    | _ => w.asInt?.any x.isInt
  | str s, w => match w with
    | str t => s == t
    | _ => false
  | list items, w => match w with
    | list others => looselyEqualItems items others
    | _ => false
  | object fs, w => match w with
    | object others => fs.length == others.length && looselyIn fs others
    | _ => false

/-- Equal item by item. -/
def looselyEqualItems : List Value → List Value → Bool
  | [], others => others.isEmpty
  | v :: rest, others => match others with
    | [] => false
    | w :: others => looselyEqual v w && looselyEqualItems rest others

/-- Every field is in the object with an equal value. -/
def looselyIn : Fields → Fields → Bool
  | [], _ => true
  | (key, v) :: rest, others =>
    (match Assoc.get? key others with
    | some w => looselyEqual v w
    | none => false) && looselyIn rest others

end

/-! ### Texts -/

mutual

/-- The value as it is shown inside a list or object. -/
def shown : Value → String
  | null => "None"
  | bool b => if b then "True" else "False"
  | int n => toString n
  | float x => x.text "inf" "nan"
  | str s => s.quote
  | list items => "[" ++ shownItems items ++ "]"
  | object fs => "\x7b" ++ shownFields fs ++ "\x7d"

/-- The items with commas between them. -/
def shownItems : List Value → String
  | [] => ""
  | [v] => shown v
  | v :: rest => shown v ++ ", " ++ shownItems rest

/-- The fields with commas between them. -/
def shownFields : Fields → String
  | [] => ""
  | [(key, v)] => key.quote ++ ": " ++ shown v
  | (key, v) :: rest => key.quote ++ ": " ++ shown v ++ ", " ++ shownFields rest

end

/-- How a value is shown: a string as it is, anything else as in a list. -/
def display : Value → Str
  | str s => s
  | v => shown v

/-- How a value is shown if it counts as true, without blanks around it. Any other has no word. -/
def word (v : Value) : Str := if v.isTruthy then v.display.strip else ""

/-- The word of a value in lower case. -/
def lowerWord (v : Value) : Str := v.word.lower

end Value

end TypingAid
