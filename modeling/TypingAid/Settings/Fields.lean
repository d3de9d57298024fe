import TypingAid.Json.Value
import TypingAid.Settings.Basic

/-!
# Settings as fields of an object

A settings object names each switch and each mode. There are two ways to read one:

* `Settings.normalize` is for what a user has written: a switch understands the usual words for on
  and off, a mode has to be one of its choices, and anything else gives the default;
* `Settings.ofFields` is for an object that is taken at its word: a switch is on if its value counts
  as true. A feature that is not named is off, a point of style that is not named has its default.

`Settings.toFields` writes settings so that both read them back.
-/

namespace TypingAid

/-! ### Names -/

namespace CapitalMode

/-- The written name. -/
def name : CapitalMode → String
  | typing => "typing"
  | everywhere => "global"

/-- The mode with a written name. -/
def ofName? (s : Str) : Option CapitalMode :=
  [typing, everywhere].find? (.text ·.name == s)

end CapitalMode

namespace SpaceMode

/-- The written name. -/
def name : SpaceMode → String
  | none => "none"
  | soft => "soft"
  | strict => "strict"

/-- The mode with a written name. -/
def ofName? (s : Str) : Option SpaceMode :=
  [none, soft, strict].find? (.text ·.name == s)

end SpaceMode

/-! ### Coercion -/

/-- A switch as users write it: a truth value, a number that is zero or not, or one of a few words.
Anything else leaves the switch as it is by default. -/
def Value.toSwitch (v : Value) (default : Bool) : Bool :=
  match v with
  | .bool b => b
  | .int _ | .float _ => v.isTruthy
  | _ =>
    if (["1", "true", "yes", "on"] : List Str).contains v.lowerWord then true
    else if (["0", "false", "no", "off"] : List Str).contains v.lowerWord then false
    else default

/-- The value that an object has under a name, if it is an object that has one. -/
def Value.field? (v : Value) (name : Str) : Option Value := Assoc.get? name v.fields

namespace Settings

/-- Settings as fields, each under its name. -/
def toFields (s : Settings) : Fields :=
  [("SelectionEnhance", .bool s.wrapSelection),
   ("SymbolAutoPairDelete", .bool s.pairSymbols),
   ("BaseObEditEnhance", .bool s.convertBasic),
   ("FW2HWEnhance", .bool s.convertFullWidth),
   ("AutoFormat", .bool s.autoFormat),
   ("ChineseEnglishSpace", .bool s.style.cjkLatinSpace),
   ("ChineseNumberSpace", .bool s.style.cjkFigureSpace),
   ("EnglishNumberSpace", .bool s.style.latinFigureSpace),
   ("ChineseNoSpace", .bool s.style.cjkNoSpace),
   ("PunctuationSpace", .bool s.style.punctuationSpace),
   ("AutoCapital", .bool s.style.autoCapital),
   ("AutoCapitalMode", .str s.style.capitalMode.name),
   ("InlineCodeSpaceMode", .str s.style.codeSpaces.name),
   ("InlineFormulaSpaceMode", .str s.style.formulaSpaces.name),
   ("debug", .bool s.debug)]

/-- Settings as a value. -/
def toValue (s : Settings) : Value := .object s.toFields

/-- The settings that a user's object means. What is not an object means the defaults. -/
def normalize (raw : Value) : Settings :=
  let switch (name : Str) (default : Bool) : Bool :=
    ((raw.field? name).map (·.toSwitch default)).getD default
  let spaces (name : Str) (default : SpaceMode) : SpaceMode :=
    ((raw.field? name).bind (SpaceMode.ofName? ·.lowerWord)).getD default
  { wrapSelection := switch "SelectionEnhance" true
    pairSymbols := switch "SymbolAutoPairDelete" true
    convertBasic := switch "BaseObEditEnhance" true
    convertFullWidth := switch "FW2HWEnhance" true
    autoFormat := switch "AutoFormat" true
    debug := switch "debug" false
    style :=
      { cjkLatinSpace := switch "ChineseEnglishSpace" true
        cjkFigureSpace := switch "ChineseNumberSpace" true
        latinFigureSpace := switch "EnglishNumberSpace" false
        cjkNoSpace := switch "ChineseNoSpace" true
        punctuationSpace := switch "PunctuationSpace" true
        autoCapital := switch "AutoCapital" true
        capitalMode :=
          ((raw.field? "AutoCapitalMode").bind (CapitalMode.ofName? ·.lowerWord)).getD .typing
        codeSpaces := spaces "InlineCodeSpaceMode" .soft
        formulaSpaces := spaces "InlineFormulaSpaceMode" .soft } }

end Settings

/-- The style of an object that is taken at its word. -/
def Style.ofFields (fs : Fields) : Style :=
  let switch (name : Str) (default : Bool) : Bool :=
    ((Assoc.get? name fs).map Value.isTruthy).getD default
  let spaces (name : Str) : SpaceMode :=
    match Assoc.get? name fs with
    | none => .soft
    | some v => (SpaceMode.ofName? v.lowerWord).getD .none
  { cjkLatinSpace := switch "ChineseEnglishSpace" true
    cjkFigureSpace := switch "ChineseNumberSpace" true
    latinFigureSpace := switch "EnglishNumberSpace" false
    cjkNoSpace := switch "ChineseNoSpace" true
    punctuationSpace := switch "PunctuationSpace" true
    autoCapital := switch "AutoCapital" true
    capitalMode :=
      ((Assoc.get? ↑"AutoCapitalMode" fs).bind (CapitalMode.ofName? ·.lowerWord)).getD .typing
    codeSpaces := spaces "InlineCodeSpaceMode"
    formulaSpaces := spaces "InlineFormulaSpaceMode" }

/-- The settings of an object that is taken at its word. -/
def Settings.ofFields (fs : Fields) : Settings :=
  let feature (name : Str) : Bool := ((Assoc.get? name fs).map Value.isTruthy).getD false
  { wrapSelection := feature "SelectionEnhance"
    pairSymbols := feature "SymbolAutoPairDelete"
    convertBasic := feature "BaseObEditEnhance"
    convertFullWidth := feature "FW2HWEnhance"
    autoFormat := feature "AutoFormat"
    debug := feature "debug"
    style := Style.ofFields fs }

end TypingAid
