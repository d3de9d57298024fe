import TypingAid.Edit.Basic
import TypingAid.Rule.Table
import TypingAid.Settings.Basic

/-!
# Intervening in an edit

Before an edit is committed the typing aid may put another one in its place. `intervene?` decides
about it, from the text before the edit, the edit, the settings and the rules alone. Only an edit
with one span is looked at, and none that the typing aid has made itself. In this order:

* a bracket or quote typed over a selection encloses it;
* deleting an opening symbol takes the closing one along, and deleting between the two sides of a
  deletion rule takes both;
* a character that completes a conversion rule is converted with it;
* an opening symbol brings its closing one, and an ambiguous closing one the whole pair.

The new edit keeps the origin of the old one and is tagged `Edit.changeEvent`. It comes with the
reason for it, which the log shows.
-/

namespace TypingAid

/-- Why an edit is replaced. -/
inductive Reason where
  | encloses (pair : Pair)
  | deletesPair (opening closing : Text)
  | deletesRule (rule : Rule)
  | converts (rule : Rule)
  | completesPair (opening closing : Text)
  | expandsCloser (closer pair : Text)
deriving DecidableEq, Repr

/-- The reason as the log shows it. -/
def Reason.message : Reason → String
  | encloses p => "selection wrap with " ++ Text.quote p.left ++ "/" ++ Text.quote p.right
  | deletesPair a b => "pair delete " ++ Text.quote a ++ Text.quote b
  | deletesRule r => "delete rule " ++ Text.quote r.before.text ++ " matched"
  | converts r => "conversion rule " ++ Text.quote r.before.text ++ " matched"
  | completesPair a b => "auto pair " ++ Text.quote a ++ Text.quote b
  | expandsCloser a b => "ambiguous closer " ++ Text.quote a ++ " -> " ++ Text.quote b

/-- An edit in place of another, and why. -/
abbrev Intervention := Edit × Reason

namespace Intervention

variable (rules : RuleTable) (doc : Text) (origin : Origin) (span : Span)

/-- A bracket or quote typed over a selection encloses it. -/
def enclose? : Option Intervention :=
  if (origin.isCharacterInput || origin = .replaceSelection) && span.start ≠ span.stop &&
      span.insert.length = 1 then
    (Assoc.get? span.insert rules.enclosing).map fun pair =>
      ({ spans := [⟨span.start, span.start, pair.left⟩, ⟨span.stop, span.stop, pair.right⟩]
         origin, event := Edit.changeEvent }, .encloses pair)
  else none

/-- Deleting an opening symbol takes the closing one along. -/
def deletePair? : Option Intervention :=
  match Text.sliceRel doc span.start span.stop with
  | [opening] =>
    (Assoc.get? opening rules.symbols).bind fun closing =>
      if Text.slice doc span.stop (span.stop + 1) = [closing] then
        some (Edit.single span.start (span.stop + 1) [] origin none Edit.changeEvent,
          .deletesPair [opening] [closing])
      else none
  | _ => none

/-- The text around `caret` is that of a deletion rule. -/
def deleteRule? (caret : Int) (rule : Rule) : Option Intervention :=
  let start := caret - rule.before.left.length
  let stop := caret + rule.before.right.length
  if 0 ≤ start ∧ Text.sliceRel doc start caret = rule.before.left ∧
      Text.slice doc caret stop = rule.before.right then
    some (Edit.single start stop rule.after.text origin (some (start + rule.after.left.length))
      Edit.changeEvent, .deletesRule rule)
  else none

/-- Deleting one character backwards takes more along. -/
def delete? : Option Intervention :=
  if span.removedLength = 1 ∧ span.insert = [] then
    (deletePair? rules doc origin span).or
      (rules.deletion.findSome? (deleteRule? doc origin span.stop))
  else none

/-- The character `c` typed at `place` completes a conversion rule. A rule that starts with a line
break also matches where the text starts, with nothing in place of the break. -/
def convert? (place : Int) (c : Char) (rule : Rule) : Option Intervention :=
  if rule.trigger? ≠ some c then none
  else
    let start := place - rule.before.left.length + 1
    let atTop : Bool := start = -1 && rule.before.left.head? = some '\n' &&
      !(Text.sliceRel doc 0 place).contains '\n'
    if start < 0 && !atTop then none
    else
      let left := if atTop then rule.before.left.drop 1 else rule.before.left
      let newLeft :=
        if atTop && rule.after.left.head? = some '\n' then rule.after.left.drop 1
        else rule.after.left
      let start := if atTop then 0 else start
      let stop := place + rule.before.right.length
      if Text.sliceRel doc start place ++ [c] = left ∧
          Text.slice doc place stop = rule.before.right then
        some (Edit.single start stop (newLeft ++ rule.after.right) origin
          (some (start + newLeft.length)) Edit.changeEvent, .converts rule)
      else none

/-- The conversion rules that the settings allow, in the order in which they are tried. -/
def conversionRules (settings : Settings) : List Rule :=
  (if settings.convertBasic then rules.basic else []) ++
    (if settings.convertFullWidth then rules.fullWidth else [])

/-- A typed symbol brings the other half of its pair. -/
def complete? (c : Char) : Option Intervention :=
  let edit (t : Text) : Edit :=
    Edit.single span.start span.stop t origin (some (span.start + 1)) Edit.changeEvent
  match Assoc.get? c rules.symbols with
  | some closing => some (edit [c, closing], .completesPair [c] [closing])
  | none => (Assoc.get? [c] rules.ambiguous).map fun pair => (edit pair, .expandsCloser [c] pair)

/-- The input of one character at one place is converted, or paired. -/
def input? (settings : Settings) : Option Intervention :=
  match span.insert with
  | [c] =>
    if origin.isCharacterInput && span.start = span.stop then
      ((conversionRules rules settings).findSome? (convert? doc origin span.start c)).or
        (if settings.pairSymbols then complete? rules origin span c else none)
    else none
  | _ => none

/-- What takes the place of an edit with the given span. -/
def ofSpan? (settings : Settings) : Option Intervention :=
  (if settings.wrapSelection then enclose? rules origin span else none).or <|
    (if origin = .deleteBackward ∧ settings.pairSymbols then delete? rules doc origin span
      else none).or <|
    input? rules doc origin span settings

end Intervention

/-- The one span of an edit that the typing aid may replace. -/
def Edit.candidate? (e : Edit) : Option Span :=
  if e.isChange && !e.isAutomatic then
    match e.spans with
    | [span] => some span
    | _ => none
  else none

/-- What takes the place of an edit, if anything does. -/
def intervene? (settings : Settings) (rules : RuleTable) (doc : Text) (e : Edit) :
    Option Intervention :=
  e.candidate?.bind fun span => Intervention.ofSpan? rules doc e.origin span settings

/-- The edit that is to be committed. -/
def intervene (settings : Settings) (rules : RuleTable) (doc : Text) (e : Edit) : Edit :=
  ((intervene? settings rules doc e).map Prod.fst).getD e

/-- What the log says about an edit in detail: what it is, and why it is replaced. -/
def interventionLog (settings : Settings) (rules : RuleTable) (doc : Text) (e : Edit) :
    List String :=
  if settings.debug then
    match e.candidate? with
    | none => []
    | some span =>
      ["rewrite candidate: origin=" ++ e.origin.name ++ " from=" ++ toString span.start ++ " to=" ++
        toString span.stop ++ " insert=" ++ Text.quote span.insert] ++
      ((intervene? settings rules doc e).map (·.2.message)).toList
  else []

end TypingAid
