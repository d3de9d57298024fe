import TypingAid.Assoc
import TypingAid.Rule.Basic

/-!
# Rule tables

A `RuleTable` holds all that the typing aid knows about single inputs: conversion rules in two
groups, rules for deleting, brackets that enclose a selection, brackets and quotes that come in
pairs, and closing quotes that stand for a whole pair because both quotes of it look alike.

`RuleSource` is a table as it is written, and `RuleSource.build` reads it. The defaults of its
fields make up the default table.
-/

namespace TypingAid

/-- Rules in the form in which they are written. -/
structure RuleSource where
  basic : List (Text × Text) :=
    [("··|", "`|`"), ("`·|`", "```|\n```"), ("【【|】", "[[|]]"), ("【【|", "[[|]]"),
      ("￥￥|", "$|$"), ("$￥|$", "$$\n|\n$$"), ("$$|$", "$$\n|\n$$"), ("$$|", "$|$"), (">》|", ">>|"),
      ("\n》|", "\n>|"), (" 》|", " >|"), ("\n、|", "\n/|"), (" 、|", " /|")].map
      fun (a, b) => (a.toList, b.toList)
  fullWidth : List (Text × Text) :=
    [("。。|", ".|"), ("！！|", "!|"), ("；；|", ";|"), ("，，|", ",|"), ("：：|", ":|"),
      ("？？|", "?|"), ("、、|", "/|"), ("》》|", ">|"), ("《《|》", "<|"), ("《《|", "<|")].map
      fun (a, b) => (a.toList, b.toList)
  deletion : List (Text × Text) :=
    [("$|$", "|"), ("```|\n```", "|"), ("==|==", "|"), ("$$\n|\n$$", "|")].map
      fun (a, b) => (a.toList, b.toList)
  /-- What is typed over a selection, and what comes to stand before and after it. -/
  enclosing : List (Text × Text × Text) :=
    [("【", "[", "]"), ("￥", "$", "$"), ("·", "`", "`"), ("《", "《", "》"), ("“", "“", "”"),
      ("”", "“", "”"), ("（", "（", "）"), ("<", "<", ">"), ("「", "[", "]"), ("『", "[", "]")].map
      fun (a, b, c) => (a.toList, b.toList, c.toList)
  /-- An opening and a closing symbol each. -/
  symbols : List Text :=
    ["【】", "（）", "<>", "《》", "“”", "‘’", "「」", "『』"].map String.toList
  /-- What is typed, and the pair that it stands for. -/
  ambiguous : List (Text × Text) :=
    [("”", "“”"), ("’", "‘’")].map fun (a, b) => (a.toList, b.toList)

/-- All rules for single inputs. -/
structure RuleTable where
  basic : List Rule := []
  fullWidth : List Rule := []
  deletion : List Rule := []
  /-- What comes to stand around a selection when the key is typed over it. -/
  enclosing : List (Text × Pair) := []
  /-- The closing symbol of each opening one. -/
  symbols : List (Char × Char) := []
  /-- The pair that a closing symbol stands for. -/
  ambiguous : List (Text × Text) := []
deriving DecidableEq, Repr

/-- Reads a pair of symbols. -/
def readPair (pair : Text) : Except RuleError (Char × Char) :=
  match pair with
  | [opening, closing] => .ok (opening, closing)
  | _ => .error (.pairLength pair)

/-- Reads pairs of symbols; a later pair replaces an earlier one with the same opening symbol. -/
def readSymbols (pairs : List Text) : Except RuleError (List (Char × Char)) :=
  (pairs.mapM readPair).map Assoc.ofList

/-- Reads what comes to stand around a selection; a later entry replaces an earlier one. -/
def readEnclosing (entries : List (Text × Text × Text)) : List (Text × Pair) :=
  Assoc.ofList (entries.map fun (key, left, right) => (key, ⟨left, right⟩))

/-- Reads a table, up to the first rule that cannot be read. -/
def RuleSource.build (s : RuleSource) : Except RuleError RuleTable := do
  let basic ← Rule.parseAll s.basic
  let fullWidth ← Rule.parseAll s.fullWidth
  let deletion ← Rule.parseAll s.deletion
  let symbols ← readSymbols s.symbols
  let enclosing := readEnclosing s.enclosing
  let ambiguous := Assoc.ofList s.ambiguous
  return { basic, fullWidth, deletion, enclosing, symbols, ambiguous }

namespace RuleTable

/-- The characters whose input can make a conversion rule apply. -/
def triggers (t : RuleTable) : List Char := (t.basic ++ t.fullWidth).filterMap Rule.trigger?

/-- The default table. -/
def default : RuleTable := (RuleSource.build {}).toOption.getD {}

end RuleTable

end TypingAid
