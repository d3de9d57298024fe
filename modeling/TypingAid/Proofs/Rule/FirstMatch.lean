import TypingAid.Proofs.Rule.Intervention
import TypingAid.Proofs.Text.Slice
import Mathlib.Data.Option.Basic

/-!
# The first rule that matches

What becomes of a typed character, said on the text that holds it already: `x` stands before the
character `c`, `y` behind it.

* `Rule.Meets` : what stands before the caret ends with the left side of the rule, and what stands
  behind it starts with the right side.  `Rule.MeetsAtTop` is the form for the first line, where a
  line break that the rule starts with is not in the text.
* `Rule.outcome?` replaces the window that a rule meets, and `RuleTable.outcome?` goes through the
  rules in the order in which they are written, and completes pairs after that.
* `intervene_typed` : the typing aid does just that.  It works on the text before the edit instead,
  where the window of a rule may start before the text, and only looks at rules that end in `c`.
  None does if `c` is not one of `RuleTable.triggers` (`Intervention.findSome?_convert?_eq_none`).
-/

namespace TypingAid

/-- A text and an offset of the caret. -/
structure Marked where
  text : Text
  caret : ℕ
deriving DecidableEq, Repr

namespace Rule

/-- The rule is met by what stands before and behind the caret. -/
def Meets (r : Rule) (before after : Text) : Prop :=
  r.before.left ≠ [] ∧ r.before.left <:+ before ∧ r.before.right <+: after

/-- The rule starts with a line break, and without it all that stands before the caret is what the
rule wants there. -/
def MeetsAtTop (r : Rule) (x : Text) (c : Char) (after : Text) : Prop :=
  '\n' ∉ x ∧ r.before.left = '\n' :: (x ++ [c]) ∧ r.before.right <+: after

instance (r : Rule) (before after : Text) : Decidable (r.Meets before after) :=
  inferInstanceAs (Decidable (_ ∧ _ ∧ _))

instance (r : Rule) (x : Text) (c : Char) (after : Text) : Decidable (r.MeetsAtTop x c after) :=
  inferInstanceAs (Decidable (_ ∧ _ ∧ _))

/-- A text without the line break that it starts with. -/
def withoutBreak (t : Text) : Text := if t.head? = some '\n' then t.tail else t

/-- What the rule makes of the text in which `c` stands between `x` and `y`, if it is met there. -/
def outcome? (r : Rule) (x : Text) (c : Char) (y : Text) : Option Marked :=
  let before := x ++ [c]
  let after := r.after.right ++ y.drop r.before.right.length
  if r.Meets before y then
    let left := before.take (before.length - r.before.left.length) ++ r.after.left
    some ⟨left ++ after, left.length⟩
  else if r.MeetsAtTop x c y then
    let left := withoutBreak r.after.left
    some ⟨left ++ after, left.length⟩
  else none

end Rule

namespace RuleTable

/-- A typed symbol with the other half of its pair. -/
def paired? (rules : RuleTable) (x : Text) (c : Char) (y : Text) : Option Marked :=
  match Assoc.get? c rules.symbols with
  | some closing => some ⟨x ++ c :: closing :: y, x.length + 1⟩
  | none => (Assoc.get? [c] rules.ambiguous).map fun pair => ⟨x ++ pair ++ y, x.length + 1⟩

/-- What becomes of the text in which `c` has been typed between `x` and `y`: the first rule that is
met, of the basic ones and then of those for full-width input, or else a pair. -/
def outcome? (rules : RuleTable) (settings : Settings) (x : Text) (c : Char) (y : Text) :
    Option Marked :=
  (if settings.convertBasic then rules.basic.findSome? (·.outcome? x c y) else none).or <|
    (if settings.convertFullWidth then rules.fullWidth.findSome? (·.outcome? x c y) else none).or <|
      if settings.pairSymbols then rules.paired? x c y else none

end RuleTable

namespace Intervention

variable {x y : Text} {c : Char} {rule : Rule}

/-- Committed to the text, the new edit gives a text and a caret in it. -/
def Brings (doc : Text) (i : Intervention) (m : Marked) : Prop :=
  i.1.apply doc = m.text ∧ i.1.targetCaret = some (m.caret : Int)

theorem slice_before (n : ℕ) : Text.sliceRel (x ++ y) n x.length = x.drop n := by
  rw [Text.sliceRel_eq_slice (by omega) (by omega), Text.slice, Int.toNat_natCast,
    Int.toNat_natCast, List.take_left]

theorem slice_behind (n : ℕ) : Text.slice (x ++ y) x.length (x.length + n) = y.take n := by
  rw [Text.slice, Int.toNat_natCast, show ((x.length : Int) + n).toNat = x.length + n by omega,
    List.take_length_add_append, List.drop_left]

/-- One span from `n` on, which reaches `k` characters behind the place of the edit. -/
theorem brings_single {n k : ℕ} (hn : n ≤ x.length) (hk : k ≤ y.length) (left right : Text)
    (origin : Origin) (reason : Reason) :
    Brings (x ++ y) (Edit.single n (x.length + k) (left ++ right) origin (some (n + left.length))
      Edit.changeEvent, reason)
      ⟨x.take n ++ left ++ (right ++ y.drop k), (x.take n ++ left).length⟩ := by
  have hdrop : (x ++ y).drop (x.length + k) = y.drop k := List.drop_length_add_append k
  refine ⟨?_, ?_⟩
  · show Text.splice (x ++ y) n (x.length + k) (left ++ right) = _
    rw [Text.splice_eq (by omega) (by rw [List.length_append]; omega), Int.toNat_natCast,
      show ((x.length : Int) + k).toNat = x.length + k by omega, hdrop,
      List.take_append_of_le_length hn]
    simp only [List.append_assoc]
  · show some ((n : Int) + left.length) = _
    rw [List.length_append, List.length_take, Nat.min_eq_left hn]
    push_cast
    rfl

/-- A rule that is met ends in the typed character. -/
theorem trigger?_of_meets (h : rule.Meets (x ++ [c]) y ∨ rule.MeetsAtTop x c y) :
    rule.trigger? = some c := by
  rcases h with ⟨hne, hleft, -⟩ | ⟨-, hleft, -⟩
  · have hlast := hleft.getLast hne
    rw [List.getLast_concat] at hlast
    rw [Rule.trigger?, List.getLast?_eq_some_getLast hne, hlast]
  · rw [Rule.trigger?, hleft, ← List.cons_append, List.getLast?_concat]

theorem conversionRules_sublist (rules : RuleTable) (settings : Settings) :
    (conversionRules rules settings).Sublist (rules.basic ++ rules.fullWidth) := by
  have hsub : ∀ (on : Bool) (l : List Rule), (if on then l else []).Sublist l := by
    intro on l
    split_ifs
    · exact List.Sublist.refl l
    · exact List.nil_sublist l
  exact (hsub _ _).append (hsub _ _)

/-- **Only triggers convert**: for any other character the rules need not be tried, whatever stands
around it. -/
theorem findSome?_convert?_eq_none {rules : RuleTable} (h : c ∉ rules.triggers)
    (settings : Settings) (doc : Text) (origin : Origin) (place : Int) :
    (conversionRules rules settings).findSome? (convert? doc origin place c) = none := by
  rw [List.findSome?_eq_none_iff]
  intro rule hrule
  have hmem : rule ∈ rules.basic ++ rules.fullWidth :=
    (conversionRules_sublist rules settings).subset hrule
  have htrigger : rule.trigger? ≠ some c := fun ht =>
    h (List.mem_filterMap.2 ⟨rule, hmem, ht⟩)
  rw [convert?, if_pos htrigger]

/-- The window of a rule that ends in `c` starts in the text. -/
theorem rel_convert?_of_le {l right : Text} (hle : l.length ≤ x.length) (after : Pair)
    (origin : Origin) :
    Option.Rel (Brings (x ++ y)) (convert? (x ++ y) origin x.length c ⟨⟨l ++ [c], right⟩, after⟩)
      (Rule.outcome? ⟨⟨l ++ [c], right⟩, after⟩ x c y) := by
  have htrigger : Rule.trigger? ⟨⟨l ++ [c], right⟩, after⟩ = some c := List.getLast?_concat
  have hstart : (x.length : Int) - (l ++ [c]).length + 1 = ((x.length - l.length : ℕ) : Int) := by
    rw [List.length_append, List.length_singleton]; omega
  have hneg : ¬ ((x.length - l.length : ℕ) : Int) < 0 := by omega
  have htop : ((x.length - l.length : ℕ) : Int) ≠ -1 := by omega
  have hkept : (x ++ [c]).take ((x ++ [c]).length - (l ++ [c]).length) =
      x.take (x.length - l.length) := by
    rw [List.length_append, List.length_append, Nat.add_sub_add_right,
      List.take_append_of_le_length (Nat.sub_le ..)]
  have hmeets : Rule.Meets ⟨⟨l ++ [c], right⟩, after⟩ (x ++ [c]) y ↔
      x.drop (x.length - l.length) = l ∧ y.take right.length = right := by
    rw [Rule.Meets, List.suffix_append_self_iff, List.suffix_iff_eq_drop, List.prefix_iff_eq_take,
      eq_comm (a := l), eq_comm (a := right)]
    simp
  have hnot : ¬ Rule.MeetsAtTop ⟨⟨l ++ [c], right⟩, after⟩ x c y := by
    rintro ⟨-, hl, -⟩
    have := congrArg List.length hl
    simp only [List.length_append, List.length_cons] at this
    omega
  simp only [convert?, htrigger, hstart, hneg, htop, ne_eq, not_true_eq_false, decide_false,
    Bool.false_and, Bool.false_eq_true, if_false, slice_before, slice_behind, List.append_left_inj,
    Rule.outcome?, hnot, hkept, hmeets]
  by_cases hcond : x.drop (x.length - l.length) = l ∧ y.take right.length = right
  · rw [if_pos hcond, if_pos hcond]
    refine .some (brings_single (Nat.sub_le ..) ?_ after.left after.right origin _)
    rw [← hcond.2, List.length_take]
    exact Nat.min_le_right ..
  · rw [if_neg hcond, if_neg hcond]
    exact .none

/-- The window of a rule that ends in `c` starts just before the text: the line break that the rule
starts with is missing. -/
theorem rel_convert?_of_top {l right : Text} (hl : l.length = x.length + 1) (after : Pair)
    (origin : Origin) :
    Option.Rel (Brings (x ++ y)) (convert? (x ++ y) origin x.length c ⟨⟨l ++ [c], right⟩, after⟩)
      (Rule.outcome? ⟨⟨l ++ [c], right⟩, after⟩ x c y) := by
  obtain ⟨d, l, rfl⟩ := List.exists_cons_of_length_eq_add_one hl
  have htrigger : Rule.trigger? ⟨⟨d :: l ++ [c], right⟩, after⟩ = some c := List.getLast?_concat
  have hstart : (x.length : Int) - (d :: l ++ [c]).length + 1 = -1 := by
    rw [List.length_append, hl, List.length_singleton]; omega
  have hbefore : Text.sliceRel (x ++ y) 0 x.length = x := slice_before 0
  have hmeets : ¬ Rule.Meets ⟨⟨d :: l ++ [c], right⟩, after⟩ (x ++ [c]) y := by
    rintro ⟨-, hsuffix, -⟩
    have := hsuffix.length_le
    simp only [List.length_append, List.length_cons] at hl this
    omega
  have hmeetsTop : Rule.MeetsAtTop ⟨⟨d :: l ++ [c], right⟩, after⟩ x c y ↔
      (d = '\n' ∧ '\n' ∉ x) ∧ x = l ∧ y.take right.length = right := by
    simp only [Rule.MeetsAtTop, List.cons_append, List.cons.injEq, List.append_left_inj,
      List.prefix_iff_eq_take]
    rw [eq_comm (a := l), eq_comm (a := right)]
    tauto
  -- the line break is wanted, and the caret is on the first line
  have hatTop : (decide ((d :: l ++ [c]).head? = some '\n') && !x.contains '\n') =
      decide (d = '\n' ∧ '\n' ∉ x) := by
    simp [List.contains_eq_mem]
  have hneg : decide ((-1 : Int) < 0) = true := rfl
  simp only [convert?, htrigger, hstart, hbefore, hneg, decide_true, Bool.true_and, hatTop, hmeets,
    hmeetsTop, slice_behind, Rule.outcome?, ne_eq, not_true_eq_false, if_false]
  by_cases hat : d = '\n' ∧ '\n' ∉ x
  · obtain ⟨rfl, hx⟩ := hat
    have hleft : (if after.left.head? = some '\n' then after.left.drop 1 else after.left) =
        Rule.withoutBreak after.left := by
      rw [Rule.withoutBreak, List.drop_one]
    have hdrop : ('\n' :: l ++ [c]).drop 1 = l ++ [c] := rfl
    simp only [hx, not_false_eq_true, and_self, true_and, decide_true, Bool.true_and,
      Bool.not_true, Bool.false_eq_true, if_true, if_false, decide_eq_true_eq,
      hbefore, hdrop, hleft, List.append_left_inj]
    by_cases hcond : x = l ∧ y.take right.length = right
    · rw [if_pos hcond, if_pos hcond]
      have hk : right.length ≤ y.length := by
        rw [← hcond.2, List.length_take]
        exact Nat.min_le_right ..
      exact .some (brings_single (Nat.zero_le x.length) hk (Rule.withoutBreak after.left)
        after.right origin _)
    · rw [if_neg hcond, if_neg hcond]
      exact .none
  · simp only [hat, false_and, decide_false, Bool.not_false, if_true, if_false]
    exact .none

/-- **One rule**: the window that the typing aid looks at in the text before the edit is the one that
the rule is met in. -/
theorem rel_convert? (origin : Origin) (rule : Rule) :
    Option.Rel (Brings (x ++ y)) (convert? (x ++ y) origin x.length c rule)
      (rule.outcome? x c y) := by
  by_cases htrigger : rule.trigger? = some c
  · obtain ⟨⟨left, right⟩, after⟩ := rule
    obtain ⟨l, rfl : left = l ++ [c]⟩ := List.getLast?_eq_some_iff.1 htrigger
    rcases Nat.lt_trichotomy l.length (x.length + 1) with hlt | heq | hgt
    · exact rel_convert?_of_le (Nat.le_of_lt_succ hlt) after origin
    · exact rel_convert?_of_top heq after origin
    · -- the window is longer than all there is before the caret
      have hlen : (l ++ [c]).length = l.length + 1 := List.length_append
      have hmeets : ¬ Rule.Meets ⟨⟨l ++ [c], right⟩, after⟩ (x ++ [c]) y := by
        rintro ⟨-, hsuffix, -⟩
        have := hsuffix.length_le
        simp only [List.length_append, List.length_singleton] at this
        omega
      have htop : ¬ Rule.MeetsAtTop ⟨⟨l ++ [c], right⟩, after⟩ x c y := by
        rintro ⟨-, hl, -⟩
        have := congrArg List.length hl
        simp only [List.length_append, List.length_cons] at this
        omega
      have hne : (x.length : Int) - (l ++ [c]).length + 1 ≠ -1 := by omega
      have hneg : (x.length : Int) - (l ++ [c]).length + 1 < 0 := by omega
      simp only [convert?, htrigger, hneg, hne, ne_eq, not_true_eq_false, decide_true, decide_false,
        Bool.false_and, Bool.not_false, Bool.and_self, if_true, if_false, Rule.outcome?, hmeets,
        htop]
      exact .none
  · have hno : ¬ (rule.Meets (x ++ [c]) y ∨ rule.MeetsAtTop x c y) := mt trigger?_of_meets htrigger
    rw [not_or] at hno
    rw [convert?, if_pos htrigger, Rule.outcome?, if_neg hno.1, if_neg hno.2]
    exact .none

theorem rel_or {α β : Type} {R : α → β → Prop} {a a' : Option α} {b b' : Option β}
    (h : Option.Rel R a b) (h' : Option.Rel R a' b') : Option.Rel R (a.or a') (b.or b') := by
  cases h with
  | some h => exact .some h
  | none => exact h'

/-- The first one is found at the same place. -/
theorem rel_findSome? {α β γ : Type} {R : β → γ → Prop} {f : α → Option β} {g : α → Option γ}
    (h : ∀ a, Option.Rel R (f a) (g a)) (l : List α) :
    Option.Rel R (l.findSome? f) (l.findSome? g) := by
  induction l with
  | nil => exact .none
  | cons a l ih =>
    have ha := h a
    rw [List.findSome?_cons, List.findSome?_cons]
    cases hf : f a <;> cases hg : g a <;> rw [hf, hg] at ha
    · exact ih
    · cases ha
    · cases ha
    · exact ha

/-- A pair that is completed puts its two symbols at the place of the edit. -/
theorem rel_complete? (rules : RuleTable) (origin : Origin) :
    Option.Rel (Brings (x ++ y)) (complete? rules origin ⟨x.length, x.length, [c]⟩ c)
      (rules.paired? x c y) := by
  have hbrings : ∀ (t : Text) (reason : Reason), Brings (x ++ y)
      (Edit.single x.length x.length t origin (some (x.length + 1)) Edit.changeEvent, reason)
      ⟨x ++ t ++ y, x.length + 1⟩ := by
    intro t reason
    refine ⟨?_, rfl⟩
    show Text.splice (x ++ y) x.length x.length t = x ++ t ++ y
    rw [Text.splice_eq le_rfl (by rw [List.length_append]; omega), Int.toNat_natCast,
      List.take_left, List.drop_left]
  unfold complete? RuleTable.paired?
  cases Assoc.get? c rules.symbols with
  | some closing =>
    have := hbrings [c, closing] (.completesPair [c] [closing])
    exact .some (by simpa using this)
  | none =>
    cases Assoc.get? [c] rules.ambiguous with
    | some pair => exact .some (hbrings pair _)
    | none => exact .none

/-- Of a typed character only conversions and pairs can come. -/
theorem ofSpan?_typed (rules : RuleTable) (doc : Text) (n : Int) {origin : Origin}
    (horigin : origin.isCharacterInput = true) (settings : Settings) :
    ofSpan? rules doc origin ⟨n, n, [c]⟩ settings =
      ((conversionRules rules settings).findSome? (convert? doc origin n c)).or
        (if settings.pairSymbols then complete? rules origin ⟨n, n, [c]⟩ c else none) := by
  have hdelete : origin ≠ .deleteBackward := by rintro rfl; cases horigin
  have henclose : enclose? rules origin ⟨n, n, [c]⟩ = none := by simp [enclose?]
  simp only [ofSpan?, henclose, ite_self, hdelete, false_and, if_false, Option.none_or, input?,
    horigin, decide_true, Bool.and_self, if_true]

/-- **What takes the place of a typed character** is the outcome of the rules. -/
theorem rel_intervene? (settings : Settings) (rules : RuleTable) {origin : Origin}
    (horigin : origin.isCharacterInput = true) (caret : Option Int) :
    Option.Rel (Brings (x ++ y))
      (intervene? settings rules (x ++ y) (.single x.length x.length [c] origin caret))
      (rules.outcome? settings x c y) := by
  rw [intervene?, Edit.candidate?_typed, Option.bind_some]
  show Option.Rel _ (ofSpan? rules (x ++ y) origin _ settings) _
  rw [ofSpan?_typed rules _ _ horigin, conversionRules, List.findSome?_append, Option.or_assoc]
  have hrules : ∀ (on : Bool) (l : List Rule), Option.Rel (Brings (x ++ y))
      ((if on then l else []).findSome? (convert? (x ++ y) origin x.length c))
      (if on then l.findSome? (·.outcome? x c y) else none) := by
    intro on l
    cases on
    · exact .none
    · exact rel_findSome? (rel_convert? origin) l
  refine rel_or (hrules _ _) (rel_or (hrules _ _) ?_)
  cases settings.pairSymbols
  · exact .none
  · exact rel_complete? rules origin

end Intervention

/-- **A typed character goes by the first rule that is met.**  Committed to the text before the edit,
what takes the place of the edit gives the outcome of the rules; if there is none, the edit
stays. -/
theorem intervene_typed (settings : Settings) (rules : RuleTable) (x y : Text) (c : Char)
    {origin : Origin} (horigin : origin.isCharacterInput = true) (caret : Option Int) :
    match rules.outcome? settings x c y with
    | some m =>
      (intervene settings rules (x ++ y)
        (.single x.length x.length [c] origin caret)).apply (x ++ y) = m.text ∧
      (intervene settings rules (x ++ y)
        (.single x.length x.length [c] origin caret)).targetCaret = some (m.caret : Int)
    | none =>
      intervene settings rules (x ++ y) (.single x.length x.length [c] origin caret) =
        .single x.length x.length [c] origin caret := by
  have hrel := Intervention.rel_intervene? (x := x) (y := y) (c := c) settings rules horigin caret
  rw [intervene]
  generalize intervene? settings rules (x ++ y) _ = i at hrel ⊢
  generalize rules.outcome? settings x c y = m at hrel ⊢
  cases hrel with
  | some h => exact h
  | none => rfl

/-- Of two rules that are met at `a【【|】b`, the first one takes the closing bracket along. -/
theorem intervene_typed_bracket :
    Origin.typed.isCharacterInput = true ∧
      (intervene {} .default "a【】b".toList (.single 2 2 ['【'] .typed)).apply "a【】b".toList =
        "a[[]]b".toList ∧
      (intervene {} .default "a【】b".toList (.single 2 2 ['【'] .typed)).targetCaret = some 3 := by
  have houtcome : RuleTable.default.outcome? {} "a【".toList '【' "】b".toList =
      some ⟨"a[[]]b".toList, 3⟩ := by decide +kernel
  have htyped : Origin.typed.isCharacterInput = true := rfl
  have h := intervene_typed {} .default "a【".toList "】b".toList '【' htyped none
  rw [houtcome] at h
  exact ⟨htyped, h⟩

/-- At the top of the text no line break stands before the bracket. -/
example : RuleTable.default.outcome? {} [] '》' "abc".toList = some ⟨">abc".toList, 1⟩ := by
  decide +kernel

end TypingAid
