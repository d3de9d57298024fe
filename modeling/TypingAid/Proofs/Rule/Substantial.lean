import TypingAid.Proofs.Assoc
import TypingAid.Proofs.Edit.Change
import TypingAid.Proofs.Rule.Intervention
import TypingAid.Session.Basic

/-!
# Pairs that hold something

A table may list the empty pair: a closing symbol that stands for no text at all, or nothing on
either side of a selection.  A key that gives such a pair changes nothing and only moves the caret.

If every pair holds something (`RuleTable.Substantial`), then a typed character either changes the
text or leaves the caret where it is (`caret_filter_typed`).
-/

namespace TypingAid

/-- Every pair that comes to stand around a selection or in place of a closing symbol holds
something. -/
structure RuleTable.Substantial (rules : RuleTable) : Prop where
  enclosing : ∀ e ∈ rules.enclosing, e.2.text ≠ []
  ambiguous : ∀ e ∈ rules.ambiguous, e.2 ≠ []

theorem RuleTable.substantial_default : RuleTable.default.Substantial :=
  ⟨by decide +kernel, by decide +kernel⟩

namespace Intervention

variable {rules : RuleTable} {doc : Text} {origin : Origin} {span : Span} {i : Intervention}

theorem isChange_of_enclose? (hrules : rules.Substantial)
    (h : enclose? rules origin span = some i) : i.1.isChange = true := by
  rw [enclose?] at h
  split_ifs at h
  obtain ⟨pair, hpair, rfl⟩ := Option.map_eq_some_iff.1 h
  have hne : pair.left ++ pair.right ≠ [] := hrules.enclosing _ (Assoc.mem_of_get? hpair)
  rw [ne_eq, List.append_eq_nil_iff, not_and_or] at hne
  simp only [Edit.isChange, List.any_cons, List.any_nil, Bool.or_false, Span.isChange,
    Bool.or_eq_true, Bool.not_eq_true', List.isEmpty_eq_false_iff]
  exact hne.imp .inr .inr

theorem isChange_of_complete? {c : Char} (hrules : rules.Substantial)
    (h : complete? rules origin span c = some i) : i.1.isChange = true := by
  unfold complete? at h
  dsimp only at h
  split at h
  · rw [← Option.some.inj h]
    exact Edit.isChange_single (List.cons_ne_nil _ _) ..
  · obtain ⟨pair, hpair, rfl⟩ := Option.map_eq_some_iff.1 h
    exact Edit.isChange_single (hrules.ambiguous _ (Assoc.mem_of_get? hpair)) ..

/-- A conversion that changes nothing has nothing on either side of the caret. -/
theorem caret_of_convert? {place : Int} {c : Char} {rule : Rule} (h0 : 0 ≤ place)
    (h : convert? doc origin place c rule = some i) (hsame : i.1.isChange = false) :
    i.1.targetCaret = some place := by
  rw [convert?] at h
  obtain ⟨htrigger, h⟩ := Option.ite_none_left_eq_some.1 h
  obtain ⟨-, h⟩ := Option.ite_none_left_eq_some.1 h
  obtain ⟨-, h⟩ := Option.ite_none_right_eq_some.1 h
  have hne : rule.before.left.length ≠ 0 := by
    intro hz
    rw [List.length_eq_zero_iff] at hz
    simp [Rule.trigger?, hz] at htrigger
  rw [← Option.some.inj h, Edit.isChange_single_eq_false_iff, List.append_eq_nil_iff] at hsame
  obtain ⟨hstop, hleft, -⟩ := hsame
  rw [← Option.some.inj h, Edit.targetCaret, Edit.single, Option.some_or, hleft, ← hstop]
  -- the rule starts no later than at the caret and stops no earlier
  rw [List.length_nil]
  congr 1
  split_ifs at hstop <;> omega

theorem caret_of_ofSpan? {settings : Settings} {c : Char} (hrules : rules.Substantial)
    (h0 : 0 ≤ span.start) (hinsert : span.insert = [c])
    (h : ofSpan? rules doc origin span settings = some i) (hsame : i.1.isChange = false) :
    span.start = span.stop ∧ i.1.targetCaret = some span.start := by
  simp only [ofSpan?, Option.or_eq_some_iff] at h
  rcases h with h | ⟨-, h | ⟨-, h⟩⟩
  · split_ifs at h
    simp [isChange_of_enclose? hrules h] at hsame
  · simp [delete?, hinsert] at h
  · simp only [input?, hinsert] at h
    obtain ⟨hplace, h⟩ := Option.ite_none_right_eq_some.1 h
    simp only [Bool.and_eq_true, decide_eq_true_eq] at hplace
    refine ⟨hplace.2, ?_⟩
    rcases Option.or_eq_some_iff.1 h with h | ⟨-, h⟩
    · obtain ⟨rule, -, hrule⟩ := List.exists_of_findSome?_eq_some h
      exact caret_of_convert? h0 hrule hsame
    · split_ifs at h
      simp [isChange_of_complete? hrules h] at hsame

end Intervention

/-- **A typed character changes the text or leaves the caret.** -/
theorem caret_filter_typed {s : Session} {a b : Int} {c : Char} {origin : Origin} {doc : Text}
    (hrules : s.rules.Substantial) (h0 : 0 ≤ a)
    (hsame : (s.filter doc (.single a b [c] origin)).isChange = false) :
    a = b ∧ (s.filter doc (.single a b [c] origin)).targetCaret = some a := by
  have hchange : (Edit.single a b [c] origin).isChange = true :=
    Edit.isChange_single (List.cons_ne_nil _ _) ..
  rw [Session.filter, intervene] at hsame ⊢
  cases hi : intervene? s.settings s.rules doc (.single a b [c] origin) with
  | none =>
    -- the character itself is a change
    rw [hi] at hsame
    exact absurd (hchange.symm.trans hsame) (by decide)
  | some i =>
    rw [hi] at hsame
    rw [intervene?, Edit.candidate?, hchange, Edit.isAutomatic_single] at hi
    exact Intervention.caret_of_ofSpan? hrules h0 rfl hi hsame

end TypingAid
