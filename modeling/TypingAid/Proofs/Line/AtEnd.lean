import TypingAid.Proofs.Line.Extend
import TypingAid.Proofs.Line.Fix

/-!
# The scope of typing

Behind a settled text, one more character brings one fix at most, and that fix reaches up to the
character (`fixes_concat`).  So a scope that holds the place of the character lets it through, and
the scope of typing does as much as none (`Tracked.AtEnd.respace`), however many spaces go away.
-/

namespace TypingAid

open Text

variable {style : Style} {rule : GapRule} {t v b : Text} {c : Char}

/-! ### The beginning of a settled text -/

theorem GapRule.Quiet.of_append (h : rule.Quiet b (t ++ v)) : rule.Quiet b t := by
  induction t generalizing b with
  | nil => trivial
  | cons c t ih => exact ⟨h.1, ih h.2⟩

theorem Text.Taut.of_append {before : Option Char} (h : Taut before (t ++ v)) : Taut before t := by
  induction t generalizing before with
  | nil => trivial
  | cons c t ih =>
    refine ⟨fun hcond => h.1 ⟨hcond.1, hcond.2.1, ?_⟩, ih h.2⟩
    have hne : t.dropWhile (· = ' ') ≠ [] := by
      intro hnil
      rw [hnil] at hcond
      cases hcond.2.2
    rw [List.append_eq, List.dropWhile_append, if_neg (by simpa using hne),
      List.head?_append_of_ne_nil _ hne]
    exact hcond.2.2

theorem Text.Settled.of_append (h : Settled style (t ++ v)) : Settled style t := by
  rw [settled_iff] at h ⊢
  exact ⟨fun hs => (h.1 hs).of_append, fun rule hr => (h.2 rule hr).of_append⟩

/-! ### Fixes before the last character -/

theorem gapsFrom_concat (offset : ℕ) (h : rule.Quiet b v) (c : Char) :
    gapsFrom rule b offset (v ++ [c]) =
      if rule (v.reverse ++ b) c then [⟨offset + v.length, offset + v.length, [' ']⟩] else [] := by
  induction v generalizing b offset with
  | nil => rfl
  | cons d v ih =>
    have hb : (d :: v).reverse ++ b = v.reverse ++ d :: b := by simp
    have hplace : offset + (d :: v).length = offset + 1 + v.length := by
      rw [List.length_cons]; omega
    rw [List.cons_append, gapsFrom, h.1, if_neg (by simp), ih _ h.2, hb, hplace]

theorem loosenedFrom_concat {before : Option Char} (offset : ℕ) (h : Taut before v) (c : Char) :
    loosenedFrom before offset (v ++ [c]) = [] ∨ ∃ w n, v = w ++ List.replicate n ' ' ∧
      loosenedFrom before offset (v ++ [c]) = [⟨offset + w.length, offset + v.length, []⟩] := by
  induction v generalizing before offset with
  | nil => exact .inl (by simp [loosenedFrom])
  | cons d v ih =>
    rw [List.cons_append, loosenedFrom]
    split_ifs with hcond
    · simp only [Bool.and_eq_true, decide_eq_true_eq] at hcond
      obtain ⟨⟨rfl, hbefore⟩, hnext⟩ := hcond
      -- the run of spaces has become one between tight characters, so it reaches up to `c`
      have hnil : v.dropWhile (· = ' ') = [] := by
        by_contra hne
        refine h.1 ⟨rfl, hbefore, ?_⟩
        rwa [List.dropWhile_append, if_neg (by simpa using hne), List.head?_append_of_ne_nil _ hne]
          at hnext
      have hspaces : ∀ e ∈ v, e = ' ' := by simpa using List.dropWhile_eq_nil_iff.1 hnil
      have hc : c ≠ ' ' := by
        rintro rfl
        rw [List.dropWhile_append, hnil] at hnext
        exact absurd hnext (by decide)
      have hrun : (v ++ [c]).takeWhile (· = ' ') = v :=
        takeWhile_append_stop (by simpa using hspaces) (by simpa using hc)
      have hrest : (v ++ [c]).dropWhile (· = ' ') = [c] :=
        dropWhile_append_stop (by simpa using hspaces) (by simpa using hc)
      refine .inr ⟨[], v.length + 1, ?_, ?_⟩
      · rw [List.replicate_succ, List.nil_append, ← List.eq_replicate_of_mem hspaces]
      · rw [loosenedFrom_spaces (by decide), hrest, hrun]
        simp [loosenedFrom, Nat.add_assoc]
    · rcases ih (offset + 1) h.2 with hnil | ⟨w, n, hv, hone⟩
      · exact .inl hnil
      · refine .inr ⟨d :: w, n, by rw [hv]; rfl, ?_⟩
        rw [hone, List.length_cons, List.length_cons, Nat.add_right_comm,
          Nat.add_right_comm offset 1]
        rfl

/-- **One more character behind a settled text brings one fix at most**, which reaches up to it: the
spaces before it go away, or one comes. -/
theorem fixes_concat {rule : SpacingRule} (hrule : rule ∈ spacingRules style)
    (hv : Settled style v) (c : Char) :
    rule (v ++ [c]) = [] ∨
      (∃ w n, v = w ++ List.replicate n ' ' ∧ rule (v ++ [c]) = [⟨w.length, v.length, []⟩]) ∨
      rule (v ++ [c]) = [⟨v.length, v.length, [' ']⟩] := by
  rw [settled_iff] at hv
  rw [spacingRules_eq, List.mem_append, List.mem_ite_nil_right, List.mem_singleton,
    List.mem_map] at hrule
  rcases hrule with ⟨hstyle, rfl⟩ | ⟨g, hg, rfl⟩
  · have h := loosenedFrom_concat 0 (hv.1 hstyle) c
    simp only [Nat.zero_add] at h
    exact h.imp id .inl
  · have h := gapsFrom_concat 0 (hv.2 g hg) c
    rw [Nat.zero_add] at h
    rw [gaps, h]
    split_ifs
    · exact .inr (.inr rfl)
    · exact .inl rfl

/-! ### The scope of typing -/

/-- The character `c` has been put in behind the settled text `v`: the caret is behind it, and the
scope holds the place where it is. -/
structure Tracked.AtEnd (style : Style) (t : Tracked) (v : Text) (c : Char) : Prop where
  text : t.text = v ++ [c]
  settled : Settled style v
  caret : t.caret = some (v.length + 1 : Int)
  scope : ∃ s ∈ t.scope, s.start ≤ v.length ∧ (v.length : Int) ≤ s.stop

theorem Tracked.adjust_nil (t : Tracked) : t.adjust [] = t := by
  have hshift : Fix.shiftAll [] = id := by
    funext x
    exact Int.add_zero x
  obtain ⟨text, caret, scope⟩ := t
  cases scope <;> simp [Tracked.adjust, hshift, Fix.applyFrom]

theorem applyFrom_single (w z ins : Text) (c : Char) :
    Fix.applyFrom 0 (w ++ z ++ [c]) [⟨w.length, (w ++ z).length, ins⟩] = w ++ ins ++ [c] := by
  rw [List.append_assoc, Fix.applyFrom_append (Nat.zero_add _).symm List.length_append,
    ← List.append_assoc]
  rfl

/-- A fix that ends just before `c` is carried out, and moves the caret and the scope along. -/
theorem Tracked.AtEnd.adjust_single {t : Tracked} {w z ins : Text} (h : t.AtEnd style (w ++ z) c)
    (hsettled : Settled style (w ++ ins)) :
    (t.adjust [⟨w.length, (w ++ z).length, ins⟩]).AtEnd style (w ++ ins) c := by
  obtain ⟨htext, -, hcaret, s, hscope, hstart, hstop⟩ := h
  rw [Option.mem_def] at hscope
  have hlength : ((w ++ z).length : Int) = w.length + z.length := by
    rw [List.length_append, Int.natCast_add]
  have hlength' : ((w ++ ins).length : Int) = w.length + ins.length := by
    rw [List.length_append, Int.natCast_add]
  obtain ⟨f, hf⟩ : ∃ f : Fix, f = ⟨w.length, (w ++ z).length, ins⟩ := ⟨_, rfl⟩
  have htouches : Scope.touches (some s) f.start f.stop = true := by
    rw [Scope.touches, Bool.and_eq_true, decide_eq_true_eq, decide_eq_true_eq, hf]
    dsimp only
    omega
  have hfilter : [f].filter (fun f => Scope.touches (some s) f.start f.stop) = [f] := by
    rw [List.filter_cons, if_pos htouches, List.filter_nil]
  have happly : Fix.applyFrom 0 (w ++ z ++ [c]) [f] = w ++ ins ++ [c] := by
    rw [hf]
    exact applyFrom_single w z ins c
  have hshift : Fix.shiftAll [f] = f.shift := by
    funext x
    rw [Fix.shiftAll, Fix.drift, Fix.drift]; omega
  have hcaret' : f.shift ((w ++ z).length + 1) = (w ++ ins).length + 1 := by
    rw [Fix.shift, hf, if_pos (by dsimp only; omega)]
    dsimp only
    omega
  have hstart' : f.shift s.start ≤ (w ++ ins).length := by
    rw [Fix.shift, hf]
    dsimp only
    split_ifs <;> omega
  have hstop' : ((w ++ ins).length : Int) ≤ f.shift s.stop := by
    rw [Fix.shift, hf, if_pos hstop]
    dsimp only
    omega
  have hadjust : t.adjust [f] = ⟨w ++ ins ++ [c], some ((w ++ ins).length + 1),
      some ⟨f.shift s.start, f.shift s.stop⟩⟩ := by
    simp only [Tracked.adjust, hfilter, htext, hcaret, hscope, Option.map_some, happly, hshift,
      hcaret']
  rw [← hf, hadjust]
  exact ⟨rfl, hsettled, rfl, _, rfl, hstart', hstop'⟩

/-- All fixes of a rule are carried out, and the character stays at the end. -/
theorem Tracked.AtEnd.adjust {t : Tracked} (h : t.AtEnd style v c) {rule : SpacingRule}
    (hrule : rule ∈ spacingRules style) :
    ∃ v', (t.adjust (rule t.text)).AtEnd style v' c ∧ v' ++ [c] = rule.run (v ++ [c]) := by
  have hsettled := h.settled
  rw [h.text, SpacingRule.run]
  rcases fixes_concat hrule hsettled c with hfixes | ⟨w, n, rfl, hfixes⟩ | hfixes
  · rw [hfixes, t.adjust_nil]
    exact ⟨v, h, rfl⟩
  · -- the run of spaces goes away
    have hw : Settled style (w ++ []) := by
      rw [List.append_nil]
      exact hsettled.of_append
    rw [hfixes]
    exact ⟨w ++ [], h.adjust_single hw, (applyFrom_single w _ [] c).symm⟩
  · -- a space comes
    have hv : t.AtEnd style (v ++ []) c := by rwa [List.append_nil]
    have hend := hv.adjust_single hsettled.append_space
    have happly := applyFrom_single v [] [' '] c
    rw [List.append_nil] at hend happly
    rw [hfixes]
    exact ⟨v ++ [' '], hend, happly.symm⟩

/-- The rules one after the other, as without a scope. -/
theorem Tracked.AtEnd.foldl {rules : List SpacingRule}
    (hrules : ∀ rule ∈ rules, rule ∈ spacingRules style) {t : Tracked} (h : t.AtEnd style v c) :
    ∃ v', (rules.foldl (fun t rule => t.adjust (rule t.text)) t).AtEnd style v' c ∧
      v' ++ [c] = rules.foldl (fun t rule => rule.run t) (v ++ [c]) := by
  induction rules generalizing t v with
  | nil => exact ⟨v, h, rfl⟩
  | cons rule rules ih =>
    obtain ⟨v', hv', hrun⟩ := h.adjust (hrules rule List.mem_cons_self)
    rw [List.foldl_cons, List.foldl_cons, ← hrun]
    exact ih (fun r hr => hrules r (List.mem_cons_of_mem _ hr)) hv'

/-- **Under a scope that holds the place of `c`, setting does as much as without one.** -/
theorem Tracked.AtEnd.respace {t : Tracked} (h : t.AtEnd style v c) :
    (t.respace style).text = style.respace (v ++ [c]) ∧
      (t.respace style).caret = some ((style.respace (v ++ [c])).length : Int) := by
  obtain ⟨v', hend, hrun⟩ := h.foldl fun _ hr => hr
  have hresult : v' ++ [c] = style.respace (v ++ [c]) := hrun
  refine ⟨hend.text.trans hresult, hend.caret.trans ?_⟩
  rw [← hresult, List.length_append]
  rfl

end TypingAid
