import TypingAid.Proofs.Line.Touch
import TypingAid.Proofs.Text.Runs
import Mathlib.Tactic.Tauto

/-!
# Spacing rules as rewriting

A spacing rule gives a list of fixes, which are then carried out.  Without a scope all of them are,
and the two steps together are one walk through the text:

* `Text.spread` puts a space into every gap that meets a rule (`applyFrom_gapsFrom`);
* `Text.tighten` drops the spaces between two characters that are set without blanks
  (`applyFrom_loosenedFrom`).

`Style.respace` is all rules of a style, one after the other.  It only touches the text
(`touches_respace`).
-/

namespace TypingAid

namespace Text

/-- A text that stands after `before`, with a space in every gap that meets the rule. -/
def spread (rule : GapRule) (before : Text) : Text → Text
  | [] => []
  | c :: t =>
    if rule before c then ' ' :: c :: spread rule (c :: before) t
    else c :: spread rule (c :: before) t

/-- A text that stands after `before`, without the spaces between two tight characters. -/
def tighten (before : Option Char) : Text → Text
  | [] => []
  | c :: t =>
    if c = ' ' && before.any isTight && (t.dropWhile (· = ' ')).head?.any isTight then
      tighten before t
    else c :: tighten (some c) t

end Text

open Text

/-! ### Carrying out the fixes -/

/-- A character before the first fix stays. -/
theorem Fix.applyFrom_cons {fixes : List Fix} {offset : ℕ}
    (h : ∀ f ∈ fixes, offset < f.start ∧ f.start ≤ f.stop) (c : Char) (t : Text) :
    applyFrom offset (c :: t) fixes = c :: applyFrom (offset + 1) t fixes := by
  cases fixes with
  | nil => rfl
  | cons f rest =>
    obtain ⟨h1, h2⟩ := h f List.mem_cons_self
    have hs : f.start - offset = f.start - (offset + 1) + 1 := by omega
    have ht : f.stop - offset = f.stop - (offset + 1) + 1 := by omega
    rw [applyFrom, applyFrom, hs, ht, List.take_succ_cons, List.drop_succ_cons]
    rfl

theorem start_of_mem_gapsFrom {rule : GapRule} {before t : Text} {offset : ℕ} {f : Fix}
    (h : f ∈ gapsFrom rule before offset t) : offset ≤ f.start ∧ f.start = f.stop := by
  induction t generalizing before offset with
  | nil => cases h
  | cons c t ih =>
    rw [gapsFrom] at h
    split_ifs at h
    · rcases List.mem_cons.1 h with rfl | h
      · exact ⟨le_rfl, rfl⟩
      · have := ih h; omega
    · have := ih h; omega

theorem applyFrom_gapsFrom (rule : GapRule) (before : Text) (offset : ℕ) (t : Text) :
    Fix.applyFrom offset t (gapsFrom rule before offset t) = spread rule before t := by
  induction t generalizing before offset with
  | nil => rfl
  | cons c t ih =>
    have hstart : ∀ f ∈ gapsFrom rule (c :: before) (offset + 1) t,
        offset < f.start ∧ f.start ≤ f.stop := fun f hf => by
      have := start_of_mem_gapsFrom hf; omega
    have hcons := Fix.applyFrom_cons hstart c t
    rw [gapsFrom, spread]
    split_ifs
    · rw [Fix.applyFrom, Nat.sub_self, List.take_zero, List.drop_zero, hcons, ih]; rfl
    · rw [hcons, ih]

theorem start_of_mem_loosenedFrom {before : Option Char} {t : Text} {offset : ℕ} {f : Fix}
    (h : f ∈ loosenedFrom before offset t) : offset ≤ f.start ∧ f.start ≤ f.stop := by
  induction t generalizing before offset with
  | nil => cases h
  | cons c t ih =>
    rw [loosenedFrom] at h
    split_ifs at h
    · rcases List.mem_cons.1 h with rfl | h
      · exact ⟨le_rfl, by dsimp only; omega⟩
      · have := ih h; omega
    · have := ih h; omega

/-- Spaces that do not follow a tight character are passed over. -/
theorem loosenedFrom_spaces {before : Option Char} (h : before.any isTight = false) (offset : ℕ)
    (t : Text) :
    loosenedFrom before offset t =
      loosenedFrom none (offset + (t.takeWhile (· = ' ')).length) (t.dropWhile (· = ' ')) := by
  induction t generalizing before offset with
  | nil => rfl
  | cons c t ih =>
    by_cases hc : c = ' '
    · subst hc
      rw [loosenedFrom, h, ih (by decide)]
      simp only [Bool.and_false, Bool.false_and, Bool.false_eq_true, if_false, decide_true,
        List.takeWhile_cons_of_pos, List.dropWhile_cons_of_pos, List.length_cons]
      congr 1
      omega
    · simp [loosenedFrom, h, hc]

theorem tighten_spaces {before : Option Char} (h : before.any isTight = true) {t : Text}
    (ht : (t.dropWhile (· = ' ')).head?.any isTight = true) :
    tighten before t = tighten none (t.dropWhile (· = ' ')) := by
  induction t with
  | nil => rfl
  | cons c t ih =>
    by_cases hc : c = ' '
    · subst hc
      simp only [decide_true, List.dropWhile_cons_of_pos] at ht ⊢
      rw [tighten, if_pos (by simp [h, ht]), ih ht]
    · simp [tighten, hc]

theorem applyFrom_loosenedFrom (before : Option Char) (offset : ℕ) (t : Text) :
    Fix.applyFrom offset t (loosenedFrom before offset t) = tighten before t := by
  induction hn : t.length using Nat.strong_induction_on generalizing before offset t with
  | h n ih =>
    cases t with
    | nil => rfl
    | cons c t =>
      subst hn
      rw [loosenedFrom, tighten]
      split_ifs with hcond
      · -- the whole run goes away at once, and the walk drops its spaces one by one
        simp only [Bool.and_eq_true, decide_eq_true_eq] at hcond
        obtain ⟨⟨rfl, hbefore⟩, hnext⟩ := hcond
        set n := (t.takeWhile (· = ' ')).length with hn
        have hdrop : (' ' :: t).drop (offset + n + 1 - offset) = t.dropWhile (· = ' ') := by
          rw [show offset + n + 1 - offset = n + 1 by omega, List.drop_succ_cons, hn,
            drop_length_takeWhile]
        rw [loosenedFrom_spaces (by decide), Fix.applyFrom, hdrop, ← hn,
          show offset + 1 + n = offset + n + 1 by omega, tighten_spaces hbefore hnext]
        simp only [Nat.sub_self, List.take_zero, List.nil_append]
        refine ih _ ?_ none (offset + n + 1) _ rfl
        exact Nat.lt_succ_of_le (List.length_dropWhile_le _ t)
      · -- the character stays, and all fixes lie behind it
        rw [Fix.applyFrom_cons fun f hf => by have := start_of_mem_loosenedFrom hf; omega]
        rw [ih t.length (by simp) (some c) (offset + 1) t rfl]

/-! ### The rules of a style -/

/-- What a spacing rule makes of a text. -/
def SpacingRule.run (rule : SpacingRule) (t : Text) : Text := Fix.applyFrom 0 t (rule t)

theorem run_gaps (rule : GapRule) (t : Text) : SpacingRule.run (gaps rule) t = spread rule [] t :=
  applyFrom_gapsFrom rule [] 0 t

theorem run_loosened (t : Text) : SpacingRule.run loosened t = tighten none t :=
  applyFrom_loosenedFrom none 0 t

/-- A plain text after all spacing rules of a style, without scope and caret. -/
def Style.respace (style : Style) (t : Text) : Text :=
  (spacingRules style).foldl (fun t rule => SpacingRule.run rule t) t

/-- Without a scope all fixes are carried out. -/
theorem Tracked.adjust_none (t : Text) (caret : Option Int) (fixes : List Fix) :
    Tracked.adjust ⟨t, caret, none⟩ fixes =
      ⟨Fix.applyFrom 0 t fixes, caret.map (Fix.shiftAll fixes), none⟩ := by
  have hall : (fixes.filter fun f => Scope.touches none f.start f.stop) = fixes :=
    List.filter_eq_self.2 fun _ _ => rfl
  simp only [adjust, hall, Option.map_none]

theorem text_respace (style : Style) (t : Text) (caret : Option Int) :
    (Tracked.respace style ⟨t, caret, none⟩).text = style.respace t := by
  have key : ∀ (rules : List SpacingRule) (t : Text) (caret : Option Int),
      (rules.foldl (fun t rule => t.adjust (rule t.text)) (⟨t, caret, none⟩ : Tracked)).text =
        rules.foldl (fun t rule => SpacingRule.run rule t) t := by
    intro rules
    induction rules with
    | nil => intro t caret; rfl
    | cons rule rules ih =>
      intro t caret
      rw [List.foldl_cons, List.foldl_cons, Tracked.adjust_none]
      exact ih _ _
  exact key _ t caret

/-- The gap rules that a style asks for. -/
def gapRules (style : Style) : List GapRule :=
  (if style.cjkLatinSpace then [between isCjk isLatin] else []) ++
  (if style.cjkFigureSpace then [between isCjk isFigure] else []) ++
  (if style.latinFigureSpace then [between isLatin isFigure] else []) ++
  (if style.punctuationSpace then [afterPunctuation] else [])

theorem spacingRules_eq (style : Style) :
    spacingRules style =
      (if style.cjkNoSpace then [loosened] else []) ++ (gapRules style).map gaps := by
  simp only [spacingRules, gapRules, List.map_append, List.append_assoc]
  split_ifs <;> rfl

/-- A text after some rules for gaps. -/
def spreadAll (rules : List GapRule) (t : Text) : Text :=
  rules.foldl (fun t σ => spread σ [] t) t

theorem respace_eq (style : Style) (t : Text) : style.respace t =
    spreadAll (gapRules style) (if style.cjkNoSpace then tighten none t else t) := by
  rw [Style.respace, spacingRules_eq, List.foldl_append, List.foldl_map, spreadAll]
  split_ifs
  · simp only [List.foldl_cons, List.foldl_nil, run_loosened, run_gaps]
  · simp only [List.foldl_nil, run_gaps]

/-- The gaps that rules may fill: behind a letter, a digit, a Chinese or Japanese character or a
half-width mark, and before a letter, a digit or a Chinese or Japanese character; but not between
two characters that are set without blanks. -/
structure FillableGap (a c : Char) : Prop where
  before : isCjk a = true ∨ isLatin a = true ∨ isFigure a = true ∨ a ∈ '.' :: pauseMarks
  after : isCjk c = true ∨ isLatin c = true ∨ isFigure c = true
  loose : ¬ (isTight a = true ∧ isTight c = true)

theorem isBlank_of_class {c : Char} (h : isCjk c = true ∨ isLatin c = true ∨ isFigure c = true) :
    isBlank c = false := by
  rcases h with h | h | h
  · exact isBlank_of_isTight (isTight_iff.2 (.inl h))
  · exact isBlank_of_isLatin h
  · exact isBlank_of_isFigure h

theorem FillableGap.isBlank_eq {a c : Char} (h : FillableGap a c) :
    isBlank a = false ∧ isBlank c = false := by
  have hmark : ∀ d ∈ '.' :: pauseMarks, isBlank d = false := by decide
  refine ⟨?_, isBlank_of_class h.after⟩
  rcases h.before with ha | ha | ha | ha
  · exact isBlank_of_class (.inl ha)
  · exact isBlank_of_class (.inr (.inl ha))
  · exact isBlank_of_class (.inr (.inr ha))
  · exact hmark a ha

/-- The rule about punctuation looks at two characters before a gap. -/
theorem exists_of_afterPunctuation {before : Text} {c : Char}
    (h : afterPunctuation before c = true) : ∃ mark a rest, before = mark :: a :: rest := by
  rcases before with _ | ⟨mark, _ | ⟨a, rest⟩⟩
  · cases h
  · cases h
  · exact ⟨mark, a, rest, rfl⟩

theorem fillableGap_of_mem_gapRules {style : Style} {rule : GapRule} (h : rule ∈ gapRules style)
    {before : Text} {c : Char} (hc : rule before c = true) :
    ∃ a rest, before = a :: rest ∧ FillableGap a c := by
  have hbetween : ∀ p q : Char → Bool,
      (∀ x, p x = true → isCjk x = true ∨ isLatin x = true ∨ isFigure x = true) →
      (∀ x, q x = true → isLatin x = true ∨ isFigure x = true) →
      between p q before c = true → ∃ a rest, before = a :: rest ∧ FillableGap a c := by
    intro p q hp hq hr
    cases before with
    | nil => cases hr
    | cons a rest =>
      have htight : ∀ x, q x = true → isTight x = false := fun x hx =>
        (hq x hx).elim isTight_of_isLatin isTight_of_isFigure
      refine ⟨a, rest, rfl, ?_⟩
      simp only [between, Bool.or_eq_true, Bool.and_eq_true] at hr
      rcases hr with ⟨ha, hc⟩ | ⟨ha, hc⟩
      · exact ⟨by have := hp a ha; tauto, .inr (hq c hc), by simp [htight c hc]⟩
      · exact ⟨by have := hq a ha; tauto, hp c hc, by simp [htight a ha]⟩
  have hpunct : afterPunctuation before c = true →
      ∃ a rest, before = a :: rest ∧ FillableGap a c := by
    intro hr
    obtain ⟨mark, a, rest, rfl⟩ := exists_of_afterPunctuation hr
    simp only [afterPunctuation, Bool.or_eq_true, Bool.and_eq_true, decide_eq_true_eq,
      List.contains_iff_mem] at hr
    refine ⟨mark, a :: rest, rfl, ?_⟩
    -- a letter follows in both forms of the rule, which is a mark of any kind or a full stop
    have hlatin : isLatin c = true := by
      rcases hr with h | h
      · exact h.2
      · exact isLatin_iff.2 (.inl h.2)
    refine ⟨.inr (.inr (.inr ?_)), .inr (.inl hlatin), by simp [isTight_of_isLatin hlatin]⟩
    rcases hr with h | h
    · exact List.mem_cons_of_mem _ h.1.1.1
    · simp [h.1.1.1]
  simp only [gapRules, List.mem_append, List.mem_ite_nil_right, List.mem_singleton] at h
  rcases h with ((⟨-, rfl⟩ | ⟨-, rfl⟩) | ⟨-, rfl⟩) | ⟨-, rfl⟩
  · exact hbetween _ _ (fun x hx => .inl hx) (fun x hx => .inl hx) hc
  · exact hbetween _ _ (fun x hx => .inl hx) (fun x hx => .inr hx) hc
  · exact hbetween _ _ (fun x hx => .inr (.inl hx)) (fun x hx => .inr hx) hc
  · exact hpunct hc

/-! ### Rules only touch -/

variable {gap : Char → Char → Prop}

/-- The fixes of a rule for gaps, and any of them, leave the character in front alone. -/
theorem applyFrom_filter_gapsFrom (rule : GapRule) (p : Fix → Bool) (before : Text) (offset : ℕ)
    (c : Char) (t : Text) :
    Fix.applyFrom offset (c :: t) ((gapsFrom rule before (offset + 1) t).filter p) =
      c :: Fix.applyFrom (offset + 1) t ((gapsFrom rule before (offset + 1) t).filter p) :=
  Fix.applyFrom_cons (fun f hf => by
    have := start_of_mem_gapsFrom (List.mem_filter.1 hf).1; omega) c t

theorem applyFrom_filter_loosenedFrom (p : Fix → Bool) (before : Option Char) (offset : ℕ)
    (c : Char) (t : Text) :
    Fix.applyFrom offset (c :: t) ((loosenedFrom before (offset + 1) t).filter p) =
      c :: Fix.applyFrom (offset + 1) t ((loosenedFrom before (offset + 1) t).filter p) :=
  Fix.applyFrom_cons (fun f hf => by
    have := start_of_mem_loosenedFrom (List.mem_filter.1 hf).1; omega) c t

/-- Whichever of the gaps that meet a rule get a space. -/
theorem touches_gapsFrom {rule : GapRule} (h : ∀ a rest c, rule (a :: rest) c = true → gap a c)
    (p : Fix → Bool) (a : Char) (before : Text) (offset : ℕ) (t : Text) :
    Touches gap (a :: t)
      (a :: Fix.applyFrom offset t ((gapsFrom rule (a :: before) offset t).filter p)) := by
  induction t generalizing a before offset with
  | nil => exact .refl _
  | cons c t ih =>
    have ht := (ih c (a :: before) (offset + 1)).cons a
    have hcons := applyFrom_filter_gapsFrom rule p (c :: a :: before) offset c t
    rw [gapsFrom]
    split_ifs with hr
    · rw [List.filter_cons]
      split_ifs
      · rw [Fix.applyFrom, Nat.sub_self, List.take_zero, List.drop_zero, hcons]
        exact ht.tail (.widen (h a before c hr))
      · rw [hcons]; exact ht
    · rw [hcons]; exact ht

/-- A run of spaces between two tight characters goes away one space after the other. -/
theorem touches_run {a d : Char} (ha : isTight a = true) (hd : isTight d = true) (n : ℕ)
    (t : Text) : Touches gap (a :: (List.replicate n ' ' ++ d :: t)) (a :: d :: t) := by
  induction n with
  | zero => exact .refl _
  | succ n ih =>
    refine .head ?_ ih
    cases n with
    | zero => exact .narrow ha (.inl hd)
    | succ n => exact .narrow ha (.inr rfl)

/-- A tight character behind a run of spaces. -/
theorem exists_tight {t : Text} (h : (t.dropWhile (· = ' ')).head?.any isTight = true) :
    ∃ d u, t.dropWhile (· = ' ') = d :: u ∧ isTight d = true ∧
      t = List.replicate (t.takeWhile (· = ' ')).length ' ' ++ d :: u := by
  have htake : t.takeWhile (· = ' ') = List.replicate (t.takeWhile (· = ' ')).length ' ' :=
    List.eq_replicate_iff.2 ⟨rfl, fun c hc => by simpa using List.mem_takeWhile_imp hc⟩
  cases hu : t.dropWhile (· = ' ') with
  | nil => simp [hu] at h
  | cons d u =>
    refine ⟨d, u, rfl, by simpa [hu] using h, ?_⟩
    rw [← htake, ← hu, List.takeWhile_append_dropWhile]

/-- One fix takes a run of spaces away as a whole, and the walk goes on with the tight character
behind it. -/
theorem applyFrom_run {d : Char} {t u : Text} (hu : t.dropWhile (· = ' ') = d :: u)
    (hd : isTight d = true) (p : Fix → Bool) (offset : ℕ) :
    ∃ k, Fix.applyFrom offset (' ' :: t)
        (⟨offset, offset + (t.takeWhile (· = ' ')).length + 1, []⟩ ::
          (loosenedFrom (some ' ') (offset + 1) t).filter p) =
      d :: Fix.applyFrom k u ((loosenedFrom (some d) k u).filter p) := by
  set m := (t.takeWhile (· = ' ')).length with hm
  have hdrop : (' ' :: t).drop (offset + m + 1 - offset) = d :: u := by
    rw [show offset + m + 1 - offset = m + 1 by omega, List.drop_succ_cons, hm,
      drop_length_takeWhile, hu]
  have hspace : d ≠ ' ' := by rintro rfl; cases hd
  have hnone : loosenedFrom none (offset + 1 + m) (d :: u) =
      loosenedFrom (some d) (offset + m + 1 + 1) u := by
    rw [loosenedFrom, if_neg (by simp [hspace])]
    congr 1
    omega
  refine ⟨offset + m + 1 + 1, ?_⟩
  rw [loosenedFrom_spaces (by decide), ← hm, hu, hnone, Fix.applyFrom, hdrop, Nat.sub_self,
    List.take_zero, List.nil_append, List.nil_append, applyFrom_filter_loosenedFrom]

/-- Whichever of the runs of spaces between tight characters go away. -/
theorem touches_loosenedFrom (p : Fix → Bool) (a : Char) (offset : ℕ) (t : Text) :
    Touches gap (a :: t)
      (a :: Fix.applyFrom offset t ((loosenedFrom (some a) offset t).filter p)) := by
  induction hn : t.length using Nat.strong_induction_on generalizing a offset t with
  | h n ih =>
    cases t with
    | nil => exact .refl _
    | cons c t =>
      subst hn
      have ht := (ih t.length (by simp) c (offset + 1) t rfl).cons a
      have hcons := applyFrom_filter_loosenedFrom p (some c) offset c t
      rw [loosenedFrom]
      split_ifs with hcond
      · rw [List.filter_cons]
        split_ifs
        · simp only [Bool.and_eq_true, decide_eq_true_eq, Option.any_some] at hcond
          obtain ⟨⟨rfl, ha⟩, hnext⟩ := hcond
          obtain ⟨d, u, hu, hd, hrun⟩ := exists_tight hnext
          obtain ⟨k, hk⟩ := applyFrom_run hu hd p offset
          have hlen : u.length < (' ' :: t).length := by
            rw [hrun, List.length_cons, List.length_append, List.length_cons]; omega
          rw [hk, hrun]
          exact (touches_run ha hd ((t.takeWhile (· = ' ')).length + 1) u).trans
            ((ih u.length hlen d k u rfl).cons a)
        · rw [hcons]; exact ht
      · rw [hcons]; exact ht

/-- Whichever of the fixes that a rule of a style asks for are carried out. -/
theorem touches_of_mem_spacingRules {style : Style} (h : ∀ a c, FillableGap a c → gap a c)
    {rule : SpacingRule} (hrule : rule ∈ spacingRules style) (p : Fix → Bool) (t : Text) :
    Touches gap t (Fix.applyFrom 0 t ((rule t).filter p)) := by
  rw [spacingRules_eq] at hrule
  -- no rule does anything before the first character, so that a touch always has one in front
  cases t with
  | nil =>
    rcases List.mem_append.1 hrule with hl | hg
    · rw [List.mem_ite_nil_right, List.mem_singleton] at hl
      rw [hl.2]; exact .refl _
    · obtain ⟨g, -, rfl⟩ := List.mem_map.1 hg
      exact .refl _
  | cons c t =>
    rcases List.mem_append.1 hrule with hl | hg
    · rw [List.mem_ite_nil_right, List.mem_singleton] at hl
      rw [hl.2, loosened, loosenedFrom, if_neg (by simp), applyFrom_filter_loosenedFrom]
      exact touches_loosenedFrom p c 1 t
    · obtain ⟨g, hmem, rfl⟩ := List.mem_map.1 hg
      have hg' : ∀ a rest d, g (a :: rest) d = true → gap a d := by
        intro a rest d hd
        obtain ⟨_, _, he, hgap⟩ := fillableGap_of_mem_gapRules hmem hd
        cases he
        exact h a d hgap
      have hnil : g [] c = false := by
        refine Bool.eq_false_iff.2 fun hc => ?_
        obtain ⟨_, _, he, -⟩ := fillableGap_of_mem_gapRules hmem hc
        cases he
      rw [gaps, gapsFrom, if_neg (by simp [hnil]), applyFrom_filter_gapsFrom]
      exact touches_gapsFrom hg' p c [] 1 t

/-- **A style only touches plain text**, under any scope. -/
theorem Tracked.touches_respace {style : Style} (h : ∀ a c, FillableGap a c → gap a c)
    (t : Tracked) : Touches gap t.text (t.respace style).text :=
  List.foldlRecOn (motive := fun t' : Tracked => Touches gap t.text t'.text) (spacingRules style) _
    (.refl _) fun t' ht _ hrule =>
      ht.trans (touches_of_mem_spacingRules h hrule
        (fun f => Scope.touches t'.scope f.start f.stop) t'.text)

theorem touches_respace {style : Style} (h : ∀ a c, FillableGap a c → gap a c) (t : Text) :
    Touches gap t (style.respace t) := by
  have ht : Touches gap t (Tracked.respace style ⟨t, none, none⟩).text :=
    Tracked.touches_respace h ⟨t, none, none⟩
  rwa [text_respace] at ht

end TypingAid
