import TypingAid.Proofs.Line.Settled
import Mathlib.Data.List.DropRight

/-!
# Spacing character by character

Setting a text is the same as writing it character by character and setting it after each one
(`respace_concat`).  One more character at the end of a settled text brings one change at most
(`Style.makeRoom`): the spaces in front of it go away, or a space comes in front of it.

The rules of a style apply one after the other, each to the whole text, and later ones see the
spaces that earlier ones have put in.  That does no harm, because such a space never comes between
the last character and the two before it that a rule looks at (`fires_spreadAll`).
-/

namespace TypingAid

open Text

variable {style : Style} {rule σ : GapRule} {t u v b : Text} {a c : Char}

/-- A text without the spaces at its end. -/
def Text.trimmed (t : Text) : Text := dropTail (· = ' ') t

/-- The spaces at the end of `t` come to stand between two tight characters when `c` is added. -/
def Style.closes (style : Style) (t : Text) (c : Char) : Bool :=
  style.cjkNoSpace && isTight c && t.trimmed.getLast?.any isTight

/-- What comes to stand before `c` when it is added to the settled text `t`. -/
def Style.makeRoom (style : Style) (t : Text) (c : Char) : Text :=
  let t := if style.closes t c then t.trimmed else t
  if (gapRules style).any fun rule => rule t.reverse c then t ++ [' '] else t

/-! ### Gaps before the last character -/

theorem spread_append (σ : GapRule) (b t u : Text) :
    spread σ b (t ++ u) = spread σ b t ++ spread σ (t.reverse ++ b) u := by
  induction t generalizing b with
  | nil => rfl
  | cons c t ih =>
    have hb : (c :: t).reverse ++ b = t.reverse ++ c :: b := by simp
    rw [List.cons_append, spread, spread, ih, hb]
    split_ifs <;> rfl

theorem spread_concat (σ : GapRule) (t : Text) (c : Char) :
    spread σ [] (t ++ [c]) = spread σ [] t ++ if σ t.reverse c then [' ', c] else [c] := by
  rw [spread_append, List.append_nil, spread, spread]

theorem getLast?_spread (σ : GapRule) (t : Text) : (spread σ [] t).getLast? = t.getLast? := by
  rcases List.eq_nil_or_concat t with rfl | ⟨t, c, rfl⟩
  · rfl
  · rw [List.concat_eq_append, spread_concat]
    split_ifs <;> simp

/-- No rule parts two small letters. -/
theorem not_fires_small (hσ : σ ∈ gapRules style) (ha : isSmall a = true) (hc : isSmall c = true)
    (rest : Text) : σ (a :: rest) c = false := by
  have hclass : ∀ {d}, isSmall d = true → isCjk d = false ∧ isFigure d = false := fun hd =>
    ⟨isCjk_of_isLatin (isLatin_iff.2 (.inr hd)), isFigure_of_isLatin (isLatin_iff.2 (.inr hd))⟩
  have hmark : a ∉ '.' :: pauseMarks := fun hm => by
    have : ∀ d ∈ '.' :: pauseMarks, isSmall d = false := by decide
    rw [this a hm] at ha; cases ha
  simp only [gapRules, List.mem_append, List.mem_ite_nil_right, List.mem_singleton] at hσ
  rcases hσ with ((⟨-, rfl⟩ | ⟨-, rfl⟩) | ⟨-, rfl⟩) | ⟨-, rfl⟩
  · simp [between, hclass ha, hclass hc]
  · simp [between, hclass ha, hclass hc]
  · simp [between, hclass ha, hclass hc]
  · cases rest with
    | nil => rfl
    | cons d rest =>
      rw [List.mem_cons, not_or] at hmark
      simp [afterPunctuation, hmark.1, hmark.2]

theorem not_small_of_fires (hσ : σ ∈ gapRules style) (h : σ t.reverse a = true)
    (ha : isSmall a = true) : t.getLast?.any isSmall = false := by
  refine Bool.eq_false_iff.2 fun hsmall => ?_
  rw [← List.head?_reverse] at hsmall
  cases hb : t.reverse with
  | nil => rw [hb] at hsmall; cases hsmall
  | cons b rest =>
    rw [hb] at hsmall h
    rw [not_fires_small hσ hsmall ha] at h
    cases h

/-- No rule puts a space before a mark. -/
theorem not_fires_mark (hσ : σ ∈ gapRules style) (hc : c ∈ '.' :: pauseMarks) (b : Text) :
    σ b c = false := by
  refine Bool.eq_false_iff.2 fun hr => ?_
  obtain ⟨_, _, -, hgap⟩ := fillableGap_of_mem_gapRules hσ hr
  have : ∀ d ∈ '.' :: pauseMarks, ¬ (isCjk d = true ∨ isLatin d = true ∨ isFigure d = true) := by
    decide
  exact this c hc hgap.after

/-- Of a text that ends in something else than a mark, the rule about punctuation sees nothing. -/
theorem afterPunctuation_of_not_mem (ha : a ∉ '.' :: pauseMarks) (b : Text) (c : Char) :
    afterPunctuation (a :: b) c = false := by
  rw [List.mem_cons, not_or] at ha
  cases b with
  | nil => rfl
  | cons d b => simp [afterPunctuation, ha.1, ha.2]

/-- **Rules see the same before a character, whatever other rules have done.** -/
theorem fires_spread (hrule : rule ∈ gapRules style) (hσ : σ ∈ gapRules style) (t : Text)
    (c : Char) : rule (spread σ [] t).reverse c = rule t.reverse c := by
  rcases List.eq_nil_or_concat t with rfl | ⟨t, m, rfl⟩
  · rfl
  rw [List.concat_eq_append, spread_concat]
  obtain ⟨p, q, -, -, rfl⟩ | rfl := mem_gapRules_cases hrule
  · -- only the last character counts
    split_ifs <;> simp [between]
  · by_cases hm : m ∈ '.' :: pauseMarks
    · -- no space comes before the mark, and none between two small letters before it
      rw [not_fires_mark hσ hm, if_neg (by simp)]
      rcases List.eq_nil_or_concat t with rfl | ⟨t, a, rfl⟩
      · rfl
      rw [List.concat_eq_append, spread_concat]
      split_ifs with hspace
      · have hlast := not_small_of_fires hσ hspace
        have hblank : isSmall ' ' = false := rfl
        cases ha : isSmall a with
        | false => simp [afterPunctuation, ha]
        | true => simp [afterPunctuation, hlast ha, hblank]
      · simp [afterPunctuation, getLast?_spread]
    · split_ifs <;> simp [afterPunctuation_of_not_mem hm]

theorem any_fires_congr {rules : List GapRule} {b b' : Text}
    (h : ∀ rule ∈ rules, rule b c = rule b' c) :
    (rules.any fun rule => rule b c) = rules.any fun rule => rule b' c := by
  rw [Bool.eq_iff_iff, List.any_eq_true, List.any_eq_true]
  refine exists_congr fun rule => and_congr_right fun hr => ?_
  rw [h rule hr]

theorem fires_spreadAll (hrule : rule ∈ gapRules style) {rules : List GapRule}
    (hrules : ∀ σ ∈ rules, σ ∈ gapRules style) (t : Text) (c : Char) :
    rule (spreadAll rules t).reverse c = rule t.reverse c := by
  unfold spreadAll
  induction rules generalizing t with
  | nil => rfl
  | cons σ rules ih =>
    rw [List.foldl_cons, ih (fun r hr => hrules r (List.mem_cons_of_mem _ hr)),
      fires_spread hrule (hrules σ List.mem_cons_self)]

theorem spreadAll_concat_space {rules : List GapRule} (hrules : ∀ σ ∈ rules, σ ∈ gapRules style)
    (t : Text) : spreadAll rules (t ++ [' ']) = spreadAll rules t ++ [' '] := by
  unfold spreadAll
  induction rules generalizing t with
  | nil => rfl
  | cons σ rules ih =>
    have hσ := shy_of_mem_gapRules (hrules σ List.mem_cons_self)
    rw [List.foldl_cons, List.foldl_cons, spread_concat, hσ.before_space, if_neg (by simp),
      ih fun r hr => hrules r (List.mem_cons_of_mem _ hr)]

/-- Behind a space no rule asks for one more. -/
theorem spreadAll_concat_of_space {rules : List GapRule} (hrules : ∀ σ ∈ rules, σ ∈ gapRules style)
    (t : Text) (c : Char) :
    spreadAll rules (t ++ [' '] ++ [c]) = spreadAll rules t ++ [' ', c] := by
  unfold spreadAll
  induction rules generalizing t with
  | nil => simp
  | cons σ rules ih =>
    have hσ := shy_of_mem_gapRules (hrules σ List.mem_cons_self)
    rw [List.foldl_cons, List.foldl_cons, spread_concat, List.reverse_append, List.reverse_singleton,
      List.singleton_append, hσ.behind_space, if_neg (by simp), spread_concat, hσ.before_space,
      if_neg (by simp), ih fun r hr => hrules r (List.mem_cons_of_mem _ hr)]

/-- One more character at the end gets a space if some rule asks for one. -/
theorem spreadAll_concat {rules : List GapRule} (hrules : ∀ σ ∈ rules, σ ∈ gapRules style)
    (t : Text) (c : Char) :
    spreadAll rules (t ++ [c]) =
      spreadAll rules t ++ if rules.any fun rule => rule t.reverse c then [' ', c] else [c] := by
  induction rules generalizing t with
  | nil => rfl
  | cons σ rules ih =>
    have hσ := hrules σ List.mem_cons_self
    have hrest : ∀ σ ∈ rules, σ ∈ gapRules style := fun r hr => hrules r (List.mem_cons_of_mem _ hr)
    have hcons : ∀ t, spreadAll (σ :: rules) t = spreadAll rules (spread σ [] t) := fun _ => rfl
    rw [hcons, hcons, spread_concat, List.any_cons]
    cases hfires : σ t.reverse c with
    | true =>
      have := spreadAll_concat_of_space hrest (spread σ [] t) c
      simpa using this
    | false =>
      rw [if_neg (by simp), ih hrest, Bool.false_or,
        any_fires_congr fun rule hr => fires_spread (hrest rule hr) hσ t c]

theorem getLast?_spreadAll (rules : List GapRule) (t : Text) :
    (spreadAll rules t).getLast? = t.getLast? := by
  unfold spreadAll
  induction rules generalizing t with
  | nil => rfl
  | cons σ rules ih => rw [List.foldl_cons, ih, getLast?_spread]

/-! ### Spaces at the end -/

theorem trimmed_eq (t : Text) : t.trimmed = t.rdropWhile (· = ' ') := rfl

theorem trimmed_append_spaces (h : t.getLast? ≠ some ' ') (n : ℕ) :
    (t ++ List.replicate n ' ').trimmed = t := by
  induction n with
  | zero =>
    rw [List.replicate_zero, List.append_nil, trimmed_eq, List.rdropWhile_eq_self_iff]
    intro hne hlast
    refine h ?_
    rw [List.getLast?_eq_some_getLast hne, of_decide_eq_true hlast]
  | succ n ih =>
    rw [List.replicate_succ', ← List.append_assoc, trimmed_eq, List.rdropWhile_concat_pos]
    · exact ih
    · rfl

theorem exists_trimmed (t : Text) :
    ∃ n, t = t.trimmed ++ List.replicate n ' ' ∧ t.trimmed.getLast? ≠ some ' ' := by
  have hspaces : ∀ c ∈ t.rtakeWhile (· = ' '), c = ' ' := fun c hc => by
    simpa using List.mem_rtakeWhile_imp hc
  refine ⟨(t.rtakeWhile (· = ' ')).length, ?_, fun hlast => ?_⟩
  · rw [← List.eq_replicate_of_mem hspaces]
    exact List.rdropWhile_append_rtakeWhile.symm
  · have hne : t.trimmed ≠ [] := by
      intro hnil
      rw [hnil] at hlast; cases hlast
    rw [List.getLast?_eq_some_getLast hne] at hlast
    have := List.rdropWhile_last_not (fun c => decide (c = ' ')) t hne
    exact this (decide_eq_true (Option.some.inj hlast))

theorem trimmed_spreadAll {rules : List GapRule} (hrules : ∀ σ ∈ rules, σ ∈ gapRules style)
    (t : Text) : (spreadAll rules t).trimmed = spreadAll rules t.trimmed := by
  obtain ⟨n, ht, hlast⟩ := exists_trimmed t
  have hspaces : ∀ n, spreadAll rules (t.trimmed ++ List.replicate n ' ') =
      spreadAll rules t.trimmed ++ List.replicate n ' ' := by
    intro n
    induction n with
    | zero => simp
    | succ n ih =>
      rw [List.replicate_succ', ← List.append_assoc, ← List.append_assoc,
        spreadAll_concat_space hrules, ih]
  conv_lhs => rw [ht]
  rw [hspaces, trimmed_append_spaces]
  rwa [getLast?_spreadAll]

/-! ### Spaces before the last character -/

theorem tighten_all_spaces (before : Option Char) (n : ℕ) :
    tighten before (List.replicate n ' ') = List.replicate n ' ' := by
  induction n generalizing before with
  | zero => rfl
  | succ n ih =>
    rw [List.replicate_succ, tighten, if_neg, ih]
    simp

theorem tighten_spaces_concat (before : Option Char) (n : ℕ) (c : Char) :
    tighten before (List.replicate n ' ' ++ [c]) =
      if before.any isTight && isTight c then [c] else List.replicate n ' ' ++ [c] := by
  by_cases hc : c = ' '
  · subst hc
    have hblank : isTight ' ' = false := rfl
    rw [← List.replicate_succ', tighten_all_spaces, hblank, Bool.and_false,
      if_neg Bool.false_ne_true]
  · induction n generalizing before with
    | zero => simp [tighten, hc]
    | succ n ih =>
      have hnext : ((List.replicate n ' ' ++ [c]).dropWhile (· = ' ')).head? = some c := by
        simp [hc]
      have hcond : (decide (' ' = ' ') && before.any isTight && (some c).any isTight) =
          (before.any isTight && isTight c) := by simp
      rw [List.replicate_succ, List.cons_append, tighten, hnext, hcond]
      split_ifs with h
      · rw [ih, if_pos h]
      · rw [ih, if_neg]
        -- the space that has stayed is not tight
        rw [Bool.and_eq_true, not_and]
        exact fun hspace => absurd hspace (by decide)

/-- Behind a character that is no space, the walk starts anew. -/
theorem exists_tighten_solid (before : Option Char) (t : Text) (ha : a ≠ ' ') :
    ∃ y, ∀ u, tighten before (t ++ a :: u) = y ++ a :: tighten (some a) u := by
  have hnext : ∀ t u : Text, ((t ++ a :: u).dropWhile (· = ' ')).head? =
      ((t ++ [a]).dropWhile (· = ' ')).head? := by
    intro t u
    induction t with
    | nil => simp [ha]
    | cons e t ih =>
      by_cases he : e = ' '
      · simpa [he] using ih
      · simp [he]
  induction t generalizing before with
  | nil => exact ⟨[], fun u => by rw [List.nil_append, tighten, if_neg (by simp [ha])]; rfl⟩
  | cons d t ih =>
    by_cases hdrop : (d = ' ' && before.any isTight &&
        ((t ++ [a]).dropWhile (· = ' ')).head?.any isTight) = true
    · obtain ⟨y, hy⟩ := ih before
      exact ⟨y, fun u => by rw [List.cons_append, tighten, hnext, if_pos hdrop, hy]⟩
    · obtain ⟨y, hy⟩ := ih (some d)
      exact ⟨d :: y, fun u => by rw [List.cons_append, tighten, hnext, if_neg hdrop, hy]; rfl⟩

/-- One more character at the end drops the spaces before it, or it does not. -/
theorem tighten_concat (hstyle : style.cjkNoSpace = true) (t : Text) (c : Char) :
    tighten none (t ++ [c]) =
      (if style.closes (tighten none t) c then (tighten none t).trimmed else tighten none t) ++
        [c] := by
  obtain ⟨n, ht, hlast⟩ := exists_trimmed t
  rcases List.eq_nil_or_concat t.trimmed with hnil | ⟨w, a, hw⟩
  · -- nothing but spaces
    rw [hnil, List.nil_append] at ht
    have htrimmed : trimmed (List.replicate n ' ') = [] := by rw [← ht, hnil]
    have hcloses : style.closes (List.replicate n ' ') c = false := by
      rw [Style.closes, htrimmed, List.getLast?_nil, Option.any_none, Bool.and_false]
    rw [ht, tighten_spaces_concat, tighten_all_spaces, hcloses]
    rfl
  · rw [List.concat_eq_append] at hw
    rw [hw, List.getLast?_concat] at hlast
    rw [hw, List.append_assoc, List.singleton_append] at ht
    have ha : a ≠ ' ' := fun h => hlast (congrArg some h)
    obtain ⟨y, hy⟩ := exists_tighten_solid none w ha
    have htrimmed : (y ++ a :: List.replicate n ' ').trimmed = y ++ [a] := by
      have := trimmed_append_spaces (t := y ++ [a]) (by rwa [List.getLast?_concat]) n
      rwa [List.append_assoc, List.singleton_append] at this
    have hcloses : style.closes (y ++ a :: List.replicate n ' ') c =
        ((some a).any isTight && isTight c) := by
      rw [Style.closes, htrimmed, List.getLast?_concat, hstyle, Bool.true_and, Bool.and_comm]
    rw [ht, List.append_assoc, List.cons_append, hy, hy, tighten_spaces_concat, tighten_all_spaces,
      hcloses, htrimmed]
    split_ifs <;> simp

/-! ### One more character -/

/-- **Setting a text character by character**: what comes of a text is what comes of it without its
last character, with room made for that one. -/
theorem respace_concat (style : Style) (t : Text) (c : Char) :
    style.respace (t ++ [c]) = style.makeRoom (style.respace t) c ++ [c] := by
  have hrules : ∀ σ ∈ gapRules style, σ ∈ gapRules style := fun _ h => h
  -- first the rule against blanks, which only looks at the characters around the spaces
  have htight : (if style.cjkNoSpace then tighten none (t ++ [c]) else t ++ [c]) =
      (if style.closes (if style.cjkNoSpace then tighten none t else t) c then
        (if style.cjkNoSpace then tighten none t else t).trimmed
        else if style.cjkNoSpace then tighten none t else t) ++ [c] := by
    cases hstyle : style.cjkNoSpace with
    | false => simp [Style.closes, hstyle]
    | true => simpa using tighten_concat hstyle t c
  rw [respace_eq, respace_eq, htight]
  generalize (if style.cjkNoSpace then tighten none t else t) = w
  have hcloses : style.closes (spreadAll (gapRules style) w) c = style.closes w c := by
    rw [Style.closes, Style.closes, trimmed_spreadAll hrules, getLast?_spreadAll]
  have hkept : (if style.closes w c then (spreadAll (gapRules style) w).trimmed
      else spreadAll (gapRules style) w) =
      spreadAll (gapRules style) (if style.closes w c then w.trimmed else w) := by
    rw [trimmed_spreadAll hrules]
    split_ifs <;> rfl
  rw [spreadAll_concat hrules, Style.makeRoom, hcloses, hkept]
  generalize (if style.closes w c then w.trimmed else w) = w
  rw [any_fires_congr fun rule hr => fires_spreadAll hr hrules w c]
  split_ifs <;> simp

/-- So room is made in a text that has been set just as in the one that it came from. -/
theorem respace_respace_concat (style : Style) (t : Text) (c : Char) :
    style.respace (style.respace t ++ [c]) = style.respace (t ++ [c]) := by
  rw [respace_concat, respace_concat, (settled_respace style t).respace_eq]

end TypingAid
