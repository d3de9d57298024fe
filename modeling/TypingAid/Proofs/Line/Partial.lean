import TypingAid.Proofs.Line.Extend

/-!
# Setting some of a text

A scope lets through some of the fixes that a style asks for, of each rule as it finds the text.
Whichever they are, setting the rest afterwards gives the same as setting the text at once
(`Tracked.respace_respace`).

Setting goes from left to right, and what it makes of the beginning of a text decides what it makes
of the text (`respace_append_congr`).  So the fixes can be followed one by one, each at the end of
the text so far.  A space in a gap that meets a rule would come anyway (`respace_gap`), and a run of
spaces between two tight characters would go (`respace_run`).

Spaces at either end of a text are not touched (`respace_append_spaces`, `respace_space_cons`).
-/

namespace TypingAid

open Text

variable {style : Style} {rule : GapRule} {t t' u w : Text} {a c d : Char}

/-! ### The ends of a text that has been set -/

theorem Text.Touches.eq_nil {gap : Char → Char → Prop} (h : Touches gap [] t) : t = [] :=
  h.preserve (P := (· = [])) (fun ht hnil => absurd hnil ht.ne_nil) rfl

@[simp] theorem respace_nil (style : Style) : style.respace [] = [] :=
  (touches_respace (fun _ _ h => h) []).eq_nil

theorem respace_ne_nil (style : Style) (h : t ≠ []) : style.respace t ≠ [] :=
  (touches_respace (fun _ _ h => h) t).ne_nil h

@[simp] theorem getLast?_respace (style : Style) (t : Text) :
    (style.respace t).getLast? = t.getLast? := by
  rcases List.eq_nil_or_concat t with rfl | ⟨t, c, rfl⟩
  · rw [respace_nil]
  · rw [List.concat_eq_append, respace_concat, List.getLast?_concat, List.getLast?_concat]

/-- What comes of the beginning of a text decides what comes of the text. -/
theorem respace_append_congr (h : style.respace t = style.respace t') (u : Text) :
    style.respace (t ++ u) = style.respace (t' ++ u) := by
  induction u using List.reverseRecOn with
  | nil => simpa using h
  | append_singleton u c ih =>
    rw [← List.append_assoc, ← List.append_assoc, respace_concat, respace_concat, ih]

theorem respace_concat_space (style : Style) (t : Text) :
    style.respace (t ++ [' ']) = style.respace t ++ [' '] :=
  (respace_respace_concat style t ' ').symm.trans (settled_respace style t).append_space.respace_eq

theorem respace_append_spaces (style : Style) (t : Text) (n : ℕ) :
    style.respace (t ++ List.replicate n ' ') = style.respace t ++ List.replicate n ' ' := by
  induction n with
  | zero => simp
  | succ n ih =>
    rw [List.replicate_succ', ← List.append_assoc, respace_concat_space, ih, List.append_assoc]

/-- A space at the start of a text is as good as nothing for the rules. -/
theorem fires_append_space (hrule : rule ∈ gapRules style) (b : Text) (c : Char) :
    rule (b ++ [' ']) c = rule b c := by
  have hclass : isCjk ' ' = false ∧ isLatin ' ' = false ∧ isFigure ' ' = false ∧
      isSmall ' ' = false ∧ isBlank ' ' = true := by decide
  obtain ⟨p, q, hp, hq, rfl⟩ | rfl := mem_gapRules_cases hrule
  · cases b with
    | nil => rcases hp with rfl | rfl <;> rcases hq with rfl | rfl <;> simp [between, hclass]
    | cons a b => rfl
  · rcases b with _ | ⟨mark, _ | ⟨a, _ | ⟨e, b⟩⟩⟩
    · rfl
    · simp [afterPunctuation, hclass]
    · simp [afterPunctuation, hclass]
    · rfl

theorem spread_append_space (hrule : rule ∈ gapRules style) (b t : Text) :
    spread rule (b ++ [' ']) t = spread rule b t := by
  induction t generalizing b with
  | nil => rfl
  | cons c t ih => rw [spread, spread, fires_append_space hrule, ← ih (c :: b), List.cons_append]

theorem tighten_some_space (t : Text) : tighten (some ' ') t = tighten none t := by
  have hspace : (some ' ').any isTight = false := by decide
  cases t with
  | nil => rfl
  | cons c t => simp [tighten, hspace]

theorem respace_space_cons (style : Style) (t : Text) :
    style.respace (' ' :: t) = ' ' :: style.respace t := by
  have hspread : ∀ {rules : List GapRule}, (∀ σ ∈ rules, σ ∈ gapRules style) → ∀ t,
      spreadAll rules (' ' :: t) = ' ' :: spreadAll rules t := by
    intro rules hrules
    unfold spreadAll
    induction rules with
    | nil => exact fun _ => rfl
    | cons σ rules ih =>
      intro t
      have hσ := hrules σ List.mem_cons_self
      rw [List.foldl_cons, List.foldl_cons, spread, (shy_of_mem_gapRules hσ).before_space,
        if_neg (by simp), ← ih fun r hr => hrules r (List.mem_cons_of_mem _ hr)]
      exact congrArg (fun u => List.foldl _ (' ' :: u) rules) (spread_append_space hσ [] t)
  have htight : tighten none (' ' :: t) = ' ' :: tighten none t := by
    rw [tighten, if_neg (by simp), tighten_some_space]
  rw [respace_eq, respace_eq, htight]
  split_ifs <;> exact hspread (fun _ h => h) _

/-! ### What stands before a gap -/

theorem closes_append_spaces (h : w.getLast? ≠ some ' ') (n : ℕ) (c : Char) :
    style.closes (w ++ List.replicate n ' ') c =
      (style.cjkNoSpace && isTight c && w.getLast?.any isTight) := by
  rw [Style.closes, trimmed_append_spaces h]

theorem makeRoom_of_not_closes (h : style.closes w c = false) : style.makeRoom w c =
    if (gapRules style).any fun rule => rule w.reverse c then w ++ [' '] else w := by
  simp only [Style.makeRoom, h, Bool.false_eq_true, if_false]

/-- Before a mark no room is made. -/
theorem makeRoom_mark (hc : c ∈ '.' :: pauseMarks) (w : Text) : style.makeRoom w c = w := by
  have htight : ∀ d ∈ '.' :: pauseMarks, isTight d = false := by decide
  have hfires : ((gapRules style).any fun rule => rule w.reverse c) = false := by
    rw [List.any_eq_false]
    exact fun rule hrule => by simp [not_fires_mark hrule hc]
  rw [makeRoom_of_not_closes (by simp [Style.closes, htight c hc]), hfires,
    if_neg Bool.false_ne_true]

/-- Before a small letter no room is made behind another one. -/
theorem any_isSmall_makeRoom (ha : isSmall a = true) (w : Text) :
    (style.makeRoom w a).getLast?.any isSmall = w.getLast?.any isSmall := by
  have htight := isTight_of_isLatin (isLatin_iff.2 (.inr ha))
  rw [makeRoom_of_not_closes (by simp [Style.closes, htight])]
  split_ifs with hfires
  · obtain ⟨rule, hrule, hr⟩ := List.any_eq_true.1 hfires
    rw [not_small_of_fires hrule hr ha, List.getLast?_concat]
    rfl
  · rfl

/-- **Rules see the same before a character once the text has been set.** -/
theorem fires_respace (hrule : rule ∈ gapRules style) (t : Text) (c : Char) :
    rule (style.respace t).reverse c = rule t.reverse c := by
  rcases List.eq_nil_or_concat t with rfl | ⟨t, m, rfl⟩
  · rw [respace_nil]
  rw [List.concat_eq_append, respace_concat]
  obtain ⟨p, q, -, -, rfl⟩ | rfl := mem_gapRules_cases hrule
  · -- only the last character counts
    simp [between]
  · by_cases hm : m ∈ '.' :: pauseMarks
    · rw [makeRoom_mark hm]
      rcases List.eq_nil_or_concat t with rfl | ⟨t, a, rfl⟩
      · rw [respace_nil]
      rw [List.concat_eq_append, respace_concat]
      cases ha : isSmall a with
      | false => simp [afterPunctuation, ha]
      | true => simp [afterPunctuation, any_isSmall_makeRoom ha]
    · simp [afterPunctuation_of_not_mem hm]

/-! ### One fix at the end of a text -/

/-- **A space in a gap that meets a rule would come anyway.** -/
theorem respace_gap (hrule : rule ∈ gapRules style) (h : rule t.reverse c = true) :
    style.respace (t ++ [' ', c]) = style.respace (t ++ [c]) := by
  obtain ⟨a, rest, ht, hgap⟩ := fillableGap_of_mem_gapRules hrule h
  have hlast : (style.respace t).getLast? = some a := by
    rw [getLast?_respace, ← List.head?_reverse, ht]; rfl
  have hspace : (style.respace t).getLast? ≠ some ' ' := by
    rw [hlast]
    intro he
    have := hgap.isBlank_eq.1
    rw [Option.some.inj he] at this; exact absurd this (by decide)
  -- nothing closes up over the gap, since it may be filled
  have hcloses : ∀ n, style.closes (style.respace t ++ List.replicate n ' ') c = false := by
    intro n
    rw [closes_append_spaces hspace, hlast, Option.any_some, Bool.eq_false_iff]
    intro hall
    simp only [Bool.and_eq_true] at hall
    exact hgap.loose ⟨hall.2, hall.1.2⟩
  have h0 : style.makeRoom (style.respace t) c = style.respace t ++ [' '] := by
    rw [makeRoom_of_not_closes (by simpa using hcloses 0), if_pos]
    exact List.any_eq_true.2 ⟨rule, hrule, (fires_respace hrule t c).trans h⟩
  have h1 : style.makeRoom (style.respace t ++ [' ']) c = style.respace t ++ [' '] := by
    have hfires : ((gapRules style).any fun rule =>
        rule (style.respace t ++ [' ']).reverse c) = false := by
      rw [List.any_eq_false]
      intro σ hσ
      rw [List.reverse_append, List.reverse_singleton, List.singleton_append,
        (shy_of_mem_gapRules hσ).behind_space]
      exact Bool.false_ne_true
    rw [makeRoom_of_not_closes (by simpa using hcloses 1), hfires, if_neg Bool.false_ne_true]
  have hsplit : t ++ [' ', c] = t ++ [' '] ++ [c] := by simp
  rw [hsplit, respace_concat, respace_concat_space, h1, respace_concat, h0]

/-- **A run of spaces between two tight characters would go anyway.** -/
theorem respace_run (hstyle : style.cjkNoSpace = true) (ha : t.getLast?.any isTight = true)
    (hd : isTight d = true) (n : ℕ) :
    style.respace (t ++ List.replicate n ' ' ++ [d]) = style.respace (t ++ [d]) := by
  have hspace : (style.respace t).getLast? ≠ some ' ' := by
    rw [getLast?_respace]
    intro he
    rw [he] at ha; exact absurd ha (by decide)
  have hroom : ∀ n, style.makeRoom (style.respace t ++ List.replicate n ' ') d =
      style.makeRoom (style.respace t) d := by
    have hcloses : ∀ n, style.closes (style.respace t ++ List.replicate n ' ') d = true := by
      intro n
      rw [closes_append_spaces hspace, getLast?_respace, hstyle, hd, ha]
      rfl
    have htrimmed := trimmed_append_spaces hspace
    have h0 := hcloses 0
    have htrimmed0 := htrimmed 0
    rw [List.replicate_zero, List.append_nil] at h0 htrimmed0
    intro n
    simp only [Style.makeRoom, hcloses n, h0, htrimmed n, htrimmed0, if_true]
  rw [respace_concat, respace_append_spaces, hroom, respace_concat]

/-! ### Some of the fixes -/

theorem respace_gapsFrom (hrule : rule ∈ gapRules style) (p : Fix → Bool) (t : Text) (offset : ℕ)
    (u : Text) :
    style.respace (t ++ Fix.applyFrom offset u ((gapsFrom rule t.reverse offset u).filter p)) =
      style.respace (t ++ u) := by
  induction u generalizing t offset with
  | nil => rfl
  | cons c u ih =>
    have ih' := ih (t ++ [c]) (offset + 1)
    have hcons := applyFrom_filter_gapsFrom rule p (c :: t.reverse) offset c u
    rw [List.reverse_append, List.reverse_singleton, List.singleton_append, List.append_assoc,
      List.append_assoc, List.singleton_append, List.singleton_append] at ih'
    rw [gapsFrom]
    split_ifs with hr
    · rw [List.filter_cons]
      split_ifs
      · rw [Fix.applyFrom, Nat.sub_self, List.take_zero, List.drop_zero, hcons, ← ih']
        simpa using respace_append_congr (respace_gap hrule hr) _
      · rw [hcons]; exact ih'
    · rw [hcons]; exact ih'

theorem respace_loosenedFrom (hstyle : style.cjkNoSpace = true) (p : Fix → Bool) (t : Text)
    (offset : ℕ) (u : Text) :
    style.respace (t ++ Fix.applyFrom offset u ((loosenedFrom t.getLast? offset u).filter p)) =
      style.respace (t ++ u) := by
  induction hn : u.length using Nat.strong_induction_on generalizing t offset u with
  | h n ih =>
    cases u with
    | nil => rfl
    | cons c u =>
      subst hn
      have ih' := ih u.length (by simp) (t ++ [c]) (offset + 1) u rfl
      have hcons := applyFrom_filter_loosenedFrom p (some c) offset c u
      rw [List.getLast?_concat, List.append_assoc, List.append_assoc, List.singleton_append,
        List.singleton_append] at ih'
      rw [loosenedFrom]
      split_ifs with hcond
      · rw [List.filter_cons]
        split_ifs
        · simp only [Bool.and_eq_true, decide_eq_true_eq] at hcond
          obtain ⟨⟨rfl, ha⟩, hnext⟩ := hcond
          obtain ⟨d, v, hv, hd, hrun⟩ := exists_tight hnext
          obtain ⟨k, hk⟩ := applyFrom_run hv hd p offset
          have hlen : v.length < (' ' :: u).length := by
            rw [hrun, List.length_cons, List.length_append, List.length_cons]; omega
          have hrest := ih v.length hlen (t ++ [d]) k v rfl
          have hspaces := respace_append_congr
            (respace_run hstyle ha hd ((u.takeWhile (· = ' ')).length + 1)) v
          rw [List.getLast?_concat, List.append_assoc, List.singleton_append] at hrest
          rw [hk, hrest, ← hspaces]
          conv_rhs => rw [hrun]
          simp [List.replicate_succ]
        · rw [hcons]; exact ih'
      · rw [hcons]; exact ih'

/-- Whichever of the fixes that a rule of a style asks for are carried out. -/
theorem respace_of_mem_spacingRules {rule : SpacingRule} (hrule : rule ∈ spacingRules style)
    (p : Fix → Bool) (t : Text) :
    style.respace (Fix.applyFrom 0 t ((rule t).filter p)) = style.respace t := by
  rw [spacingRules_eq, List.mem_append, List.mem_ite_nil_right, List.mem_singleton,
    List.mem_map] at hrule
  rcases hrule with ⟨hstyle, rfl⟩ | ⟨g, hg, rfl⟩
  · exact respace_loosenedFrom hstyle p [] 0 t
  · exact respace_gapsFrom hg p [] 0 t

/-- **Setting the rest of a text** after some of it, under any scope, gives what setting it at once
gives. -/
theorem Tracked.respace_respace (style : Style) (t : Tracked) :
    style.respace (t.respace style).text = style.respace t.text :=
  List.foldlRecOn (motive := fun t' : Tracked => style.respace t'.text = style.respace t.text)
    (spacingRules style) _ rfl fun t' ht _ hrule =>
      (respace_of_mem_spacingRules hrule (fun f => Scope.touches t'.scope f.start f.stop)
        t'.text).trans ht

end TypingAid
