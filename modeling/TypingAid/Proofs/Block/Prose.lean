import TypingAid.Block.Outline
import TypingAid.Proofs.Block.Mark
import TypingAid.Proofs.Line.Scope

/-!
# Prose stays prose

Setting a line of prose gives a line of prose that leaves no block open
(`classify_formatLine`).  A touch could only make a fence, a formula mark or the mark of front
matter by bringing characters together or by changing one, and it does neither with the characters
that make up a mark: spaces go away only between characters that are set without blanks, and only
letters change.

The recognition of a block looks at the beginning of the line behind its blanks, and carriage
returns at its end do not count.  Touches lie between, since a space comes only between characters
that are not blank (`OpenGap`).
-/

namespace TypingAid

open Text

/-- A gap between two characters that are not blank. -/
def OpenGap (a c : Char) : Prop := isBlank a = false ∧ isBlank c = false

variable {t t' : Text}

namespace Text.Touch

/-- A text of characters that no touch leaves behind has not been touched. -/
theorem ne_of_literal {gap : Char → Char → Prop} (h : Touch gap t t')
    (hlit : ∀ c ∈ t', c ≠ ' ' ∧ isCapital c = false ∧ isTight c = false) : False := by
  induction h with
  | widen => exact (hlit ' ' (by simp)).1 rfl
  | narrow ha => rw [(hlit _ List.mem_cons_self).2.2] at ha; cases ha
  | raise h =>
    have := (hlit _ List.mem_cons_self).2.1
    rw [isCapital_toUpper h] at this; cases this
  | later _ ih => exact ih fun c hc => hlit c (List.mem_cons_of_mem _ hc)

/-- The touch lies behind the blanks at the beginning. -/
theorem stripLeft (h : Touch OpenGap t t') :
    Touch OpenGap (Text.stripLeft t) (Text.stripLeft t') := by
  induction h with
  | widen h => simp only [Text.stripLeft, List.dropWhile_cons, h.1]; exact .widen h
  | narrow ha hc =>
    simp only [Text.stripLeft, List.dropWhile_cons, isBlank_of_isTight ha]
    exact .narrow ha hc
  | raise h =>
    have h1 := isBlank_of_isLatin (isLatin_iff.2 (.inr h))
    have h2 := isBlank_of_isLatin (isLatin_iff.2 (.inl (isCapital_toUpper h)))
    simp only [Text.stripLeft, List.dropWhile_cons, h1, h2]
    exact .raise h
  | @later c t t' h ih =>
    simp only [Text.stripLeft, List.dropWhile_cons] at ih ⊢
    split_ifs
    · exact ih
    · exact .later h

end Text.Touch

theorem Text.dropReturns_cons {c : Char} (h : c ≠ '\r') (t : Text) :
    dropTail (· = '\r') (c :: t) = c :: dropTail (· = '\r') t := by
  rw [dropTail_cons, if_neg (by simp [h])]

/-- The touch lies before the carriage returns at the end. -/
theorem Text.Touch.dropReturns (h : Touch OpenGap t t') :
    Touch OpenGap (dropTail (· = '\r') t) (dropTail (· = '\r') t') := by
  have hne : ∀ c, isBlank c = false → c ≠ '\r' := fun c hc he => by
    subst he; exact absurd hc (by decide)
  have hspace : ' ' ≠ '\r' := by decide
  induction h with
  | widen h =>
    simp only [dropReturns_cons (hne _ h.1), dropReturns_cons (hne _ h.2), dropReturns_cons hspace]
    exact .widen h
  | @narrow a c t ha hc =>
    have hc' : c ≠ '\r' := by
      rcases hc with hc | rfl
      · exact hne _ (isBlank_of_isTight hc)
      · exact hspace
    simp only [dropReturns_cons (hne _ (isBlank_of_isTight ha)), dropReturns_cons hc',
      dropReturns_cons hspace]
    exact .narrow ha hc
  | raise h =>
    have h1 := hne _ (isBlank_of_isLatin (isLatin_iff.2 (.inr h)))
    have h2 := hne _ (isBlank_of_isLatin (isLatin_iff.2 (.inl (isCapital_toUpper h))))
    simp only [dropReturns_cons h1, dropReturns_cons h2]
    exact .raise h
  | later _ ih =>
    simp only [dropTail_cons, ih.ne_nil, ih.ne_nil', false_and, if_false]
    exact .later ih

/-! ### Marks that a touch does not make -/

/-- The characters of the marks of blocks. -/
theorem literal_of_isMark {c : Char} (h : c = backtick ∨ c = '~' ∨ c = '$') :
    c ≠ ' ' ∧ isCapital c = false ∧ isTight c = false ∧ isBlank c = false ∧ isSmall c = false := by
  rcases h with rfl | rfl | rfl <;> decide

/-- A run of marks was there before, and what follows it holds no more backticks than after. -/
theorem exists_run_of_touch {c : Char} (hc : c = backtick ∨ c = '~' ∨ c = '$') {n : ℕ}
    {rest' : Text} (h : Touch OpenGap t (List.replicate n c ++ rest')) :
    ∃ rest, t = List.replicate n c ++ rest ∧ (backtick ∈ rest → backtick ∈ rest') := by
  obtain ⟨hspace, hcapital, htight, -, hsmall⟩ := literal_of_isMark hc
  induction n generalizing t with
  | zero => exact ⟨t, rfl, fun hm => h.mem_of_mem' hm (by decide) (by decide)⟩
  | succ n ih =>
    rw [List.replicate_succ, List.cons_append] at h
    rcases h.cons_cases' with ⟨u, rfl⟩ | ⟨b, hb, rfl, -⟩
    · obtain ⟨d, v, rfl, -, hy⟩ | ⟨_, _, -, ha, -⟩ | ⟨hs, -⟩ | ⟨v, hv, hy⟩ := h.cons_cases
      · -- a space can only have come behind the last mark
        have hy := (List.cons.inj hy).2
        cases n with
        | zero =>
          refine ⟨d :: v, rfl, fun hm => ?_⟩
          rw [show rest' = ' ' :: d :: v from hy]
          exact List.mem_cons_of_mem _ hm
        | succ n => exact absurd (List.cons.inj hy).1 hspace
      · rw [htight] at ha; cases ha
      · rw [hsmall] at hs; cases hs
      · obtain rfl := (List.cons.inj hy).2
        obtain ⟨rest, rfl, hrest⟩ := ih hv
        exact ⟨rest, rfl, hrest⟩
    · rw [isCapital_toUpper hb] at hcapital; cases hcapital

theorem classifyOutside_of_kind_eq_text {line : Text} {n : ℕ}
    (h : (classifyOutside line n).kind = .text) : classifyOutside line n = ⟨.text, .none⟩ := by
  refine classifyOutside_of_not_opens fun b hb => hb.kind_ne_text ?_
  rcases classifyOutside_of_opens hb with ⟨-, hline⟩ | ⟨-, hline⟩ <;> rwa [hline] at h

/-- Only a line with no block open before it is prose, and it leaves none open. -/
theorem classify_of_kind_eq_text {line : Text} {n : ℕ} {before : OpenBlock}
    (h : (classify line n before).kind = .text) :
    before = .none ∧ classify line n before = ⟨.text, .none⟩ := by
  cases before with
  | none => exact ⟨rfl, classifyOutside_of_kind_eq_text h⟩
  | code => cases h
  | formula => cases h
  | frontMatter => cases h

/-- **One touch leaves prose prose.** -/
theorem classify_of_touch {n : ℕ} (h : Touch OpenGap t t')
    (ht : classify t n .none = ⟨.text, .none⟩) : classify t' n .none = ⟨.text, .none⟩ := by
  have hr := h.dropReturns
  simp only [classify] at ht ⊢
  obtain ⟨-, hfence, hformula⟩ := classifyOutside_eq_text_iff.1 ht
  refine classifyOutside_eq_text_iff.2 ⟨?_, ?_, ?_⟩
  · rintro ⟨-, hfront⟩
    rw [hfront] at hr
    exact hr.ne_of_literal (by decide)
  · by_contra hne
    obtain ⟨c, k, rest', hc, hk, hs, hrest⟩ := filter_opens_ne_none_iff.1 hne
    -- the marks were there before, and no backtick behind them has come or gone
    have hl := hr.stripLeft
    rw [hs] at hl
    obtain ⟨rest, hrun, hmem⟩ := exists_run_of_touch (hc.imp id .inl) hl
    exact filter_opens_ne_none_iff.2
      ⟨c, k, rest, hc, hk, hrun, fun hb hm => hrest hb (hmem hm)⟩ hfence
  · refine Bool.eq_false_iff.2 fun hpre => ?_
    obtain ⟨rest', hs⟩ := isPrefixOf_strip_iff.1 hpre
    have hl := hr.stripLeft
    rw [hs] at hl
    obtain ⟨rest, hrun, -⟩ := exists_run_of_touch (.inr (.inr rfl)) hl
    rw [isPrefixOf_strip_iff.2 ⟨rest, hrun⟩] at hformula
    cases hformula

/-! ### Lines that are set -/

theorem touches_openGap (style : Style) (line : Text) (caret : Option Int) (scope : Option Scope) :
    Touches OpenGap line (formatLine style line caret scope).1 :=
  touches_formatLine (fun _ _ => And.intro) style line caret scope

/-- **Prose stays prose when it is set**, under any scope. -/
theorem classify_formatLine (style : Style) {line : Text} {n : ℕ} {before : OpenBlock}
    (h : (classify line n before).kind = .text) (caret : Option Int) (scope : Option Scope) :
    classify (formatLine style line caret scope).1 n before = classify line n before := by
  obtain ⟨rfl, hline⟩ := classify_of_kind_eq_text h
  rw [hline]
  exact (touches_openGap style line caret scope).preserve
    (P := fun t => classify t n .none = ⟨.text, .none⟩) classify_of_touch hline

/-- Setting a line does not break it. -/
theorem newline_not_mem_formatLine (style : Style) {line : Text} (h : '\n' ∉ line)
    (caret : Option Int) (scope : Option Scope) : '\n' ∉ (formatLine style line caret scope).1 :=
  (touches_openGap style line caret scope).preserve (P := fun t => '\n' ∉ t)
    (fun ht hn hm => hn (ht.mem_of_mem hm (by decide) (by decide))) h

end TypingAid
