import TypingAid.Proofs.Block.Locality
import TypingAid.Proofs.Block.Prose
import TypingAid.Proofs.Text.Place

/-!
# Setting the lines that are picked

All that setting lines does to a text is said line by line: of the lines that are picked, those that
are prose are set, and all others stay (`Style.SetsWhere`).  The result is one text only
(`Style.SetsWhere.unique`), and it has the outline of the old text
(`Style.SetsWhere.setContent_eq`).  So lines that are set one after the other come out as if they
had been set at once, as long as none is set twice (`Style.SetsWhere.trans`).
-/

namespace TypingAid

open Text

namespace Outline

/-- Setting lines of prose keeps what every line is, whatever the caret and the scope. -/
theorem setContent_of_lines (style : Style) {t t' : Text}
    (hlen : (Text.lines t').length = (Text.lines t).length)
    (h : ∀ (i : ℕ) (line line' : Text), (Text.lines t)[i]? = some line →
      (Text.lines t')[i]? = some line' → line' = line ∨ (ofText t).isProse i = true ∧
        ∃ caret scope, line' = (formatLine style line caret scope).1) :
    (ofText t).setContent t' = ofText t' := by
  refine setContent_eq_ofText (by rw [length_ofText, hlen]) fun i hi => ?_
  obtain ⟨line', hline'⟩ : ∃ line', (Text.lines t')[i]? = some line' :=
    ⟨_, List.getElem?_eq_getElem hi⟩
  obtain ⟨line, hline⟩ : ∃ line, (Text.lines t)[i]? = some line :=
    ⟨_, List.getElem?_eq_getElem (by omega)⟩
  have hinfo := getElem?_ofText t i
  rw [hline, Option.map_some] at hinfo
  refine isStale_eq_false_iff.2 ⟨line', hline', ?_⟩
  rcases h i line line' hline hline' with rfl | ⟨hprose, caret, scope, rfl⟩
  · exact hinfo
  · have hkind : (classify line i ((ofText t).openBefore i)).kind = .text := by
      simpa [isProse, kind?, hinfo] using hprose
    rw [hinfo, classify_formatLine style hkind]

end Outline

namespace Style

variable {style : Style} {t t' t'' : Text} {p q : ℕ → Prop} [DecidablePred p] [DecidablePred q]

/-- Line `i` of a text with the outline `o`, set if `p` picks it and it is prose. -/
def setPicked (style : Style) (o : Outline) (p : ℕ → Prop) [DecidablePred p] (i : ℕ)
    (line : Text) : Text :=
  if p i ∧ o.isProse i = true then (formatLine style line).1 else line

/-- The text `t'` is `t` in which the prose on the lines that `p` picks has been set. -/
def SetsWhere (style : Style) (p : ℕ → Prop) [DecidablePred p] (t t' : Text) : Prop :=
  ∀ i, (lines t')[i]? = (lines t)[i]?.map (style.setPicked (.ofText t) p i)

theorem setPicked_of_not (style : Style) {o : Outline} {i : ℕ}
    (h : ¬ (p i ∧ o.isProse i = true)) : style.setPicked o p i = id := by
  funext line
  rw [setPicked, if_neg h]
  rfl

theorem setPicked_congr (style : Style) {o o' : Outline} {i : ℕ}
    (h : p i ∧ o.isProse i = true ↔ q i ∧ o'.isProse i = true) :
    style.setPicked o p i = style.setPicked o' q i := by
  funext line
  rw [setPicked, setPicked]
  simp only [h]

/-- Where no line that is picked is prose, nothing happens. -/
theorem setsWhere_self (style : Style)
    (h : ∀ i, p i → (Outline.ofText t).isProse i = false) : style.SetsWhere p t t := by
  intro i
  rw [setPicked_of_not style fun hp => Bool.false_ne_true ((h i hp.1).symm.trans hp.2),
    Option.map_id_apply]

namespace SetsWhere

/-- Only the lines that there are can be picked. -/
theorem congr (h : style.SetsWhere p t t') (hpq : ∀ i < (lines t).length, p i ↔ q i) :
    style.SetsWhere q t t' := by
  intro i
  by_cases hi : i < (lines t).length
  · rw [h i, setPicked_congr style (and_congr_left' (hpq i hi))]
  · rw [h i, List.getElem?_eq_none (by omega)]
    rfl

theorem unique (h : style.SetsWhere p t t') (h' : style.SetsWhere p t t'') : t' = t'' := by
  have hlines : lines t' = lines t'' := List.ext_getElem? fun i => by rw [h i, h' i]
  rw [← ofLines_lines t', hlines, ofLines_lines]

theorem length_lines (h : style.SetsWhere p t t') : (lines t').length = (lines t).length := by
  refine Nat.le_antisymm ?_ ?_
  · rw [← List.getElem?_eq_none_iff, h, List.getElem?_eq_none le_rfl]
    rfl
  · have hnone := List.getElem?_eq_none (l := lines t') le_rfl
    rw [h, Option.map_eq_none_iff] at hnone
    exact List.getElem?_eq_none_iff.1 hnone

/-- A line is the old one, or that was prose and has been set. -/
theorem line_eq (h : style.SetsWhere p t t') {i : ℕ} {line line' : Text}
    (hline : (lines t)[i]? = some line) (hline' : (lines t')[i]? = some line') :
    line' = line ∨ (Outline.ofText t).isProse i = true ∧
      ∃ caret scope, line' = (formatLine style line caret scope).1 := by
  rw [h i, hline, Option.map_some, Option.some.injEq, setPicked] at hline'
  split_ifs at hline' with hset
  · exact .inr ⟨hset.2, none, none, hline'.symm⟩
  · exact .inl hline'.symm

/-- **Setting lines keeps what every line is.** -/
theorem setContent_eq (h : style.SetsWhere p t t') :
    (Outline.ofText t).setContent t' = .ofText t' :=
  Outline.setContent_of_lines style h.length_lines fun _ _ _ hl hl' => h.line_eq hl hl'

theorem isProse_eq (h : style.SetsWhere p t t') (n : Int) :
    (Outline.ofText t').isProse n = (Outline.ofText t).isProse n := by
  rw [← h.setContent_eq]
  rfl

/-- **Lines set one after the other** are set as if at once. -/
theorem trans (h : style.SetsWhere p t t') (h' : style.SetsWhere q t' t'')
    (hpq : ∀ i, p i → ¬ q i) : style.SetsWhere (fun i => p i ∨ q i) t t'' := by
  intro i
  rw [h' i, h i, Option.map_map]
  congr 1
  by_cases hp : p i
  · have hnot : ¬ (q i ∧ (Outline.ofText t').isProse i = true) := fun hq => hpq i hp hq.1
    rw [setPicked_of_not style hnot, Function.id_comp]
    exact setPicked_congr style (by simp only [hp, true_or])
  · rw [setPicked_of_not (p := p) style fun hq => hp hq.1, Function.comp_id]
    exact setPicked_congr style (by simp only [hp, false_or, h.isProse_eq])

end SetsWhere

end Style

end TypingAid
