import TypingAid.Proofs.Inline.Partial
import TypingAid.Proofs.Line.Frame
import TypingAid.Proofs.Line.NormalForm
import TypingAid.Proofs.Line.Scope

/-!
# Formatting a line in steps

In a soft style without capitals, formatting a line under a scope is a step towards formatting it as
a whole: whatever the scope has let through, the whole line is formatted to the same afterwards
(`formatLine_step`), also after any number of such steps (`formatLine_foldl_step`).

A scope that covers the line lets everything through, and formatting under it is the same as without
a scope, the caret included (`formatLine_of_covers`).  It goes on covering the text while the spacing
rules carry out their fixes, because no fix moves the start of a text, and the end moves along with
it (`Scope.Covers.adjust`).
-/

namespace TypingAid

open Text

variable {style : Style} {line t : Text} {s : Scope} {n : ℕ}

/-! ### Steps -/

/-- **Formatting under a scope is a step towards formatting the whole line.** -/
theorem formatLine_step (hcapital : style.autoCapital = false) (hstyle : style.IsSoft)
    (line : Text) (caret caret' : Option Int) (scope : Option Scope) :
    (formatLine style (formatLine style line caret scope).1 caret').1 =
      (formatLine style line caret').1 := by
  by_cases hline : line = []
  · subst hline; rfl
  have htext : ∀ {line : Text}, line ≠ [] → ∀ caret scope,
      (formatLine style line caret scope).1 = (formatParts style line caret scope).text := by
    intro line hline caret scope
    rw [formatLine_eq hline, Formatted.capitalize, if_neg (by simp [hcapital])]
  have hne : (formatParts style line caret scope).text ≠ [] := by
    have := (touches_formatLine (fun _ _ _ _ => trivial) style line caret scope).ne_nil hline
    rwa [htext hline] at this
  -- the parts that have come of the line are found again, and the rest of them is set
  obtain ⟨qs, hqs, hparts | ⟨_, hnone, -⟩⟩ := Inline.allPartlySet_formatAll style
    (caret.map fun c => (clamp line c : Int)) scope (some (leadLength line)) 0 none 0
    (Inline.parse line)
  · have hloose : Inline.Loose qs := (Inline.loose_parse line).sets
      (Inline.sets_of_allPartlySet (allows_softGap hstyle) _ hqs (Inline.loose_parse line))
    have hrest := (Inline.textOf_resetAll_of_allPartlySet _ hqs (Inline.allSeparate_parse line)
      hloose).2 none
    have hparse : Inline.parse (formatParts style line caret scope).text = Inline.glueAll qs := by
      rw [formatParts, hparts, Inline.parse_textOf hloose]
    rw [htext hline, htext hne, htext hline, Inline.text_formatParts, Inline.text_formatParts,
      Inline.setParts, Inline.setParts, hparse, Inline.textOf_glueAll, Inline.textOf_glueAll]
    exact hrest
  · cases hnone

/-- However often a line has been formatted under a scope, it is then formatted to the same. -/
theorem formatLine_foldl_step (hcapital : style.autoCapital = false) (hstyle : style.IsSoft)
    (steps : List (Option Int × Option Scope)) (line : Text) (caret : Option Int) :
    (formatLine style (steps.foldl (fun t step => (formatLine style t step.1 step.2).1) line)
      caret).1 = (formatLine style line caret).1 := by
  induction steps generalizing line with
  | nil => rfl
  | cons step steps ih => rw [List.foldl_cons, ih, formatLine_step hcapital hstyle]

/-! ### Fixes under a scope that covers the text -/

namespace Fix

variable {fixes : List Fix} {offset : ℕ}

/-- What lies behind the text moves along with its end. -/
theorem Spaces.shiftAll_of_le (h : Spaces offset t fixes) {x : Int} (hx : offset + t.length ≤ x) :
    shiftAll fixes x + t.length = x + (applyFrom offset t fixes).length := by
  induction h with
  | nil => rw [shiftAll, drift, applyFrom]; omega
  | @cons offset f rest u s v hstart hstop _ _ _ ih =>
    rw [applyFrom_append hstart hstop]
    simp only [List.length_append] at hx ⊢
    have hrest := ih (by omega)
    rw [shiftAll] at hrest ⊢
    rw [drift, shift, if_pos (by omega)]
    omega

end Fix

/-- No rule of a style changes anything before the first character. -/
theorem start_pos_of_mem_spacingRules {rule : SpacingRule} (hrule : rule ∈ spacingRules style)
    {f : Fix} (hf : f ∈ rule t) : 0 < f.start := by
  rw [spacingRules_eq, List.mem_append, List.mem_ite_nil_right, List.mem_singleton,
    List.mem_map] at hrule
  cases t with
  | nil => rcases hrule with ⟨-, rfl⟩ | ⟨g, -, rfl⟩ <;> cases hf
  | cons c t =>
    rcases hrule with ⟨-, rfl⟩ | ⟨g, hg, rfl⟩
    · rw [loosened, loosenedFrom, if_neg (by simp)] at hf
      have := start_of_mem_loosenedFrom hf
      omega
    · rw [gaps, gapsFrom, (shy_of_mem_gapRules hg).at_start, if_neg (by simp)] at hf
      have := start_of_mem_gapsFrom hf
      omega

/-- The scope covers a text of the given length. -/
structure Scope.Covers (s : Scope) (n : ℕ) : Prop where
  start : s.start ≤ 0
  stop : n ≤ s.stop

/-- So it covers what stands in that text. -/
theorem Scope.Covers.relativeTo (h : s.Covers n) {k m : ℕ} (hle : k + m ≤ n) :
    (s.relativeTo k).Covers m := by
  have h1 := h.start
  have h2 := h.stop
  constructor
  · rw [start_relativeTo]; omega
  · rw [stop_relativeTo]; omega

/-- The fixes of a rule are all carried out, and the scope still covers the text then. -/
theorem Scope.Covers.adjust (h : s.Covers t.length) {rule : SpacingRule}
    (hrule : rule ∈ spacingRules style) (caret : Option Int) :
    ∃ s' : Scope, s'.Covers (Fix.applyFrom 0 t (rule t)).length ∧
      Tracked.adjust ⟨t, caret, some s⟩ (rule t) =
        ⟨Fix.applyFrom 0 t (rule t), caret.map (Fix.shiftAll (rule t)), some s'⟩ := by
  have hspaces := spaces_of_mem_spacingRules hrule t
  have hstart := h.start
  have hstop := h.stop
  have hall : ((rule t).filter fun f => Scope.touches (some s) f.start f.stop) = rule t := by
    refine List.filter_eq_self.2 fun f hf => ?_
    have h1 := start_pos_of_mem_spacingRules hrule hf
    have h2 := hspaces.stop_le hf
    rw [Scope.touches_some]
    omega
  refine ⟨⟨Fix.shiftAll (rule t) s.start, Fix.shiftAll (rule t) s.stop⟩, ⟨?_, ?_⟩, ?_⟩
  · have hdrift : Fix.drift s.start (rule t) = 0 := Fix.drift_of_forall_lt fun f hf => by
      have h1 := start_pos_of_mem_spacingRules hrule hf
      have h2 := hspaces.stop_le hf
      omega
    rw [Fix.shiftAll, hdrift]
    dsimp only
    omega
  · have := hspaces.shiftAll_of_le (x := s.stop) (by omega)
    dsimp only
    omega
  · simp only [Tracked.adjust, hall, Option.map_some]

/-- A style sets a text that the scope covers as it sets it without a scope. -/
theorem Tracked.respace_of_covers (h : s.Covers t.length) (style : Style) (caret : Option Int) :
    (respace style ⟨t, caret, some s⟩).text = (respace style ⟨t, caret, none⟩).text ∧
      (respace style ⟨t, caret, some s⟩).caret = (respace style ⟨t, caret, none⟩).caret := by
  have := List.foldl_rel (l := spacingRules style)
    (f := fun (t : Tracked) rule => t.adjust (rule t.text))
    (g := fun (t : Tracked) rule => t.adjust (rule t.text)) (a := ⟨t, caret, some s⟩)
    (b := ⟨t, caret, none⟩)
    (r := fun t t' => t'.scope = none ∧ ∃ s : Scope, s.Covers t'.text.length ∧
      t = { t' with scope := some s }) ⟨rfl, s, h, rfl⟩ ?_
  · obtain ⟨-, s', -, hs'⟩ := this
    rw [respace, respace, hs']
    exact ⟨rfl, rfl⟩
  · rintro rule hrule _ ⟨t, caret, _⟩ ⟨rfl, s, hs, rfl⟩
    obtain ⟨s', hs', hadjust⟩ := hs.adjust hrule caret
    dsimp only
    rw [Tracked.adjust_none, hadjust]
    exact ⟨rfl, s', hs', rfl⟩

/-! ### Parts under a scope that covers them -/

namespace Inline

mutual

theorem format_of_covers (style : Style) (caret : Option Int) {s : Scope} (start : ℕ) :
    (p : Inline) → (s.relativeTo start).Covers p.text.length →
    p.format style caret (some s) start = p.format style caret none start
  | leaf kind t visible, h => by
    have hset := Tracked.respace_of_covers (t := t) h style
      (localCaret caret start (start + t.length))
    rw [format, format]
    split_ifs
    · simp only [Option.map_some, Option.map_none, hset.1, hset.2]
    · rfl
  | emphasis marker inner, h => by
    have hinner : ((s.relativeTo start).relativeTo marker.length).Covers
        (textOf inner).length := h.relativeTo (by
      rw [text, List.length_append, List.length_append]; omega)
    have hall := fun caret => formatAll_of_covers style caret none 0 none 0 inner
      (s := (s.relativeTo start).relativeTo marker.length) (hinner.relativeTo (Nat.zero_add _).le)
    simp only [format, Option.map_some, Option.map_none, hall]

theorem formatAll_of_covers (style : Style) (caret : Option Int) {s : Scope} (first : Option ℕ)
    (start : ℕ) (previous : Option Neighbour) (length : ℕ) :
    (ps : List Inline) → (s.relativeTo start).Covers (textOf ps).length →
    formatAll style caret (some s) first start previous length ps =
      formatAll style caret none first start previous length ps
  | [], _ => rfl
  | p :: ps, h => by
    rw [textOf, List.length_append] at h
    have hp := format_of_covers style caret start p ⟨h.start, by have := h.stop; omega⟩
    have hstart := start_format style caret none start p
    have hstop := stop_format style caret none start p
    rw [formatAll, formatAll, hp]
    rcases hnow : p.format style caret none start with ⟨now, local?⟩
    rw [hnow] at hstart hstop
    have hps : (s.relativeTo now.stop).Covers (textOf ps).length := by
      have h1 := h.start
      have h2 := h.stop
      rw [Scope.start_relativeTo] at h1
      rw [Scope.stop_relativeTo] at h2
      constructor
      · rw [Scope.start_relativeTo, hstop]; push_cast; omega
      · rw [Scope.stop_relativeTo, hstop]; push_cast; omega
    have hrest := fun length => formatAll_of_covers style caret first now.stop (some now) length ps
      hps
    have htouch : ∀ left : Neighbour, left.boundaryTouches (some s) now = true := by
      intro left
      have h1 := h.start
      have h2 := h.stop
      rw [Scope.start_relativeTo] at h1
      rw [Scope.stop_relativeTo] at h2
      have : Scope.touches (some s) now.start now.start = true := by
        rw [Scope.touches_some, hstart]; omega
      rw [Neighbour.boundaryTouches, this]
      rfl
    cases previous with
    | none => simp only [hrest]
    | some left => simp only [hrest, htouch, Neighbour.boundaryTouches_none]

end

end Inline

/-- **Under a scope that covers the line everything is let through.** -/
theorem formatLine_of_covers (style : Style) (h : s.Covers line.length) (caret : Option Int) :
    formatLine style line caret (some s) = formatLine style line caret := by
  by_cases hline : line = []
  · subst hline; rfl
  · have hcovers : (s.relativeTo (0 : ℕ)).Covers (Inline.textOf (Inline.parse line)).length := by
      rw [Inline.textOf_parse]
      exact h.relativeTo (Nat.zero_add _).le
    rw [formatLine_eq hline, formatLine_eq hline, formatParts, formatParts,
      Inline.formatAll_of_covers style _ _ 0 none 0 _ hcovers]

/-- **Scoped formatting is a step towards full formatting**, and the scope of the whole line is
no restriction. -/
theorem formatLine_scoped (hcapital : style.autoCapital = false) (hstyle : style.IsSoft)
    (line : Text) (caret : Option Int) (scope : Option Scope) :
    (formatLine style (formatLine style line caret scope).1).1 = (formatLine style line).1 ∧
      formatLine style line caret (some ⟨0, line.length⟩) = formatLine style line caret :=
  ⟨formatLine_step hcapital hstyle line caret none scope,
    formatLine_of_covers style ⟨Int.le_refl 0, Int.le_refl _⟩ caret⟩

/-- Under the scope a blank goes and three come, also inside emphasis and behind it; the other six
come afterwards. -/
theorem formatLine_scoped_emphasis :
    let style : Style := { autoCapital := false }
    let line : Text := "在py里**中 文re**`x`有3个a,b".toList
    let half : Text := "在py 里**中文 re** `x`有3个a,b".toList
    let newLine : Text := "在 py 里**中文 re** `x` 有 3 个 a, b".toList
    style.autoCapital = false ∧ style.IsSoft ∧
      formatLine style line (some 9) (some ⟨2, 9⟩) = (half, 10) ∧
      (formatLine style half).1 = newLine ∧
      formatLine style line (some 9) (some ⟨0, line.length⟩) = (newLine, 11) := by
  intro style line half newLine
  have hstyle : style.IsSoft := ⟨by decide, by decide⟩
  have hhalf : formatLine style line (some 9) (some ⟨2, 9⟩) = (half, 10) := by decide +kernel
  have hline : formatLine style line (some 9) = (newLine, 11) := by decide +kernel
  have hnone : (formatLine style line).1 = newLine := by decide +kernel
  have hscoped := formatLine_scoped rfl hstyle line (some 9) (some ⟨2, 9⟩)
  rw [hhalf, hline, hnone] at hscoped
  exact ⟨rfl, hstyle, hhalf, hscoped⟩

end TypingAid
