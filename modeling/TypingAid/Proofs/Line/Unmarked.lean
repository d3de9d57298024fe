import TypingAid.Proofs.Inline.Stay
import TypingAid.Proofs.Line.AtEnd
import TypingAid.Proofs.Line.Caret

/-!
# Lines without marks

A line without any of the characters that spans are made of, and without an address, is one plain
part (`Text.Unmarked.plain`).  In a style without capitals, setting such a line is a matter of the
spacing rules alone (`Text.Plain.formatLine_fst`).
-/

namespace TypingAid

open Text Recognised

/-- The characters of which a span other than an address has at least one. -/
def spanMarks : List Char := ['\x60', '$', '[', '*', '_', '~', '=']

/-- A text without the characters that spans are made of, and without what an address starts
with. -/
structure Text.Unmarked (t : Text) : Prop where
  marks : ∀ c ∈ t, c ∉ spanMarks
  scheme : ¬ [':', '/', '/'] <:+: t

variable {style : Style} {t u v : Text} {c : Char}

namespace Text.Unmarked

theorem part (h : t.Unmarked) (hu : u <:+: t) : u.Unmarked :=
  ⟨fun c hc => h.marks c (hu.subset hc), fun hs => h.scheme (hs.trans hu)⟩

theorem spanAt?_eq_none (h : t.Unmarked) : spanAt? t = none := by
  have hmark : ∀ c ∈ spanMarks, c ∉ t := fun c hc hm => h.marks c hm hc
  have hhead : ∀ c ∈ spanMarks, t.head? ≠ some c := fun c hc hh =>
    hmark c hc (List.mem_of_head? hh)
  refine Option.eq_none_iff_forall_ne_some.2 fun r hr => ?_
  rcases spanAt?_eq_some_iff.1 hr with hr | hr | hr | hr | hr | hr
  · exact hhead '\x60' (by decide) (head?_of_code? hr)
  · exact hhead '$' (by decide) (head?_of_formula? hr)
  · obtain ⟨bang, body, rest, -, rfl, -⟩ := wikilink?_eq_some_iff.1 hr
    exact hmark '[' (by decide) (by simp)
  · obtain ⟨bang, shown, target, rest, -, rfl, -⟩ := link?_eq_some_iff.1 hr
    exact hmark '[' (by decide) (by simp)
  · obtain ⟨scheme, hscheme, body, rest, rfl, -⟩ := url?_eq_some_iff.1 hr
    refine h.scheme ?_
    have hslashes : ∀ scheme ∈ schemes, [':', '/', '/'] <:+: scheme := by decide
    exact (hslashes scheme hscheme).trans (List.prefix_append scheme _).isInfix
  · obtain ⟨m, hm, hh⟩ := head?_of_emphasis? hr
    have hmarks : ∀ m ∈ markerChars, m ∈ spanMarks := by decide
    exact hhead m (hmarks m hm) hh

/-- Such a text is plain. -/
theorem plain (h : t.Unmarked) : Plain t [] := by
  induction t with
  | nil => trivial
  | cons c t ih =>
    refine ⟨?_, ih (h.part (List.infix_cons (List.infix_refl t)))⟩
    rw [List.append_nil]
    exact h.spanAt?_eq_none

end Text.Unmarked

namespace Text.Plain

theorem respace_concat (h : Plain (t ++ [c]) []) (style : Style) :
    Plain (style.respace t ++ [c]) [] :=
  h.touches ((touches_respace (fun _ _ => softGap_of_fillableGap) t).append_right [c])

theorem parse_eq (h : Plain t []) (hne : t ≠ []) : Inline.parse t = [.leaf .text t []] := by
  have hparse := Inline.parse_append_of_plain hne h
  rwa [List.append_nil, Inline.parse_nil] at hparse

/-- **A plain line is set by the spacing rules alone**, if sentences get no capitals. -/
theorem formatLine_eq_respace (h : Plain t []) (hne : t ≠ []) (hstyle : style.autoCapital = false)
    (caret : Option Int) (scope : Option Scope) :
    formatLine style t caret scope =
      let r := Tracked.respace style ⟨t, caret.map fun c => (clamp t c : Int), scope⟩
      (r.text, r.caret.getD r.text.length) := by
  have hlocal : Inline.localCaret (caret.map fun c => (clamp t c : Int)) 0 t.length =
      caret.map fun c => (clamp t c : Int) := by
    cases caret with
    | none => rfl
    | some c =>
      have hc : clamp t c ≤ t.length := Nat.min_le_right ..
      rw [Option.map_some, Inline.localCaret_of_mem (by omega) (by omega), Int.natCast_zero,
        Int.sub_zero]
  have hscope : (scope.map fun s => s.relativeTo ((0 : ℕ) : Int)) = scope := by
    cases scope with
    | none => rfl
    | some s => simp [Scope.relativeTo]
  have hcapital : ∀ f : Formatted, f.capitalize style = f.text := fun f => by
    rw [Formatted.capitalize, if_neg (by simp [hstyle])]
  set caret' := caret.map fun c => (clamp t c : Int)
  have hnow : (Inline.leaf .text t []).format style caret' scope 0 =
      (⟨.text, 0, t.length, (Tracked.respace style ⟨t, caret', scope⟩).text, []⟩,
        (Tracked.respace style ⟨t, caret', scope⟩).caret) := by
    rw [Inline.format]
    simp only [if_true, Nat.zero_add, hlocal, hscope]
  have htext : (formatParts style t caret scope).text =
      (Tracked.respace style ⟨t, caret', scope⟩).text := by
    rw [formatParts, h.parse_eq hne, Inline.text_formatAll_cons hnow]
    exact List.append_nil _
  have hcaret : (formatParts style t caret scope).caret =
      (Tracked.respace style ⟨t, caret', scope⟩).caret := by
    rw [formatParts, h.parse_eq hne, Inline.caret_formatAll_cons hnow]
    cases (Tracked.respace style ⟨t, caret', scope⟩).caret with
    | none => rfl
    | some c => exact congrArg some (Int.zero_add c)
  rw [formatLine_eq hne, hcapital, htext, hcaret]

/-- All of a plain line. -/
theorem formatLine_fst (h : Plain t []) (hstyle : style.autoCapital = false) :
    (formatLine style t).1 = style.respace t := by
  by_cases hne : t = []
  · subst hne
    exact (settled_of_forall style fun _ hc => absurd hc List.not_mem_nil).respace_eq.symm
  · rw [h.formatLine_eq_respace hne hstyle]
    exact text_respace style t none

/-- It is settled then. -/
theorem formatLine_respace (h : Plain t []) (hstyle : style.autoCapital = false) :
    (formatLine style (style.respace t)).1 = style.respace t := by
  have hplain : Plain (style.respace t) [] :=
    h.touches (touches_respace (fun _ _ => softGap_of_fillableGap) t)
  rw [hplain.formatLine_fst hstyle, (settled_respace style t).respace_eq]

/-- A character at the end of a line that has been set, with the caret behind it, under a scope that
holds the place where it is. -/
theorem formatLine_concat (h : Plain (t ++ [c]) []) (hstyle : style.autoCapital = false)
    {scope : Scope} (hstart : scope.start ≤ (style.respace t).length)
    (hstop : ((style.respace t).length : Int) ≤ scope.stop) :
    formatLine style (style.respace t ++ [c]) (some ((style.respace t).length + 1 : ℕ))
      (some scope) = (style.respace (t ++ [c]), ((style.respace (t ++ [c])).length : Int)) := by
  have hend : Tracked.AtEnd style ⟨style.respace t ++ [c],
      some ((style.respace t).length + 1 : ℕ), some scope⟩ (style.respace t) c :=
    ⟨rfl, settled_respace style t, rfl, scope, rfl, hstart, hstop⟩
  obtain ⟨htext, hcaret⟩ := hend.respace
  have hclamp : clamp (style.respace t ++ [c]) ((style.respace t).length + 1 : ℕ) =
      (style.respace t).length + 1 := by
    simp only [clamp, List.length_append, List.length_singleton]; omega
  rw [respace_respace_concat] at htext hcaret
  rw [(h.respace_concat style).formatLine_eq_respace (by simp) hstyle]
  dsimp only
  rw [Option.map_some, hclamp, htext, hcaret]
  rfl

end Text.Plain

end TypingAid
