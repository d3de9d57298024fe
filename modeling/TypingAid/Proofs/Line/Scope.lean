import TypingAid.Proofs.Inline.Reset
import TypingAid.Proofs.Line.Caret

/-!
# Lines under a scope

A scope lets through only some of the changes that a style asks for: fixes in plain text, and blanks
between parts.  Whichever they are, a fix takes spaces away between tight characters or puts one
into a gap between characters that are not blank, and a blank between parts comes into such a gap
too.  So the line is only touched (`touches_formatLine`), for every style, caret and scope.
-/

namespace TypingAid

open Text

variable {gap : Char → Char → Prop}

namespace Inline

/-- A blank between parts comes into a gap between characters that are not blank. -/
theorem touches_blankBetween (hgap : ∀ a c, isBlank a = false → isBlank c = false → gap a c)
    (style : Style) (scope : Option Scope) (previous : Option Neighbour) (now : Neighbour)
    (u : Text) :
    Touches gap ((previous.map Neighbour.text).getD [] ++ (now.text ++ u))
      ((previous.map Neighbour.text).getD [] ++
        (blankBetween style scope previous now ++ (now.text ++ u))) := by
  cases previous with
  | none => exact .refl _
  | some left =>
    rw [blankBetween]
    split_ifs with hb
    · obtain ⟨a, c, ha, hc, hba, hbc⟩ := needsBlank_edges (Bool.and_eq_true_iff.1 hb).2
      obtain ⟨x, hx⟩ := List.getLast?_eq_some_iff.1 ha
      obtain ⟨y, hy⟩ := List.head?_eq_some_iff.1 hc
      have hwiden : Touch gap (x ++ a :: c :: (y ++ u)) (x ++ a :: ' ' :: c :: (y ++ u)) :=
        Touch.append_left x (.widen (hgap a c hba hbc))
      have hone : Touches gap _ _ := .single hwiden
      simpa [hx, hy] using hone
    · exact .refl _

mutual

theorem touches_format (hgap : ∀ a c, isBlank a = false → isBlank c = false → gap a c)
    (style : Style) (caret : Option Int) (scope : Option Scope) (start : ℕ) :
    (p : Inline) → Touches gap p.text (p.format style caret scope start).1.text
  | leaf kind t visible => by
    rw [format]
    split_ifs
    · exact Tracked.touches_respace (fun a c h => hgap a c h.isBlank_eq.1 h.isBlank_eq.2) ⟨t, _, _⟩
    · exact .refl _
  | emphasis marker inner => by
    have hinner := touches_formatAll hgap style ((localCaret caret start
      (start + (marker.length + (textOf inner).length + marker.length))).bind
      (localCaret · marker.length (marker.length + (textOf inner).length)))
      (scope.map fun s => (s.relativeTo start).relativeTo marker.length) none 0 none 0 inner
    rw [format]
    exact (hinner.append_left marker).append_right marker

/-- **Formatting touches the text of parts**, behind the part `previous`. -/
theorem touches_formatAll (hgap : ∀ a c, isBlank a = false → isBlank c = false → gap a c)
    (style : Style) (caret : Option Int) (scope : Option Scope) (first : Option ℕ) (start : ℕ)
    (previous : Option Neighbour) (length : ℕ) :
    (ps : List Inline) → Touches gap ((previous.map Neighbour.text).getD [] ++ textOf ps)
      ((previous.map Neighbour.text).getD [] ++
        (formatAll style caret scope first start previous length ps).text)
  | [] => .refl _
  | p :: ps => by
    have hp := touches_format hgap style caret scope start p
    rcases hnow : p.format style caret scope start with ⟨now, local?⟩
    rw [hnow] at hp
    rw [text_formatAll_cons hnow, textOf]
    -- first the part, then those behind it, and at last the blank in front of it
    refine ((hp.append_right (textOf ps)).append_left _).trans (.trans ?_
      (touches_blankBetween hgap style scope previous now _))
    exact (touches_formatAll hgap style caret scope first _ (some now) _ ps).append_left _

end

end Inline

/-- **Formatting touches the line**, under any scope. -/
theorem touches_formatLine (hgap : ∀ a c, isBlank a = false → isBlank c = false → gap a c)
    (style : Style) (line : Text) (caret : Option Int) (scope : Option Scope) :
    Touches gap line (formatLine style line caret scope).1 := by
  rw [formatLine]
  split_ifs
  · exact .refl _
  · have hparts := Inline.touches_formatAll hgap style
      (caret.map fun c => (Text.clamp line c : Int)) scope (some (leadLength line)) 0 none 0
      (Inline.parse line)
    rw [Inline.textOf_parse] at hparts
    exact hparts.trans (touches_capitalize style _)

end TypingAid
