import TypingAid.Line.Format
import TypingAid.Proofs.Inline.Reading
import TypingAid.Proofs.Line.Fix

/-!
# The caret in the parts of a line

What formatting makes of one more part in front: its text with a blank before it or not
(`Inline.text_formatAll_cons`), a caret that touches the part or else the one in the rest
(`Inline.caret_formatAll_cons`), and its plain text (`Inline.spans_formatAll_cons`).

From this, by recursion over the parts, the text stays as it is apart from spaces
(`Inline.bare_formatAll`), and a caret in it keeps its place (`Inline.samePlace_formatAll`), under
every scope.  Where the caret is does not matter for the text.
-/

namespace TypingAid

open Text

namespace Inline

variable {style : Style} {scope : Option Scope} {caret : Option Int}

/-! ### One more part -/

/-- The blank that formatting puts between two parts. -/
def blankBetween (style : Style) (scope : Option Scope) (previous : Option Neighbour)
    (now : Neighbour) : Text :=
  match previous with
  | none => []
  | some left => if left.boundaryTouches scope now && needsBlank style left now then [' '] else []

theorem blankBetween_eq (style : Style) (scope : Option Scope) (previous : Option Neighbour)
    (now : Neighbour) :
    blankBetween style scope previous now = [] ∨ blankBetween style scope previous now = [' '] := by
  cases previous with
  | none => exact .inl rfl
  | some left =>
    rw [blankBetween]
    split_ifs
    · exact .inr rfl
    · exact .inl rfl

theorem bare_blankBetween (style : Style) (scope : Option Scope) (previous : Option Neighbour)
    (now : Neighbour) : bare (blankBetween style scope previous now) = [] := by
  rcases blankBetween_eq style scope previous now with h | h <;> rw [h] <;> rfl

theorem start_format (style : Style) (caret : Option Int) (scope : Option Scope) (start : ℕ)
    (p : Inline) : (p.format style caret scope start).1.start = start := by
  cases p with
  | leaf kind t visible => rw [format]; split_ifs <;> rfl
  | emphasis marker inner => simp only [format]

theorem stop_format (style : Style) (caret : Option Int) (scope : Option Scope) (start : ℕ)
    (p : Inline) : (p.format style caret scope start).1.stop = start + p.text.length := by
  cases p with
  | leaf kind t visible => rw [format]; split_ifs <;> rfl
  | emphasis marker inner =>
    simp only [format, text, List.length_append]

section Cons

variable {start : ℕ} {p : Inline} {now : Neighbour} {local? : Option Int}

theorem text_formatAll_cons (hnow : p.format style caret scope start = (now, local?))
    (first : Option ℕ) (previous : Option Neighbour) (length : ℕ) (ps : List Inline) :
    (formatAll style caret scope first start previous length (p :: ps)).text =
      blankBetween style scope previous now ++ (now.text ++
        (formatAll style caret scope first (start + p.text.length) (some now)
          (length + (blankBetween style scope previous now).length + now.text.length) ps).text) := by
  have hstop := stop_format style caret scope start p
  rw [hnow] at hstop
  rw [← hstop, formatAll, hnow]
  exact List.append_assoc ..

theorem caret_formatAll_cons (hnow : p.format style caret scope start = (now, local?))
    (first : Option ℕ) (previous : Option Neighbour) (length : ℕ) (ps : List Inline) :
    (formatAll style caret scope first start previous length (p :: ps)).caret =
      (local?.map (((length + (blankBetween style scope previous now).length : ℕ) : Int) + ·)).or
        (formatAll style caret scope first (start + p.text.length) (some now)
          (length + (blankBetween style scope previous now).length + now.text.length) ps).caret := by
  have hstop := stop_format style caret scope start p
  rw [hnow] at hstop
  rw [← hstop, formatAll, hnow]
  rfl

theorem spans_formatAll_cons (hnow : p.format style caret scope start = (now, local?))
    (first : Option ℕ) (previous : Option Neighbour) (length : ℕ) (ps : List Inline) :
    (formatAll style caret scope first start previous length (p :: ps)).spans =
      (if now.kind = .text then [⟨length + (blankBetween style scope previous now).length, now.text,
        (first.filter fun s => start ≤ s && s ≤ start + p.text.length).map (· - start)⟩] else []) ++
      (formatAll style caret scope first (start + p.text.length) (some now)
        (length + (blankBetween style scope previous now).length + now.text.length) ps).spans := by
  have hstop := stop_format style caret scope start p
  rw [hnow] at hstop
  rw [← hstop, formatAll, hnow]
  dsimp only
  split_ifs <;> rfl

end Cons

/-! ### The text -/

mutual

theorem bare_format (style : Style) (caret : Option Int) (scope : Option Scope) (start : ℕ) :
    (p : Inline) → bare (p.format style caret scope start).1.text = bare p.text
  | leaf kind t visible => by
    rw [format]
    split_ifs
    · exact Tracked.bare_respace style _
    · rfl
  | emphasis marker inner => by
    simp only [format, text, bare_append, bare_formatAll style _ _ none 0 none 0 inner]

/-- **Formatting keeps the text of parts**, apart from spaces. -/
theorem bare_formatAll (style : Style) (caret : Option Int) (scope : Option Scope)
    (first : Option ℕ) (start : ℕ) (previous : Option Neighbour) (length : ℕ) :
    (ps : List Inline) →
    bare (formatAll style caret scope first start previous length ps).text = bare (textOf ps)
  | [] => rfl
  | p :: ps => by
    rcases hnow : p.format style caret scope start with ⟨now, local?⟩
    have hp := bare_format style caret scope start p
    rw [hnow] at hp
    rw [text_formatAll_cons hnow, bare_append, bare_append, bare_blankBetween, hp,
      bare_formatAll style caret scope first _ (some now) _ ps, textOf, bare_append, List.nil_append]

end

mutual

theorem format_withoutCaret (style : Style) (caret : Option Int) (scope : Option Scope) (start : ℕ) :
    (p : Inline) → (p.format style caret scope start).1 = (p.format style none scope start).1
  | leaf kind t visible => by
    rw [format, format]
    split_ifs
    · change (⟨_, _, _, _, _⟩ : Neighbour) = ⟨_, _, _, _, _⟩
      rw [(Tracked.respace_withoutCaret style t _ _).1]
      rfl
    · rfl
  | emphasis marker inner => by
    have h : ∀ caret, (formatAll style caret ((scope.map fun s =>
        (s.relativeTo start).relativeTo marker.length)) none 0 none 0 inner).text =
        (formatAll style none (scope.map fun s =>
          (s.relativeTo start).relativeTo marker.length) none 0 none 0 inner).text :=
      fun caret => (formatAll_withoutCaret style caret _ none 0 none 0 inner).1
    simp only [format]
    rw [h, h ((localCaret none start _).bind _)]

/-- **Where the caret is** does not matter for the text. -/
theorem formatAll_withoutCaret (style : Style) (caret : Option Int) (scope : Option Scope)
    (first : Option ℕ) (start : ℕ) (previous : Option Neighbour) (length : ℕ) :
    (ps : List Inline) →
    (formatAll style caret scope first start previous length ps).text =
        (formatAll style none scope first start previous length ps).text ∧
      (formatAll style caret scope first start previous length ps).spans =
        (formatAll style none scope first start previous length ps).spans
  | [] => ⟨rfl, rfl⟩
  | p :: ps => by
    have hp := format_withoutCaret style caret scope start p
    rcases hnow : p.format style caret scope start with ⟨now, local?⟩
    rcases hnow' : p.format style none scope start with ⟨now', local'?⟩
    rw [hnow, hnow'] at hp
    obtain rfl : now = now' := hp
    have ih := formatAll_withoutCaret style caret scope first (start + p.text.length) (some now)
      (length + (blankBetween style scope previous now).length + now.text.length) ps
    rw [text_formatAll_cons hnow, text_formatAll_cons hnow', spans_formatAll_cons hnow,
      spans_formatAll_cons hnow', ih.1, ih.2]
    exact ⟨rfl, rfl⟩

end

/-! ### The caret -/

theorem localCaret_of_mem {c : Int} {start stop : ℕ} (h : start ≤ c) (h' : c ≤ stop) :
    localCaret (some c) start stop = some (c - start) := by
  simp [localCaret, Option.filter, h, h']

theorem localCaret_eq_none {c : Int} {start stop : ℕ} (h : c < start ∨ stop < c) :
    localCaret (some c) start stop = none := by
  simp [localCaret, Option.filter]; omega

/-- A caret that does not touch a part is nowhere in what comes of it. -/
theorem caret_format_eq_none (style : Style) (scope : Option Scope) {start : ℕ} {p : Inline}
    (h : localCaret caret start (start + p.text.length) = none) :
    (p.format style caret scope start).2 = none := by
  cases p with
  | leaf kind t visible =>
    rw [format]
    rw [text] at h
    split_ifs
    · simp only [h]
      exact (Tracked.respace_withoutCaret style t none _).2
    · exact h
  | emphasis marker inner =>
    rw [text, List.length_append, List.length_append] at h
    simp only [format, h, Option.map_none]

theorem caret_formatAll_none (style : Style) (scope : Option Scope) (first : Option ℕ) (start : ℕ)
    (previous : Option Neighbour) (length : ℕ) (ps : List Inline) :
    (formatAll style none scope first start previous length ps).caret = none := by
  induction ps generalizing start previous length with
  | nil => rfl
  | cons p ps ih =>
    rcases hnow : p.format style none scope start with ⟨now, local?⟩
    have hlocal : local? = none := by
      have hout : localCaret none start (start + p.text.length) = none := rfl
      have := caret_format_eq_none style scope hout
      rwa [hnow] at this
    rw [caret_formatAll_cons hnow, hlocal, ih]
    rfl

/-- A caret in an emphasis span keeps its place if it does so in the content, as soon as it stands
there; in front of the content and behind it, it moves along with what it touches. -/
theorem samePlace_emphasisCaret {marker t t' : Text} {innerCaret : Option Int} {x : Int}
    (h0 : 0 ≤ x) (hx : x ≤ marker.length + t.length + marker.length) (hbare : bare t' = bare t)
    (h : (∃ y, innerCaret = some y ∧ SamePlace t (x - marker.length) t' y) ∨
      innerCaret = none ∧ (x ≤ marker.length ∨ marker.length + t.length < x)) :
    SamePlace (marker ++ t ++ marker) x (marker ++ t' ++ marker)
      (emphasisCaret marker.length t.length t'.length innerCaret x) := by
  rw [List.append_assoc, List.append_assoc]
  obtain ⟨y, rfl, hsame⟩ | ⟨rfl, hout⟩ := h
  · have := (hsame.append (u := marker) rfl).prepend (u := marker) rfl
    rwa [show (marker.length : Int) + (x - marker.length) = x by omega] at this
  · have hcaret : emphasisCaret marker.length t.length t'.length none x =
        if (marker.length + t.length : Int) < x then x + t'.length - t.length else x := rfl
    rw [hcaret]
    split_ifs with hbehind
    · have hj : SamePlace marker (x - (marker.length + t.length)) marker
          (x - (marker.length + t.length)) := .refl (by omega) (by omega)
      have := (hj.prepend hbare).prepend (u := marker) rfl
      convert this using 1 <;> omega
    · refine (SamePlace.refl h0 (hout.resolve_right hbehind)).append ?_
      rw [bare_append, bare_append, hbare]

mutual

theorem samePlace_format (style : Style) (scope : Option Scope) {start : ℕ} {c : Int} :
    (p : Inline) → start ≤ c → c ≤ start + p.text.length →
    ∃ y, (p.format style (some c) scope start).2 = some y ∧
      SamePlace p.text (c - start) (p.format style (some c) scope start).1.text y
  | leaf kind t visible, h, h' => by
    have hlocal : localCaret (some c) start (start + t.length) = some (c - start) :=
      localCaret_of_mem h (by rw [text] at h'; push_cast; omega)
    rw [text] at h' ⊢
    rw [format, hlocal]
    split_ifs
    · exact Tracked.samePlace_respace style (t := ⟨t, some (c - start), _⟩) rfl (by omega)
        (by dsimp only; omega)
    · exact ⟨c - start, rfl, .refl (by omega) (by omega)⟩
  | emphasis marker inner, h, h' => by
    rw [text, List.length_append, List.length_append] at h'
    push_cast at h'
    have hlocal : localCaret (some c) start
        (start + (marker.length + (textOf inner).length + marker.length)) = some (c - start) :=
      localCaret_of_mem h (by push_cast; omega)
    simp only [format, hlocal, Option.bind_some, text, Option.map_some]
    generalize (scope.map fun s => (s.relativeTo start).relativeTo marker.length) = scope'
    generalize hx : c - start = x
    refine ⟨_, rfl, samePlace_emphasisCaret (by omega) (by omega) (bare_formatAll ..) ?_⟩
    by_cases hin : marker.length ≤ x ∧ x ≤ marker.length + (textOf inner).length ∧ inner ≠ []
    · -- the caret is in the content, at its edges too
      obtain ⟨h1, h2, hne⟩ := hin
      have h0 : ((0 : ℕ) : Int) ≤ x - marker.length := by omega
      obtain ⟨y, hy, hsame⟩ := samePlace_formatAll style scope' none none 0 inner hne h0 (by omega)
      rw [localCaret_of_mem h1 (by push_cast; exact h2)]
      refine .inl ⟨y, hy, ?_⟩
      simpa only [Int.natCast_zero, Int.sub_zero] using hsame
    · -- the caret is in one of the markers, or there is nothing between them
      have hout : inner = [] ∨ x < marker.length ∨ marker.length + (textOf inner).length < x := by
        by_cases hne : inner = []
        · exact .inl hne
        · simp only [hne, not_and, ne_eq, not_false_eq_true, and_true] at hin
          omega
      rcases hout with rfl | hout
      · rw [textOf, List.length_nil]
        exact .inr ⟨rfl, by omega⟩
      · rw [localCaret_eq_none (by push_cast; exact hout), caret_formatAll_none]
        exact .inr ⟨rfl, by omega⟩

/-- **A caret in the text of parts keeps its place.** -/
theorem samePlace_formatAll (style : Style) (scope : Option Scope) (first : Option ℕ) {start : ℕ}
    (previous : Option Neighbour) (length : ℕ) {c : Int} :
    (ps : List Inline) → ps ≠ [] → start ≤ c → c ≤ start + (textOf ps).length →
    ∃ y, (formatAll style (some c) scope first start previous length ps).caret = some y ∧
      SamePlace (textOf ps) (c - start)
        (formatAll style (some c) scope first start previous length ps).text (y - length)
  | [], hne, _, _ => absurd rfl hne
  | p :: ps, _, h, h' => by
    rcases hnow : p.format style (some c) scope start with ⟨now, local?⟩
    rw [textOf, List.length_append] at h'
    rw [text_formatAll_cons hnow, caret_formatAll_cons hnow, textOf]
    have hgap := bare_blankBetween style scope previous now
    generalize blankBetween style scope previous now = gap at hgap ⊢
    -- a caret between two parts touches the first of them and goes with it
    rcases Int.lt_or_le ((start + p.text.length : ℕ) : Int) c with hlt | hle
    · have hlocal : local? = none := by
        have := caret_format_eq_none style scope (localCaret_eq_none (.inr hlt))
        rwa [hnow] at this
      have hne : ps ≠ [] := by
        rintro rfl
        rw [textOf] at h'; simp at h'; omega
      obtain ⟨y, hy, hsame⟩ := samePlace_formatAll style scope first (some now)
        (length + gap.length + now.text.length) ps hne (Int.le_of_lt hlt)
        (by push_cast at h' ⊢; omega)
      have hp : bare (gap ++ now.text) = bare p.text := by
        have := bare_format style (some c) scope start p
        rw [hnow] at this
        rw [bare_append, hgap, this, List.nil_append]
      refine ⟨y, by rw [hlocal, hy]; rfl, ?_⟩
      have := hsame.prepend hp
      rw [← List.append_assoc]
      convert this using 1
      · push_cast; omega
      · rw [List.length_append]; push_cast; omega
    · obtain ⟨y, hy, hsame⟩ := samePlace_format style scope p h (by push_cast at hle; exact hle)
      rw [hnow] at hy hsame
      have hrest := bare_formatAll style (some c) scope first (start + p.text.length) (some now)
        (length + gap.length + now.text.length) ps
      obtain rfl : local? = some y := hy
      refine ⟨_, rfl, ?_⟩
      convert (hsame.append hrest).behind hgap using 1
      push_cast; omega

end

end Inline

/-! ### The line -/

/-- The parts of a line as they are formatted, before any capitals. -/
def formatParts (style : Style) (line : Text) (caret : Option Int) (scope : Option Scope) :
    Formatted :=
  Inline.formatAll style (caret.map fun c => (clamp line c : Int)) scope (some (leadLength line)) 0
    none 0 (Inline.parse line)

variable {line : Text}

theorem formatLine_nil (style : Style) (caret : Option Int) (scope : Option Scope) :
    formatLine style [] caret scope = ([], 0) := rfl

theorem formatLine_eq (h : line ≠ []) (style : Style) (caret : Option Int) (scope : Option Scope) :
    formatLine style line caret scope =
      ((formatParts style line caret scope).capitalize style,
        (formatParts style line caret scope).caret.getD
          ((formatParts style line caret scope).capitalize style).length) := by
  rw [formatLine, if_neg (by simpa using h)]
  rfl

theorem parse_ne_nil (h : line ≠ []) : Inline.parse line ≠ [] := fun hnil => by
  have := Inline.textOf_parse line
  rw [hnil] at this
  exact h this.symm

theorem bare_formatParts (style : Style) (line : Text) (caret : Option Int) (scope : Option Scope) :
    bare (formatParts style line caret scope).text = bare line := by
  rw [formatParts, Inline.bare_formatAll, Inline.textOf_parse]

theorem caret_formatParts_none (style : Style) (line : Text) (scope : Option Scope) :
    (formatParts style line none scope).caret = none := Inline.caret_formatAll_none ..

/-- **The caret keeps its place** in the parts of a line. -/
theorem samePlace_formatParts (h : line ≠ []) (style : Style) (c : Int) (scope : Option Scope) :
    ∃ y, (formatParts style line (some c) scope).caret = some y ∧
      SamePlace line (clamp line c) (formatParts style line (some c) scope).text y := by
  have hclamp : clamp line c ≤ line.length := Nat.min_le_right ..
  have h0 : ((0 : ℕ) : Int) ≤ clamp line c := by omega
  obtain ⟨y, hy, hsame⟩ := Inline.samePlace_formatAll style scope (some (leadLength line)) none 0
    (Inline.parse line) (parse_ne_nil h) h0 (by rw [Inline.textOf_parse]; omega)
  refine ⟨y, hy, ?_⟩
  rwa [Inline.textOf_parse, Int.natCast_zero, Int.sub_zero, Int.sub_zero] at hsame

end TypingAid
