import TypingAid.Line.Format
import TypingAid.Proofs.Inline.Reading
import TypingAid.Proofs.Line.Spread

/-!
# Setting parts

Without a scope, what formatting makes of the parts of a line is a list of parts again:
`Inline.resetAll` respaces plain text, also inside emphasis, copies all other parts, and puts a
plain part of one blank where a blank is needed.  `formatAll` gives the text of these parts
(`text_formatAll`).

`Inline.Sets` is the relation between the parts of a line and parts that have been set, whatever
the style: plain text has been touched, emphasis has been set inside, and blanks have come where
`gap` allows one.  The text of the parts has then been touched as well (`Inline.Sets.touches`).
-/

namespace TypingAid

open Text Recognised

namespace Neighbour

/-- The part, wherever it stands. -/
def unplaced (n : Neighbour) : Neighbour := { n with start := 0, stop := 0 }

/-- Without a scope everything is touched. -/
@[simp] theorem boundaryTouches_none (left right : Neighbour) :
    left.boundaryTouches none right = true := by
  simp [boundaryTouches, Scope.touches]

/-- Plain text, or a span of the shape that its kind has. -/
def Fits (n : Neighbour) : Prop := n.kind = .text ∨ Shaped n.kind n.text n.visible

end Neighbour

namespace Inline

/-- A part as its neighbours see it. -/
def shown : Inline → Neighbour
  | leaf kind t visible => ⟨kind, 0, 0, t, visible⟩
  | emphasis marker inner => ⟨.emphasis, 0, 0, marker ++ textOf inner ++ marker, textOf inner⟩

@[simp] theorem text_shown (p : Inline) : p.shown.text = p.text := by cases p <;> rfl

/-- A blank of its own. -/
def blank : Inline := .leaf .text [' '] []

/-- Parts behind the part `left`, with a blank in front if they need one. -/
def spaced (style : Style) (left : Neighbour) : List Inline → List Inline
  | [] => []
  | p :: ps => if needsBlank style left p.shown then blank :: p :: ps else p :: ps

mutual

/-- A part as a style sets it. -/
def reset (style : Style) : Inline → Inline
  | leaf kind t visible => leaf kind (if kind = .text then style.respace t else t) visible
  | emphasis marker inner => emphasis marker (resetAll style inner)

/-- Parts as a style sets them, with the blanks that they need. -/
def resetAll (style : Style) : List Inline → List Inline
  | [] => []
  | p :: ps => p.reset style :: spaced style (p.reset style).shown (resetAll style ps)

end

/-! ### What formatting gives -/

/-- Parts after a part that may need a blank behind it. -/
def spacedAfter (style : Style) (previous : Option Neighbour) (ps : List Inline) : List Inline :=
  match previous with
  | none => ps
  | some left => spaced style left ps

theorem spacedAfter_unplaced (style : Style) (previous : Option Neighbour) (ps : List Inline) :
    spacedAfter style (previous.map Neighbour.unplaced) ps = spacedAfter style previous ps := by
  cases previous with
  | none => rfl
  | some left => cases ps <;> rfl

mutual

theorem unplaced_format (style : Style) (caret : Option Int) (start : ℕ) :
    (p : Inline) → (p.format style caret none start).1.unplaced = (p.reset style).shown
  | leaf kind t visible => by
    rw [format, reset]
    by_cases hkind : kind = .text
    · simp only [hkind, if_true, Option.map_none, text_respace]; rfl
    · simp only [hkind, if_false]; rfl
  | emphasis marker inner => by
    rw [format, reset, shown]
    simp only [Option.map_none, Neighbour.unplaced]
    have h := text_formatAll style ((localCaret caret start
      (start + (marker.length + (textOf inner).length + marker.length))).bind
      (localCaret · marker.length (marker.length + (textOf inner).length))) none 0 none 0 inner
    rw [h]; rfl

theorem text_formatAll (style : Style) (caret : Option Int) (first : Option ℕ) (start : ℕ)
    (previous : Option Neighbour) (length : ℕ) : (ps : List Inline) →
    (formatAll style caret none first start previous length ps).text =
      textOf (spacedAfter style previous (resetAll style ps))
  | [] => by cases previous <;> rfl
  | p :: ps => by
    have hp := unplaced_format style caret start p
    rw [formatAll]
    rcases hnow : p.format style caret none start with ⟨now, local?⟩
    rw [hnow] at hp
    simp only at hp ⊢
    have htext : now.text = (p.reset style).text := by
      rw [← text_shown, ← hp]; rfl
    have hrest : ∀ n, (formatAll style caret none first now.stop (some now) n ps).text =
        textOf (spaced style (p.reset style).shown (resetAll style ps)) := fun n => by
      rw [text_formatAll style caret first now.stop (some now) n ps, ← spacedAfter_unplaced,
        Option.map_some, hp]
      rfl
    cases previous with
    | none => simp only [hrest, htext, resetAll, spacedAfter, textOf, List.nil_append]
    | some left =>
      have hb : needsBlank style left now = needsBlank style left (p.reset style).shown := by
        rw [← hp]; rfl
      simp only [hrest, htext, Neighbour.boundaryTouches_none, Bool.true_and, hb, resetAll,
        spacedAfter, spaced]
      split_ifs
      · simp [textOf, text, blank]
      · simp [textOf]

end

/-! ### Parts that have been set -/

/-- Parts, and the same parts after they have been set. -/
inductive Sets (gap : Char → Char → Prop) : List Inline → List Inline → Prop where
  | nil : Sets gap [] []
  | text {t t' visible : Text} {ps qs : List Inline} (h : Touches gap t t') (hps : Sets gap ps qs) :
      Sets gap (.leaf .text t visible :: ps) (.leaf .text t' visible :: qs)
  | copy {kind : PartKind} {t visible : Text} {ps qs : List Inline} (hps : Sets gap ps qs) :
      Sets gap (.leaf kind t visible :: ps) (.leaf kind t visible :: qs)
  | emphasis {marker : Text} {inner inner' ps qs : List Inline} (hinner : Sets gap inner inner')
      (hps : Sets gap ps qs) :
      Sets gap (.emphasis marker inner :: ps) (.emphasis marker inner' :: qs)
  | blank {ps qs : List Inline} {q : Inline} {a c : Char} (ha : q.text.getLast? = some a)
      (hc : (textOf qs).head? = some c) (hgap : gap a c) (hps : Sets gap ps (q :: qs)) :
      Sets gap ps (q :: blank :: qs)

variable {gap : Char → Char → Prop} {ps qs : List Inline}

mutual

theorem Sets.cons : (p : Inline) → {ps qs : List Inline} → Sets gap ps qs →
    Sets gap (p :: ps) (p :: qs)
  | .leaf _ _ _, _, _, h => .copy h
  | .emphasis _ inner, _, _, h => .emphasis (Sets.refl inner) h

theorem Sets.refl : (ps : List Inline) → Sets gap ps ps
  | [] => .nil
  | p :: ps => .cons p (Sets.refl ps)

end

/-- **Setting parts touches their text.** -/
theorem Sets.touches (h : Sets gap ps qs) : Touches gap (textOf ps) (textOf qs) := by
  induction h with
  | nil => exact .refl _
  | text h _ ih => exact h.append ih
  | copy _ ih => exact ih.append_left _
  | emphasis _ _ ihi ih => exact ((ihi.append_left _).append_right _).append ih
  | @blank ps qs q a c ha hc hgap _ ih =>
    -- one more touch, which puts a space between the two characters
    refine ih.tail ?_
    obtain ⟨u, hu⟩ := List.getLast?_eq_some_iff.1 ha
    obtain ⟨v, hv⟩ := List.head?_eq_some_iff.1 hc
    have hwiden : Touch gap (u ++ a :: c :: v) (u ++ a :: ' ' :: c :: v) :=
      Touch.append_left u (.widen hgap)
    simpa only [textOf, hu, hv, Inline.blank, Inline.text, List.append_assoc, List.cons_append,
      List.nil_append] using hwiden

/-! ### A style sets parts -/

theorem needsBlank_edges {style : Style} {left right : Neighbour}
    (h : needsBlank style left right = true) : ∃ a c, left.text.getLast? = some a ∧
      right.text.head? = some c ∧ isBlank a = false ∧ isBlank c = false := by
  unfold needsBlank at h
  split at h
  · next a c ha hc =>
    split_ifs at h with hb
    all_goals
      simp only [Bool.or_eq_true, not_or, Bool.not_eq_true] at hb
      exact ⟨a, c, ha, hc, hb.1, hb.2⟩
  · cases h

theorem fits_of_emphasises {marker inner : Text} (h : Emphasises marker inner) (inner' : Text) :
    Neighbour.Fits ⟨.emphasis, 0, 0, marker ++ inner' ++ marker, inner'⟩ := by
  obtain ⟨m, c, body, hm, rfl, -⟩ := h
  exact .inr (.emphasis hm (by simp) (by simp [List.getLast?_append, List.getLast?_cons]))

theorem fits_of_copy {kind : PartKind} {s visible rest : Text}
    (h : spanAt? (s ++ rest) = some { kind, length := s.length, visible }) :
    Neighbour.Fits ⟨kind, 0, 0, s, visible⟩ := by
  obtain ⟨s', rest', he, hlen, -, hshape, -⟩ := exists_of_spanAt? h
  obtain ⟨rfl, -⟩ := List.append_inj he hlen.symm
  exact .inr hshape

/-- The first part of what a style makes of loose parts has the shape of its kind. -/
theorem fits_head_resetAll {style : Style} (h : Loose ps) {p : Inline} {rest : List Inline}
    (hp : resetAll style ps = p :: rest) : p.shown.Fits := by
  cases h with
  | nil => cases hp
  | text hne ht hps =>
    rw [resetAll] at hp
    obtain ⟨rfl, -⟩ := List.cons.inj hp
    exact .inl rfl
  | copy hkind hs hps =>
    rw [resetAll] at hp
    obtain ⟨rfl, -⟩ := List.cons.inj hp
    rw [reset, if_neg hkind]
    exact fits_of_copy hs
  | emphasis he hi hps =>
    rw [resetAll] at hp
    obtain ⟨rfl, -⟩ := List.cons.inj hp
    exact fits_of_emphasises he _

/-- The blanks that a style puts between parts lie in gaps that `gap` allows. -/
def Allows (gap : Char → Char → Prop) (style : Style) : Prop :=
  ∀ left right : Neighbour, left.Fits → right.Fits → needsBlank style left right = true →
    ∀ a c, left.text.getLast? = some a → right.text.head? = some c → gap a c

mutual

/-- Inside the part, the blanks that the style puts lie in gaps that `gap` allows. -/
def Permits (gap : Char → Char → Prop) (style : Style) : Inline → Prop
  | leaf _ _ _ => True
  | emphasis _ inner => AllPermit gap style inner

/-- The blanks that the style puts between and inside these parts lie in gaps that `gap` allows. -/
def AllPermit (gap : Char → Char → Prop) (style : Style) : List Inline → Prop
  | [] => True
  | p :: ps => p.Permits gap style ∧
      (∀ q ∈ (resetAll style ps).head?, needsBlank style (p.reset style).shown q.shown = true →
        ∀ a c, (p.reset style).text.getLast? = some a → q.text.head? = some c → gap a c) ∧
      AllPermit gap style ps

end

theorem allPermit_of_allows {style : Style} (hallows : Allows gap style) (h : Loose ps) :
    AllPermit gap style ps := by
  have hnext : ∀ {p : Inline} {ps : List Inline}, p.shown.Fits → Loose ps →
      ∀ q ∈ (resetAll style ps).head?, needsBlank style p.shown q.shown = true →
        ∀ a c, p.text.getLast? = some a → q.text.head? = some c → gap a c := by
    intro p ps hp hps q hq hb a c ha hc
    obtain ⟨qs, hqs⟩ := List.head?_eq_some_iff.1 hq
    rw [← text_shown] at ha hc
    exact hallows _ _ hp (fits_head_resetAll hps hqs) hb a c ha hc
  induction h with
  | nil => trivial
  | text hne ht hps ih =>
    refine ⟨trivial, hnext ?_ hps, ih⟩
    rw [reset, if_pos rfl]
    exact .inl rfl
  | copy hkind hs hps ih =>
    refine ⟨trivial, hnext ?_ hps, ih⟩
    rw [reset, if_neg hkind]
    exact fits_of_copy hs
  | emphasis he hi hps ihi ih =>
    exact ⟨ihi, hnext (fits_of_emphasises he _) hps, ih⟩

/-- A blank in front of the next part, in a gap that is allowed. -/
theorem Sets.spaced {style : Style} {q : Inline}
    (hgap : ∀ r ∈ qs.head?, needsBlank style q.shown r.shown = true →
      ∀ a c, q.text.getLast? = some a → r.text.head? = some c → gap a c)
    (h : Sets gap ps (q :: qs)) : Sets gap ps (q :: Inline.spaced style q.shown qs) := by
  cases qs with
  | nil => exact h
  | cons r qs =>
    rw [Inline.spaced]
    split_ifs with hb
    · obtain ⟨a, c, ha, hc, -, -⟩ := needsBlank_edges hb
      rw [text_shown] at ha hc
      exact .blank ha (by rw [textOf, List.head?_append, hc]; rfl) (hgap r rfl hb a c ha hc) h
    · exact h

mutual

theorem sets_reset_cons {style : Style} (hgap : ∀ a c, FillableGap a c → gap a c)
    {ps qs : List Inline} :
    (p : Inline) → p.Permits gap style → Sets gap ps qs → Sets gap (p :: ps) (p.reset style :: qs)
  | leaf kind t visible, _, h => by
    rw [reset]
    split_ifs with hkind
    · subst hkind
      exact .text (touches_respace hgap t) h
    · exact .copy h
  | emphasis _ inner, hp, h => .emphasis (sets_resetAll_of_permits hgap inner hp) h

/-- **A style sets parts** if it puts its blanks in gaps that are allowed. -/
theorem sets_resetAll_of_permits {style : Style} (hgap : ∀ a c, FillableGap a c → gap a c) :
    (ps : List Inline) → AllPermit gap style ps → Sets gap ps (resetAll style ps)
  | [], _ => .nil
  | p :: ps, h =>
    (sets_reset_cons hgap p h.1 (sets_resetAll_of_permits hgap ps h.2.2)).spaced h.2.1

end

/-- **A style sets the parts of a line.** -/
theorem sets_resetAll {style : Style} (hgap : ∀ a c, FillableGap a c → gap a c)
    (hallows : Allows gap style) (h : Loose ps) : Sets gap ps (resetAll style ps) :=
  sets_resetAll_of_permits hgap ps (allPermit_of_allows hallows h)

end Inline

/-! ### The line -/

theorem touches_capitalize {gap : Char → Char → Prop} (style : Style) (f : Formatted) :
    Touches gap f.text (f.capitalize style) := by
  have key : ∀ (starts : List SentenceStart) (t : Text),
      Touches gap t (starts.foldl capitalizeAt t) := by
    intro starts
    induction starts with
    | nil => exact .refl
    | cons s starts ih =>
      intro t
      refine .trans ?_ (ih _)
      rw [capitalizeAt]
      split_ifs
      · exact touches_modify t s.offset
      · exact .refl t
  rw [Formatted.capitalize]
  split_ifs
  · exact key _ _
  · exact .refl _

end TypingAid
