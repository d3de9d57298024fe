import TypingAid.Proofs.Inline.Apart
import TypingAid.Proofs.Line.Capital
import TypingAid.Proofs.Line.Partial

/-!
# Setting some of the parts

What formatting makes of parts under a scope are parts that have been set in some places
(`Inline.AllPartlySet`, `Inline.allPartlySet_formatAll`): plain text that the style sets to the same
as before, and some of the blanks that parts need.  In a soft style reading finds these parts again
(`Inline.sets_of_allPartlySet`), each blank joined to the plain text next to it.

Setting the rest then gives what setting the original parts at once gives
(`Inline.textOf_resetAll_of_allPartlySet`): a blank that has come already is one that the parts need,
and it stays (`Inline.textOf_resetAll_blank`); one that has not come yet still comes, because the
parts look the same where they meet (`Inline.alike_reset`).
-/

namespace TypingAid

open Text

variable {style : Style}

/-! ### Parts that look alike -/

theorem Recase.trans {a b c : Char} (h : Recase a b) (h' : Recase b c) : Recase a c := by
  rcases h with rfl | ⟨ha, rfl⟩
  · exact h'
  · rcases h' with rfl | ⟨hb, -⟩
    · exact .inr ⟨ha, rfl⟩
    · -- a capital does not become one again
      rw [isSmall_of_isCapital (isCapital_toUpper ha)] at hb; cases hb

theorem rel_trans {o₁ o₂ o₃ : Option Char} (h : Option.Rel Recase o₁ o₂)
    (h' : Option.Rel Recase o₂ o₃) : Option.Rel Recase o₁ o₃ := by
  cases h with
  | none => exact h'
  | some h =>
    cases h' with
    | some h' => exact .some (h.trans h')

/-- Touches keep the characters at both ends, or they make capitals of them. -/
theorem Text.Touches.rel_ends {gap : Char → Char → Prop} {t t' : Text} (h : Touches gap t t') :
    Option.Rel Recase t.head? t'.head? ∧ Option.Rel Recase t.getLast? t'.getLast? := by
  have hrel : ∀ {o o' : Option Char}, (o' = o ∨ ∃ c, o = some c ∧ isSmall c = true ∧
      o' = some c.toUpper) → Option.Rel Recase o o' := by
    rintro o o' (rfl | ⟨c, rfl, hc, rfl⟩)
    · exact Neighbour.rel_refl _
    · exact .some (.inr ⟨hc, rfl⟩)
  refine h.preserve (P := fun u => Option.Rel Recase t.head? u.head? ∧
    Option.Rel Recase t.getLast? u.getLast?) ?_ ⟨Neighbour.rel_refl _, Neighbour.rel_refl _⟩
  intro u u' ht hu
  exact ⟨rel_trans hu.1 (hrel ht.head?), rel_trans hu.2 (hrel ht.getLast?)⟩

/-- A neighbour whose text, and what of it shows, is touched looks the same from both sides. -/
theorem Neighbour.alike_of_touches {gap : Char → Char → Prop} {n n' : Neighbour}
    (hkind : n'.kind = n.kind) (ht : Touches gap n.text n'.text)
    (hv : Touches gap n.visible n'.visible) : n.SameFront n' ∧ n.SameBack n' := by
  have hempty : n'.visible.isEmpty = n.visible.isEmpty := by
    rw [Bool.eq_iff_iff, List.isEmpty_iff, List.isEmpty_iff]
    constructor
    · intro h
      by_contra hne
      exact hv.ne_nil hne h
    · intro h
      rw [h] at hv
      exact hv.eq_nil
  have hface : Touches gap n.face n'.face := by
    rw [face, face, hkind, hempty]
    split_ifs
    · exact ht
    · exact hv
  exact ⟨⟨hkind, ht.rel_ends.1, hface.rel_ends.1⟩, ⟨hkind, ht.rel_ends.2, hface.rel_ends.2⟩⟩

namespace Inline

variable {p q r : Inline} {ps qs rs : List Inline}

/-- A part looks the same from both sides after it has been set. -/
theorem alike_reset (style : Style) (p : Inline) :
    p.shown.SameFront (p.reset style).shown ∧ p.shown.SameBack (p.reset style).shown := by
  have htext := touches_reset style p
  rw [← text_shown, ← text_shown (p.reset style)] at htext
  cases p with
  | leaf kind t visible => exact Neighbour.alike_of_touches rfl htext (.refl _)
  | emphasis marker inner =>
    have hinner : Touches (fun _ _ => True) (textOf inner) (textOf (resetAll style inner)) :=
      (sets_resetAll_of_permits (fun _ _ _ => trivial) inner (allPermit_true style inner)).touches
    exact Neighbour.alike_of_touches rfl htext hinner

theorem spaced_congr {l l' : Neighbour} (h : l.SameBack l') (ps : List Inline) :
    spaced style l' ps = spaced style l ps := by
  cases ps with
  | nil => rfl
  | cons p ps => rw [spaced, spaced, needsBlank_congr h (.refl _)]

theorem blankBetween_congr {n n' : Neighbour} (h : n.SameFront n') (previous : Option Neighbour) :
    blankBetween style none previous n' = blankBetween style none previous n := by
  cases previous with
  | none => rfl
  | some left => rw [blankBetween_some, blankBetween_some, needsBlank_congr (.refl _) h]

/-! ### Parts that have been set in some places -/

mutual

/-- A part, and what it may be after it has been set in some places. -/
inductive PartlySet (style : Style) : Inline → Inline → Prop where
  | text {t t' visible : Text} (h : Touches SoftGap t t')
      (hsame : style.respace t' = style.respace t) :
      PartlySet style (.leaf .text t visible) (.leaf .text t' visible)
  | copy {kind : PartKind} {t visible : Text} (hkind : kind ≠ .text) :
      PartlySet style (.leaf kind t visible) (.leaf kind t visible)
  | emphasis {marker : Text} {inner inner' : List Inline} (h : AllPartlySet style inner inner') :
      PartlySet style (.emphasis marker inner) (.emphasis marker inner')

/-- Parts, and what they may be after they have been set in some places, with some of the blanks
that they need. -/
inductive AllPartlySet (style : Style) : List Inline → List Inline → Prop where
  | nil : AllPartlySet style [] []
  | cons {p q : Inline} {ps qs : List Inline} (hp : PartlySet style p q)
      (hps : AllPartlySet style ps qs) : AllPartlySet style (p :: ps) (q :: qs)
  | blank {p q r : Inline} {ps qs : List Inline} (hp : PartlySet style p q)
      (hb : needsBlank style q.shown r.shown = true) (hps : AllPartlySet style ps (r :: qs)) :
      AllPartlySet style (p :: ps) (q :: Inline.blank :: r :: qs)

end

theorem PartlySet.isText_eq (h : PartlySet style p q) : q.isText = p.isText := by
  cases h <;> rfl

theorem AllPartlySet.head (h : AllPartlySet style ps (q :: qs)) :
    ∃ p ps', ps = p :: ps' ∧ PartlySet style p q := by
  cases h with
  | cons hp => exact ⟨_, _, rfl, hp⟩
  | blank hp => exact ⟨_, _, rfl, hp⟩

theorem AllPartlySet.isText_head (h : AllPartlySet style ps qs)
    (hps : ∀ p ∈ ps.head?, p.isText = false) : ∀ q ∈ qs.head?, q.isText = false := by
  intro q hq
  obtain ⟨qs, rfl⟩ := List.head?_eq_some_iff.1 hq
  obtain ⟨p, ps, rfl, hp⟩ := h.head
  rw [hp.isText_eq]
  exact hps p rfl

/-! ### What formatting makes under a scope -/

mutual

theorem partlySet_format (style : Style) (caret : Option Int) (scope : Option Scope) (start : ℕ) :
    (p : Inline) →
      ∃ q, PartlySet style p q ∧ (p.format style caret scope start).1.unplaced = q.shown
  | leaf kind t visible => by
    rw [format]
    split_ifs with hkind
    · subst hkind
      exact ⟨.leaf .text _ visible, .text
        (Tracked.touches_respace (fun _ _ => softGap_of_fillableGap) ⟨t, _, _⟩)
        (Tracked.respace_respace style ⟨t, _, _⟩), rfl⟩
    · exact ⟨_, .copy hkind, rfl⟩
  | emphasis marker inner => by
    obtain ⟨qs, hqs, htext | ⟨_, hnone, -⟩⟩ := allPartlySet_formatAll style
      ((localCaret caret start
        (start + (marker.length + (textOf inner).length + marker.length))).bind
          (localCaret · marker.length (marker.length + (textOf inner).length)))
      (scope.map fun s => (s.relativeTo start).relativeTo marker.length) none 0 none 0 inner
    · refine ⟨.emphasis marker qs, .emphasis hqs, ?_⟩
      rw [format, shown, ← htext]
      rfl
    · cases hnone

/-- **Formatting sets parts in some places**, under any scope.  Behind the part `previous` a blank
may come in front of them. -/
theorem allPartlySet_formatAll (style : Style) (caret : Option Int) (scope : Option Scope)
    (first : Option ℕ) (start : ℕ) (previous : Option Neighbour) (length : ℕ) :
    (ps : List Inline) → ∃ qs, AllPartlySet style ps qs ∧
      ((formatAll style caret scope first start previous length ps).text = textOf qs ∨
        ∃ left ∈ previous, ∃ q ∈ qs.head?, needsBlank style left q.shown = true ∧
          (formatAll style caret scope first start previous length ps).text = ' ' :: textOf qs)
  | [] => ⟨[], .nil, .inl rfl⟩
  | p :: ps => by
    obtain ⟨q, hp, hq⟩ := partlySet_format style caret scope start p
    rcases hnow : p.format style caret scope start with ⟨now, local?⟩
    rw [hnow] at hq
    have hneeds : ∀ n : Neighbour, needsBlank style now n = needsBlank style q.shown n ∧
        needsBlank style n now = needsBlank style n q.shown := fun n => by
      rw [← hq]; exact ⟨rfl, rfl⟩
    rw [text_formatAll_cons hnow, text_of_unplaced hq]
    -- the parts without a blank in front of them
    obtain ⟨qs, hqs, htext⟩ : ∃ qs, AllPartlySet style (p :: ps) (q :: qs) ∧
        (formatAll style caret scope first (start + p.text.length) (some now)
          (length + (blankBetween style scope previous now).length + q.text.length) ps).text =
          textOf qs := by
      obtain ⟨qs, hps, htext | ⟨left, hleft, r, hr, hb, htext⟩⟩ := allPartlySet_formatAll style caret
        scope first (start + p.text.length) (some now)
        (length + (blankBetween style scope previous now).length + q.text.length) ps
      · exact ⟨qs, .cons hp hps, htext⟩
      · obtain ⟨qs, rfl⟩ := List.head?_eq_some_iff.1 hr
        rw [← Option.some.inj hleft, (hneeds _).1] at hb
        exact ⟨blank :: r :: qs, .blank hp hb hps, htext⟩
    refine ⟨q :: qs, hqs, ?_⟩
    rw [htext]
    cases previous with
    | none => exact .inl rfl
    | some left =>
      rw [blankBetween]
      split_ifs with hb
      · exact .inr ⟨left, rfl, q, rfl, (hneeds left).2 ▸ (Bool.and_eq_true_iff.1 hb).2, rfl⟩
      · exact .inl rfl

end

/-! ### Reading finds them again -/

theorem PartlySet.fits (h : PartlySet style p q) (hl : Loose (p :: ps)) : q.shown.Fits := by
  cases h with
  | text => exact .inl rfl
  | copy hkind =>
    cases hl with
    | text => exact absurd rfl hkind
    | copy _ hs => exact fits_of_copy hs
  | emphasis =>
    cases hl with
    | emphasis he => exact fits_of_emphasises he _

mutual

theorem sets_cons_of_partlySet (hallows : Allows SoftGap style) {ps qs : List Inline} :
    (p : Inline) → {q : Inline} → PartlySet style p q → Loose (p :: ps) → Sets SoftGap ps qs →
    Sets SoftGap (p :: ps) (q :: qs)
  | .leaf _ _ _, _, .text h _, _, hps => .text h hps
  | .leaf _ _ _, _, .copy _, _, hps => .copy hps
  | .emphasis _ inner, _, .emphasis h, hl, hps =>
    .emphasis (sets_of_allPartlySet hallows inner h hl.inner) hps

/-- **Setting some of the parts is a way of setting them**, so that they stay loose. -/
theorem sets_of_allPartlySet (hallows : Allows SoftGap style) :
    (ps : List Inline) → {qs : List Inline} → AllPartlySet style ps qs → Loose ps →
    Sets SoftGap ps qs
  | [], _, .nil, _ => .nil
  | p :: ps, _, .cons hp hps, hl =>
    sets_cons_of_partlySet hallows p hp hl (sets_of_allPartlySet hallows ps hps hl.tail)
  | p :: ps, _, @AllPartlySet.blank _ _ q r _ _ hp hb hps, hl => by
    have h := sets_cons_of_partlySet hallows p hp hl (sets_of_allPartlySet hallows ps hps hl.tail)
    have hr : r.shown.Fits := by
      obtain ⟨p', ps', rfl, hr⟩ := hps.head
      exact hr.fits hl.tail
    obtain ⟨a, c, ha, hc, -, -⟩ := needsBlank_edges hb
    have hgap := hallows _ _ (hp.fits hl) hr hb a c ha hc
    rw [text_shown] at ha hc
    exact .blank ha (by rw [textOf, List.head?_append, hc]; rfl) hgap h

end

/-! ### Setting the rest -/

theorem reset_text (style : Style) (t visible : Text) :
    (leaf .text t visible).reset style = .leaf .text (style.respace t) visible := by
  rw [reset, if_pos rfl]

theorem reset_blank (style : Style) : blank.reset style = blank := by
  rw [blank, reset_text, respace_space_cons, respace_nil]

theorem isText_of_mem_glueAll (h : r ∈ (glueAll (q :: qs)).head?) : r.isText = q.isText := by
  rw [glueAll] at h
  unfold consPart at h
  split at h
  · next hq _ =>
    rw [← isText_glue q, hq, ← Option.some.inj h]; rfl
  · rw [← Option.some.inj h, isText_glue]

theorem isText_glueAll (h : ∀ q ∈ qs.head?, q.isText = false) :
    ∀ r ∈ (glueAll qs).head?, r.isText = false := by
  intro r hr
  cases qs with
  | nil => cases hr
  | cons q qs => rw [isText_of_mem_glueAll hr]; exact h q rfl

/-- The text of parts behind the part `previous`. -/
theorem textOf_spacedAfter_cons (style : Style) (previous : Option Neighbour) (p : Inline)
    (ps : List Inline) : textOf (spacedAfter style previous (p :: ps)) =
      blankBetween style none previous p.shown ++ (p.text ++ textOf ps) := by
  cases previous with
  | none => rfl
  | some left =>
    rw [spacedAfter, spaced, blankBetween_some]
    split_ifs <;> rfl

/-- Behind a blank no other one comes. -/
theorem spaced_of_isBlank {l : Neighbour} {a : Char} (h : l.text.getLast? = some a)
    (ha : isBlank a = true) (ps : List Inline) : spaced style l ps = ps := by
  cases ps with
  | nil => rfl
  | cons p ps => rw [spaced, needsBlank_of_isBlank_left h ha]; rfl

/-- A blank in front of parts stays, and it is enough. -/
theorem textOf_resetAll_consPart_blank (hl : Loose ps) (left : Neighbour) :
    textOf (spaced style left (resetAll style (consPart blank ps))) =
      ' ' :: textOf (resetAll style ps) := by
  by_cases hps : ∀ q ∈ ps.head?, q.isText = false
  · rw [consPart_eq_cons fun _ => hps, resetAll, reset_blank,
      spaced_of_isBlank (l := blank.shown) (a := ' ') rfl (by decide), spaced,
      needsBlank_of_isBlank_right (c := ' ') rfl (by decide)]
    rfl
  · simp only [not_forall, Bool.not_eq_false] at hps
    obtain ⟨q, hq, hqt⟩ := hps
    obtain ⟨qs, rfl⟩ := List.head?_eq_some_iff.1 hq
    obtain ⟨u, v, rfl⟩ := exists_of_isText hqt
    -- the blank joins the text, which looks the same from the right as before
    have hlast : (' ' :: style.respace u).getLast? = (style.respace u).getLast? := by
      obtain ⟨c, w, hw⟩ := List.exists_cons_of_ne_nil (respace_ne_nil style hl.ne_nil)
      rw [hw, List.getLast?_cons_cons]
    have hback := sameBack_text hlast v []
    rw [blank, consPart_text, resetAll, resetAll, reset_text, reset_text, List.singleton_append,
      respace_space_cons, spaced_congr hback, spaced,
      needsBlank_of_isBlank_right (c := ' ') rfl (by decide)]
    rfl

/-- **A blank that has come already stays**, and it is enough. -/
theorem textOf_resetAll_blank (hq : q.isText = true → ∀ r ∈ rs.head?, r.isText = false)
    (hl : Loose (q :: blank :: rs)) (previous : Option Neighbour) :
    textOf (spacedAfter style previous (resetAll style (glueAll (q :: blank :: rs)))) =
      blankBetween style none previous (q.glue.reset style).shown ++
        ((q.glue.reset style).text ++ ' ' :: textOf (resetAll style (glueAll rs))) := by
  cases hqt : q.isText with
  | true =>
    obtain ⟨t, v, rfl⟩ := exists_of_isText hqt
    have hglue : glueAll (leaf .text t v :: blank :: rs) =
        .leaf .text (t ++ [' ']) [] :: glueAll rs := by
      have hblank : consPart blank (glueAll rs) = blank :: glueAll rs :=
        consPart_eq_cons fun _ => isText_glueAll (hq rfl)
      rw [glueAll, glueAll, show blank.glue = blank from rfl, hblank]
      rfl
    have hhead : (style.respace t ++ [' ']).head? = (style.respace t).head? := by
      obtain ⟨c, w, hw⟩ := List.exists_cons_of_ne_nil (respace_ne_nil style hl.ne_nil)
      rw [hw]; rfl
    have hfront := sameFront_text hhead v []
    rw [hglue, resetAll, reset_text, respace_concat_space, textOf_spacedAfter_cons,
      blankBetween_congr hfront, glue, reset_text,
      spaced_of_isBlank (a := ' ') (by simp [shown]) (by decide)]
    simp [text]
  | false =>
    have hglue : glueAll (q :: blank :: rs) = q.glue :: consPart blank (glueAll rs) := by
      rw [glueAll, consPart_eq_cons fun h => by rw [isText_glue, hqt] at h; cases h]
      rfl
    rw [hglue, resetAll, textOf_spacedAfter_cons,
      textOf_resetAll_consPart_blank hl.tail.tail.glueAll]

mutual

theorem shown_reset_glue : (p : Inline) → {q : Inline} → PartlySet style p q → p.Separate →
    (∀ marker inner, q = .emphasis marker inner → Loose inner) →
    (q.glue.reset style).shown = (p.reset style).shown
  | .leaf _ _ _, _, .text _ hsame, _, _ => by
    rw [glue, reset, reset, if_pos rfl, if_pos rfl, hsame]
  | .leaf _ _ _, _, .copy _, _, _ => rfl
  | .emphasis marker inner, _, .emphasis h, hsep, hl => by
    have hinner := (textOf_resetAll_of_allPartlySet inner h hsep (hl marker _ rfl)).2 none
    rw [glue, reset, reset, shown, shown]
    simp only [spacedAfter] at hinner
    rw [hinner]

/-- **Setting the rest of the parts** gives what setting them all at once gives, behind any part. -/
theorem textOf_resetAll_of_allPartlySet : (ps : List Inline) → {qs : List Inline} →
    AllPartlySet style ps qs → AllSeparate ps → Loose qs →
    (∀ p ∈ ps.head?, ∀ q ∈ qs.head?, (q.glue.reset style).shown = (p.reset style).shown) ∧
      ∀ previous, textOf (spacedAfter style previous (resetAll style (glueAll qs))) =
        textOf (spacedAfter style previous (resetAll style ps))
  | [], _, .nil, _, _ => ⟨by simp, fun _ => rfl⟩
  | p :: ps, _, @AllPartlySet.cons _ _ q _ qs hp hps, hsep, hl => by
    have hshown := shown_reset_glue p hp hsep.1 fun marker inner hq => by
      rw [hq] at hl; exact hl.inner
    have ih := textOf_resetAll_of_allPartlySet ps hps hsep.2.2 hl.tail
    refine ⟨fun p' hp' q' hq' => ?_, fun previous => ?_⟩
    · rw [← Option.some.inj hp', ← Option.some.inj hq', hshown]
    · have hglue : glueAll (q :: qs) = q.glue :: glueAll qs := by
        rw [glueAll, consPart_eq_cons]
        intro hq
        rw [isText_glue, hp.isText_eq] at hq
        exact isText_glueAll (hps.isText_head (hsep.2.1 hq))
      have hrest := ih.2 (some (p.reset style).shown)
      rw [spacedAfter, spacedAfter] at hrest
      rw [hglue, resetAll, resetAll, textOf_spacedAfter_cons, textOf_spacedAfter_cons, hshown,
        ← text_shown, hshown, text_shown, hrest]
  | p :: ps, _, @AllPartlySet.blank _ _ q r _ qs hp hb hps, hsep, hl => by
    have hshown := shown_reset_glue p hp hsep.1 fun marker inner hq => by
      rw [hq] at hl; exact hl.inner
    have ih := textOf_resetAll_of_allPartlySet ps hps hsep.2.2 hl.tail.tail
    refine ⟨fun p' hp' q' hq' => ?_, fun previous => ?_⟩
    · rw [← Option.some.inj hp', ← Option.some.inj hq', hshown]
    · obtain ⟨p', ps', rfl, hr⟩ := hps.head
      -- the original parts need the blank as well
      have hneeds : needsBlank style (p.reset style).shown (p'.reset style).shown = true := by
        rw [← hshown, ← ih.1 p' rfl r rfl, needsBlank_congr (alike_reset style q.glue).2
          (alike_reset style r.glue).1, shown_glue, shown_glue]
        exact hb
      have hrest := ih.2 none
      rw [spacedAfter, spacedAfter] at hrest
      have hq : q.isText = true → ∀ s ∈ (r :: qs).head?, s.isText = false := fun hq =>
        hps.isText_head (hsep.2.1 (by rw [← hp.isText_eq, hq]))
      rw [textOf_resetAll_blank hq hl, resetAll, textOf_spacedAfter_cons, hshown, hrest,
        ← text_shown, hshown, text_shown]
      rw [resetAll, spaced, if_pos hneeds]
      rfl

end

end Inline

end TypingAid
