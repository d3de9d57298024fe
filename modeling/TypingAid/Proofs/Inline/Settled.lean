import TypingAid.Proofs.Inline.Stay
import TypingAid.Proofs.Line.Sentence

/-!
# Settled parts

Parts are settled if plain text is, also inside emphasis, and no two neighbours need a blank
(`Inline.AllSettled`).  A style leaves settled parts as they are (`Inline.resetAll_eq_self`), and
what it makes of the parts of a line is settled once each blank has joined the plain text next to it
(`Inline.allSettled_glueAll`).

What two neighbours look like where they meet decides whether they need a blank
(`needsBlank_congr`), and the case of letters does not matter for that.
-/

namespace TypingAid

open Text

variable {style : Style}

/-! ### Neighbours that look alike -/

/-- The character is the other one, or the capital of it. -/
def Recase (c c' : Char) : Prop := c' = c ∨ (isSmall c = true ∧ c' = c.toUpper)

namespace Neighbour

/-- The two look alike from the left. -/
structure SameFront (n n' : Neighbour) : Prop where
  kind : n'.kind = n.kind
  text : Option.Rel Recase n.text.head? n'.text.head?
  face : Option.Rel Recase n.face.head? n'.face.head?

/-- The two look alike from the right. -/
structure SameBack (n n' : Neighbour) : Prop where
  kind : n'.kind = n.kind
  text : Option.Rel Recase n.text.getLast? n'.text.getLast?
  face : Option.Rel Recase n.face.getLast? n'.face.getLast?

end Neighbour

theorem any_of_rel {p : Char → Bool} {x : Bool} (hp : ∀ c, isLatin c = true → p c = x)
    {o o' : Option Char} (h : Option.Rel Recase o o') : o'.any p = o.any p := by
  cases h with
  | none => rfl
  | some h => exact eq_of_recased hp h

theorem separates_congr {a a' c c' : Char} (ha : Recase a a') (hc : Recase c c') :
    style.separates a' c' = style.separates a c := by
  have h1 : ∀ {d d' : Char}, Recase d d' → isCjk d' = isCjk d ∧ isLatin d' = isLatin d ∧
      isFigure d' = isFigure d := fun h =>
    ⟨eq_of_recased (fun _ => isCjk_of_isLatin) h, eq_of_recased (fun _ h => h) h,
      eq_of_recased (fun _ => isFigure_of_isLatin) h⟩
  obtain ⟨ha1, ha2, ha3⟩ := h1 ha
  obtain ⟨hc1, hc2, hc3⟩ := h1 hc
  rw [Style.separates, Style.separates, ha1, hc1]
  cases isCjk a <;> simp [ha2, ha3, hc2, hc3]

/-- **Whether a blank is needed** is seen where the two neighbours meet. -/
theorem needsBlank_congr {l l' r r' : Neighbour} (hl : l.SameBack l') (hr : r.SameFront r') :
    needsBlank style l' r' = needsBlank style l r := by
  have halnum : ∀ c, isLatin c = true → Unicode.isAlphanumeric c = true :=
    fun _ => isAlphanumeric_of_isLatin
  have ha := hl.text
  have hc := hr.text
  have ha' := hl.face
  have hc' := hr.face
  -- only these four characters and the two kinds are looked at
  unfold needsBlank
  rw [hl.kind, hr.kind, any_of_rel halnum ha', any_of_rel halnum hc']
  generalize l.text.getLast? = a at ha ⊢
  generalize l'.text.getLast? = a' at ha ⊢
  generalize r.text.head? = c at hc ⊢
  generalize r'.text.head? = c' at hc ⊢
  cases ha with
  | none => rfl
  | some ha =>
    cases hc with
    | none => rfl
    | some hc =>
      simp only [eq_of_recased (fun _ => isBlank_of_isLatin) ha,
        eq_of_recased (fun _ => isBlank_of_isLatin) hc]
      generalize l.face.getLast? = a at ha' ⊢
      generalize l'.face.getLast? = a' at ha' ⊢
      generalize r.face.head? = c at hc' ⊢
      generalize r'.face.head? = c' at hc' ⊢
      cases ha' with
      | none => rfl
      | some ha' =>
        cases hc' with
        | none => rfl
        | some hc' => simp only [separates_congr ha' hc']

namespace Neighbour

theorem rel_refl (o : Option Char) : Option.Rel Recase o o := by
  cases o with
  | none => exact .none
  | some c => exact .some (.inl rfl)

theorem SameFront.refl (n : Neighbour) : n.SameFront n := ⟨rfl, rel_refl _, rel_refl _⟩

theorem SameBack.refl (n : Neighbour) : n.SameBack n := ⟨rfl, rel_refl _, rel_refl _⟩

end Neighbour

/-- No blank is needed next to a blank. -/
theorem needsBlank_of_isBlank_left {l r : Neighbour} {a : Char} (h : l.text.getLast? = some a)
    (ha : isBlank a = true) : needsBlank style l r = false := by
  unfold needsBlank
  rw [h]
  cases r.text.head? with
  | none => rfl
  | some c => simp [ha]

theorem needsBlank_of_isBlank_right {l r : Neighbour} {c : Char} (h : r.text.head? = some c)
    (hc : isBlank c = true) : needsBlank style l r = false := by
  unfold needsBlank
  rw [h]
  cases l.text.getLast? with
  | none => rfl
  | some a => simp [hc]

namespace Inline

/-- Plain text looks the same from the left if it starts with the same character. -/
theorem sameFront_text {t t' : Text} (h : t'.head? = t.head?) (v v' : Text) :
    (shown (.leaf .text t v)).SameFront (shown (.leaf .text t' v')) := by
  have hrel : Option.Rel Recase t.head? t'.head? := by rw [h]; exact Neighbour.rel_refl _
  exact ⟨rfl, hrel, hrel⟩

/-- Plain text looks the same from the right if it ends with the same character. -/
theorem sameBack_text {t t' : Text} (h : t'.getLast? = t.getLast?) (v v' : Text) :
    (shown (.leaf .text t v)).SameBack (shown (.leaf .text t' v')) := by
  have hrel : Option.Rel Recase t.getLast? t'.getLast? := by rw [h]; exact Neighbour.rel_refl _
  exact ⟨rfl, hrel, hrel⟩

/-! ### Settled parts -/

mutual

/-- Plain text is settled, also inside emphasis. -/
def Settled (style : Style) : Inline → Prop
  | leaf kind t _ => kind = .text → Text.Settled style t
  | emphasis _ inner => AllSettled style inner

/-- All parts are settled, and no two neighbours need a blank. -/
def AllSettled (style : Style) : List Inline → Prop
  | [] => True
  | p :: ps => p.Settled style ∧ (∀ q ∈ ps.head?, needsBlank style p.shown q.shown = false) ∧
      AllSettled style ps

end

mutual

theorem reset_eq_self : (p : Inline) → p.Settled style → p.reset style = p
  | leaf kind t visible, h => by
    rw [reset]
    by_cases hkind : kind = .text
    · rw [if_pos hkind, (h hkind).respace_eq]
    · rw [if_neg hkind]
  | emphasis marker inner, h => by rw [reset, resetAll_eq_self inner h]

/-- **A style leaves settled parts as they are.** -/
theorem resetAll_eq_self : (ps : List Inline) → AllSettled style ps → resetAll style ps = ps
  | [], _ => rfl
  | p :: ps, h => by
    rw [resetAll, reset_eq_self p h.1, resetAll_eq_self ps h.2.2]
    cases ps with
    | nil => rfl
    | cons q ps => rw [spaced, h.2.1 q rfl]; rfl

end

/-! ### Plain parts that do not stand next to each other -/

/-- The part is plain text. -/
def isText : Inline → Bool
  | leaf kind _ _ => kind = .text
  | emphasis _ _ => false

mutual

/-- Inside emphasis no plain parts stand next to each other. -/
def Separate : Inline → Prop
  | leaf _ _ _ => True
  | emphasis _ inner => AllSeparate inner

/-- No plain parts stand next to each other. -/
def AllSeparate : List Inline → Prop
  | [] => True
  | p :: ps => p.Separate ∧ (p.isText = true → ∀ q ∈ ps.head?, q.isText = false) ∧ AllSeparate ps

end

/-- A part that is not plain text, or is followed by none, stays by itself. -/
theorem consPart_eq_cons {p : Inline} {ps : List Inline}
    (h : p.isText = true → ∀ q ∈ ps.head?, q.isText = false) : consPart p ps = p :: ps := by
  unfold consPart
  split
  · have := h rfl _ rfl
    cases this
  · rfl

theorem consPart_text (t u v w : Text) (ps : List Inline) :
    consPart (.leaf .text t v) (.leaf .text u w :: ps) = .leaf .text (t ++ u) [] :: ps := rfl

@[simp] theorem isText_glue (p : Inline) : p.glue.isText = p.isText := by cases p <;> rfl

@[simp] theorem isText_reset (p : Inline) : (p.reset style).isText = p.isText := by cases p <;> rfl

theorem exists_of_isText {p : Inline} (h : p.isText = true) : ∃ t v, p = .leaf .text t v := by
  cases p with
  | leaf kind t v => exact ⟨t, v, by rw [show kind = .text from of_decide_eq_true h]⟩
  | emphasis => cases h

mutual

theorem separate_glue : (p : Inline) → p.glue.Separate
  | leaf _ _ _ => trivial
  | emphasis _ inner => allSeparate_glueAll inner

theorem allSeparate_glueAll : (ps : List Inline) → AllSeparate (glueAll ps)
  | [] => trivial
  | p :: ps => by
    have hp := separate_glue p
    have hps := allSeparate_glueAll ps
    rw [glueAll]
    by_cases h : p.glue.isText = true → ∀ q ∈ (glueAll ps).head?, q.isText = false
    · rw [consPart_eq_cons h]; exact ⟨hp, h, hps⟩
    · -- two plain parts become one, before the same parts as the second
      simp only [not_forall, Bool.not_eq_false] at h
      obtain ⟨hp, q, hq, hqt⟩ := h
      obtain ⟨qs, hqs⟩ := List.head?_eq_some_iff.1 hq
      obtain ⟨t, v, ht⟩ := exists_of_isText hp
      obtain ⟨u, w, rfl⟩ := exists_of_isText hqt
      rw [hqs] at hps ⊢
      rw [ht, consPart_text]
      exact ⟨trivial, fun _ => hps.2.1 rfl, hps.2.2⟩

end

mutual

theorem glue_eq_self : (p : Inline) → p.Separate → p.glue = p
  | leaf _ _ _, _ => rfl
  | emphasis _ inner, h => by rw [glue, glueAll_eq_self inner h]

theorem glueAll_eq_self : (ps : List Inline) → AllSeparate ps → glueAll ps = ps
  | [], _ => rfl
  | p :: ps, h => by
    rw [glueAll, glue_eq_self p h.1, glueAll_eq_self ps h.2.2, consPart_eq_cons h.2.1]

end

theorem allSeparate_parse (line : Text) : AllSeparate (parse line) :=
  glueAll_parse line ▸ allSeparate_glueAll (parse line)

/-! ### Blanks join the plain text next to them -/

@[simp] theorem shown_glue (p : Inline) : p.glue.shown = p.shown := by
  cases p with
  | leaf => rfl
  | emphasis marker inner => rw [glue, shown, shown, textOf_glueAll]

theorem head?_resetAll (ps : List Inline) :
    (resetAll style ps).head? = ps.head?.map (·.reset style) := by
  cases ps <;> rfl

/-- Parts look the same from the left after neighbouring plain parts have been put together. -/
theorem front_glueAll {q : Inline} {qs : List Inline} (h : Loose (q :: qs)) :
    ∃ r rs, glueAll (q :: qs) = r :: rs ∧ q.shown.SameFront r.shown ∧ r.isText = q.isText := by
  by_cases hq : q.glue.isText = true → ∀ r ∈ (glueAll qs).head?, r.isText = false
  · refine ⟨q.glue, glueAll qs, by rw [glueAll, consPart_eq_cons hq], ?_, isText_glue q⟩
    rw [shown_glue]; exact .refl _
  · simp only [not_forall, Bool.not_eq_false] at hq
    obtain ⟨hq, r, hr, hrt⟩ := hq
    obtain ⟨rs, hrs⟩ := List.head?_eq_some_iff.1 hr
    rw [isText_glue] at hq
    obtain ⟨t, v, rfl⟩ := exists_of_isText hq
    obtain ⟨u, w, rfl⟩ := exists_of_isText hrt
    have ht : t ≠ [] := by
      cases h with
      | text hne => exact hne
      | copy hkind => exact absurd rfl hkind
    have hhead : (t ++ u).head? = t.head? := by
      obtain ⟨c, t, rfl⟩ := List.exists_cons_of_ne_nil ht
      rfl
    exact ⟨.leaf .text (t ++ u) [], rs, by rw [glueAll, hrs]; rfl, sameFront_text hhead v [], rfl⟩

/-- What becomes of one more part in front: it stays by itself, or the blank behind it joins it, or
the blank joins what follows. -/
theorem glueAll_resetAll_cons (style : Style) {p : Inline} {ps : List Inline}
    (hsep : AllSeparate (p :: ps)) :
    (resetAll style (p :: ps) = p.reset style :: resetAll style ps ∧
      glueAll (resetAll style (p :: ps)) = (p.reset style).glue :: glueAll (resetAll style ps) ∧
      ∀ q ∈ (resetAll style ps).head?, needsBlank style (p.reset style).shown q.shown = false) ∨
    (resetAll style (p :: ps) = p.reset style :: blank :: resetAll style ps ∧
      ∃ q ∈ (resetAll style ps).head?, needsBlank style (p.reset style).shown q.shown = true ∧
        ((∃ t v, p.reset style = .leaf .text t v ∧ q.isText = false ∧
            glueAll (resetAll style (p :: ps)) =
              .leaf .text (t ++ [' ']) [] :: glueAll (resetAll style ps)) ∨
          (p.isText = false ∧ glueAll (resetAll style (p :: ps)) =
            (p.reset style).glue :: consPart blank (glueAll (resetAll style ps))))) := by
  have hnext : p.isText = true → ∀ q ∈ (resetAll style ps).head?, q.isText = false := by
    intro hp q hq
    rw [head?_resetAll] at hq
    obtain ⟨q', hq', rfl⟩ := Option.map_eq_some_iff.1 hq
    rw [isText_reset]; exact hsep.2.1 hp q' hq'
  have hglue : p.isText = true → ∀ q ∈ (glueAll (resetAll style ps)).head?, q.isText = false := by
    intro hp q hq
    cases hqs : resetAll style ps with
    | nil => rw [hqs] at hq; cases hq
    | cons r rs =>
      have hr := hnext hp r (by rw [hqs]; rfl)
      rw [hqs, glueAll, consPart_eq_cons fun h => by rw [isText_glue, hr] at h; cases h] at hq
      rw [← Option.some.inj hq, isText_glue, hr]
  have hplain : resetAll style (p :: ps) = p.reset style :: resetAll style ps →
      glueAll (resetAll style (p :: ps)) =
        (p.reset style).glue :: glueAll (resetAll style ps) := fun h => by
    rw [h, glueAll, consPart_eq_cons]
    rw [isText_glue, isText_reset]
    exact hglue
  cases hqs : resetAll style ps with
  | nil =>
    have h : resetAll style (p :: ps) = p.reset style :: resetAll style ps := by
      rw [resetAll, hqs]; rfl
    left
    rw [← hqs]
    exact ⟨h, hplain h, by simp [hqs]⟩
  | cons q qs =>
    rw [← hqs]
    cases hb : needsBlank style (p.reset style).shown q.shown with
    | false =>
      have h : resetAll style (p :: ps) = p.reset style :: resetAll style ps := by
        rw [resetAll, hqs, spaced, hb]; rfl
      exact .inl ⟨h, hplain h, by simpa [hqs] using hb⟩
    | true =>
      -- the blank joins the plain part in front of it, and else what follows
      have h : resetAll style (p :: ps) = p.reset style :: blank :: resetAll style ps := by
        rw [resetAll, hqs, spaced, if_pos hb]
      refine .inr ⟨h, q, by rw [hqs]; rfl, hb, ?_⟩
      rw [h, glueAll, glueAll, show blank.glue = blank from rfl]
      cases hp : p.isText with
      | true =>
        obtain ⟨t, v, ht⟩ := exists_of_isText (p := p.reset style) (by rw [isText_reset, hp])
        refine .inl ⟨t, v, ht, hnext hp q (by rw [hqs]; rfl), ?_⟩
        rw [consPart_eq_cons (p := blank) fun _ => hglue hp, ht]
        rfl
      | false =>
        refine .inr ⟨rfl, consPart_eq_cons fun h => ?_⟩
        rw [isText_glue, isText_reset, hp] at h; cases h

theorem Loose.tail {p : Inline} {ps : List Inline} (h : Loose (p :: ps)) : Loose ps := by
  cases h <;> assumption

theorem Loose.inner {marker : Text} {inner ps : List Inline}
    (h : Loose (.emphasis marker inner :: ps)) : Loose inner := by
  cases h; assumption

theorem Loose.ne_nil {t v : Text} {ps : List Inline} (h : Loose (.leaf .text t v :: ps)) :
    t ≠ [] := by
  cases h with
  | text hne => exact hne
  | copy hkind => exact absurd rfl hkind

/-- A blank joins settled parts, next to which no other blank is needed then. -/
theorem allSettled_consPart_blank {ps : List Inline} (hl : Loose ps) (h : AllSettled style ps) :
    AllSettled style (consPart blank ps) ∧
      ∀ q ∈ (consPart blank ps).head?, q.text.head? = some ' ' := by
  by_cases hps : ∀ q ∈ ps.head?, q.isText = false
  · rw [consPart_eq_cons fun _ => hps]
    refine ⟨⟨fun _ => settled_space style, fun q _ => ?_, h⟩, fun q hq => ?_⟩
    · exact needsBlank_of_isBlank_left (a := ' ') rfl (by decide)
    · rw [← Option.some.inj hq]; rfl
  · simp only [not_forall, Bool.not_eq_false] at hps
    obtain ⟨q, hq, hqt⟩ := hps
    obtain ⟨qs, rfl⟩ := List.head?_eq_some_iff.1 hq
    obtain ⟨u, w, rfl⟩ := exists_of_isText hqt
    have hlast : (' ' :: u).getLast? = u.getLast? := by
      obtain ⟨c, u, rfl⟩ := List.exists_cons_of_ne_nil hl.ne_nil
      simp
    refine ⟨⟨fun _ => (h.1 rfl).space_cons, fun r hr => ?_, h.2.2⟩, fun q hq => ?_⟩
    · have hback := sameBack_text hlast w []
      exact (needsBlank_congr hback (.refl _)).trans (h.2.1 r hr)
    · rw [← Option.some.inj hq]; rfl

mutual

theorem settled_glue_reset : (p : Inline) → p.Separate →
    (∀ marker inner, p.reset style = .emphasis marker inner → Loose inner) →
    (p.reset style).glue.Settled style
  | leaf kind t visible, _, _ => by
    rw [reset, glue, Settled]
    intro hkind
    rw [if_pos hkind]; exact settled_respace style t
  | emphasis marker inner, hsep, hl => by
    rw [reset, glue, Settled]
    exact allSettled_glueAll inner hsep (hl marker _ rfl)

/-- **What a style makes of the parts of a line is settled** once the blanks have joined it. -/
theorem allSettled_glueAll : (ps : List Inline) → AllSeparate ps → Loose (resetAll style ps) →
    AllSettled style (glueAll (resetAll style ps))
  | [], _, _ => trivial
  | p :: ps, hsep, hl => by
    have hinner : ∀ marker inner, p.reset style = .emphasis marker inner → Loose inner := by
      intro marker inner hp
      rw [resetAll, hp] at hl
      exact hl.inner
    have hp := settled_glue_reset p hsep.1 hinner
    obtain ⟨heq, hg, hb⟩ | ⟨heq, q, hq, hb, ⟨t, v, ht, hqt, hg⟩ | ⟨hpt, hg⟩⟩ :=
      glueAll_resetAll_cons style hsep
    · -- no blank is needed, and what comes next looks the same after blanks have joined it
      rw [heq] at hl
      have hps := allSettled_glueAll ps hsep.2.2 hl.tail
      rw [hg]
      refine ⟨hp, fun r hr => ?_, hps⟩
      cases hqs : resetAll style ps with
      | nil => rw [hqs] at hr; cases hr
      | cons q qs =>
        have hlq := hl.tail
        rw [hqs] at hlq
        obtain ⟨r', rs, hrs, hfront, -⟩ := front_glueAll hlq
        rw [hqs, hrs] at hr
        rw [← Option.some.inj hr, shown_glue, needsBlank_congr (.refl _) hfront]
        exact hb q (by rw [hqs]; rfl)
    · rw [heq] at hl
      have hps := allSettled_glueAll ps hsep.2.2 hl.tail.tail
      rw [hg]
      rw [ht] at hp
      refine ⟨fun _ => (hp rfl).append_space, fun r _ => ?_, hps⟩
      exact needsBlank_of_isBlank_left (a := ' ') (by simp [shown]) (by decide)
    · rw [heq] at hl
      have hps := allSettled_glueAll ps hsep.2.2 hl.tail.tail
      have hloose : Loose (glueAll (resetAll style ps)) := by
        rw [← parse_textOf hl.tail.tail]; exact loose_parse _
      obtain ⟨hblank, hhead⟩ := allSettled_consPart_blank hloose hps
      rw [hg]
      refine ⟨hp, fun r hr => ?_, hblank⟩
      refine needsBlank_of_isBlank_right (c := ' ') ?_ (by decide)
      rw [text_shown]; exact hhead r hr

end

end Inline

end TypingAid
