import TypingAid.Proofs.Line.Capital

/-!
# What a line keeps

Formatting changes a line part by part: what comes of a part is an image of it, with at most one
blank between images that follow each other (`Inline.Image`, `Inline.Images`).  Spans other than
emphasis are copied, emphasis keeps its markers, and plain text stays as it is apart from spaces.
Capitals come only into plain text outside of emphasis (`Inline.imagesAfter_raiseAt`).

So a line keeps its content, and the caret its place, apart from spaces and the case of letters.
This holds for every style and under every scope.
-/

namespace TypingAid

open Text

variable {style : Style} {scope : Option Scope} {caret : Option Int}

/-! ### Capitals and spaces -/

theorem bare_of_recased {t t' : Text} (h : Recased t t') : Recased (bare t) (bare t') := by
  refine List.rel_filter (fun c c' hc => ?_) h
  rcases hc with rfl | ⟨hc, rfl⟩
  · exact Iff.rfl
  · have hne : ∀ {d : Char}, isLatin d = true → d ≠ ' ' := by rintro _ hd rfl; cases hd
    simp [hne (isLatin_iff.2 (.inr hc)), hne (isLatin_iff.2 (.inl (isCapital_toUpper hc)))]

theorem fold_of_recased {t t' : Text} (h : Recased t t') : fold t' = fold t := by
  have key : ∀ {u u' : Text}, Recased u u' → u'.map Char.toLower = u.map Char.toLower := by
    intro u u' h
    induction h with
    | nil => rfl
    | cons hc _ ih =>
      rw [List.map_cons, List.map_cons, ih]
      rcases hc with rfl | ⟨hc, rfl⟩
      · rfl
      · rw [toLower_toUpper hc]
  exact key (bare_of_recased h)

theorem fold_of_bare {t t' : Text} (h : bare t' = bare t) : fold t' = fold t := by
  rw [fold, fold, h]

namespace Inline

/-! ### Images of parts -/

mutual

/-- What formatting may make of a part, if plain text without spaces goes over to plain text in the
way of `same`; inside emphasis it stays. -/
inductive Image : (same : Text → Text → Prop) → Inline → Text → Prop where
  | text {same : Text → Text → Prop} {t t' visible : Text} (h : same (bare t) (bare t')) :
      Image same (.leaf .text t visible) t'
  | copy {same : Text → Text → Prop} {kind : PartKind} {t visible : Text} (h : kind ≠ .text) :
      Image same (.leaf kind t visible) t
  | emphasis {same : Text → Text → Prop} {marker t' : Text} {inner : List Inline}
      (h : Images Eq inner t') : Image same (.emphasis marker inner) (marker ++ t' ++ marker)

/-- Images of parts that follow each other, with at most one blank between two of them. -/
inductive Images : (same : Text → Text → Prop) → List Inline → Text → Prop where
  | nil {same : Text → Text → Prop} : Images same [] []
  | cons {same : Text → Text → Prop} {p : Inline} {ps : List Inline} {t u gap : Text}
      (hp : Image same p t) (hps : Images same ps u) (hgap : gap = [] ∨ gap = [' '])
      (hend : ps = [] → gap = []) : Images same (p :: ps) (t ++ (gap ++ u))

end

/-- Images of parts, behind a blank that separates them from the part `previous`, or not. -/
def ImagesAfter (same : Text → Text → Prop) (previous : Option Neighbour) (ps : List Inline)
    (t : Text) : Prop :=
  ∃ gap u, t = gap ++ u ∧ (gap = [] ∨ gap = [' ']) ∧ (ps = [] ∨ previous = none → gap = []) ∧
    Images same ps u

theorem ImagesAfter.images {same : Text → Text → Prop} {ps : List Inline} {t : Text}
    (h : ImagesAfter same none ps t) : Images same ps t := by
  obtain ⟨gap, u, rfl, -, hnone, hu⟩ := h
  rw [hnone (.inr rfl)]
  exact hu

theorem ImagesAfter.cons {same : Text → Text → Prop} {p : Inline} {ps : List Inline} {t u : Text}
    {now : Neighbour} (hp : Image same p t) (hps : ImagesAfter same (some now) ps u)
    (scope : Option Scope) (previous : Option Neighbour) :
    ImagesAfter same previous (p :: ps) (blankBetween style scope previous now ++ (t ++ u)) := by
  obtain ⟨gap, u, rfl, hgap, hend, hu⟩ := hps
  refine ⟨_, _, rfl, blankBetween_eq style scope previous now, ?_,
    .cons hp hu hgap fun h => hend (.inl h)⟩
  rintro (h | rfl)
  · cases h
  · rfl

mutual

theorem image_format (style : Style) (caret : Option Int) (scope : Option Scope) (start : ℕ) :
    (p : Inline) → Image Eq p (p.format style caret scope start).1.text
  | leaf kind t visible => by
    rw [format]
    split_ifs with hkind
    · subst hkind
      refine .text ?_
      exact (Tracked.bare_respace style ⟨t, _, _⟩).symm
    · exact .copy hkind
  | emphasis marker inner => by
    simp only [format]
    exact .emphasis (imagesAfter_formatAll style _ _ none 0 none 0 inner).images

/-- **Formatting makes images of parts.** -/
theorem imagesAfter_formatAll (style : Style) (caret : Option Int) (scope : Option Scope)
    (first : Option ℕ) (start : ℕ) (previous : Option Neighbour) (length : ℕ) :
    (ps : List Inline) →
    ImagesAfter Eq previous ps (formatAll style caret scope first start previous length ps).text
  | [] => ⟨[], [], rfl, .inl rfl, fun _ => rfl, .nil⟩
  | p :: ps => by
    have hp := image_format style caret scope start p
    rcases hnow : p.format style caret scope start with ⟨now, local?⟩
    rw [hnow] at hp
    rw [text_formatAll_cons hnow]
    exact .cons hp (imagesAfter_formatAll style caret scope first _ (some now) _ ps) scope previous

end

/-! ### Capitals in the images -/

/-- A part other than plain text has the same images, however plain text goes over. -/
theorem Image.of_not_isText {p : Inline} {t : Text} (h : Image Eq p t) (hp : p.isText = false)
    (same : Text → Text → Prop) : Image same p t := by
  cases h with
  | text => cases hp
  | copy hkind => exact .copy hkind
  | emphasis hinner => exact .emphasis hinner

theorem le_of_mem_starts_formatAll {first : Option ℕ} {start : ℕ} {previous : Option Neighbour}
    {length : ℕ} {ps : List Inline} {m : ℕ × Bool}
    (h : m ∈ (formatAll style caret scope first start previous length ps).starts) :
    length ≤ m.1 := by
  induction ps generalizing start previous length with
  | nil => cases h
  | cons p ps ih =>
    rcases hnow : p.format style caret scope start with ⟨now, local?⟩
    rw [starts_formatAll_cons hnow] at h
    rcases List.mem_append.1 h with h | h
    · split_ifs at h
      · have := le_of_mem_textStarts h; omega
      · cases h
    · have := ih h; omega

theorem raiseAt_gap {gap : Text} (h : gap = [] ∨ gap = [' ']) (N : List ℕ) (k : ℕ) :
    Text.raiseAt N k gap = gap := by
  rcases h with rfl | rfl
  · rfl
  · rw [Text.raiseAt, show ' '.toUpper = ' ' from rfl, ite_self]; rfl

/-- **Capitals come only into plain text outside of emphasis**, if they come where a sentence starts
with a word that takes one. -/
theorem imagesAfter_raiseAt {N : List ℕ} {first : Option ℕ} {start : ℕ}
    {previous : Option Neighbour} {length : ℕ} {ps : List Inline}
    (hN : ∀ n ∈ N, length ≤ n →
      (n, true) ∈ (formatAll style caret scope first start previous length ps).starts) :
    ImagesAfter Recased previous ps (Text.raiseAt N length
      (formatAll style caret scope first start previous length ps).text) := by
  induction ps generalizing start previous length with
  | nil => exact ⟨[], [], rfl, .inl rfl, fun _ => rfl, .nil⟩
  | cons p ps ih =>
    have hp := image_format style caret scope start p
    have hkind := kind_format style caret scope start p
    rcases hnow : p.format style caret scope start with ⟨now, local?⟩
    rw [hnow] at hp hkind
    simp only [starts_formatAll_cons hnow, List.mem_append] at hN
    rw [text_formatAll_cons hnow, raiseAt_append, raiseAt_append,
      raiseAt_gap (blankBetween_eq style scope previous now)]
    have hplace : length ≤ length + (blankBetween style scope previous now).length :=
      Nat.le_add_right ..
    generalize length + (blankBetween style scope previous now).length = place at hN hplace ⊢
    -- a place is in this part or in the rest, and what starts a sentence says in which
    refine .cons ?_ (ih fun n hn hle => ?_) scope previous
    · cases hpt : p.isText with
      | true =>
        obtain ⟨t, v, rfl⟩ := exists_of_isText hpt
        cases hp with
        | text h =>
          refine .text ?_
          rw [h]
          exact bare_of_recased (recased_raiseAt N place now.text)
        | copy h => exact absurd rfl h
      | false =>
        rw [raiseAt_eq_self fun n hn hle => ?_]
        · exact hp.of_not_isText hpt Recased
        · rcases hN n hn (by omega) with h | h
          · rw [hpt] at h; cases h
          · exact le_of_mem_starts_formatAll h
    · rcases hN n hn (by omega) with h | h
      · split_ifs at h
        · have := lt_of_mem_textStarts h; omega
        · cases h
      · exact h

end Inline

/-! ### The line -/

/-- What a line keeps, and the caret in it, when it becomes `newLine` with the caret `newCaret`. -/
structure Keeps (line : Text) (caret : Option Int) (newLine : Text) (newCaret : Int) : Prop where
  /-- The content is the same, apart from spaces and the case of letters. -/
  content : fold newLine = fold line
  inside : 0 ≤ newCaret ∧ newCaret ≤ newLine.length
  /-- What stands before the caret is the same, apart from spaces and the case of letters. -/
  before : ∀ c ∈ caret, fold (newLine.take newCaret.toNat) = fold (line.take (clamp line c))
  /-- Without a caret it comes to the end. -/
  last : caret = none → newCaret = newLine.length
  /-- The line is its parts, and the new one images of them. -/
  parts : Inline.textOf (Inline.parse line) = line
  images : Inline.Images Recased (Inline.parse line) newLine

theorem keeps_formatLine (style : Style) (line : Text) (caret : Option Int) (scope : Option Scope) :
    Keeps line caret (formatLine style line caret scope).1 (formatLine style line caret scope).2 := by
  by_cases hline : line = []
  · subst hline
    rw [formatLine_nil]
    exact ⟨rfl, ⟨Int.le_refl 0, Int.le_refl 0⟩, fun c _ => by rw [List.take_nil, List.take_nil],
      fun _ => rfl, Inline.textOf_parse [], Inline.parse_nil.symm ▸ .nil⟩
  · rw [formatLine_eq hline]
    dsimp only
    -- capitals move nothing, so the rest can be said of the parts before they come
    have hrecased : Recased (formatParts style line caret scope).text
        ((formatParts style line caret scope).capitalize style) := by
      rw [capitalize_eq]
      exact recased_raiseAt _ 0 _
    have hlength := hrecased.length_eq
    have hcaret : ∀ c ∈ caret, ∃ y, (formatParts style line caret scope).caret = some y ∧
        SamePlace line (clamp line c) (formatParts style line caret scope).text y := by
      rintro c rfl
      exact samePlace_formatParts hline style c scope
    have hnone : caret = none → (formatParts style line caret scope).caret = none := by
      rintro rfl
      exact caret_formatParts_none style line scope
    refine ⟨?_, ?_, fun c hc => ?_, fun h => ?_, Inline.textOf_parse line, ?_⟩
    · exact (fold_of_recased hrecased).trans (fold_of_bare (bare_formatParts style line caret scope))
    · cases caret with
      | none => rw [hnone rfl, Option.getD_none]; omega
      | some c =>
        obtain ⟨y, hy, hsame⟩ := hcaret c rfl
        have := hsame.inside
        rw [hy, Option.getD_some]; omega
    · obtain ⟨y, hy, hsame⟩ := hcaret c hc
      rw [hy, Option.getD_some, fold_of_recased (List.forall₂_take _ hrecased),
        fold_of_bare hsame.bare_take, Int.toNat_natCast]
    · rw [hnone h, Option.getD_none]
    · rw [capitalize_eq]
      exact (Inline.imagesAfter_raiseAt fun n hn _ => mem_starts_of_mem_raised hn).images

/-- If sentences get no capitals, where the caret is does not matter for the new line. -/
theorem formatLine_withoutCapitals (hstyle : style.autoCapital = false) (line : Text)
    (caret caret' : Option Int) (scope : Option Scope) :
    (formatLine style line caret' scope).1 = (formatLine style line caret scope).1 := by
  by_cases hline : line = []
  · subst hline; rfl
  · have htext : ∀ caret, ((formatParts style line caret scope).capitalize style) =
        (formatParts style line none scope).text := by
      intro caret
      rw [Formatted.capitalize, if_neg (by simp [hstyle])]
      exact (Inline.formatAll_withoutCaret ..).1
    rw [formatLine_eq hline, formatLine_eq hline]
    exact (htext caret').trans (htext caret).symm

/-- **Formatting keeps the content of a line and the place of the caret**, and the new line consists
of images of the parts of the old one.  If sentences get no capitals, it does not depend on the
caret. -/
theorem formatLine_content (style : Style) (line : Text) (caret : Option Int)
    (scope : Option Scope) :
    Keeps line caret (formatLine style line caret scope).1 (formatLine style line caret scope).2 ∧
      (style.autoCapital = false →
        ∀ caret', (formatLine style line caret' scope).1 = (formatLine style line caret scope).1) :=
  ⟨keeps_formatLine style line caret scope,
    fun h caret' => formatLine_withoutCapitals h line caret caret' scope⟩

/-- Under a scope that ends in the code span, in a style without capitals. -/
theorem formatLine_content_scope :
    let style : Style := { autoCapital := false }
    let line : Text := "so在**中 文ab**`x y`里 and中".toList
    let newLine : Text := "so 在**中文 ab** `x y` 里 and中".toList
    let scope : Option Scope := some ⟨2, 12⟩
    style.autoCapital = false ∧ formatLine style line (some 9) scope = (newLine, 10) ∧
      Keeps line (some 9) newLine 10 ∧ (formatLine style line (some 2) scope).1 = newLine := by
  intro style line newLine scope
  have hline : formatLine style line (some 9) scope = (newLine, 10) := by decide +kernel
  have hcontent := formatLine_content style line (some 9) scope
  rw [hline] at hcontent
  exact ⟨rfl, hline, hcontent.1, hcontent.2 rfl (some 2)⟩

end TypingAid
