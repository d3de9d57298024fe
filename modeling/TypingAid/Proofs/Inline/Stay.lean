import TypingAid.Proofs.Inline.Reset

/-!
# Parts stay when a line is set

Parts that reading finds again are still found after they have been set (`Inline.Loose.sets`): no
touch makes a span in plain text, a copied span stays one before what follows it now, and emphasis
goes on enclosing its content.

This needs gaps that a space may fill without harm (`SoftGap`).  The gaps within plain text always
are (`softGap_of_fillableGap`), and those between parts are as long as code and formulas are kept
apart from letters and numbers at most (`Style.IsSoft`, `allows_softGap`).  A strict style may part
code from a stray backtick before it, and the backtick then encloses the space.
-/

namespace TypingAid

open Text Recognised

/-- Code and formulas are kept apart from letters and numbers at most. -/
structure Style.IsSoft (style : Style) : Prop where
  code : style.codeSpaces ≠ .strict
  formula : style.formulaSpaces ≠ .strict

variable {style : Style}

/-! ### Gaps within plain text -/

theorem not_mem_of_class {c : Char} (h : isCjk c = true ∨ isLatin c = true ∨ isFigure c = true) :
    c ∉ ['\x60', '$', '['] := by
  have key : ∀ d ∈ ['\x60', '$', '['],
      ¬ (isCjk d = true ∨ isLatin d = true ∨ isFigure d = true) := by
    decide
  exact fun hc => key c hc h

theorem softGap_of_not_mem {a c : Char} (hab : isBlank a = false) (hcb : isBlank c = false)
    (ha : a ∉ ['\x60', '$', '[']) : SoftGap a c := by
  simp only [List.mem_cons, List.not_mem_nil, or_false, not_or] at ha
  exact ⟨hab, hcb, fun h => ha.1 h.1, fun h => ha.2.1 h.1, fun h => ha.2.2 h.1⟩

theorem softGap_of_fillableGap {a c : Char} (h : FillableGap a c) : SoftGap a c := by
  have hmark : ∀ d ∈ '.' :: pauseMarks, d ∉ ['\x60', '$', '['] := by decide
  obtain ⟨hab, hcb⟩ := h.isBlank_eq
  refine softGap_of_not_mem hab hcb ?_
  rcases h.before with ha | ha | ha | ha
  · exact not_mem_of_class (.inl ha)
  · exact not_mem_of_class (.inr (.inl ha))
  · exact not_mem_of_class (.inr (.inr ha))
  · exact hmark a ha

/-! ### Gaps between parts -/

/-- What a span that is neither code nor a formula starts with, unless all of it shows. -/
theorem Neighbour.Fits.first {n : Neighbour} (h : n.Fits) (hs : n.kind.isSpaced = false) {c : Char}
    (hc : n.text.head? = some c) : n.face = n.text ∨ c ∈ ['!', '[', '*', '_', '~', '='] := by
  rcases h with hk | h
  · exact .inl (by rw [face, hk]; rfl)
  obtain ⟨kind, start, stop, t, visible⟩ := n
  simp only at h hs hc ⊢
  cases h with
  | code | formula => cases hs
  | wikilink first | link first =>
    rcases first with first | first
    · rw [hc] at first; obtain rfl := Option.some.inj first; exact .inr (by decide)
    · rw [hc] at first; obtain rfl := Option.some.inj first; exact .inr (by decide)
  | url => exact .inl (by rw [face]; split_ifs <;> rfl)
  | emphasis hm first =>
    rw [hc] at first
    obtain rfl := Option.some.inj first
    exact .inr (List.mem_cons_of_mem _ (List.mem_cons_of_mem _ hm))

/-- What a span that is neither code nor a formula ends with, unless all of it shows. -/
theorem Neighbour.Fits.last {n : Neighbour} (h : n.Fits) (hs : n.kind.isSpaced = false) {a : Char}
    (ha : n.text.getLast? = some a) : n.face = n.text ∨ a ∈ [']', ')', '*', '_', '~', '='] := by
  rcases h with hk | h
  · exact .inl (by rw [face, hk]; rfl)
  obtain ⟨kind, start, stop, t, visible⟩ := n
  simp only at h hs ha ⊢
  cases h with
  | code | formula => cases hs
  | wikilink _ last | link _ last =>
    rw [ha] at last; obtain rfl := Option.some.inj last; exact .inr (by decide)
  | url => exact .inl (by rw [face]; split_ifs <;> rfl)
  | emphasis hm _ last =>
    rw [ha] at last
    obtain rfl := Option.some.inj last
    exact .inr (List.mem_cons_of_mem _ (List.mem_cons_of_mem _ hm))

/-- A span of code or a formula is enclosed in backticks or dollars. -/
theorem Neighbour.Fits.ends {n : Neighbour} (h : n.Fits) (hs : n.kind.isSpaced = true) :
    (n.text.head? = some '\x60' ∧ n.text.getLast? = some '\x60') ∨
      (n.text.head? = some '$' ∧ n.text.getLast? = some '$') := by
  rcases h with hk | h
  · rw [hk] at hs; cases hs
  obtain ⟨kind, start, stop, t, visible⟩ := n
  simp only at h hs ⊢
  cases h with
  | code first last => exact .inl ⟨first, last⟩
  | formula first last => exact .inr ⟨first, last⟩
  | _ => cases hs

theorem not_mem_of_isAlphanumeric {c : Char} (h : Unicode.isAlphanumeric c = true) :
    c ∉ ['\x60', '$', '['] := by
  have key : ∀ d ∈ ['\x60', '$', '['], Unicode.isAlphanumeric d = false := by decide +kernel
  intro hc
  rw [key c hc] at h; cases h

/-- One of two characters that are kept apart is Chinese or Japanese, the other a letter or digit. -/
theorem class_of_separates {a c : Char} (h : style.separates a c = true) :
    (isCjk a = true ∨ isLatin a = true ∨ isFigure a = true) ∧
      (isCjk c = true ∨ isLatin c = true ∨ isFigure c = true) := by
  rw [Style.separates] at h
  split_ifs at h with heq ha
  · simp only [Bool.or_eq_true, Bool.and_eq_true] at h
    exact ⟨.inl ha, .inr (h.imp And.left And.left)⟩
  · have hc : isCjk c = true := by
      cases hc : isCjk c with
      | true => rfl
      | false => exact absurd (by rw [hc]; simpa using ha) heq
    simp only [Bool.or_eq_true, Bool.and_eq_true] at h
    exact ⟨.inr (h.imp And.left And.left), .inl hc⟩

/-- **A soft style puts a space between two parts only where it does no harm.** -/
theorem allows_softGap (hstyle : style.IsSoft) : Inline.Allows SoftGap style := by
  intro left right hl hr hb a c ha hc
  obtain ⟨a', c', ha', hc', hab, hcb⟩ := Inline.needsBlank_edges hb
  obtain rfl : a = a' := by rw [ha] at ha'; exact Option.some.inj ha'
  obtain rfl : c = c' := by rw [hc] at hc'; exact Option.some.inj hc'
  have hstrict : ∀ kind, style.spaceMode kind ≠ .strict := by
    intro kind
    rw [Style.spaceMode]
    split_ifs
    · exact hstyle.code
    · exact hstyle.formula
  have hlast : ∀ d ∈ [']', ')', '*', '_', '~', '='], d ∉ ['\x60', '$', '['] := by decide
  simp only [needsBlank, ha, hc, hab, hcb, Bool.or_false, Bool.false_eq_true, if_false] at hb
  -- a blank is needed for other reasons as soon as one of the two is code or a formula
  cases hls : left.kind.isSpaced <;> cases hrs : right.kind.isSpaced
  · -- neither is code or a formula
    simp only [hls, hrs, Bool.or_false, Bool.false_eq_true, if_false] at hb
    split at hb
    · next b d hface _ =>
      refine softGap_of_not_mem hab hcb ?_
      rcases hl.last hls ha with h | h
      · rw [h, ha] at hface
        obtain rfl := Option.some.inj hface
        exact not_mem_of_class (class_of_separates hb).1
      · exact hlast a h
    · cases hb
  · -- a letter or number before code or a formula
    simp only [hls, hrs, Bool.or_true, if_true, Bool.and_true, Bool.false_eq_true, if_false] at hb
    refine softGap_of_not_mem hab hcb ?_
    rcases hl.last hls ha with h | h
    · cases hm : style.spaceMode right.kind with
      | none => rw [hm] at hb; cases hb
      | strict => exact absurd hm (hstrict _)
      | soft =>
        rw [hm, h, ha] at hb
        exact not_mem_of_isAlphanumeric hb
    · exact hlast a h
  · -- a letter or number behind code or a formula
    simp only [hls, hrs, Bool.or_false, if_true, Bool.and_false, Bool.false_eq_true, if_false] at hb
    have hc' : c ≠ '\x60' ∧ c ≠ '$' := by
      have hfirst : ∀ d ∈ ['!', '[', '*', '_', '~', '='], d ≠ '\x60' ∧ d ≠ '$' := by decide
      rcases hr.first hrs hc with h | h
      · cases hm : style.spaceMode left.kind with
        | none => rw [hm] at hb; cases hb
        | strict => exact absurd hm (hstrict _)
        | soft =>
          rw [hm, h, hc] at hb
          have := not_mem_of_isAlphanumeric hb
          simp only [List.mem_cons, not_or] at this
          exact ⟨this.1, this.2.1⟩
      · exact hfirst c h
    have ha' : a ≠ '[' := by
      rcases hl.ends hls with ⟨-, h⟩ | ⟨-, h⟩
      · rw [ha] at h; obtain rfl := Option.some.inj h; decide
      · rw [ha] at h; obtain rfl := Option.some.inj h; decide
    exact ⟨hab, hcb, fun h => hc'.1 h.2, fun h => hc'.2 h.2, fun h => ha' h.1⟩
  · -- two of them are never kept apart
    simp only [hls, hrs, Bool.or_true, if_true, Bool.and_true] at hb
    cases hm : style.spaceMode right.kind with
    | none => rw [hm] at hb; cases hb
    | strict => exact absurd hm (hstrict _)
    | soft => rw [hm] at hb; cases hb

/-! ### Plain text stays plain -/

theorem Text.Plain.of_touches {t rest rest' : Text} (h : Plain t rest)
    (hrest : Touches SoftGap rest rest') : Plain t rest' := by
  induction t with
  | nil => trivial
  | cons c t ih =>
    exact ⟨(hrest.append_left (c :: t)).preserve (P := fun u => spanAt? u = none)
      (fun ht hn => spanAt?_of_touch ht hn) h.1, ih h.2⟩

theorem Text.Plain.touch {t t' rest : Text} (h : Plain t rest) (ht : Touch SoftGap t t') :
    Plain t' rest := by
  have hspace : ∀ u, spanAt? (' ' :: u) = none := spanAt?_eq_none_of_head? (by decide) (by decide)
  induction ht with
  | widen hgap =>
    exact ⟨spanAt?_of_touch (Touch.append_right (.widen hgap) rest) h.1, hspace _, h.2⟩
  | narrow ha hc =>
    exact ⟨spanAt?_of_touch (Touch.append_right (.narrow ha hc) rest) h.1, h.2.2⟩
  | raise hc => exact ⟨spanAt?_of_touch (Touch.append_right (.raise hc) rest) h.1, h.2⟩
  | later ht ih => exact ⟨spanAt?_of_touch (Touch.append_right (.later ht) rest) h.1, ih h.2⟩

theorem Text.Plain.touches {t t' rest : Text} (h : Plain t rest) (ht : Touches SoftGap t t') :
    Plain t' rest :=
  ht.preserve (P := fun t => Plain t rest) (fun ht h => h.touch ht) h

/-- A space behind plain text leaves it plain. -/
theorem Text.Plain.space {t rest : Text} {a c : Char} (h : Plain t rest)
    (ha : t.getLast? = some a) (hc : rest.head? = some c) (hgap : SoftGap a c) :
    Plain t (' ' :: rest) := by
  obtain ⟨v, rfl⟩ := List.head?_eq_some_iff.1 hc
  induction t with
  | nil => trivial
  | cons d t ih =>
    refine ⟨?_, ?_⟩
    · obtain ⟨u, hu⟩ := List.getLast?_eq_some_iff.1 ha
      have hwiden : Touch SoftGap (u ++ a :: c :: v) (u ++ a :: ' ' :: c :: v) :=
        Touch.append_left u (.widen hgap)
      have h1 := h.1
      rw [hu, List.append_assoc] at h1 ⊢
      exact spanAt?_of_touch hwiden h1
    · cases t with
      | nil => trivial
      | cons e t => exact ih (by rwa [List.getLast?_cons_cons] at ha) h.2

/-! ### Parts stay -/

/-- Touches keep the first character, or they make it a capital. -/
theorem Text.Touches.head? {gap : Char → Char → Prop} {t t' : Text} (h : Touches gap t t') :
    t'.head? = t.head? ∨
      ∃ c, t.head? = some c ∧ isSmall c = true ∧ t'.head? = some c.toUpper := by
  induction h with
  | refl => exact .inl rfl
  | tail _ ht ih =>
    rcases ht.head? with h1 | ⟨c, h1, hc, h2⟩ <;> rcases ih with h3 | ⟨d, h3, hd, h4⟩
    · exact .inl (h1.trans h3)
    · exact .inr ⟨d, h3, hd, h1.trans h4⟩
    · exact .inr ⟨c, h3.symm.trans h1, hc, h2⟩
    · -- a capital does not become one again
      rw [h4] at h1
      rw [← Option.some.inj h1, isSmall_of_isCapital (isCapital_toUpper hd)] at hc
      cases hc

theorem Emphasises.touches {marker inner inner' : Text} (h : Emphasises marker inner)
    (ht : Touches SoftGap inner inner') : Emphasises marker inner' :=
  ht.preserve (P := Emphasises marker) (fun ht h => h.touch ht) h

namespace Inline

variable {ps qs : List Inline}

/-- A copied span stays one before text that has been touched. -/
theorem copy_of_touches {kind : PartKind} {s visible rest rest' : Text}
    (h : spanAt? (s ++ rest) = some { kind, length := s.length, visible })
    (hrest : Touches SoftGap rest rest') :
    spanAt? (s ++ rest') = some { kind, length := s.length, visible } := by
  refine spanAt?_append h rfl rfl (fun htick => ?_) fun haddress => ?_
  · rcases hrest.head? with hh | ⟨c, -, hc, hh⟩
    · rw [← hh, htick]
    · rw [htick] at hh
      have := isCapital_toUpper hc
      rw [← Option.some.inj hh] at this
      exact absurd this (by decide)
  · rcases hrest.head? with hh | ⟨c, hh, hc, -⟩
    · rw [← hh, haddress]
    · rw [hh]; exact isAddress_of_isSmall hc

/-- **Parts that are set stay loose**: reading their text finds them again. -/
theorem Loose.sets (h : Loose ps) (hs : Sets SoftGap ps qs) : Loose qs := by
  induction hs with
  | nil => exact h
  | @text t t' visible ps qs ht hps ih =>
    cases h with
    | text hne hplain hps' =>
      exact .text (ht.ne_nil hne) ((hplain.touches ht).of_touches hps.touches) (ih hps')
    | copy hkind => exact absurd rfl hkind
  | copy hps ih =>
    cases h with
    | text hne hplain hps' => exact .text hne (hplain.of_touches hps.touches) (ih hps')
    | copy hkind hspan hps' => exact .copy hkind (copy_of_touches hspan hps.touches) (ih hps')
  | emphasis hinner hps ihi ih =>
    cases h with
    | emphasis he hinner' hps' =>
      exact .emphasis (he.touches hinner.touches) (ihi hinner') (ih hps')
  | @blank ps qs q a c ha hc hgap _ ih =>
    have hspace : ∀ u, spanAt? (' ' :: u) = none := spanAt?_eq_none_of_head? (by decide) (by decide)
    have hblank : ∀ {qs}, Loose qs → Loose (Inline.blank :: qs) := fun h =>
      .text (by simp) ⟨hspace _, trivial⟩ h
    cases ih h with
    | text hne hplain hqs => exact .text hne (hplain.space ha hc hgap) (hblank hqs)
    | copy hkind hspan hqs =>
      refine .copy hkind (spanAt?_append hspan rfl rfl ?_ ?_) (hblank hqs)
      · exact fun h => absurd (Option.some.inj h) (by decide)
      · exact fun h => absurd (show isAddress ' ' = true from h) (by decide)
    | emphasis he hinner hqs => exact .emphasis he hinner (hblank hqs)

end Inline

end TypingAid
