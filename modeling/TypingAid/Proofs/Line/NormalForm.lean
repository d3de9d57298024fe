import TypingAid.Proofs.Inline.Stay
import TypingAid.Proofs.Line.Capital

/-!
# The normal form of a line

A line that has been formatted is in normal form: plain text, also inside emphasis, is as all
spacing rules of the style want it, no two neighbouring parts need a blank, and formatting the line
again changes nothing, with or without the caret that came out.  The style must be soft, i.e. not
ask for blanks around code or formulas wherever they stand.

A soft style only touches the line in ways that leave its parts where they are, so the parts of the
new line are known: what the style makes of the old ones, with each blank joined to the plain text
next to it, and with capitals (`Inline.parse_capitalize`).  They are settled, so the second pass
leaves them as they are, the caret included (`Inline.caret_formatAll_of_settled`), and it finds the
same sentence starts.  Those it chooses have their capital by then (`raised_again`).
-/

namespace TypingAid

open Text

variable {style : Style}

/-! ### Settled parts and the caret -/

theorem Tracked.respace_of_settled {t : Text} (h : Settled style t) (caret : Option Int) :
    Tracked.respace style ⟨t, caret, none⟩ = ⟨t, caret, none⟩ := by
  refine List.foldlRecOn (motive := fun t' : Tracked => t' = ⟨t, caret, none⟩) (spacingRules style) _
    rfl ?_
  rintro _ rfl rule hrule
  have hshift : Fix.shiftAll [] = id := funext fun x => by
    rw [Fix.shiftAll, Fix.drift]; exact x.add_zero
  rw [h rule hrule, adjust]
  simp only [List.filter_nil, Fix.applyFrom, hshift, Option.map_id, id, Option.map_none]

namespace Inline

mutual

theorem caret_format_of_settled (caret : Option Int) (start : ℕ) :
    (p : Inline) → p.Settled style →
    (p.format style caret none start).2 = localCaret caret start (start + p.text.length)
  | leaf kind t visible, h => by
    rw [format]
    split_ifs with hkind
    · rw [Option.map_none, Tracked.respace_of_settled (h hkind)]; rfl
    · rfl
  | emphasis marker inner, h => by
    simp only [format, Option.map_none, text, List.length_append]
    have htext : ∀ caret, (formatAll style caret none none 0 none 0 inner).text = textOf inner :=
      fun caret => by rw [text_formatAll, spacedAfter, resetAll_eq_self inner h]
    have hinner := fun caret => caret_formatAll_of_settled caret none 0 none 0 inner h (by simp)
    simp only [htext]
    cases hlocal : localCaret caret start
        (start + (marker.length + (textOf inner).length + marker.length)) with
    | none => rfl
    | some x =>
      rw [Option.map_some, Option.bind_some]
      -- the content is as long as before, so the caret moves neither in it nor behind it
      unfold emphasisCaret
      split
      · next y hy =>
        obtain ⟨z, hz, rfl⟩ := hinner _ y hy
        obtain ⟨w, hw, rfl⟩ := Option.map_eq_some_iff.1 hz
        obtain rfl : x = w := Option.some.inj (Option.eq_some_of_filter_eq_some hw)
        congr 1
        omega
      · split_ifs
        · congr 1; omega
        · rfl

/-- **Settled parts leave the caret where it is.** -/
theorem caret_formatAll_of_settled (caret : Option Int) (first : Option ℕ) (start : ℕ)
    (previous : Option Neighbour) (length : ℕ) :
    (ps : List Inline) → AllSettled style ps →
    (∀ left ∈ previous, ∀ q ∈ ps.head?, needsBlank style left q.shown = false) →
    ∀ y ∈ (formatAll style caret none first start previous length ps).caret,
      ∃ c ∈ caret, y = c - start + length
  | [], _, _, y, hy => by cases hy
  | p :: ps, h, hprevious, y, hy => by
    have hunplaced := unplaced_format style caret start p
    have hlocal := caret_format_of_settled caret start p h.1
    rcases hnow : p.format style caret none start with ⟨now, local?⟩
    rw [hnow] at hunplaced hlocal
    rw [reset_eq_self p h.1] at hunplaced
    have hgap : blankBetween style none previous now = [] := by
      cases previous with
      | none => rfl
      | some left =>
        have : needsBlank style left now = needsBlank style left p.shown := by rw [← hunplaced]; rfl
        rw [blankBetween_some, this, hprevious left rfl p rfl]; rfl
    rw [caret_formatAll_cons hnow, hgap, text_of_unplaced hunplaced, Option.mem_def,
      Option.or_eq_some_iff] at hy
    rcases hy with hy | ⟨-, hy⟩
    · obtain ⟨x, hx, rfl⟩ := Option.map_eq_some_iff.1 hy
      obtain ⟨c, hc, rfl⟩ := Option.map_eq_some_iff.1 (hlocal.symm.trans hx)
      refine ⟨c, Option.eq_some_of_filter_eq_some hc, ?_⟩
      simp only [List.length_nil, Nat.add_zero]; omega
    · have hnext : ∀ left ∈ some now, ∀ q ∈ ps.head?, needsBlank style left q.shown = false := by
        intro left hleft q hq
        rw [← Option.some.inj hleft]
        have := h.2.1 q hq
        rw [← hunplaced] at this
        exact this
      obtain ⟨c, hc, rfl⟩ := caret_formatAll_of_settled caret first _ _ _ ps h.2.2 hnext y hy
      refine ⟨c, hc, ?_⟩
      simp only [List.length_nil, Nat.add_zero]; push_cast; omega

end

/-! ### The parts of the new line -/

/-- The parts that a style sets a line to. -/
def setParts (style : Style) (line : Text) : List Inline := glueAll (resetAll style (parse line))

theorem text_formatParts (style : Style) (line : Text) (caret : Option Int) :
    (formatParts style line caret none).text = textOf (setParts style line) := by
  rw [formatParts, text_formatAll, spacedAfter, setParts, textOf_glueAll]

theorem opensAt_lead (t u : Text) : OpensAt none (leadLength t) (t ++ u) := by
  rcases Nat.eq_zero_or_pos (leadLength t) with h | h
  · rw [h]; rfl
  · obtain ⟨v, a, w, he, hlen, ha⟩ := endsOpen_lead h
    rw [← hlen, he, List.append_assoc]
    refine opensAt_of_append v (w ++ u) ?_
    rcases ha with ha | rfl
    · rw [opensSentence, ha]; rfl
    · decide

/-- Plain text that a line is set to starts with the lead of the line, and at most a blank has joined
it. -/
theorem exists_head_setParts {line : Text} {p : Inline} (hp : p ∈ (setParts style line).head?)
    (hpt : p.isText = true) : ∃ t u, p.text = t ++ u ∧ leadLength t = leadLength line ∧
      (u = [] ∨ u = [' ']) := by
  have hloose := loose_parse line
  have hsep := allSeparate_parse line
  have hline := textOf_parse line
  rw [setParts] at hp
  cases hps : parse line with
  | nil => rw [hps] at hp; cases hp
  | cons q qs =>
    rw [hps] at hp hloose hsep hline
    -- the first part is plain text only if that of the line is
    have hlead : q.isText = true →
        (q.reset style).text = style.respace q.text ∧ leadLength (q.reset style).text =
          leadLength line := by
      intro hq
      obtain ⟨t, v, rfl⟩ := exists_of_isText hq
      have hreset : (reset style (.leaf .text t v)).text = style.respace t := by
        rw [reset, if_pos rfl]; rfl
      refine ⟨hreset, ?_⟩
      rw [hreset, leadLength_respace, ← hline, leadLength_cons hloose hsep, if_pos hq]
      rfl
    obtain ⟨-, hg, -⟩ | ⟨-, -, -, -, ⟨t, v, ht, -, hg⟩ | ⟨hq, hg⟩⟩ :=
      glueAll_resetAll_cons style hsep
    · rw [hg] at hp
      obtain rfl := Option.some.inj hp
      rw [isText_glue, isText_reset] at hpt
      exact ⟨_, [], by rw [text_glue, List.append_nil], (hlead hpt).2, .inl rfl⟩
    · rw [hg] at hp
      obtain rfl := Option.some.inj hp
      have hqt : q.isText = true := (isText_reset q).symm.trans (congrArg isText ht)
      refine ⟨t, [' '], rfl, ?_, .inr rfl⟩
      rw [← (hlead hqt).2, ht]; rfl
    · rw [hg] at hp
      obtain rfl := Option.some.inj hp
      rw [isText_glue, isText_reset, hq] at hpt
      cases hpt

/-- The capitals of a line come where sentences may start in what it is set to. -/
theorem opening_setParts (style : Style) (line : Text) (caret : Option Int) :
    Opening ((formatParts style line caret none).raised style) 0 (setParts style line) := by
  refine opening_of_starts (some (leadLength line)) (fun n hn _ => ?_) ?_
  · have hstarts := mem_starts_of_mem_raised hn
    rw [formatParts, starts_formatAll] at hstarts
    exact (mem_starts_glueAll (allSeparate_parse line) _ 0 n).2 hstarts
  · intro p hp hpt n hn
    obtain rfl := Option.some.inj hn
    obtain ⟨t, u, ht, hlead, -⟩ := exists_head_setParts hp hpt
    rw [ht, ← hlead]
    exact opensAt_lead t u

/-- The parts of a line with its capitals. -/
def raisedParts (style : Style) (line : Text) (caret : Option Int) : List Inline :=
  raiseAt ((formatParts style line caret none).raised style) 0 (setParts style line)

theorem textOf_raisedParts (style : Style) (line : Text) (caret : Option Int) :
    textOf (raisedParts style line caret) = (formatParts style line caret none).capitalize style := by
  rw [capitalize_eq, text_formatParts, raisedParts,
    textOf_raiseAt (opening_setParts style line caret)]

theorem Loose.parse_capitalize {line : Text} (h : Loose (resetAll style (parse line)))
    (caret : Option Int) :
    parse ((formatParts style line caret none).capitalize style) = raisedParts style line caret := by
  have hloose : Loose (raisedParts style line caret) :=
    h.glueAll.sets (sets_raiseAt (opening_setParts style line caret))
  rw [← textOf_raisedParts, parse_textOf hloose]
  exact glueAll_eq_self _ (allSeparate_raiseAt _ 0 (allSeparate_glueAll _))

theorem Loose.allSettled_raisedParts {line : Text} (h : Loose (resetAll style (parse line)))
    (caret : Option Int) : AllSettled style (raisedParts style line caret) :=
  allSettled_raiseAt (opening_setParts style line caret)
    (allSettled_glueAll (parse line) (allSeparate_parse line) h)

/-- Setting the new line once more gives its parts again. -/
theorem Loose.setParts_capitalize {line : Text} (h : Loose (resetAll style (parse line)))
    (caret : Option Int) : setParts style ((formatParts style line caret none).capitalize style) =
      raisedParts style line caret := by
  have hsep := allSeparate_parse ((formatParts style line caret none).capitalize style)
  rw [h.parse_capitalize] at hsep
  rw [setParts, h.parse_capitalize, resetAll_eq_self _ (h.allSettled_raisedParts caret),
    glueAll_eq_self _ hsep]

theorem Loose.capitalize_ne_nil {line : Text} (h : Loose (resetAll style (parse line)))
    (hline : line ≠ []) (caret : Option Int) :
    (formatParts style line caret none).capitalize style ≠ [] := by
  obtain ⟨p, ps, hps⟩ := List.exists_cons_of_ne_nil (parse_ne_nil hline)
  rw [hps, resetAll] at h
  have hne := h.text_ne_nil
  rw [capitalize_eq, text_formatParts, setParts, textOf_glueAll, hps, resetAll, textOf,
    ← List.length_pos_iff, length_raiseAt, List.length_append]
  exact Nat.add_pos_left (List.length_pos_iff.2 hne) _

/-! ### Soft styles -/

theorem loose_resetAll_parse (hstyle : style.IsSoft) (line : Text) :
    Loose (resetAll style (parse line)) :=
  (loose_parse line).sets (sets_resetAll (fun _ _ => softGap_of_fillableGap)
    (allows_softGap hstyle) (loose_parse line))

/-- **The parts of the new line** are the ones that the style sets the line to, with capitals. -/
theorem parse_capitalize (hstyle : style.IsSoft) (line : Text) (caret : Option Int) :
    parse ((formatParts style line caret none).capitalize style) = raisedParts style line caret :=
  (loose_resetAll_parse hstyle line).parse_capitalize caret

theorem allSettled_raisedParts (hstyle : style.IsSoft) (line : Text) (caret : Option Int) :
    AllSettled style (raisedParts style line caret) :=
  (loose_resetAll_parse hstyle line).allSettled_raisedParts caret

theorem leadLength_setParts (hstyle : style.IsSoft) (line : Text) :
    leadLength (textOf (setParts style line)) = leadLength line := by
  have := leadLength_glueAll hstyle (allSeparate_parse line) (loose_parse line)
    (loose_resetAll_parse hstyle line)
  rwa [textOf_parse] at this

theorem starts_formatParts (hstyle : style.IsSoft) (line : Text) (caret : Option Int) :
    (formatParts style line caret none).starts =
      starts (some (leadLength line)) 0 (setParts style line) := by
  rw [formatParts, starts_formatAll, setParts, starts_glueAll hstyle (allSeparate_parse line)]
  intro q hq n hn
  obtain rfl := Option.some.inj hn
  have hloose := loose_parse line
  have hsep := allSeparate_parse line
  have htext := textOf_parse line
  cases hps : parse line with
  | nil => rw [hps] at hq; cases hq
  | cons p ps =>
    rw [hps] at hq hloose hsep htext
    rw [← Option.some.inj hq, ← htext, leadLength_cons hloose hsep]
    split_ifs with hpt
    · obtain ⟨t, v, rfl⟩ := exists_of_isText hpt
      rw [text, ← leadLength_respace style t]
      exact leadLength_le _
    · exact Nat.zero_le _

end Inline

/-! ### The second pass -/

theorem leadLength_capitalize (hstyle : style.IsSoft) (line : Text) (caret : Option Int) :
    leadLength ((formatParts style line caret none).capitalize style) = leadLength line := by
  rw [← Inline.leadLength_setParts hstyle line, ← Inline.text_formatParts style line caret,
    capitalize_eq]
  exact (alike_of_recased (recased_raiseAt _ 0 _) []).leadLength_eq steady_nil

theorem exists_of_mem_right {R : ℕ × Bool → ℕ × Bool → Prop} {l l' : List (ℕ × Bool)}
    (h : List.Forall₂ R l l') {m' : ℕ × Bool} (hm' : m' ∈ l') : ∃ m ∈ l, R m m' := by
  induction h with
  | nil => cases hm'
  | @cons m _ _ _ h _ ih =>
    rcases List.mem_cons.1 hm' with rfl | hm'
    · exact ⟨m, List.mem_cons_self, h⟩
    · obtain ⟨m, hm, hr⟩ := ih hm'
      exact ⟨m, List.mem_cons_of_mem _ hm, hr⟩

/-- What the second pass finds, wherever the caret is: settled parts, and the same sentence
starts. -/
theorem formatParts_again (hstyle : style.IsSoft) (line : Text) (caret caret' : Option Int) :
    (formatParts style ((formatParts style line caret none).capitalize style) caret' none).text =
        (formatParts style line caret none).capitalize style ∧
      (formatParts style ((formatParts style line caret none).capitalize style) caret' none).starts =
        Inline.starts (some (leadLength line)) 0 (Inline.raisedParts style line caret) := by
  have hset := (Inline.loose_resetAll_parse hstyle line).setParts_capitalize caret
  rw [Inline.text_formatParts, Inline.starts_formatParts hstyle, hset,
    Inline.textOf_raisedParts, leadLength_capitalize hstyle]
  exact ⟨rfl, rfl⟩

/-- **No sentence gets a capital in the second pass** if the caret is where the first one left it. -/
theorem raised_again (hstyle : style.IsSoft) (line : Text) (caret caret' : Option Int)
    (hcaret : (formatParts style ((formatParts style line caret none).capitalize style) caret'
      none).caret = (formatParts style line caret none).caret) :
    (formatParts style ((formatParts style line caret none).capitalize style) caret' none).raised
      style = [] := by
  have hstarts := Inline.starts_raiseAt (Inline.opening_setParts style line caret)
    (some (leadLength line))
  rw [← Inline.starts_formatParts hstyle line caret] at hstarts
  have hchosen := forall₂_chosenMarks style (fun _ _ h => h.1)
    (formatParts style line caret none).caret hstarts
  rw [Formatted.raised, hcaret, (formatParts_again hstyle line caret caret').2]
  split_ifs with hcapital
  · -- what is chosen now was chosen at the same place in the first pass
    rw [List.map_eq_nil_iff, List.filter_eq_nil_iff]
    rintro m' hm' hflag
    obtain ⟨m, hm, -, hraised⟩ := exists_of_mem_right hchosen hm'
    obtain ⟨hm2, hnot⟩ := hraised hflag
    refine hnot ?_
    rw [Formatted.raised, if_pos hcapital]
    exact List.mem_map.2 ⟨m, List.mem_filter.2 ⟨hm, hm2⟩, rfl⟩
  · rfl

/-- **The caret stays where it is in the second pass.** -/
theorem caret_again (hstyle : style.IsSoft) {line : Text} (hline : line ≠ []) (caret : Option Int) :
    (formatParts style ((formatParts style line caret none).capitalize style)
      (caret.map fun _ => (formatLine style line caret).2) none).caret =
      (formatParts style line caret none).caret := by
  cases caret with
  | none => rw [Option.map_none, caret_formatParts_none, caret_formatParts_none]
  | some c =>
    obtain ⟨y, hy, hsame⟩ := samePlace_formatParts hline style c none
    have hne := (Inline.loose_resetAll_parse hstyle line).capitalize_ne_nil hline (some c)
    have hsettled := Inline.allSettled_raisedParts hstyle line (some c)
    rw [← Inline.parse_capitalize hstyle] at hsettled
    have hclamp : (clamp ((formatParts style line (some c) none).capitalize style) y : Int) = y := by
      have := hsame.inside
      rw [clamp, capitalize_eq, length_raiseAt]; omega
    rw [formatLine_eq hline, hy, Option.map_some, Option.getD_some]
    obtain ⟨z, hz, -⟩ := samePlace_formatParts hne style y none
    obtain ⟨x, hx, rfl⟩ := Inline.caret_formatAll_of_settled _ _ _ _ _ _ hsettled (by simp) z hz
    obtain rfl : y = x := by
      rw [Option.map_some, Option.mem_def, hclamp] at hx
      exact Option.some.inj hx
    rw [hz, Int.natCast_zero, Int.sub_zero, Int.add_zero]

/-- **Formatting reaches a normal form in one pass.** -/
theorem formatLine_normal (hstyle : style.IsSoft) (line : Text) (caret : Option Int) :
    Inline.AllSettled style (Inline.parse (formatLine style line caret).1) ∧
      formatLine style (formatLine style line caret).1
        (caret.map fun _ => (formatLine style line caret).2) = formatLine style line caret := by
  by_cases hline : line = []
  · subst hline
    rw [formatLine_nil, formatLine_nil, Inline.parse_nil]
    exact ⟨trivial, rfl⟩
  · have hcaret := caret_again hstyle hline caret
    have hraised := raised_again hstyle line caret _ hcaret
    have htext := (formatParts_again hstyle line caret
      (caret.map fun _ => (formatLine style line caret).2)).1
    rw [formatLine_eq hline] at hcaret hraised htext ⊢
    refine ⟨?_, ?_⟩
    · rw [Inline.parse_capitalize hstyle]
      exact Inline.allSettled_raisedParts hstyle line caret
    · have hsame : (formatParts style ((formatParts style line caret none).capitalize style)
          (caret.map fun _ => (formatParts style line caret none).caret.getD
            ((formatParts style line caret none).capitalize style).length) none).capitalize style =
          (formatParts style line caret none).capitalize style := by
        rw [capitalize_eq, hraised, htext, raiseAt_eq_self (by simp)]
      rw [formatLine_eq ((Inline.loose_resetAll_parse hstyle line).capitalize_ne_nil hline caret)]
      dsimp only at hcaret ⊢
      rw [hsame, hcaret]

/-- A line with a bullet, code and emphasis that loses one blank and gets four, and a capital. -/
theorem formatLine_normal_bullet :
    let line : Text := "- see**中 文abc**`x`里，then".toList
    let newLine : Text := "- See **中文 abc** `x` 里，then".toList
    Style.IsSoft {} ∧ formatLine {} line (some 12) = (newLine, 13) ∧
      Inline.AllSettled {} (Inline.parse newLine) ∧
      formatLine {} newLine (some 13) = (newLine, 13) := by
  intro line newLine
  have hstyle : Style.IsSoft {} := ⟨by decide, by decide⟩
  have hline : formatLine {} line (some 12) = (newLine, 13) := by decide +kernel
  have hnormal := formatLine_normal hstyle line (some 12)
  rw [hline] at hnormal
  exact ⟨hstyle, hline, hnormal⟩

end TypingAid
