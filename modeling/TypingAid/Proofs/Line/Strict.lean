import TypingAid.Proofs.Inline.Apart
import TypingAid.Proofs.Line.NormalForm

/-!
# Strict styles

A strict style keeps code and formulas apart from all that stands next to them.  Setting a line once
more may then change it, and it may change what is code in it (`formatLine_stray`): a stray backtick
that is parted from the code behind it encloses the space, together with the first backtick of the
code.

Apart from that, strict styles are as good as soft ones.  In a line without two parts that meet with
a backtick or a dollar on both sides (`Inline.AllApart`), code and formulas stay what they are, and
the line is set for good (`formatLine_apart`).  Here a blank that joins plain text may end a sentence
or make a mark of the lead complete, but there no word follows that would take a capital
(`Inline.mem_starts_glueAll`, `reaches_lead`).
-/

namespace TypingAid

open Text

variable {style : Style} {line : Text}

namespace Inline

/-! ### Code and formulas -/

/-- The part is code or a formula. -/
def isSpaced : Inline → Bool
  | leaf kind _ _ => kind.isSpaced
  | emphasis _ _ => false

theorem isSpaced_of_isText {p : Inline} (h : p.isText = true) : p.isSpaced = false := by
  obtain ⟨t, v, rfl⟩ := exists_of_isText h
  rfl

theorem filter_cons_of_isText {p : Inline} (h : p.isText = true) (ps : List Inline) :
    (p :: ps).filter isSpaced = ps.filter isSpaced :=
  List.filter_cons_of_neg (by rw [isSpaced_of_isText h]; decide)

/-- A part that becomes another one is neither code nor a formula before and after. -/
theorem filter_cons_congr {p q : Inline} {ps qs : List Inline}
    (hpq : q = p ∨ p.isSpaced = false ∧ q.isSpaced = false)
    (h : qs.filter isSpaced = ps.filter isSpaced) :
    (q :: qs).filter isSpaced = (p :: ps).filter isSpaced := by
  rcases hpq with rfl | ⟨hp, hq⟩
  · rw [List.filter_cons, List.filter_cons, h]
  · rw [List.filter_cons_of_neg (by rw [hq]; decide),
      List.filter_cons_of_neg (by rw [hp]; decide), h]

theorem filter_resetAll (style : Style) (ps : List Inline) :
    (resetAll style ps).filter isSpaced = ps.filter isSpaced := by
  have hspaced : ∀ (left : Neighbour) (qs : List Inline),
      (spaced style left qs).filter isSpaced = qs.filter isSpaced := by
    intro left qs
    cases qs with
    | nil => rfl
    | cons q qs =>
      rw [spaced]
      split_ifs
      · exact filter_cons_of_isText (p := blank) rfl (q :: qs)
      · rfl
  induction ps with
  | nil => rfl
  | cons p ps ih =>
    rw [resetAll]
    refine filter_cons_congr ?_ ((hspaced _ _).trans ih)
    cases p with
    | leaf kind t v =>
      rw [reset]
      split_ifs with hkind
      · subst hkind
        exact .inr ⟨rfl, rfl⟩
      · exact .inl rfl
    | emphasis => exact .inr ⟨rfl, rfl⟩

theorem filter_glueAll (ps : List Inline) :
    (glueAll ps).filter isSpaced = ps.filter isSpaced := by
  have hcons : ∀ (p : Inline) (ps : List Inline),
      (consPart p ps).filter isSpaced = (p :: ps).filter isSpaced := by
    intro p ps
    unfold consPart
    split
    · next t v u w ps =>
      exact (filter_cons_of_isText (p := .leaf .text t v) rfl _).symm
    · rfl
  induction ps with
  | nil => rfl
  | cons p ps ih =>
    rw [glueAll, hcons]
    refine filter_cons_congr ?_ ih
    cases p with
    | leaf => exact .inl rfl
    | emphasis => exact .inr ⟨rfl, rfl⟩

theorem filter_raiseAt (N : List ℕ) (k : ℕ) (ps : List Inline) :
    (raiseAt N k ps).filter isSpaced = ps.filter isSpaced := by
  induction ps generalizing k with
  | nil => rfl
  | cons p ps ih =>
    rw [raiseAt]
    refine filter_cons_congr ?_ (ih _)
    cases hp : p.isText with
    | true => exact .inr ⟨isSpaced_of_isText hp, isSpaced_of_isText (by rw [isText_raise, hp])⟩
    | false => exact .inl (raise_of_not_isText hp N k)

/-! ### Sentences in the second pass -/

theorem leadLength_textOf_raisedParts (style : Style) (line : Text) (caret : Option Int) :
    leadLength (textOf (raisedParts style line caret)) =
      leadLength (textOf (setParts style line)) := by
  rw [raisedParts, textOf_raiseAt (opening_setParts style line caret)]
  exact (alike_of_recased (recased_raiseAt _ 0 _) []).leadLength_eq steady_nil

/-- The first sentence starts where it did, or no word stands there. -/
theorem mem_starts_lead (h : Loose (resetAll style (parse line))) {n : ℕ}
    (hn : (n, true) ∈ starts (some (leadLength (textOf (setParts style line)))) 0
      (setParts style line)) :
    (n, true) ∈ starts (some (leadLength line)) 0 (setParts style line) := by
  have hloose : Loose (setParts style line) := h.glueAll
  have hsep : AllSeparate (setParts style line) := allSeparate_glueAll _
  have hhead : ∀ p ∈ (setParts style line).head?, p.isText = true →
      ∃ t u, p.text = t ++ u ∧ leadLength t = leadLength line ∧ (u = [] ∨ u = [' ']) :=
    fun _ => exists_head_setParts
  generalize setParts style line = ps at *
  cases ps with
  | nil => cases hn
  | cons p ps =>
    rw [starts, List.mem_append] at hn ⊢
    refine hn.imp (fun hn => ?_) id
    split_ifs at hn ⊢ with hpt
    · rw [leadLength_cons hloose hsep, if_pos hpt] at hn
      obtain ⟨m, hm, he⟩ := List.mem_map.1 hn
      obtain ⟨t, u, ht, hlead, hu⟩ := hhead p rfl hpt
      have hlt := lt_length_of_startsSmallWord (Prod.mk.inj he).2
      refine List.mem_map.2 ⟨m, ?_, he⟩
      rcases List.mem_append.1 hm with hm | hm
      · obtain rfl := List.mem_singleton.1 hm
        refine List.mem_append_left _ (List.mem_singleton.2 ?_)
        rw [← hlead, ht]
        rcases hu with rfl | rfl
        · rw [List.append_nil]
        · -- a lead that reaches to the end of the text has no word behind it
          refine (reaches_lead t).resolve_right fun hall => ?_
          rw [ht, hall, List.length_append] at hlt
          exact Nat.lt_irrefl _ hlt
      · exact List.mem_append_right _ hm
    · cases hn

/-- Without a caret, a word gets a capital if it is due in what the line is set to. -/
theorem mem_raised_iff (style : Style) (line : Text) (n : ℕ) :
    n ∈ (formatParts style line none none).raised style ↔ style.autoCapital = true ∧
      (n, true) ∈ starts (some (leadLength line)) 0 (setParts style line) := by
  have hstarts : (formatParts style line none none).starts =
      starts (some (leadLength line)) 0 (resetAll style (parse line)) := by
    rw [formatParts, starts_formatAll]
  have hchosen : ∀ marks, style.chosenMarks none marks = marks := fun _ => rfl
  rw [setParts, mem_starts_glueAll (allSeparate_parse line), ← hstarts, Formatted.raised,
    caret_formatParts_none, hchosen]
  split_ifs with hcapital
  · simp [hcapital]
  · simp [hcapital]

/-- **No sentence gets a capital in the second pass** over all of the line. -/
theorem Loose.raised_again (h : Loose (resetAll style (parse line))) :
    (formatParts style ((formatParts style line none none).capitalize style) none none).raised
      style = [] := by
  refine List.eq_nil_iff_forall_not_mem.2 fun n hn => ?_
  obtain ⟨hcapital, hn⟩ := (mem_raised_iff style _ n).1 hn
  rw [h.setParts_capitalize, ← textOf_raisedParts, leadLength_textOf_raisedParts] at hn
  -- the word was due in the first pass, so it has its capital
  obtain ⟨⟨k, due⟩, hk, hkn, hdue⟩ :=
    exists_of_mem_right (starts_raiseAt (opening_setParts style line none) _) hn
  obtain ⟨rfl, hnot⟩ := hdue rfl
  exact hnot ((mem_raised_iff style line k).2 ⟨hcapital, mem_starts_lead h hk⟩)

end Inline

/-! ### The second pass -/

/-- **A line is set for good in any style**, and its code and formulas stay what they are, if no two
of its parts meet with a backtick or a dollar on both sides. -/
theorem formatLine_apart (style : Style) (h : Inline.AllApart (Inline.parse line)) :
    let newLine := (formatLine style line).1
    Inline.AllSettled style (Inline.parse newLine) ∧
      (Inline.parse newLine).filter Inline.isSpaced = (Inline.parse line).filter Inline.isSpaced ∧
      formatLine style newLine = (newLine, (newLine.length : Int)) := by
  intro newLine
  by_cases hline : line = []
  · subst hline
    rw [show newLine = [] from congrArg Prod.fst (formatLine_nil style none none), Inline.parse_nil]
    exact ⟨trivial, rfl, rfl⟩
  · have hloose := Inline.loose_resetAll_of_apart style h
    have hnew : newLine = (formatParts style line none none).capitalize style := by
      rw [show newLine = (formatLine style line).1 from rfl, formatLine_eq hline]
    have hne := hloose.capitalize_ne_nil hline none
    have hparse := hloose.parse_capitalize none
    have hset := hloose.setParts_capitalize none
    have hraised := hloose.raised_again
    have htext := Inline.textOf_raisedParts style line none
    rw [← hnew] at hne hparse hset hraised htext
    refine ⟨?_, ?_, ?_⟩
    · rw [hparse]
      exact hloose.allSettled_raisedParts none
    · rw [hparse, Inline.raisedParts, Inline.filter_raiseAt, Inline.setParts, Inline.filter_glueAll,
        Inline.filter_resetAll]
    · have hsame : (formatParts style newLine none none).capitalize style = newLine := by
        rw [capitalize_eq, hraised, raiseAt_eq_self (by simp), Inline.text_formatParts, hset, htext]
      rw [formatLine_eq hne, hsame, caret_formatParts_none]
      rfl

/-- A line with code, a formula and emphasis, and with a stray dollar and a stray backtick. -/
theorem formatLine_apart_stray_marks :
    let style : Style := { codeSpaces := .strict, formulaSpaces := .strict }
    let line : Text := "- see`a`,然后$x$。**用`c`吗**$5 of`".toList
    let newLine : Text := "- See `a` ,然后 $x$ 。**用 `c` 吗**$5 of`".toList
    Inline.AllApart (Inline.parse line) ∧ (formatLine style line).1 = newLine ∧
      Inline.AllSettled style (Inline.parse newLine) ∧
      (Inline.parse newLine).filter Inline.isSpaced = (Inline.parse line).filter Inline.isSpaced ∧
      formatLine style newLine = (newLine, (newLine.length : Int)) := by
  intro style line newLine
  have happart : Inline.AllApart (Inline.parse line) := by decide +kernel
  have hline : (formatLine style line).1 = newLine := by decide +kernel
  have hset := formatLine_apart style happart
  rw [hline] at hset
  exact ⟨happart, hline, hset⟩

/-- **Neighbours that meet with a backtick on both sides do not stay.**  A strict style parts the
stray backtick from the code behind it, and the backtick then encloses the blank: the code `a` is
lost, and setting the line again parts what is code now from the text behind it. -/
theorem formatLine_stray :
    let style : Style := { codeSpaces := .strict }
    let line : Text := "``a`".toList
    let newLine : Text := "` `a`".toList
    ¬ Inline.AllApart (Inline.parse line) ∧ (formatLine style line).1 = newLine ∧
      ((Inline.parse line).filter Inline.isSpaced).map Inline.text = ["`a`".toList] ∧
      ((Inline.parse newLine).filter Inline.isSpaced).map Inline.text = ["` `".toList] ∧
      (formatLine style newLine).1 = "` ` a`".toList := by
  decide +kernel

end TypingAid
