import TypingAid.Block.Outline
import TypingAid.Proofs.Text.Lines

/-!
# Locality of classification

What a line is depends on the line, on its number and on the block that the line before leaves
open, and on nothing else (`getElem?_ofText`).  So an outline that is right for each of the first
`n` lines of a text, one at a time, agrees with the outline of the text on all of them
(`getElem?_eq_ofText`), and classifying anew from line `n` on gives the outline of the text
(`reparse_eq_ofText`).  Where the lines taken over are other ones, it does not
(`reparse_eq_ofText_iff`).  If all lines are right, nothing is left to classify
(`setContent_eq_ofText`).

A line is right when `Outline.isStale` says that it is not stale.  So is a line that has not changed
since the whole text was classified, and with it the outline of the old text is as good as any:
`reparse_ofText` goes from one text to another that agrees with it above a line.
-/

namespace TypingAid

namespace Outline

theorem length_scan (ls : List Text) (i : ℕ) (b : OpenBlock) :
    (scan ls i b).length = ls.length := by
  induction ls generalizing i b with
  | nil => rfl
  | cons l ls ih => simp [scan, ih]

@[simp] theorem length_ofText (t : Text) : (ofText t).lines.length = (Text.lines t).length :=
  length_scan _ _ _

theorem isEmpty_ofText (t : Text) : (ofText t).isEmpty = false := by
  rw [isEmpty, List.isEmpty_eq_false_iff, ← List.length_pos_iff, length_ofText, Text.length_lines]
  omega

/-- The block open before line `n` of a scan that starts after `b`. -/
def openAt (infos : List LineInfo) (b : OpenBlock) (n : ℕ) : OpenBlock :=
  if n = 0 then b else (infos[n - 1]?.map LineInfo.after).getD .none

theorem getElem?_scan (ls : List Text) (i : ℕ) (b : OpenBlock) (n : ℕ) :
    (scan ls i b)[n]? =
      ls[n]?.map fun line => classify line (i + n) (openAt (scan ls i b) b n) := by
  induction ls generalizing i b n with
  | nil => simp [scan]
  | cons l ls ih =>
    cases n with
    | zero => simp [scan, openAt]
    | succ n =>
      have hopen : openAt (scan (l :: ls) i b) b (n + 1) =
          openAt (scan ls (i + 1) (classify l i b).after) (classify l i b).after n := by
        cases n with
        | zero => simp [scan, openAt]
        | succ n => simp [scan, openAt]
      rw [hopen, scan, List.getElem?_cons_succ, List.getElem?_cons_succ, ih]
      congr 2
      funext line
      congr 1
      omega

/-- What a line of a text is, from the line and the block open before it. -/
theorem getElem?_ofText (t : Text) (n : ℕ) :
    (ofText t).lines[n]? =
      (Text.lines t)[n]?.map fun line => classify line n ((ofText t).openBefore n) := by
  have h := getElem?_scan (Text.lines t) 0 .none n
  rw [Nat.zero_add] at h
  exact h

theorem scan_append (ls ms : List Text) (i : ℕ) (b : OpenBlock) :
    scan (ls ++ ms) i b =
      scan ls i b ++ scan ms (i + ls.length) (openAt (scan ls i b) b ls.length) := by
  induction ls generalizing i b with
  | nil => simp [scan, openAt]
  | cons l ls ih =>
    have hopen : openAt (scan (l :: ls) i b) b (l :: ls).length =
        openAt (scan ls (i + 1) (classify l i b).after) (classify l i b).after ls.length := by
      cases ls with
      | nil => simp [scan, openAt]
      | cons m ls => simp [scan, openAt]
    rw [hopen, List.cons_append, scan, ih, scan, List.cons_append, List.length_cons]
    congr 3
    omega

/-! ### Lines that are right -/

theorem isStale_eq_false_iff {o : Outline} {t : Text} {n : ℕ} :
    o.isStale t n = false ↔ ∃ line, (Text.lines t)[n]? = some line ∧
      o.lines[n]? = some (classify line n (o.openBefore n)) := by
  have hn : ¬ ((n : Int) < 0) := by omega
  simp only [isStale, hn, if_false, Int.toNat_natCast]
  cases ho : o.lines[n]? with
  | none => simp
  | some info =>
    cases hl : (Text.lines t)[n]? with
    | none => simp
    | some line =>
      simp only [Option.some.injEq, exists_eq_left', decide_eq_false_iff_not, not_not]
      exact eq_comm

/-- A line that is the same in two texts is right for the second if the outline is the first's. -/
theorem isStale_ofText_of_eq {t t' : Text} {n : ℕ} (hn : n < (Text.lines t').length)
    (h : (Text.lines t')[n]? = (Text.lines t)[n]?) : (ofText t).isStale t' n = false := by
  refine isStale_eq_false_iff.2 ⟨(Text.lines t')[n], List.getElem?_eq_getElem hn, ?_⟩
  rw [getElem?_ofText, ← h, List.getElem?_eq_getElem hn, Option.map_some]

theorem getElem?_eq_ofText {o : Outline} {t : Text} {n : ℕ}
    (h : ∀ i < n, o.isStale t i = false) : ∀ i < n, o.lines[i]? = (ofText t).lines[i]? := by
  intro i
  induction i using Nat.strong_induction_on with
  | h i ih =>
    intro hi
    obtain ⟨line, hline, ho⟩ := isStale_eq_false_iff.1 (h i hi)
    have hopen : o.openBefore i = (ofText t).openBefore i := by
      cases i with
      | zero => rfl
      | succ j => simp only [openBefore, Nat.add_sub_cancel, ih j (by omega) (by omega)]
    rw [ho, getElem?_ofText, hline, Option.map_some, hopen]

theorem take_eq_ofText {o : Outline} {t : Text} {n : ℕ}
    (h : ∀ i < n, o.isStale t i = false) : o.lines.take n = (ofText t).lines.take n := by
  apply List.ext_getElem?
  intro i
  simp only [List.getElem?_take]
  split_ifs with hi
  · exact getElem?_eq_ofText h i hi
  · rfl

/-- Lines taken over are right if the text has the same ones: all that they are looked at for is the
block that the last of them leaves open. -/
theorem reparse_of_take_eq {o : Outline} {t : Text} {n : ℕ}
    (h : o.lines.take n = (ofText t).lines.take n) : o.reparse t n = ofText t := by
  simp only [reparse, Int.toNat_natCast]
  split_ifs with hc
  · rfl
  · have hlen : n ≤ (Text.lines t).length := by omega
    have hopen : o.openBefore n = openAt ((ofText t).lines.take n) .none n := by
      cases n with
      | zero => rfl
      | succ j => simp [← h, openBefore, openAt]
    have hsplit := scan_append ((Text.lines t).take n) ((Text.lines t).drop n) 0 .none
    have htake : scan ((Text.lines t).take n) 0 .none = (ofText t).lines.take n := by
      have := congrArg (List.take n) hsplit
      rw [List.take_append_drop, List.take_left' (by rw [length_scan, List.length_take]; omega)]
        at this
      exact this.symm
    rw [h, hopen, ofText]
    congr 1
    rw [List.take_append_drop, htake, List.length_take, Nat.min_eq_left hlen, Nat.zero_add] at hsplit
    exact hsplit.symm

/-- **Classifying anew from a line on is enough** when every line before it is right. -/
theorem reparse_eq_ofText {o : Outline} {t : Text} {n : ℕ}
    (h : ∀ i < n, o.isStale t i = false) : o.reparse t n = ofText t :=
  reparse_of_take_eq (take_eq_ofText h)

/-- **It is enough for no other outline**, except where all lines are classified anyway. -/
theorem reparse_eq_ofText_iff {o : Outline} {t : Text} {n : ℕ} (hn : n ≤ (Text.lines t).length) :
    o.reparse t n = ofText t ↔
      o.isEmpty = true ∨ o.lines.length < n ∨ o.lines.take n = (ofText t).lines.take n := by
  constructor
  · intro h
    by_cases hc : o.isEmpty = true ∨ o.lines.length < n
    · exact hc.imp_right .inl
    · have hkeep : ¬ (o.isEmpty = true ∨ o.lines.length < n ∨ (Text.lines t).length < n) := by
        rw [← or_assoc, not_or]
        exact ⟨hc, hn.not_gt⟩
      -- the lines taken over are the first ones of the result
      have hlines : (o.reparse t n).lines.take n = o.lines.take n := by
        simp only [reparse, Int.toNat_natCast, if_neg hkeep]
        exact List.take_left' (by rw [List.length_take]; omega)
      rw [h] at hlines
      exact .inr (.inr hlines.symm)
  · rintro (h | h | h)
    · simp [reparse, h]
    · simp [reparse, h]
    · exact reparse_of_take_eq h

/-- An outline in which every line is right only needs the new text. -/
theorem setContent_eq_ofText {o : Outline} {t : Text}
    (hlen : o.lines.length = (Text.lines t).length)
    (h : ∀ i < (Text.lines t).length, o.isStale t i = false) : o.setContent t = ofText t := by
  have htake := take_eq_ofText h
  rw [List.take_of_length_le hlen.le, List.take_of_length_le (length_ofText t).le] at htake
  rw [setContent, htake]
  rfl

theorem isStale_ofText_self {t : Text} {n : ℕ} (hn : n < (Text.lines t).length) :
    (ofText t).isStale t n = false := isStale_ofText_of_eq hn rfl

theorem reparse_ofText_self (t : Text) {n : ℕ} (hn : n ≤ (Text.lines t).length) :
    (ofText t).reparse t n = ofText t :=
  reparse_eq_ofText fun _ hi => isStale_ofText_self (by omega)

theorem reparse_of_isEmpty {o : Outline} (h : o.isEmpty = true) (t : Text) (n : Int) :
    o.reparse t n = ofText t := by
  simp [reparse, h]

/-! ### From one text to another -/

/-- What the first `n` lines of a text are depends on these lines alone. -/
theorem take_ofText_congr {t t' : Text} {n : ℕ} (hn : n ≤ (Text.lines t').length)
    (h : ∀ i < n, (Text.lines t')[i]? = (Text.lines t)[i]?) :
    (ofText t).lines.take n = (ofText t').lines.take n :=
  take_eq_ofText fun i hi => isStale_ofText_of_eq (by omega) (h i hi)

/-- A line beyond those of one of the two texts means to classify all of the new one. -/
theorem reparse_beyond {t t' : Text} {start : Int}
    (h : ¬ (start ≤ (Text.lines t).length ∧ start ≤ (Text.lines t').length)) :
    (ofText t).reparse t' start = ofText t' := by
  rw [reparse, if_pos]
  rw [length_ofText]
  omega

/-- **Classifying a text anew from a line on gives its outline**, whatever the line, if the lines
taken over are the same in the text that was classified before. -/
theorem reparse_ofText {t t' : Text} {start : Int}
    (h : start ≤ (Text.lines t).length → start ≤ (Text.lines t').length →
      ∀ i : ℕ, i < start → (Text.lines t')[i]? = (Text.lines t)[i]?) :
    (ofText t).reparse t' start = ofText t' := by
  by_cases hin : start ≤ (Text.lines t).length ∧ start ≤ (Text.lines t').length
  · have htake : (ofText t).lines.take start.toNat = (ofText t').lines.take start.toNat :=
      take_ofText_congr (by omega) fun i hi => h hin.1 hin.2 i (by omega)
    -- a negative start counts as the first line
    have hclip : (ofText t).reparse t' start = (ofText t).reparse t' start.toNat := by
      rw [reparse, reparse, Int.toNat_natCast]
    rw [hclip, reparse_of_take_eq htake]
  · exact reparse_beyond hin

/-- The front matter is taken over; behind it, one code block has been put in place of another. -/
theorem reparse_ofText_fence :
    let t := "---\na: b\n---\n~~~\nc\n```\nd".toList
    let t' := "---\na: b\n---\n````\nc".toList
    (3 ≤ (Text.lines t).length → 3 ≤ (Text.lines t').length →
      ∀ i : ℕ, i < 3 → (Text.lines t')[i]? = (Text.lines t)[i]?) ∧
      (ofText t).reparse t' 3 = ofText t' ∧
        ((ofText t).reparse t' 3).kinds =
          [.frontMatter, .frontMatter, .frontMatter, .code, .code] := by
  intro t t'
  have hlines : ∀ i : ℕ, i < 3 → (Text.lines t')[i]? = (Text.lines t)[i]? := by decide
  have hwhole : (ofText t).reparse t' 3 = ofText t' :=
    reparse_ofText fun _ _ i hi => hlines i (by omega)
  exact ⟨fun _ _ => hlines, hwhole, by rw [hwhole]; decide⟩

end Outline

end TypingAid
