import TypingAid.Text.Position
import Mathlib.Data.List.TakeWhile
import Mathlib.Tactic.Conv

/-!
# Lines of a text that is put together

Every incremental argument about a document cuts its text somewhere and asks which lines the two
halves contribute.  A cut runs through one line: the lines above it are those of the first half
alone, the lines below it are those of the second half alone, and the cut line is the last line of
the first half followed by the first line of the second.

* `lines_append` and `getElem?_lines_append` say so for the list of lines and for one line.
* `ofLines_lines` and `lines_ofLines`: a text and its lines determine each other.
* `length_lines`: there is one line more than there are line breaks.
-/

namespace TypingAid

namespace Text

/-- The first line. -/
def firstLine (t : Text) : Text := t.takeWhile (· ≠ '\n')

/-- The last line. -/
def lastLine (t : Text) : Text := (firstLine t.reverse).reverse

theorem splitAt_eq_splitOn {α : Type} [DecidableEq α] (sep : α) (t : List α) :
    splitAt sep t = t.splitOn sep := by
  induction t with
  | nil => rfl
  | cons c t ih =>
    rw [List.splitOn_cons_eq_if_modifyHead, splitAt, ih]
    by_cases h : c = sep
    · simp [h]
    · obtain ⟨piece, rest, hr⟩ := List.exists_cons_of_ne_nil (List.splitOn_ne_nil sep t)
      simp [h, hr]

theorem lines_eq_splitOn (t : Text) : lines t = t.splitOn '\n' := splitAt_eq_splitOn '\n' t

@[simp] theorem lines_ne_nil (t : Text) : lines t ≠ [] := by
  rw [lines_eq_splitOn]; exact List.splitOn_ne_nil '\n' t

@[simp] theorem ofLines_lines (t : Text) : ofLines (lines t) = t := by
  rw [ofLines, lines_eq_splitOn, List.intercalate_splitOn]

theorem lines_ofLines {ls : List Text} (hne : ls ≠ []) (h : ∀ l ∈ ls, '\n' ∉ l) :
    lines (ofLines ls) = ls := by
  rw [ofLines, lines_eq_splitOn, List.splitOn_intercalate '\n' h hne]

theorem lines_of_not_mem {t : Text} (h : '\n' ∉ t) : lines t = [t] := by
  rw [lines_eq_splitOn, List.splitOn_eq_singleton h]

theorem lines_append_newline (x y : Text) : lines (x ++ '\n' :: y) = lines x ++ lines y := by
  simp only [lines_eq_splitOn, List.splitOn_append_cons_self]

/-- No line holds a line break. -/
theorem newline_not_mem_of_mem_lines {t l : Text} (h : l ∈ lines t) : '\n' ∉ l := by
  induction t generalizing l with
  | nil => simp_all [lines, splitAt]
  | cons c t ih =>
    rw [lines_eq_splitOn, List.splitOn_cons_eq_if_modifyHead, ← lines_eq_splitOn] at h
    obtain ⟨piece, rest, hr⟩ := List.exists_cons_of_ne_nil (lines_ne_nil t)
    have hp : '\n' ∉ piece := ih (by simp [hr])
    by_cases hc : c = '\n'
    · simp only [hc, beq_self_eq_true, if_true, List.mem_cons] at h
      rcases h with rfl | h
      · simp
      · exact ih h
    · simp only [beq_iff_eq, hc, if_false, hr, List.modifyHead_cons, List.mem_cons] at h
      rcases h with rfl | h
      · simp [Ne.symm hc, hp]
      · exact ih (by simp [hr, h])

theorem length_lines (t : Text) : (lines t).length = t.count '\n' + 1 := by
  induction t with
  | nil => rfl
  | cons c t ih =>
    rw [lines_eq_splitOn, List.splitOn_cons_eq_if_modifyHead, ← lines_eq_splitOn]
    by_cases hc : c = '\n'
    · simp [hc, ih]
    · simp [hc, ih]

/-! ### Cutting through a line -/

theorem newline_not_mem_firstLine (t : Text) : '\n' ∉ firstLine t :=
  fun h => by simpa using List.mem_takeWhile_imp h

theorem newline_not_mem_lastLine (t : Text) : '\n' ∉ lastLine t := by
  rw [lastLine, List.mem_reverse]; exact newline_not_mem_firstLine t.reverse

theorem firstLine_of_not_mem {t : Text} (h : '\n' ∉ t) : firstLine t = t :=
  List.takeWhile_eq_self_iff.2 fun c hc => by
    have : c ≠ '\n' := fun e => h (e ▸ hc)
    simpa using this

theorem lastLine_of_not_mem {t : Text} (h : '\n' ∉ t) : lastLine t = t := by
  rw [lastLine, firstLine_of_not_mem (by simpa using h), List.reverse_reverse]

theorem firstLine_append_newline {x : Text} (h : '\n' ∉ x) (y : Text) :
    firstLine (x ++ '\n' :: y) = x := by
  have hx : ∀ c ∈ x, (decide (c ≠ '\n')) = true := fun c hc => by
    have : c ≠ '\n' := fun e => h (e ▸ hc)
    simpa using this
  rw [firstLine, List.takeWhile_append_of_pos hx]
  simp

theorem lastLine_append_newline (x : Text) {y : Text} (h : '\n' ∉ y) :
    lastLine (x ++ '\n' :: y) = y := by
  have : (x ++ '\n' :: y).reverse = y.reverse ++ '\n' :: x.reverse := by simp
  rw [lastLine, this, firstLine_append_newline (by simpa using h), List.reverse_reverse]

/-- A text is one line, or it ends with a line break and its last line. -/
theorem eq_lastLine_or (t : Text) : t = lastLine t ∨ ∃ u, t = u ++ '\n' :: lastLine t := by
  by_cases h : '\n' ∈ t
  · right
    obtain ⟨v, u, ht, hv⟩ := List.eq_append_cons_of_mem (List.mem_reverse.2 h)
    have ht' : t = u.reverse ++ '\n' :: v.reverse := by simpa using congrArg List.reverse ht
    refine ⟨u.reverse, ?_⟩
    conv_rhs => rw [ht', lastLine_append_newline _ (by simpa using hv)]
    exact ht'
  · exact .inl (lastLine_of_not_mem h).symm

theorem eq_firstLine_or (t : Text) : t = firstLine t ∨ ∃ u, t = firstLine t ++ '\n' :: u := by
  by_cases h : '\n' ∈ t
  · right
    obtain ⟨v, u, ht, hv⟩ := List.eq_append_cons_of_mem h
    refine ⟨u, ?_⟩
    conv_rhs => rw [ht, firstLine_append_newline hv]
    exact ht
  · exact .inl (firstLine_of_not_mem h).symm

theorem lines_eq_firstLine_cons (t : Text) : lines t = firstLine t :: (lines t).tail := by
  rcases eq_firstLine_or t with h | ⟨u, h⟩
  · rw [h, lines_of_not_mem (newline_not_mem_firstLine t),
      firstLine_of_not_mem (newline_not_mem_firstLine t), List.tail_cons]
  · have hl := lines_append_newline (firstLine t) u
    rw [← h, lines_of_not_mem (newline_not_mem_firstLine t)] at hl
    rw [hl]; rfl

theorem lines_eq_dropLast_append (t : Text) : lines t = (lines t).dropLast ++ [lastLine t] := by
  rcases eq_lastLine_or t with h | ⟨u, h⟩
  · rw [h, lines_of_not_mem (newline_not_mem_lastLine t),
      lastLine_of_not_mem (newline_not_mem_lastLine t)]; rfl
  · have hl := lines_append_newline u (lastLine t)
    rw [← h, lines_of_not_mem (newline_not_mem_lastLine t)] at hl
    rw [hl, List.dropLast_concat]

/-- **The lines of a text in two halves.**  The cut runs through the last line of the first half
and the first line of the second half. -/
theorem lines_append (x y : Text) :
    lines (x ++ y) = (lines x).dropLast ++ (lastLine x ++ firstLine y) :: (lines y).tail := by
  -- the line that is cut holds no line break, so it is one line whatever stands around it
  have key : ∀ v : Text, '\n' ∉ v → lines (v ++ y) = (v ++ firstLine y) :: (lines y).tail := by
    intro v hv
    rcases eq_firstLine_or y with h | ⟨u, h⟩
    · have hy : '\n' ∉ y := h ▸ newline_not_mem_firstLine y
      rw [lines_of_not_mem (by simp [hv, hy]), lines_of_not_mem hy, ← h]; rfl
    · have hvf : '\n' ∉ v ++ firstLine y := by simp [hv, newline_not_mem_firstLine y]
      have hl := lines_append_newline (v ++ firstLine y) u
      have hy := lines_append_newline (firstLine y) u
      rw [List.append_assoc, ← h, lines_of_not_mem hvf] at hl
      rw [← h, lines_of_not_mem (newline_not_mem_firstLine y)] at hy
      rw [hl, hy]; rfl
  rcases eq_lastLine_or x with h | ⟨u, h⟩
  · rw [← key _ (newline_not_mem_lastLine x), ← h]
    have hx : '\n' ∉ x := h ▸ newline_not_mem_lastLine x
    simp [lines_of_not_mem hx]
  · have hl := lines_append_newline u (lastLine x ++ y)
    have hx := lines_append_newline u (lastLine x)
    rw [← List.cons_append, ← List.append_assoc, ← h, key _ (newline_not_mem_lastLine x)] at hl
    rw [← h, lines_of_not_mem (newline_not_mem_lastLine x)] at hx
    rw [hl, hx, List.dropLast_concat]

theorem length_dropLast_lines (t : Text) : (lines t).dropLast.length = t.count '\n' := by
  rw [List.length_dropLast, length_lines, Nat.add_sub_cancel]

theorem getElem?_dropLast_lines {t : Text} {i : ℕ} (h : i < t.count '\n') :
    (lines t).dropLast[i]? = (lines t)[i]? := by
  conv_rhs => rw [lines_eq_dropLast_append]
  rw [List.getElem?_append_left (by rwa [length_dropLast_lines])]

/-- One line of a text in two halves. -/
theorem getElem?_lines_append (x y : Text) (i : ℕ) :
    (lines (x ++ y))[i]? =
      if i < x.count '\n' then (lines x)[i]?
      else if i = x.count '\n' then some (lastLine x ++ firstLine y)
      else (lines y)[i - x.count '\n']? := by
  rw [lines_append]
  split_ifs with hlt heq
  · rw [List.getElem?_append_left (by rwa [length_dropLast_lines]), getElem?_dropLast_lines hlt]
  · rw [List.getElem?_append_right (by rw [length_dropLast_lines]; omega), length_dropLast_lines,
      heq, Nat.sub_self, List.getElem?_cons_zero]
  · obtain ⟨k, hk⟩ : ∃ k, i - x.count '\n' = k + 1 := ⟨i - x.count '\n' - 1, by omega⟩
    rw [List.getElem?_append_right (by rw [length_dropLast_lines]; omega), length_dropLast_lines, hk,
      List.getElem?_cons_succ]
    conv_rhs => rw [lines_eq_firstLine_cons y, List.getElem?_cons_succ]

theorem getElem?_lines_count (t : Text) : (lines t)[t.count '\n']? = some (lastLine t) := by
  have h := getElem?_lines_append t [] (t.count '\n')
  simpa [firstLine] using h

end Text

end TypingAid
