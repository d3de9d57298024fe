import TypingAid.Proofs.Text.Place

/-!
# Offsets, positions and lines

An offset is told by a line and a column, and the line and the column tell the offset.  Both are
read off one way to cut the text: what stands above a line, the line, and what stands below
(`Text.exists_lineBounds` cuts it at an offset, `Text.exists_line` at the number of a line).  In such
a text

* the offset `k` characters into the line has the column `k` in that line
  (`Text.position_between`), and
* a column of that line is the offset that many characters into it, or the end of the line
  (`Text.offsetAt_between`).

So the two conversions undo each other, and out of range they clamp (`Text.position_offsetAt`).
-/

namespace TypingAid.Text

variable {x l y t : Text}

theorem length_lastLine (t : Text) : (lastLine t).length = lastLineLength t := by
  rw [lastLine, List.length_reverse]
  rfl

theorem position_clamp (t : Text) (offset : Int) :
    position t (clamp t offset) = position t offset := by
  rw [position, position, clamp_clamp]

theorem lineBounds_clamp (t : Text) (offset : Int) :
    lineBounds t (clamp t offset) = lineBounds t offset := by
  rw [lineBounds, lineBounds, clamp_clamp]

/-! ### A text around a line -/

/-- A place in a line is told by the line breaks above and the characters in front. -/
theorem position_between (hx : lastLine x = []) (hl : '\n' ∉ l) {k : ℕ} (hk : k ≤ l.length)
    (y : Text) : position (x ++ (l ++ y)) (x.length + k : ℕ) = ⟨x.count '\n', k⟩ := by
  have hclamp : clamp (x ++ (l ++ y)) (x.length + k : ℕ) = x.length + k := by
    simp only [clamp, List.length_append]; omega
  have htake : (x ++ (l ++ y)).take (x.length + k) = x ++ l.take k := by
    rw [List.take_length_add_append, List.take_append_of_le_length hk]
  have hfront : '\n' ∉ l.take k := mt List.mem_of_mem_take hl
  rw [position, hclamp, htake, List.count_append, List.count_eq_zero_of_not_mem hfront,
    ← length_lastLine, lastLine_append hx hfront, List.length_take, Nat.min_eq_left hk, Nat.add_zero]

/-- A column of a line, or the end of the line. -/
theorem offsetAt_between (hx : lastLine x = []) (hl : '\n' ∉ l) (hy : firstLine y = [])
    (column : Int) : offsetAt (x ++ (l ++ y)) (x.count '\n') column =
      x.length + min column.toNat l.length := by
  rw [offsetAt, Int.toNat_natCast, offsetFrom_append hx, ← length_firstLine, firstLine_append hl hy]

/-- A line beyond the last one is at the end of the text. -/
theorem offsetFrom_of_count_lt {n : ℕ} (h : t.count '\n' < n) (column : Int) :
    offsetFrom t n column = t.length := by
  obtain ⟨n, rfl⟩ := Nat.exists_eq_succ_of_ne_zero (Nat.ne_zero_of_lt h)
  induction t generalizing n with
  | nil => rfl
  | cons c t ih =>
    rw [offsetFrom, List.length_cons, Nat.add_comm]
    by_cases hc : c = '\n'
    · rw [if_pos hc]
      rw [hc, List.count_cons_self] at h
      obtain ⟨m, rfl⟩ := Nat.exists_eq_succ_of_ne_zero (Nat.ne_zero_of_lt (Nat.lt_of_succ_lt_succ h))
      rw [ih m (Nat.lt_of_succ_lt_succ h)]
    · rw [if_neg hc]
      rw [List.count_cons_of_ne hc] at h
      rw [ih n h]

/-- A text around the line of an offset, with what is said of that offset. -/
theorem exists_position (t : Text) (offset : Int) :
    ∃ x l y : Text, ∃ k ≤ l.length, t = x ++ (l ++ y) ∧ clamp t offset = x.length + k ∧
      position t offset = ⟨x.count '\n', k⟩ ∧
      lineBounds t offset = (x.length, x.length + l.length) ∧
      (lines t)[x.count '\n']? = some l ∧
        ∀ column, offsetAt t (x.count '\n') column = x.length + min column.toNat l.length := by
  obtain ⟨x, l, y, k, hk, ht, hclamp, hx, hl, hy⟩ := exists_lineBounds t offset
  refine ⟨x, l, y, k, hk, ht, hclamp, ?_, ?_, ?_, fun column => ?_⟩
  · rw [← position_clamp, hclamp, ht, position_between hx hl hk]
  · rw [← lineBounds_clamp, hclamp, ht, lineBounds_eq hx hl hy hk]
  · rw [ht, getElem?_lines_between hx hl hy]
  · rw [ht, offsetAt_between hx hl hy]

/-- A text around one of its lines, with where the columns of that line are. -/
theorem exists_offsetAt {n : ℕ} {l : Text} (h : (lines t)[n]? = some l) :
    ∃ x y : Text, t = x ++ (l ++ y) ∧ x.count '\n' = n ∧ lastLine x = [] ∧ '\n' ∉ l ∧
      ∀ column, offsetAt t n column = x.length + min column.toNat l.length := by
  obtain ⟨hn, rfl⟩ := List.getElem?_eq_some_iff.1 h
  obtain ⟨x, y, ht, -, hcount, hx, hy⟩ := exists_line hn
  have hl : '\n' ∉ (lines t)[n] := newline_not_mem_of_mem_lines (List.getElem_mem hn)
  refine ⟨x, y, ht, hcount, hx, hl, fun column => ?_⟩
  have hat := offsetAt_between hx hl hy column
  rwa [← ht, hcount] at hat

/-! ### Any line and any column -/

/-- A line counted below zero is the first one. -/
theorem offsetAt_toNat (t : Text) (n column : Int) :
    offsetAt t n.toNat column = offsetAt t n column := by
  rw [offsetAt, offsetAt, Int.toNat_natCast]

theorem offsetAt_of_length_le {n : ℕ} (h : (lines t).length ≤ n) (column : Int) :
    offsetAt t n column = t.length := by
  rw [length_lines] at h
  exact offsetFrom_of_count_lt h column

/-- Every column is at some offset of the text, and of two columns the smaller one is no later. -/
theorem offsetAt_mono (t : Text) (n : ℕ) {column column' : Int} (h : column ≤ column') :
    offsetAt t n column ≤ offsetAt t n column' ∧ offsetAt t n column' ≤ t.length := by
  cases hn : (lines t)[n]? with
  | none =>
    have hle := List.getElem?_eq_none_iff.1 hn
    rw [offsetAt_of_length_le hle, offsetAt_of_length_le hle]
    exact ⟨le_rfl, le_rfl⟩
  | some l =>
    obtain ⟨x, y, ht, -, -, -, hat⟩ := exists_offsetAt hn
    have hlen := congrArg List.length ht
    simp only [List.length_append] at hlen
    rw [hat, hat]
    omega

/-- **Further down is no earlier**, whatever the columns are. -/
theorem offsetAt_le_of_lt {n m : ℕ} (h : n < m) (column column' : Int) :
    offsetAt t n column ≤ offsetAt t m column' := by
  cases hm : (lines t)[m]? with
  | none =>
    rw [offsetAt_of_length_le (List.getElem?_eq_none_iff.1 hm)]
    exact (offsetAt_mono t n (Int.le_refl _)).2
  | some l' =>
    have hlt : n < (lines t).length := h.trans (List.getElem?_eq_some_iff.1 hm).1
    obtain ⟨x, y, ht, hcount, -, hl, hat⟩ := exists_offsetAt (List.getElem?_eq_getElem hlt)
    obtain ⟨x', y', ht', hcount', -, -, hat'⟩ := exists_offsetAt hm
    -- the upper line and all above it stand in front of the lower line
    have hfront : (x ++ (lines t)[n]).count '\n' < x'.count '\n' := by
      rw [List.count_append, List.count_eq_zero_of_not_mem hl]
      omega
    have hcut : (x ++ (lines t)[n]) ++ y = x' ++ (l' ++ y') := by
      rw [List.append_assoc, ← ht, ← ht']
    have hle := length_le_of_count_lt hcut hfront
    rw [List.length_append] at hle
    rw [hat, hat']
    omega

/-! ### The theorem -/

/-- **Offsets and positions determine each other.**

* An offset in the text is the one that its position has.  It lies between the bounds of its line,
  and what stands between them is the line with the number that the position tells.
* A line of the text and a column in it are the position of their offset.
* An offset out of range is read as the nearest end of the text, so that every offset has a line of
  the text and a column in it.
* A line below zero is read as the first one, a column out of range as the nearest end of its line,
  and a line beyond the last one as the end of the text.
* A later position, by line and then by column, is at no smaller offset. -/
theorem position_offsetAt (t : Text) :
    (∀ o : ℕ, o ≤ t.length → offsetAt t (position t o).line (position t o).column = o ∧
      (lineBounds t o).1 ≤ o ∧ o ≤ (lineBounds t o).2 ∧ (lineBounds t o).2 ≤ t.length ∧
      (lines t)[(position t o).line]? = some (slice t (lineBounds t o).1 (lineBounds t o).2)) ∧
    (∀ (n : ℕ) (l : Text), (lines t)[n]? = some l → ∀ k : ℕ, k ≤ l.length →
      position t (offsetAt t n k) = ⟨n, k⟩) ∧
    (∀ o : Int, position t o = position t (clamp t o) ∧
      lineBounds t o = lineBounds t (clamp t o) ∧
      ∃ l, (lines t)[(position t o).line]? = some l ∧ (position t o).column ≤ l.length) ∧
    (∀ n column : Int, offsetAt t n column ≤ t.length ∧
      offsetAt t n column = offsetAt t (max 0 n) column) ∧
    (∀ (n : ℕ) (l : Text), (lines t)[n]? = some l → ∀ column : Int,
      offsetAt t n column = offsetAt t n (max 0 (min column l.length)) ∧
      (position t (offsetAt t n column)).line = n) ∧
    (∀ n : Int, (lines t).length ≤ n → ∀ column, offsetAt t n column = t.length) ∧
    (∀ n m column column' : Int, 0 ≤ n → n < m ∨ n = m ∧ column ≤ column' →
      offsetAt t n column ≤ offsetAt t m column') := by
  refine ⟨fun o ho => ?_, fun n l hn k hk => ?_, fun o => ?_, fun n column => ?_,
    fun n l hn column => ?_, fun n hn column => ?_, fun n m column column' hnonneg hle => ?_⟩
  · obtain ⟨x, l, y, k, hk, ht, hclamp, hposition, hbounds, hline, hat⟩ := exists_position t o
    rw [clamp_natCast ho] at hclamp
    have hlen := congrArg List.length ht
    simp only [List.length_append] at hlen
    have hslice : slice t x.length (x.length + l.length : ℕ) = l := by rw [ht, slice_between]
    rw [hposition, hbounds, hat, hslice]
    dsimp only
    exact ⟨by omega, by omega, by omega, by omega, hline⟩
  · obtain ⟨x, y, ht, hcount, hx, hl, hat⟩ := exists_offsetAt hn
    rw [hat, Int.toNat_natCast, Nat.min_eq_left hk, ht, position_between hx hl hk, hcount]
  · obtain ⟨x, l, y, k, hk, -, -, hposition, -, hline, -⟩ := exists_position t o
    refine ⟨(position_clamp t o).symm, (lineBounds_clamp t o).symm, l, ?_⟩
    rw [hposition]
    exact ⟨hline, hk⟩
  · have hmax : (max 0 n).toNat = n.toNat := by omega
    rw [← offsetAt_toNat, ← offsetAt_toNat t (max 0 n), hmax]
    exact ⟨(offsetAt_mono t _ (Int.le_refl _)).2, rfl⟩
  · obtain ⟨x, y, ht, hcount, hx, hl, hat⟩ := exists_offsetAt hn
    have hmin : min column.toNat l.length ≤ l.length := Nat.min_le_right _ _
    refine ⟨?_, ?_⟩
    · rw [hat, hat]
      omega
    · rw [hat, ht, position_between hx hl hmin, hcount]
  · rw [← offsetAt_toNat, offsetAt_of_length_le (by omega)]
  · rw [← offsetAt_toNat, ← offsetAt_toNat t m]
    rcases hle with hlt | ⟨rfl, hle⟩
    · exact offsetAt_le_of_lt (by omega) column column'
    · exact (offsetAt_mono t _ hle).1

/-- In three lines, of which the second is empty and the last one ends with a break, so that there
is a fourth: an offset on a break, a column beyond the end of its line, a line beyond the last one,
and a position further down. -/
theorem position_offsetAt_breaks :
    let t : Text := "ab\n\ncd\n".toList
    2 ≤ t.length ∧ offsetAt t (position t 2).line (position t 2).column = 2 ∧
      (lines t)[1]? = some [] ∧ offsetAt t 1 5 = offsetAt t 1 0 ∧
      (position t (offsetAt t 1 5)).line = 1 ∧ (lines t)[2]? = some ['c', 'd'] ∧
      position t (offsetAt t 2 1) = ⟨2, 1⟩ ∧ (lines t).length ≤ 4 ∧ offsetAt t 4 1 = t.length ∧
      offsetAt t 0 9 ≤ offsetAt t 1 0 := by
  intro t
  obtain ⟨hoffset, hposition, -, -, hcolumn, hbeyond, hmono⟩ := position_offsetAt t
  have hempty : (lines t)[1]? = some [] := by decide
  have hline : (lines t)[2]? = some ['c', 'd'] := by decide
  have hlength : (lines t).length ≤ 4 := by decide
  obtain ⟨hclamped, hsame⟩ := hcolumn 1 [] hempty 5
  exact ⟨by decide, (hoffset 2 (by decide)).1, hempty, hclamped, hsame, hline,
    hposition 2 ['c', 'd'] hline 1 (by decide), hlength, hbeyond 4 (by exact_mod_cast hlength) 1,
    hmono 0 1 9 0 (by decide) (.inl (by decide))⟩

end TypingAid.Text
