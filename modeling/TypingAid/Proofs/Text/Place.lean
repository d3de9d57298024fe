import TypingAid.Proofs.Text.Lines
import TypingAid.Proofs.Text.Slice
import Mathlib.Tactic.ByContra

/-!
# Places of lines

A text is cut around one of its lines, or around a block of them, at the offsets that
`Text.offsetAt` and `Text.lineBounds` give (`exists_line`, `exists_block`).  What stands before such
a cut ends with a line break, and what stands behind it begins with one, so that other lines put in
between leave the lines around them alone (`lines_between`).

Whether an offset is at an end of its line can be read off the character next to it
(`eq_lineBounds_fst_iff`, `eq_lineBounds_snd_iff`).
-/

namespace TypingAid

namespace Text

theorem length_firstLine (t : Text) : (firstLine t).length = firstLineLength t := rfl

theorem lastLine_cons_of_mem {c : Char} {t : Text} (h : '\n' ∈ t) :
    lastLine (c :: t) = lastLine t := by
  rcases eq_lastLine_or t with ht | ⟨u, ht⟩
  · rw [ht] at h; exact absurd h (newline_not_mem_lastLine t)
  · have := lastLine_append_newline (c :: u) (newline_not_mem_lastLine t)
    rwa [List.cons_append, ← ht] at this

theorem lastLine_newline_cons (t : Text) : lastLine ('\n' :: t) = lastLine t := by
  by_cases h : '\n' ∈ t
  · exact lastLine_cons_of_mem h
  · rw [lastLine_of_not_mem h]
    exact lastLine_append_newline [] h

/-- Lines between two cuts that run along line breaks. -/
theorem lines_between {x y : Text} (hx : lastLine x = []) (hy : firstLine y = []) (mid : Text) :
    lines (x ++ (mid ++ y)) = (lines x).dropLast ++ (lines mid ++ (lines y).tail) := by
  rw [lines_append, hx, List.nil_append]
  congr 1
  have hmid := lines_append mid y
  rw [hy, List.append_nil] at hmid
  have hlines : lines (mid ++ y) = lines mid ++ (lines y).tail := by
    rw [hmid]
    conv_rhs => rw [lines_eq_dropLast_append mid]
    simp
  rw [← lines_eq_firstLine_cons, hlines]

/-- A line between two cuts that run along line breaks. -/
theorem getElem?_lines_between {x l y : Text} (hx : lastLine x = []) (hl : '\n' ∉ l)
    (hy : firstLine y = []) : (lines (x ++ (l ++ y)))[x.count '\n']? = some l := by
  rw [lines_between hx hy, lines_of_not_mem hl, List.getElem?_append_right
    (length_dropLast_lines x).le, length_dropLast_lines, Nat.sub_self]
  rfl

/-- A text is what stands above one of its lines, the line, and what stands below. -/
theorem exists_line {t : Text} {n : ℕ} (h : n < (lines t).length) :
    ∃ x y : Text, t = x ++ ((lines t)[n] ++ y) ∧ x.length = offsetFrom t n 0 ∧ x.count '\n' = n ∧
      lastLine x = [] ∧ firstLine y = [] := by
  induction t generalizing n with
  | nil =>
    -- the only line is the empty one
    obtain rfl : n = 0 := by simpa [lines, splitAt] using h
    exact ⟨[], [], rfl, rfl, rfl, rfl, rfl⟩
  | cons c t ih =>
    cases n with
    | zero =>
      refine ⟨[], (c :: t).dropWhile (· ≠ '\n'), ?_, by simp [offsetFrom], rfl, rfl, ?_⟩
      · have hfirst : (lines (c :: t))[0] = firstLine (c :: t) := by
          rw [List.getElem_eq_iff, lines_eq_firstLine_cons]; rfl
        rw [hfirst, firstLine, List.nil_append, List.takeWhile_append_dropWhile]
      · rw [firstLine, List.takeWhile_eq_nil_iff]
        intro hl
        simpa using List.dropWhile_get_zero_not (· ≠ '\n') (c :: t) hl
    | succ n =>
      have hlen := length_lines (c :: t)
      by_cases hc : c = '\n'
      · -- one line less is above in the rest
        subst hc
        have hl : lines ('\n' :: t) = [] :: lines t := lines_append_newline [] t
        obtain ⟨x, y, ht, hx, hn, hlast, hfirst⟩ := ih (n := n) (by rw [hl] at h; simpa using h)
        refine ⟨'\n' :: x, y, ?_,
          by rw [offsetFrom, if_pos rfl, List.length_cons, hx, Nat.add_comm], by simp [hn],
          by rw [lastLine_newline_cons, hlast], hfirst⟩
        · have hn : n < (lines t).length := by rw [hl] at h; simpa using h
          have hget : (lines ('\n' :: t))[n + 1] = (lines t)[n] := by
            simp only [hl, List.getElem_cons_succ]
          rw [hget, List.cons_append, ← ht]
      · -- the line is not the first one, so it is a line of the rest with the same number
        have hl : lines (c :: t) = (c :: firstLine t) :: (lines t).tail := by
          have hnot : '\n' ∉ [c] := by simpa using Ne.symm hc
          have := lines_append [c] t
          rwa [lines_of_not_mem hnot, lastLine_of_not_mem hnot] at this
        have hn' : n + 1 < (lines t).length := by
          rw [hl, List.length_cons, List.length_tail] at h; omega
        obtain ⟨x, y, ht, hx, hcount, hlast, hfirst⟩ := ih hn'
        have hm : '\n' ∈ x := List.count_pos_iff.1 (by omega)
        refine ⟨c :: x, y, ?_, by rw [offsetFrom, if_neg hc, List.length_cons, hx, Nat.add_comm],
          by simp [hc, hcount], by rw [lastLine_cons_of_mem hm, hlast], hfirst⟩
        have hget : (lines (c :: t))[n + 1] = (lines t)[n + 1] := by
          simp only [hl, List.getElem_cons_succ, List.getElem_tail]
        rw [hget, List.cons_append, ← ht]

theorem offsetAt_natCast (t : Text) (n : ℕ) : offsetAt t n 0 = offsetFrom t n 0 := rfl

/-- Columns of the line behind a cut that runs along a line break. -/
theorem offsetFrom_append {x : Text} (hx : lastLine x = []) (y : Text) (column : Int) :
    offsetFrom (x ++ y) (x.count '\n') column =
      x.length + min column.toNat (firstLineLength y) := by
  induction x with
  | nil => simp [offsetFrom]
  | cons c x ih =>
    by_cases hc : c = '\n'
    · subst hc
      rw [lastLine_newline_cons] at hx
      rw [List.count_cons_self, List.cons_append, offsetFrom, if_pos rfl, ih hx, List.length_cons]
      omega
    · -- the line break that the text ends with stands in the rest
      have hm : '\n' ∈ x := by
        by_contra hm
        rw [lastLine_of_not_mem (by simp [hm, Ne.symm hc])] at hx
        cases hx
      rw [lastLine_cons_of_mem hm] at hx
      obtain ⟨n, hn⟩ : ∃ n, x.count '\n' = n + 1 :=
        Nat.exists_eq_succ_of_ne_zero (List.count_pos_iff.2 hm).ne'
      rw [List.count_cons_of_ne hc, hn, List.cons_append, offsetFrom, if_neg hc, ← hn, ih hx,
        List.length_cons]
      omega

theorem line_position_lt (t : Text) (offset : Int) :
    (position t offset).line < (lines t).length := by
  rw [length_lines, position]
  exact Nat.lt_succ_of_le ((List.take_sublist _ _).count_le _)

theorem line_position_mono (t : Text) {a b : Int} (h : a ≤ b) :
    (position t a).line ≤ (position t b).line := by
  have hc : clamp t a ≤ clamp t b := by simp only [clamp]; omega
  simp only [position]
  have : t.take (clamp t a) = (t.take (clamp t b)).take (clamp t a) := by
    rw [List.take_take, Nat.min_eq_left hc]
  rw [this]
  exact (List.take_sublist _ _).count_le _

/-- Of two beginnings of a text, the one with fewer line breaks is the shorter one. -/
theorem length_le_of_count_lt {x y x' y' : Text} (h : x ++ y = x' ++ y')
    (hc : x.count '\n' < x'.count '\n') : x.length ≤ x'.length := by
  by_contra hlt
  have hpre : x' <+: x := List.prefix_of_prefix_length_le ⟨y', rfl⟩ ⟨y, h⟩ (by omega)
  have := hpre.sublist.count_le '\n'
  omega

/-- A line that what stands before it does not run into. -/
theorem lastLine_append {x l : Text} (hx : lastLine x = []) (hl : '\n' ∉ l) :
    lastLine (x ++ l) = l := by
  rcases eq_lastLine_or x with h | ⟨u, h⟩
  · rw [h, hx, List.nil_append, lastLine_of_not_mem hl]
  · rw [h, hx, List.append_assoc, List.singleton_append, lastLine_append_newline u hl]

/-- A line that does not run into what stands behind it. -/
theorem firstLine_append {l y : Text} (hl : '\n' ∉ l) (hy : firstLine y = []) :
    firstLine (l ++ y) = l := by
  rcases eq_firstLine_or y with h | ⟨u, h⟩
  · rw [h, hy, List.append_nil, firstLine_of_not_mem hl]
  · rw [h, hy, List.nil_append, firstLine_append_newline hl]

/-- Where the line of an offset starts and stops. -/
theorem lineBounds_eq {x l y : Text} (hx : lastLine x = []) (hl : '\n' ∉ l) (hy : firstLine y = [])
    {k : ℕ} (hk : k ≤ l.length) :
    lineBounds (x ++ (l ++ y)) (x.length + k : ℕ) = (x.length, x.length + l.length) := by
  have hclamp : clamp (x ++ (l ++ y)) (x.length + k : ℕ) = x.length + k := by
    simp only [clamp, List.length_append]; omega
  have htake : (x ++ (l ++ y)).take (x.length + k) = x ++ l.take k := by
    rw [List.take_length_add_append, List.take_append_of_le_length hk]
  have hdrop : (x ++ (l ++ y)).drop (x.length + k) = l.drop k ++ y := by
    rw [List.drop_length_add_append, List.drop_append_of_le_length hk]
  have hlast : lastLineLength (x ++ l.take k) = (lastLine (x ++ l.take k)).length := by
    rw [lastLine, List.length_reverse]; rfl
  rw [lineBounds, hclamp, htake, hdrop, hlast, lastLine_append hx (mt List.mem_of_mem_take hl),
    ← length_firstLine, firstLine_append (mt List.mem_of_mem_drop hl) hy, List.length_take,
    List.length_drop, Nat.min_eq_left hk, Prod.mk.injEq]
  omega

/-! ### Offsets at the ends of their lines -/

/-- No character of its line stands in front of the offset. -/
def isLineStart (t : Text) (offset : ℕ) : Bool := (t.take offset).getLast?.all (· = '\n')

/-- No character of its line stands behind the offset. -/
def isLineStop (t : Text) (offset : ℕ) : Bool := (t.drop offset).head?.all (· = '\n')

theorem firstLine_eq_nil_iff {t : Text} : firstLine t = [] ↔ t.head?.all (· = '\n') = true := by
  cases t with
  | nil => simp [firstLine]
  | cons c t => simp [firstLine]

theorem lastLine_eq_nil_iff {t : Text} : lastLine t = [] ↔ t.getLast?.all (· = '\n') = true := by
  rw [lastLine, List.reverse_eq_nil_iff, firstLine_eq_nil_iff, List.head?_reverse]

theorem isLineStart_iff {t : Text} {offset : ℕ} :
    isLineStart t offset = true ↔ lastLine (t.take offset) = [] := lastLine_eq_nil_iff.symm

theorem isLineStop_iff {t : Text} {offset : ℕ} :
    isLineStop t offset = true ↔ firstLine (t.drop offset) = [] := firstLine_eq_nil_iff.symm

theorem lineBounds_of_le {t : Text} {offset : ℕ} (h : offset ≤ t.length) : lineBounds t offset =
    (offset - (lastLine (t.take offset)).length, offset + (firstLine (t.drop offset)).length) := by
  have hclamp : clamp t offset = offset := by rw [clamp]; omega
  rw [lineBounds, hclamp, lastLine, List.length_reverse]
  rfl

/-- The line of an offset starts there if nothing of it stands in front. -/
theorem eq_lineBounds_fst_iff {t : Text} {offset : ℕ} (h : offset ≤ t.length) :
    offset = (lineBounds t offset).1 ↔ isLineStart t offset = true := by
  have hle : (lastLine (t.take offset)).length ≤ offset := by
    have hsub := List.takeWhile_sublist (· ≠ '\n') (l := (t.take offset).reverse)
    have hlength := hsub.length_le
    rw [List.length_reverse, List.length_take] at hlength
    rw [lastLine, List.length_reverse]
    exact hlength.trans (Nat.min_le_left _ _)
  rw [lineBounds_of_le h, isLineStart_iff, ← List.length_eq_zero_iff]
  omega

/-- The line of an offset stops there if nothing of it stands behind. -/
theorem eq_lineBounds_snd_iff {t : Text} {offset : ℕ} (h : offset ≤ t.length) :
    offset = (lineBounds t offset).2 ↔ isLineStop t offset = true := by
  rw [lineBounds_of_le h, isLineStop_iff, ← List.length_eq_zero_iff]
  omega

/-- A text is what stands above the line of an offset, the line, and what stands below. -/
theorem exists_lineBounds (t : Text) (offset : Int) :
    ∃ x l y : Text, ∃ k ≤ l.length, t = x ++ (l ++ y) ∧ clamp t offset = x.length + k ∧
      lastLine x = [] ∧ '\n' ∉ l ∧ firstLine y = [] := by
  set o := clamp t offset
  obtain ⟨x, hx, hlast⟩ : ∃ x, t.take o = x ++ lastLine (t.take o) ∧ lastLine x = [] := by
    rcases eq_lastLine_or (t.take o) with h | ⟨u, h⟩
    · exact ⟨[], h, rfl⟩
    · exact ⟨u ++ ['\n'], by rw [List.append_assoc]; exact h,
        lastLine_append_newline u List.not_mem_nil⟩
  obtain ⟨y, hy, hfirst⟩ : ∃ y, t.drop o = firstLine (t.drop o) ++ y ∧ firstLine y = [] := by
    rcases eq_firstLine_or (t.drop o) with h | ⟨u, h⟩
    · exact ⟨[], by rw [List.append_nil]; exact h, rfl⟩
    · exact ⟨'\n' :: u, h, rfl⟩
  have hlen := congrArg List.length hx
  have ho : o ≤ t.length := Nat.min_le_right _ _
  rw [List.length_take, Nat.min_eq_left ho, List.length_append] at hlen
  refine ⟨x, lastLine (t.take o) ++ firstLine (t.drop o), y, (lastLine (t.take o)).length, ?_, ?_,
    hlen, hlast, ?_, hfirst⟩
  · rw [List.length_append]; omega
  · rw [List.append_assoc, ← hy, ← List.append_assoc, ← hx, List.take_append_drop]
  · rw [List.mem_append, not_or]
    exact ⟨newline_not_mem_lastLine _, newline_not_mem_firstLine _⟩

/-- A text is what stands above a block of its lines, the block, and what stands below. -/
theorem exists_block {t : Text} {first last : ℕ} (hle : first ≤ last)
    (hlast : last < (lines t).length) :
    ∃ x mid y : Text, t = x ++ (mid ++ y) ∧ x.length = offsetAt t first 0 ∧
      (x ++ mid).length = (lineBounds t (offsetAt t last 0)).2 ∧ x.count '\n' = first ∧
        (x ++ mid).count '\n' = last ∧ lastLine x = [] ∧ firstLine y = [] := by
  obtain ⟨x, y, ht, hx, hcount, hlastx, -⟩ := exists_line (hle.trans_lt hlast)
  obtain ⟨x', y', ht', hx', hcount', hlastx', hfirsty'⟩ := exists_line hlast
  have hnl : '\n' ∉ (lines t)[last] := newline_not_mem_of_mem_lines (List.getElem_mem hlast)
  set l := (lines t)[last]
  have hlen : x.length ≤ x'.length := by
    rcases Nat.lt_or_eq_of_le hle with h | rfl
    · exact length_le_of_count_lt (ht.symm.trans ht') (by omega)
    · rw [hx, hx']
  -- the block is what stands between the cuts above its lines, with the last line
  obtain ⟨m, rfl⟩ : x <+: x' := List.prefix_of_prefix_length_le ⟨_, ht.symm⟩ ⟨_, ht'.symm⟩ hlen
  refine ⟨x, m ++ l, y', by rw [ht']; simp, by rw [hx, offsetAt_natCast], ?_, hcount, ?_, hlastx,
    hfirsty'⟩
  · have hbounds := lineBounds_eq hlastx' hnl hfirsty' (Nat.zero_le _)
    rw [Nat.add_zero, ← ht'] at hbounds
    rw [offsetAt_natCast, ← hx', hbounds]
    simp only [List.length_append, Nat.add_assoc]
  · rw [← List.append_assoc, List.count_append, hcount', List.count_eq_zero_of_not_mem hnl,
      Nat.add_zero]

end Text

end TypingAid
