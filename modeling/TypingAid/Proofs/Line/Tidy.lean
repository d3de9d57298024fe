import TypingAid.Line.Tidy
import TypingAid.Proofs.Line.Content
import TypingAid.Proofs.Text.Place

/-!
# Tidying a line of a text

What `tidyLine?` does, said on the text around the line: `x` stands above the line `l` and `y` below
it, so that `x` is empty or ends with a line break and `y` is empty or starts with one.

* `tidyLine?_inside` and `tidyLine?_outside` : the edits for a caret on the line and off it.
* `keeps_tidyLine?` : the text keeps its content, and the caret its place, apart from spaces and the
  case of letters.
-/

namespace TypingAid

open Text

/-- The edits that put `new` in place of the line `l` behind `x`, and the caret to an offset. -/
def lineFix (x l new : Text) (caret : Int) : Edit × Edit :=
  (.single x.length (x ++ l).length new .program (some caret) Edit.formatEvent,
    { caret := some caret, event := Edit.formatEvent })

theorem apply_lineFix (x l y new : Text) (caret : Int) :
    (lineFix x l new caret).1.apply (x ++ (l ++ y)) = x ++ (new ++ y) :=
  splice_between x l y new

variable {x l y : Text} {j k : ℕ}

/-- Around the place of an insertion, with the caret on the line. -/
theorem tidyLine?_inside (style : Style) (hx : lastLine x = []) (hl : '\n' ∉ l)
    (hy : firstLine y = []) (hk : k ≤ l.length) (hj : j ≤ l.length) (inserted : Text) :
    tidyLine? style (x ++ (l ++ y)) (x.length + k : ℕ) (x.length + j : ℕ) inserted =
      let scope : Scope :=
        ⟨max 0 (k - typingContext), max (j : Int) (min (k + inserted.length) l.length)⟩
      let r := formatLine style l (some j) (some scope)
      if r.1 = l then none else some (lineFix x l r.1 (x.length + r.2)) := by
  have hcaret : (x.length : Int) ≤ (x.length + j : ℕ) ∧
      ((x.length + j : ℕ) : Int) ≤ (x.length + l.length : ℕ) := by omega
  have hplace : ∀ i : ℕ, ((x.length + i : ℕ) : Int) - x.length = i := by intro i; omega
  have hlength : ((x ++ l).length : Int) = (x.length + l.length : ℕ) := by
    rw [List.length_append]
  simp only [tidyLine?, lineBounds_eq hx hl hy hk, slice_between, if_pos hcaret, hplace, lineFix,
    hlength]

/-- All of the line, with the caret off it. -/
theorem tidyLine?_outside (style : Style) (hx : lastLine x = []) (hl : '\n' ∉ l)
    (hy : firstLine y = []) (hk : k ≤ l.length) {caret : Int}
    (hcaret : ¬ ((x.length : Int) ≤ caret ∧ caret ≤ (x ++ l).length)) (inserted : Text) :
    tidyLine? style (x ++ (l ++ y)) (x.length + k : ℕ) caret inserted =
      let new := (formatLine style l).1
      if new = l then none
      else some (lineFix x l new
        (if ((x ++ l).length : Int) < caret then caret + new.length - l.length else caret)) := by
  have hlength : ((x ++ l).length : Int) = (x.length + l.length : ℕ) := by
    rw [List.length_append]
  rw [hlength] at hcaret
  simp only [tidyLine?, lineBounds_eq hx hl hy hk, slice_between, if_neg hcaret, lineFix, hlength]

theorem fold_append (t u : Text) : fold (t ++ u) = fold t ++ fold u := by
  rw [fold, bare_append, List.map_append]; rfl

/-- The edits put another line in place of one, and the text keeps its content and the caret its
place, apart from spaces and the case of letters. -/
structure TidyKeeps (doc : Text) (caret : ℕ) (fix move : Edit) (newCaret : ℕ) : Prop where
  goal : fix.targetCaret = some (newCaret : Int)
  again : move = { caret := some (newCaret : Int), event := Edit.formatEvent }
  inside : newCaret ≤ (fix.apply doc).length
  content : fold (fix.apply doc) = fold doc
  before : fold ((fix.apply doc).take newCaret) = fold (doc.take caret)

/-- It is enough to look at the caret and what stands before it. -/
theorem tidyKeeps_lineFix {new : Text} (hnew : fold new = fold l) {caret newCaret : ℕ}
    (hinside : newCaret ≤ (x ++ (new ++ y)).length)
    (hbefore : fold ((x ++ (new ++ y)).take newCaret) = fold ((x ++ (l ++ y)).take caret)) :
    TidyKeeps (x ++ (l ++ y)) caret (lineFix x l new newCaret).1 (lineFix x l new newCaret).2
      newCaret where
  goal := rfl
  again := rfl
  inside := by rwa [apply_lineFix]
  content := by rw [apply_lineFix]; simp only [fold_append, hnew]
  before := by rwa [apply_lineFix]

variable {style : Style} {inserted : Text} {fix move : Edit}

/-- On the line the caret goes along with what stands before it in the line. -/
theorem tidyKeeps_inside (hx : lastLine x = []) (hl : '\n' ∉ l) (hy : firstLine y = [])
    (hk : k ≤ l.length) (hj : j ≤ l.length)
    (h : tidyLine? style (x ++ (l ++ y)) (x.length + k : ℕ) (x.length + j : ℕ) inserted =
      some (fix, move)) :
    ∃ newCaret, TidyKeeps (x ++ (l ++ y)) (x.length + j) fix move newCaret := by
  rw [tidyLine?_inside style hx hl hy hk hj] at h
  obtain ⟨-, h⟩ := Option.ite_none_left_eq_some.1 h
  have hkeeps := keeps_formatLine style l (some j)
    (some ⟨max 0 (k - typingContext), max (j : Int) (min (k + inserted.length) l.length)⟩)
  generalize formatLine style l (some (j : Int)) _ = r at h hkeeps
  obtain ⟨new, c⟩ := r
  obtain ⟨hc, hi⟩ := hkeeps.inside
  obtain ⟨i, rfl⟩ := Int.eq_ofNat_of_zero_le hc
  have hi : i ≤ new.length := Int.ofNat_le.1 hi
  have hbefore : fold (new.take i) = fold (l.take j) := by
    have := hkeeps.before j rfl
    rwa [clamp, Int.toNat_natCast, Int.toNat_natCast, Nat.min_eq_left hj] at this
  obtain ⟨rfl, rfl⟩ := Prod.mk.inj (Option.some.inj h)
  refine ⟨x.length + i, tidyKeeps_lineFix hkeeps.content ?_ ?_⟩
  · simp only [List.length_append]; omega
  · rw [List.take_length_add_append, List.take_length_add_append,
      List.take_append_of_le_length hi, List.take_append_of_le_length hj, fold_append, hbefore,
      fold_append]

/-- Below the line all of it stands before the caret, and above it nothing does. -/
theorem tidyKeeps_outside (hx : lastLine x = []) (hl : '\n' ∉ l) (hy : firstLine y = [])
    (hk : k ≤ l.length) {caret : ℕ} (hcaret : caret ≤ (x ++ (l ++ y)).length)
    (hoff : ¬ (x.length ≤ caret ∧ caret ≤ (x ++ l).length))
    (h : tidyLine? style (x ++ (l ++ y)) (x.length + k : ℕ) caret inserted = some (fix, move)) :
    ∃ newCaret, TidyKeeps (x ++ (l ++ y)) caret fix move newCaret := by
  have hkeeps := (keeps_formatLine style l none none).content
  rw [tidyLine?_outside style hx hl hy hk (by exact_mod_cast hoff)] at h
  obtain ⟨-, h⟩ := Option.ite_none_left_eq_some.1 h
  obtain ⟨rfl, rfl⟩ := Prod.mk.inj (Option.some.inj h)
  generalize (formatLine style l).1 = new at hkeeps
  by_cases hbelow : (x ++ l).length < caret
  · obtain ⟨i, rfl⟩ : ∃ i, caret = (x ++ l).length + i := ⟨caret - (x ++ l).length, by omega⟩
    have hnew : (if (((x ++ l).length : ℕ) : Int) < ((x ++ l).length + i : ℕ) then
        (((x ++ l).length + i : ℕ) : Int) + new.length - l.length
        else ((x ++ l).length + i : ℕ)) = (((x ++ new).length + i : ℕ) : Int) := by
      rw [if_pos (by exact_mod_cast hbelow)]
      simp only [List.length_append]; omega
    rw [hnew]
    refine ⟨(x ++ new).length + i, tidyKeeps_lineFix hkeeps ?_ ?_⟩
    · simp only [List.length_append] at hcaret ⊢; omega
    · rw [← List.append_assoc, ← List.append_assoc, List.take_length_add_append,
        List.take_length_add_append]
      simp only [fold_append, hkeeps]
  · have habove : caret ≤ x.length := by omega
    have hnew : (if (((x ++ l).length : ℕ) : Int) < caret then
        (caret : Int) + new.length - l.length else caret) = caret := by
      rw [if_neg (by exact_mod_cast hbelow)]
    rw [hnew]
    refine ⟨caret, tidyKeeps_lineFix hkeeps ?_ ?_⟩
    · rw [List.length_append]; omega
    · rw [List.take_append_of_le_length habove, List.take_append_of_le_length habove]

/-- **Tidying keeps the content of the text and the place of the caret.** -/
theorem keeps_tidyLine? {doc : Text} {start caret : ℕ} (hstart : start ≤ doc.length)
    (hcaret : caret ≤ doc.length)
    (h : tidyLine? style doc start caret inserted = some (fix, move)) :
    ∃ newCaret, TidyKeeps doc caret fix move newCaret := by
  obtain ⟨x, l, y, k, hk, rfl, hclamp, hx, hl, hy⟩ := exists_lineBounds doc start
  obtain rfl : start = x.length + k := by rw [clamp] at hclamp; omega
  by_cases hinside : x.length ≤ caret ∧ caret ≤ (x ++ l).length
  · rw [List.length_append] at hinside
    obtain ⟨j, rfl⟩ : ∃ j, caret = x.length + j := ⟨caret - x.length, by omega⟩
    exact tidyKeeps_inside hx hl hy hk (by omega) h
  · exact tidyKeeps_outside hx hl hy hk hcaret hinside h

end TypingAid
