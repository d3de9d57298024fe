import TypingAid.Text.Basic
import Mathlib.Data.List.TakeWhile
import Mathlib.Tactic.SplitIfs

/-!
# Runs of characters

The longest beginning of a text whose characters satisfy a condition, and what comes behind it.
-/

namespace TypingAid

namespace Text

variable {p : Char → Bool} {u rest : Text}

theorem takeWhile_append_stop (hu : ∀ c ∈ u, p c = true) (hrest : rest.head?.any p = false) :
    (u ++ rest).takeWhile p = u := by
  rw [List.takeWhile_append_of_pos hu]
  cases rest with
  | nil => simp
  | cons c rest =>
    simp only [List.head?_cons, Option.any_some] at hrest
    simp [hrest]

theorem dropWhile_append_stop (hu : ∀ c ∈ u, p c = true) (hrest : rest.head?.any p = false) :
    (u ++ rest).dropWhile p = rest := by
  rw [List.dropWhile_append_of_pos hu]
  cases rest with
  | nil => rfl
  | cons c rest =>
    simp only [List.head?_cons, Option.any_some] at hrest
    simp [hrest]

/-- What comes behind a text in which `p` fails does not matter. -/
theorem takeWhile_append_of_exists (hu : ∃ c ∈ u, p c = false) (rest : Text) :
    (u ++ rest).takeWhile p = u.takeWhile p := by
  induction u with
  | nil => simp at hu
  | cons c u ih =>
    simp only [List.cons_append, List.takeWhile_cons]
    split_ifs with hc
    · obtain ⟨d, hd, hpd⟩ := hu
      rcases List.mem_cons.1 hd with rfl | hd
      · simp [hc] at hpd
      · rw [ih ⟨d, hd, hpd⟩]
    · rfl

/-- One more character at the end only matters for a text that consists of a single run. -/
theorem takeWhile_concat (p : Char → Bool) (u : Text) (c : Char) :
    (u ++ [c]).takeWhile p = u.takeWhile p ∨
      u.takeWhile p = u ∧ (u ++ [c]).takeWhile p = u ++ [c] := by
  by_cases hu : ∀ d ∈ u, p d = true
  · have hall : u.takeWhile p = u := List.takeWhile_eq_self_iff.2 hu
    rw [List.takeWhile_append_of_pos hu, List.takeWhile_cons, List.takeWhile_nil]
    split_ifs
    · exact .inr ⟨hall, rfl⟩
    · exact .inl (by rw [hall, List.append_nil])
  · simp only [not_forall, Bool.not_eq_true] at hu
    obtain ⟨d, hd, hp⟩ := hu
    exact .inl (takeWhile_append_of_exists ⟨d, hd, hp⟩ [c])

/-- If the beginning that satisfies `p` is as long as `u`, all of `u` satisfies it. -/
theorem all_of_length_takeWhile (h : u.length ≤ ((u ++ rest).takeWhile p).length) :
    ∀ c ∈ u, p c = true := by
  induction u with
  | nil => simp
  | cons c u ih =>
    rw [List.cons_append, List.takeWhile_cons] at h
    split_ifs at h with hc
    · intro d hd
      rcases List.mem_cons.1 hd with rfl | hd
      · exact hc
      · exact ih (by simpa using h) d hd
    · simp at h

theorem head?_dropWhile (p : Char → Bool) (t : Text) : (t.dropWhile p).head?.any p = false := by
  induction t with
  | nil => rfl
  | cons c t ih =>
    rw [List.dropWhile_cons]
    split_ifs with hc
    · exact ih
    · simpa using hc

/-- A text is its longest beginning that satisfies `p`, and a rest that does not go on so. -/
theorem exists_takeWhile (p : Char → Bool) (t : Text) :
    ∃ rest, t = t.takeWhile p ++ rest ∧ (∀ c ∈ t.takeWhile p, p c = true) ∧
      rest.head?.any p = false :=
  ⟨t.dropWhile p, List.takeWhile_append_dropWhile.symm, fun _ h => List.mem_takeWhile_imp h,
    head?_dropWhile p t⟩

/-- Behind the longest beginning that satisfies `p` comes the rest. -/
theorem drop_length_takeWhile (p : Char → Bool) (t : Text) :
    t.drop (t.takeWhile p).length = t.dropWhile p := by
  have h : (t.takeWhile p ++ t.dropWhile p).drop (t.takeWhile p).length = t.dropWhile p :=
    List.drop_left
  rwa [List.takeWhile_append_dropWhile] at h

end Text

end TypingAid
