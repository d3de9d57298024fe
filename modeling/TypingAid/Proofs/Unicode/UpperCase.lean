import TypingAid.Text.Blank
import TypingAid.Unicode.UpperCase
import Mathlib.Data.List.Basic

/-!
# Upper case is final

The upper case of a letter is a letter that stays as it is, or several characters
(`Unicode.letterUpper_cases`).  The tables are checked run by run: the upper cases of the letters
of a run are a run again, and it has no number in common with any run of letters that have an upper
case.  Nor does an upper case stand for a blank, a plus sign or a comma.
-/

namespace TypingAid.Unicode

/-! ### Runs of code points -/

/-- A run: its first and its last number, and the distance between two of its numbers. -/
abbrev Run := ℕ × ℕ × ℕ

namespace Run

variable {r s : Run} {n : ℕ}

/-- The number belongs to the run. -/
def Has (r : Run) (n : ℕ) : Prop := r.1 ≤ n ∧ n ≤ r.2.1 ∧ (n - r.1) % r.2.2 = 0

/-- Two runs have no number in common: one comes after the other, or the second one takes every
other number and leaves those of the first one out. -/
def apart (r s : Run) : Bool :=
  Nat.blt r.2.1 s.1 || Nat.blt s.2.1 r.1 ||
    ((Nat.beq r.2.2 2 || Nat.beq r.1 r.2.1) && Nat.beq s.2.2 2 && Nat.beq ((r.1 + s.1) % 2) 1)

theorem not_has_of_apart (h : apart r s = true) (hn : r.Has n) : ¬ s.Has n := by
  rintro ⟨hs, hs', hsn⟩
  obtain ⟨hr, hr', hrn⟩ := hn
  simp only [apart, Bool.or_eq_true, Bool.and_eq_true, Nat.blt_eq, Nat.beq_eq] at h
  rcases h with (h | h) | ⟨⟨h | h, h₂⟩, hodd⟩
  · omega
  · omega
  · rw [h] at hrn
    rw [h₂] at hsn
    omega
  · rw [h₂] at hsn
    omega

end Run

/-! ### The tables -/

/-- Blanks, the plus sign and the comma, as runs. -/
def signRuns : List Run :=
  [(9, 13, 1), (28, 32, 1), (43, 44, 1), (0x85, 0x85, 1), (0xA0, 0xA0, 1), (0x1680, 0x1680, 1),
   (0x2000, 0x200A, 1), (0x2028, 0x2029, 1), (0x202F, 0x202F, 1), (0x205F, 0x205F, 1),
   (0x3000, 0x3000, 1)]

/-- What no upper case is: a sign, or a letter with an upper case. -/
def lowerRuns : List Run :=
  signRuns ++ upperSequences.map (fun e => (e.1, e.1, 1)) ++
    upperRuns.map fun e => (e.1, e.2.1, e.2.2.1)

/-- The upper cases of a run of letters. -/
def upperRun (e : ℕ × ℕ × ℕ × Int) : Run :=
  ((e.1 + e.2.2.2).toNat, (e.2.1 + e.2.2.2).toNat, e.2.2.1)

theorem upperRuns_apart :
    (upperRuns.all fun e => lowerRuns.all (upperRun e).apart) = true := by decide +kernel

theorem upperRuns_nonneg : ∀ e ∈ upperRuns, 0 ≤ e.1 + e.2.2.2 := by decide +kernel

/-! ### One character -/

variable {c u : Char} {n : ℕ} {e : ℕ × ℕ × ℕ × Int}

/-- A character that is no blank, no plus sign and no comma. -/
def IsPlain (c : Char) : Prop := isBlank c = false ∧ c ≠ '+' ∧ c ≠ ','

instance (c : Char) : Decidable (IsPlain c) := inferInstanceAs (Decidable (_ ∧ _))

theorem isPlain_of_not_has (h : ∀ r ∈ signRuns, ¬ r.Has c.toNat) : IsPlain c := by
  simp only [signRuns, List.forall_mem_cons, List.not_mem_nil, false_implies, implies_true,
    Run.Has, Nat.mod_one, and_true] at h
  refine ⟨?_, ?_, ?_⟩
  · simp only [isBlank, Bool.or_eq_false_iff, Bool.and_eq_false_iff, decide_eq_false_iff_not,
      beq_eq_false_iff_ne]
    omega
  · rintro rfl
    exact h.2.2.1 (by decide)
  · rintro rfl
    exact h.2.2.1 (by decide)

/-- A letter that no run of letters with an upper case has. -/
theorem letterUpper_of_not_has (h : ∀ r ∈ lowerRuns, ¬ r.Has c.toNat) : letterUpper c = [c] := by
  have hsequence : upperSequences.find? (·.1 == c.toNat) = none := by
    refine List.find?_eq_none.2 fun e he heq => ?_
    refine h (e.1, e.1, 1) ?_ ?_
    · exact List.mem_append_left _ (List.mem_append_right _ (List.mem_map_of_mem he))
    · rw [beq_iff_eq.1 heq]
      exact ⟨Nat.le_refl _, Nat.le_refl _, Nat.mod_one _⟩
  rw [letterUpper]
  dsimp only
  rw [hsequence]
  dsimp only
  split
  · rename_i hfind
    have he := List.mem_map_of_mem (f := fun e : ℕ × ℕ × ℕ × Int => (e.1, e.2.1, e.2.2.1))
      (List.mem_of_find?_eq_some hfind)
    have heq := List.find?_some hfind
    simp only [Bool.and_eq_true, decide_eq_true_eq, beq_iff_eq] at heq
    exact absurd ⟨heq.1.1, heq.1.2, heq.2⟩ (h _ (List.mem_append_right _ he))
  · rfl

/-- The upper case of a letter of a run belongs to the run of the upper cases. -/
theorem upperRun_has (he : e ∈ upperRuns) (h : Run.Has (e.1, e.2.1, e.2.2.1) n) :
    (upperRun e).Has (n + e.2.2.2).toNat := by
  have hnonneg := upperRuns_nonneg e he
  obtain ⟨hfirst, hlast, hstep⟩ := h
  dsimp only at hfirst hlast hstep
  refine ⟨?_, ?_, ?_⟩
  · simp only [upperRun]; omega
  · simp only [upperRun]; omega
  · simp only [upperRun]
    rw [show (n + e.2.2.2).toNat - (e.1 + e.2.2.2).toNat = n - e.1 by omega, hstep]

theorem toNat_ofNat (n : ℕ) : (Char.ofNat n).toNat = n ∨ Char.ofNat n = '\x00' := by
  by_cases h : n.isValidChar
  · rw [Char.ofNat, dif_pos h]
    exact .inl rfl
  · rw [Char.ofNat, dif_neg h]
    exact .inr rfl

/-- **The upper case of a letter is final**: it is the letter, or a plain letter that stays, or
several characters. -/
theorem letterUpper_cases (c : Char) :
    letterUpper c = [c] ∨ (∃ u, letterUpper c = [u] ∧ letterUpper u = [u] ∧ IsPlain u) ∨
      ∃ e ∈ upperSequences, letterUpper c = e.2.map Char.ofNat := by
  rw [letterUpper]
  dsimp only
  split
  · rename_i sequence hfind
    exact .inr (.inr ⟨_, List.mem_of_find?_eq_some hfind, rfl⟩)
  · split
    · rename_i first last step distance hfind
      right; left
      refine ⟨_, rfl, ?_⟩
      have he := List.mem_of_find?_eq_some hfind
      have hc := List.find?_some hfind
      simp only [Bool.and_eq_true, decide_eq_true_eq, beq_iff_eq] at hc
      have hupper := upperRun_has he (n := c.toNat) ⟨hc.1.1, hc.1.2, hc.2⟩
      rcases toNat_ofNat (c.toNat + distance).toNat with hn | hzero
      · -- a number of an upper case is in none of the runs that are to be avoided
        have hnot : ∀ r ∈ lowerRuns,
            ¬ r.Has (Char.ofNat (c.toNat + distance).toNat).toNat := by
          intro r hr
          rw [hn]
          exact Run.not_has_of_apart
            (List.all_eq_true.1 (List.all_eq_true.1 upperRuns_apart _ he) r hr) hupper
        refine ⟨letterUpper_of_not_has hnot, isPlain_of_not_has fun r hr => hnot r ?_⟩
        exact List.mem_append_left _ (List.mem_append_left _ hr)
      · rw [hzero]
        decide
    · exact .inl rfl

end TypingAid.Unicode
