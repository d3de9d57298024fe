import TypingAid.Proofs.Text.Slice
import TypingAid.Text.Units

/-!
# UTF-16 positions and offsets

A position in code units that comes from an offset goes back to that offset
(`Text.ofUnits_toUnits`), and it only depends on the text in front of it (`Text.toUnits_congr`).  So
a widget, which counts units, replaces the same part of a text as one who counts code points
(`Text.spliceUnits_toUnits`), also if the offsets were counted in another text that is the same up
to there.
-/

namespace TypingAid

theorem unitWidth_pos (c : Char) : 0 < unitWidth c := by
  rw [unitWidth]; split_ifs <;> decide

namespace Text

variable {t doc : Text}

theorem units_append (s t : Text) : units (s ++ t) = units s + units t := by
  induction s with
  | nil => simp [units]
  | cons c s ih => rw [List.cons_append, units, units, ih, Nat.add_assoc]

theorem units_take_le (t : Text) {m n : ℕ} (h : m ≤ n) : units (t.take m) ≤ units (t.take n) := by
  have hsplit := congrArg units (List.take_append_drop m (t.take n))
  rw [List.take_take, Nat.min_eq_left h, units_append] at hsplit
  exact hsplit ▸ Nat.le_add_right _ _

theorem ofUnits_of_nonpos (t : Text) {position : Int} (h : position ≤ 0) :
    ofUnits t position = 0 := by
  cases t with
  | nil => rfl
  | cons c t => rw [ofUnits, if_pos h]

theorem ofUnits_le (t : Text) (position : Int) : ofUnits t position ≤ t.length := by
  induction t generalizing position with
  | nil => exact Nat.le_refl 0
  | cons c t ih =>
    rw [ofUnits]
    split_ifs
    · exact Nat.zero_le _
    · rw [List.length_cons, Nat.add_comm]
      exact Nat.succ_le_succ (ih _)

theorem ofUnits_units_take (t : Text) {n : ℕ} (h : n ≤ t.length) :
    ofUnits t (units (t.take n)) = n := by
  induction t generalizing n with
  | nil => exact (Nat.le_zero.1 h).symm
  | cons c t ih =>
    cases n with
    | zero => exact ofUnits_of_nonpos _ (by simp [units])
    | succ n =>
      have hc := unitWidth_pos c
      have hrest : (units ((c :: t).take (n + 1)) : Int) - unitWidth c = units (t.take n) := by
        rw [List.take_succ_cons, units]; omega
      rw [ofUnits, if_neg (by rw [List.take_succ_cons, units]; omega), hrest,
        ih (by simpa using h), Nat.add_comm]

/-- **A position goes back to its offset.** -/
theorem ofUnits_toUnits (t : Text) (i : Int) : ofUnits t (toUnits t i) = clamp t i :=
  ofUnits_units_take t (clamp_le t i)

theorem toUnits_clamp (t : Text) (i : Int) : toUnits t (clamp t i) = toUnits t i := by
  rw [toUnits, toUnits, clamp_natCast (clamp_le t i)]

theorem toUnits_le_units (t : Text) (i : Int) : toUnits t i ≤ units t := by
  have h := units_take_le t (clamp_le t i)
  rwa [List.take_length] at h

theorem toUnits_mono (t : Text) {i j : Int} (h : i ≤ j) : toUnits t i ≤ toUnits t j :=
  units_take_le t (by simp only [clamp]; omega)

/-- A position only depends on the text in front of it. -/
theorem toUnits_congr {n : ℕ} (h : doc.take n = t.take n) (hdoc : n ≤ doc.length)
    (ht : n ≤ t.length) {i : Int} (hi : i ≤ n) : toUnits doc i = toUnits t i := by
  have h1 : clamp doc i = clamp t i := by simp only [clamp]; omega
  have h2 : clamp t i ≤ n := by simp only [clamp]; omega
  have h3 := congrArg (List.take (clamp t i)) h
  rw [List.take_take, List.take_take, Nat.min_eq_left h2] at h3
  rw [toUnits, toUnits, h1, h3]

/-- **Replacing by units is replacing by offsets.** -/
theorem spliceUnits_toUnits (t : Text) {a b : Int} (h : a ≤ b) (insert : Text) :
    spliceUnits t (toUnits t a) (toUnits t b) insert = splice t a b insert := by
  have hle : clamp t a ≤ clamp t b := by simp only [clamp]; omega
  rw [spliceUnits, ofUnits_toUnits, ofUnits_toUnits, splice, Nat.max_eq_right hle]

end Text

end TypingAid
