import TypingAid.Text.Basic
import Mathlib.Data.List.TakeWhile

/-!
# Cutting a text at offsets that lie in it

On offsets that are not negative the two ways to read an offset agree (`sliceRel_eq_slice`,
`spliceRel_eq_splice`), and a text is put together from its slices (`take_append_slice`).
-/

namespace TypingAid

namespace Text

theorem clamp_le (t : Text) (i : Int) : clamp t i ≤ t.length := Nat.min_le_right _ _

theorem clamp_natCast {t : Text} {n : ℕ} (h : n ≤ t.length) : clamp t n = n := by
  rw [clamp]; omega

theorem clamp_clamp (t : Text) (i : Int) : clamp t (clamp t i) = clamp t i :=
  clamp_natCast (clamp_le t i)

theorem resolve_of_nonneg {t : Text} {i : Int} (h : 0 ≤ i) : resolve t i = clamp t i := by
  rw [resolve, if_neg (by omega), clamp]

theorem sliceRel_eq_slice {t : Text} {a b : Int} (ha : 0 ≤ a) (hb : 0 ≤ b) :
    sliceRel t a b = slice t a b := by
  rw [sliceRel, slice, resolve_of_nonneg ha, resolve_of_nonneg hb, clamp, clamp]
  rcases Nat.le_total b.toNat t.length with h | h
  · rw [Nat.min_eq_left h]
    rcases Nat.le_total a.toNat t.length with h' | h'
    · rw [Nat.min_eq_left h']
    · rw [Nat.min_eq_right h', List.drop_of_length_le, List.drop_of_length_le]
      · rw [List.length_take]; omega
      · rw [List.length_take]; omega
  · rw [Nat.min_eq_right h, List.take_length, List.take_of_length_le h]
    rcases Nat.le_total a.toNat t.length with h' | h'
    · rw [Nat.min_eq_left h']
    · rw [Nat.min_eq_right h', List.drop_length, List.drop_of_length_le h']

theorem spliceRel_eq_splice {t : Text} {a b : Int} (ha : 0 ≤ a) (hab : a ≤ b) (insert : Text) :
    spliceRel t a b insert = splice t a b insert := by
  have hle : clamp t a ≤ clamp t b := by simp only [clamp]; omega
  rw [spliceRel, splice, resolve_of_nonneg ha, resolve_of_nonneg (Int.le_trans ha hab),
    Nat.max_eq_right hle]

/-- A splice at offsets in the text. -/
theorem splice_eq {t : Text} {a b : Int} (hab : a ≤ b) (hb : b ≤ t.length) (insert : Text) :
    splice t a b insert = t.take a.toNat ++ insert ++ t.drop b.toNat := by
  have h1 : clamp t a = a.toNat := by simp only [clamp]; omega
  have h2 : clamp t b = b.toNat := by simp only [clamp]; omega
  rw [splice, h1, h2, Nat.max_eq_right (by omega)]

/-- What stands between two parts of a text is replaced. -/
theorem splice_between (x mid y new : Text) :
    splice (x ++ (mid ++ y)) x.length ((x ++ mid).length : ℕ) new = x ++ (new ++ y) := by
  have hdrop : (x ++ (mid ++ y)).drop (x ++ mid).length = y := by
    rw [← List.append_assoc, List.drop_left]
  rw [splice_eq (by rw [List.length_append]; omega) (by simp only [List.length_append]; omega),
    Int.toNat_natCast, Int.toNat_natCast, List.take_left, hdrop, List.append_assoc]

/-- What stands between two parts of a text is cut out. -/
theorem slice_between (x mid y : Text) :
    slice (x ++ (mid ++ y)) x.length (x.length + mid.length : ℕ) = mid := by
  rw [slice, Int.toNat_natCast, Int.toNat_natCast, List.take_length_add_append, List.take_left,
    List.drop_left]

theorem take_append_slice {a b : Int} (h : a ≤ b) (t : Text) :
    t.take a.toNat ++ slice t a b = t.take b.toNat := by
  have hab : a.toNat ≤ b.toNat := by omega
  have ht : t.take a.toNat = (t.take b.toNat).take a.toNat := by
    rw [List.take_take, Nat.min_eq_left hab]
  rw [slice, ht]
  exact List.take_append_drop _ _

theorem length_slice {t : Text} {a b : Int} (ha : 0 ≤ a) (hab : a ≤ b) (hb : b ≤ t.length) :
    ((slice t a b).length : Int) = b - a := by
  rw [slice, List.length_drop, List.length_take]; omega

end Text

end TypingAid
