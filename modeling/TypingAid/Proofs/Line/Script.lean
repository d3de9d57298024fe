import TypingAid.Line.Capital
import TypingAid.Line.Spacing
import Mathlib.Data.Nat.Notation

/-!
# Classes of characters

Each class of characters is a set of ranges of code points (`isBlank_iff`, `isCjk_iff`,
`isSmall_iff` and so on), and no class holds a character of another one.  The one change that a
character ever goes through is that a small letter becomes a capital (`isCapital_toUpper`); every
other character is its own capital (`toUpper_of_not_isSmall`).
-/

namespace TypingAid

-- (goes before the instances that try all characters there are)
/-- What all characters of a list have in common is decided by going through the list. -/
instance (priority := high) decidableForallMem {p : Char → Prop} [DecidablePred p]
    (l : List Char) : Decidable (∀ c ∈ l, p c) := List.decidableBAll p l

variable {c : Char}

theorem isBlank_iff : isBlank c = true ↔
    (9 ≤ c.toNat ∧ c.toNat ≤ 13) ∨ (28 ≤ c.toNat ∧ c.toNat ≤ 32) ∨ c.toNat = 0x85 ∨
      c.toNat = 0xA0 ∨ c.toNat = 0x1680 ∨ (0x2000 ≤ c.toNat ∧ c.toNat ≤ 0x200A) ∨
      c.toNat = 0x2028 ∨ c.toNat = 0x2029 ∨ c.toNat = 0x202F ∨ c.toNat = 0x205F ∨
      c.toNat = 0x3000 := by
  simp only [isBlank, Bool.or_eq_true, Bool.and_eq_true, decide_eq_true_eq, beq_iff_eq, or_assoc]

theorem isCjk_iff : isCjk c = true ↔
    (0x3040 ≤ c.toNat ∧ c.toNat ≤ 0x30FF) ∨ (0x3400 ≤ c.toNat ∧ c.toNat ≤ 0x4DBF) ∨
      (0x4E00 ≤ c.toNat ∧ c.toNat ≤ 0x9FFF) ∨ (0xF900 ≤ c.toNat ∧ c.toNat ≤ 0xFAFF) := by
  simp only [isCjk, Bool.or_eq_true, Bool.and_eq_true, decide_eq_true_eq, or_assoc]

theorem isSmall_iff : isSmall c = true ↔ 97 ≤ c.toNat ∧ c.toNat ≤ 122 := by
  have h : isSmall c = (decide ('a'.val ≤ c.val) && decide (c.val ≤ 'z'.val)) := rfl
  rw [h, Bool.and_eq_true, decide_eq_true_eq, decide_eq_true_eq]
  exact Iff.rfl

theorem isCapital_iff : isCapital c = true ↔ 65 ≤ c.toNat ∧ c.toNat ≤ 90 := by
  have h : isCapital c = decide ('A'.val ≤ c.val ∧ c.val ≤ 'Z'.val) := rfl
  rw [h, decide_eq_true_eq]
  exact Iff.rfl

theorem isLatin_iff : isLatin c = true ↔ isCapital c = true ∨ isSmall c = true := by
  have h : isLatin c = (isCapital c || isSmall c) := rfl
  rw [h, Bool.or_eq_true]

theorem isFigure_iff : isFigure c = true ↔ 48 ≤ c.toNat ∧ c.toNat ≤ 57 := by
  have h : isFigure c = (decide ('0'.val ≤ c.val) && decide (c.val ≤ '9'.val)) := rfl
  rw [h, Bool.and_eq_true, decide_eq_true_eq, decide_eq_true_eq]
  exact Iff.rfl

theorem range_of_isFullWidthMark (h : isFullWidthMark c = true) :
    (0x2018 ≤ c.toNat ∧ c.toNat ≤ 0x201D) ∨ (0x3001 ≤ c.toNat ∧ c.toNat ≤ 0x3011) ∨
      (0xFF01 ≤ c.toNat ∧ c.toNat ≤ 0xFF1F) := by
  have key : ∀ d ∈ fullWidthMarks,
      (0x2018 ≤ d.toNat ∧ d.toNat ≤ 0x201D) ∨ (0x3001 ≤ d.toNat ∧ d.toNat ≤ 0x3011) ∨
        (0xFF01 ≤ d.toNat ∧ d.toNat ≤ 0xFF1F) := by decide
  exact key c (by simpa [isFullWidthMark] using h)

theorem isTight_iff : isTight c = true ↔ isCjk c = true ∨ isFullWidthMark c = true := by
  simp only [isTight, Bool.or_eq_true]

theorem le_toNat_of_isTight (h : isTight c = true) : 0x2018 ≤ c.toNat := by
  rcases isTight_iff.1 h with h | h
  · have := isCjk_iff.1 h; omega
  · have := range_of_isFullWidthMark h; omega

theorem isBlank_of_isTight (h : isTight c = true) : isBlank c = false := by
  refine Bool.eq_false_iff.2 fun hb => ?_
  have hb := isBlank_iff.1 hb
  rcases isTight_iff.1 h with h | h
  · have := isCjk_iff.1 h; omega
  · have := range_of_isFullWidthMark h; omega

theorem isBlank_of_isLatin (h : isLatin c = true) : isBlank c = false := by
  refine Bool.eq_false_iff.2 fun hb => ?_
  have hb := isBlank_iff.1 hb
  rcases isLatin_iff.1 h with h | h
  · have := isCapital_iff.1 h; omega
  · have := isSmall_iff.1 h; omega

theorem isBlank_of_isFigure (h : isFigure c = true) : isBlank c = false := by
  refine Bool.eq_false_iff.2 fun hb => ?_
  have hb := isBlank_iff.1 hb
  have := isFigure_iff.1 h
  omega

theorem isTight_of_isLatin (h : isLatin c = true) : isTight c = false := by
  refine Bool.eq_false_iff.2 fun ht => ?_
  have ht := le_toNat_of_isTight ht
  rcases isLatin_iff.1 h with h | h
  · have := isCapital_iff.1 h; omega
  · have := isSmall_iff.1 h; omega

theorem isTight_of_isFigure (h : isFigure c = true) : isTight c = false := by
  refine Bool.eq_false_iff.2 fun ht => ?_
  have ht := le_toNat_of_isTight ht
  have := isFigure_iff.1 h
  omega

theorem isCjk_of_isLatin (h : isLatin c = true) : isCjk c = false := by
  have := isTight_of_isLatin h
  rw [isTight, Bool.or_eq_false_iff] at this
  exact this.1

theorem isFigure_of_isLatin (h : isLatin c = true) : isFigure c = false := by
  refine Bool.eq_false_iff.2 fun hf => ?_
  have hf := isFigure_iff.1 hf
  rcases isLatin_iff.1 h with h | h
  · have := isCapital_iff.1 h; omega
  · have := isSmall_iff.1 h; omega

/-! ### Capitals -/

theorem toUpper_of_not_isSmall (h : isSmall c = false) : c.toUpper = c := by
  have : ¬ (97 ≤ c.toNat ∧ c.toNat ≤ 122) := fun hc => by simp [isSmall_iff.2 hc] at h
  exact dif_neg this

theorem toNat_toUpper (h : isSmall c = true) : c.toUpper.toNat + 32 = c.toNat := by
  have hc := isSmall_iff.1 h
  have hd : 'a'.val ≤ c.val ∧ c.val ≤ 'z'.val := hc
  have hu : c.toUpper.val = c.val + ('A'.val - 'a'.val) := by delta Char.toUpper; rw [dif_pos hd]
  have hv : c.toUpper.toNat = (c.toNat + 4294967264) % 4294967296 := by
    rw [Char.toNat, hu, UInt32.toNat_add]; rfl
  omega

theorem isCapital_toUpper (h : isSmall c = true) : isCapital c.toUpper = true := by
  have h1 := toNat_toUpper h
  have h2 := isSmall_iff.1 h
  exact isCapital_iff.2 (by omega)

theorem isSmall_of_isCapital (h : isCapital c = true) : isSmall c = false := by
  refine Bool.eq_false_iff.2 fun hs => ?_
  have h1 := isSmall_iff.1 hs
  have h2 := isCapital_iff.1 h
  omega

theorem toLower_of_not_isCapital (h : isCapital c = false) : c.toLower = c := by
  have : ¬ (65 ≤ c.toNat ∧ c.toNat ≤ 90) := fun hc => by simp [isCapital_iff.2 hc] at h
  exact dif_neg this

theorem toNat_toLower (h : isCapital c = true) : c.toLower.toNat = c.toNat + 32 := by
  have hc := isCapital_iff.1 h
  have hd : 'A'.val ≤ c.val ∧ c.val ≤ 'Z'.val := hc
  have hu : c.toLower.val = c.val + ('a'.val - 'A'.val) := by delta Char.toLower; rw [dif_pos hd]
  have hv : c.toLower.toNat = (c.toNat + 32) % 4294967296 := by
    rw [Char.toNat, hu, UInt32.toNat_add]; rfl
  omega

/-- Capitals do not matter in small letters. -/
theorem toLower_toUpper (h : isSmall c = true) : c.toUpper.toLower = c.toLower := by
  have hcapital : isCapital c = false := Bool.eq_false_iff.2 fun hc => by
    rw [isSmall_of_isCapital hc] at h; cases h
  have h1 := toNat_toUpper h
  have h2 := toNat_toLower (isCapital_toUpper h)
  rw [toLower_of_not_isCapital hcapital]
  exact Char.ext (UInt32.toNat_inj.1 (h2.trans h1))

end TypingAid
