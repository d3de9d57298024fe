import TypingAid.Text.Utf8
import Mathlib.Data.List.Basic

/-!
# Reading what was written

A text that is written as bytes is read back (`Utf8.decode?_encode`): the bytes of a code point have
the form that reading expects for its number, one lemma for each of the four forms.  Making the line
breaks one kind does nothing to a text without carriage returns (`Text.unifyBreaks_of_not_mem`).
-/

namespace TypingAid

namespace Utf8

variable {n k : ℕ} {c : Char}

/-! ### Bytes -/

theorem toNat_toUInt8 (h : n < 256) : n.toUInt8.toNat = n := by
  rw [Nat.toUInt8_eq, UInt8.toNat_ofNat', Nat.mod_eq_of_lt h]

theorem toUInt8_lt {b : UInt8} (hb : n < b.toNat) : n.toUInt8 < b := by
  rwa [UInt8.lt_iff_toNat_lt, toNat_toUInt8 (Nat.lt_trans hb b.toNat_lt)]

theorem not_toUInt8_lt {b : UInt8} (h : n < 256) (hb : b.toNat ≤ n) : ¬ n.toUInt8 < b := by
  rw [UInt8.lt_iff_toNat_lt, toNat_toUInt8 h]
  exact Nat.not_lt.2 hb

/-- A byte that continues a code point gives back the six bits that it was made of. -/
theorem tail?_toUInt8 (k : ℕ) : tail? (0x80 + k % 64).toUInt8 = some (k % 64) := by
  have hmod : k % 64 < 64 := Nat.mod_lt k (by decide)
  have hn : (0x80 + k % 64).toUInt8.toNat = 0x80 + k % 64 := toNat_toUInt8 (by omega)
  have hrange : (0x80 ≤ (0x80 + k % 64).toUInt8 && (0x80 + k % 64).toUInt8 ≤ 0xBF) = true := by
    simp only [Bool.and_eq_true, decide_eq_true_eq, UInt8.le_iff_toNat_le, hn]
    exact ⟨Nat.le_add_right .., show 0x80 + k % 64 ≤ 191 by omega⟩
  rw [tail?, if_pos hrange, hn, Nat.add_sub_cancel_left]

/-- The number of a code point gives back the code point. -/
theorem char?_toNat {least : ℕ} (h : least ≤ c.toNat) : char? least c.toNat = some c := by
  have hvalid : c.toNat.isValidChar := c.valid
  rw [char?, dif_pos hvalid, if_pos h]
  rfl

/-! ### One code point -/

variable (bs : Bytes)

theorem decode?_one (h : c.toNat < 0x80) :
    decode? (c.toNat.toUInt8 :: bs) = (decode? bs).map (c :: ·) := by
  rw [decode?.eq_def]
  dsimp only
  rw [if_pos (toUInt8_lt h), toNat_toUInt8 (by omega), Char.ofNat_toNat]

theorem decode?_two (hlow : 0x80 ≤ c.toNat) (hhigh : c.toNat < 0x800) :
    decode? ((0xC0 + c.toNat / 64).toUInt8 :: (0x80 + c.toNat % 64).toUInt8 :: bs) =
      (decode? bs).map (c :: ·) := by
  have hbyte : 0xC0 + c.toNat / 64 < 0xE0 := by omega
  have hsum : (0xC0 + c.toNat / 64 - 0xC0) * 64 + c.toNat % 64 = c.toNat := by omega
  rw [decode?.eq_def]
  dsimp only
  rw [if_neg (not_toUInt8_lt (by omega) (show 0x80 ≤ _ by omega)), tail?_toUInt8]
  dsimp only
  rw [if_neg (not_toUInt8_lt (by omega) (show 0xC2 ≤ _ by omega)), if_pos (toUInt8_lt hbyte),
    toNat_toUInt8 (by omega), hsum, char?_toNat hlow]
  cases decode? bs <;> rfl

theorem decode?_three (hlow : 0x800 ≤ c.toNat) (hhigh : c.toNat < 0x10000) :
    decode? ((0xE0 + c.toNat / 4096).toUInt8 :: (0x80 + c.toNat / 64 % 64).toUInt8 ::
      (0x80 + c.toNat % 64).toUInt8 :: bs) = (decode? bs).map (c :: ·) := by
  have hbyte : 0xE0 + c.toNat / 4096 < 0xF0 := by omega
  have hsum : (0xE0 + c.toNat / 4096 - 0xE0) * 4096 + c.toNat / 64 % 64 * 64 + c.toNat % 64 =
      c.toNat := by omega
  rw [decode?.eq_def]
  dsimp only
  rw [if_neg (not_toUInt8_lt (by omega) (show 0x80 ≤ _ by omega)), tail?_toUInt8]
  dsimp only
  rw [if_neg (not_toUInt8_lt (by omega) (show 0xC2 ≤ _ by omega)),
    if_neg (not_toUInt8_lt (by omega) (show 0xE0 ≤ _ by omega)), tail?_toUInt8]
  dsimp only
  rw [if_pos (toUInt8_lt hbyte), toNat_toUInt8 (by omega), hsum, char?_toNat hlow]
  cases decode? bs <;> rfl

theorem decode?_four (hlow : 0x10000 ≤ c.toNat) :
    decode? ((0xF0 + c.toNat / 262144).toUInt8 :: (0x80 + c.toNat / 4096 % 64).toUInt8 ::
      (0x80 + c.toNat / 64 % 64).toUInt8 :: (0x80 + c.toNat % 64).toUInt8 :: bs) =
      (decode? bs).map (c :: ·) := by
  have hvalid : c.toNat < 0x110000 := by
    rcases c.valid with h | ⟨-, h⟩
    · exact Nat.lt_trans h (by decide)
    · exact h
  have hsum : (0xF0 + c.toNat / 262144 - 0xF0) * 262144 + c.toNat / 4096 % 64 * 4096 +
      c.toNat / 64 % 64 * 64 + c.toNat % 64 = c.toNat := by omega
  rw [decode?.eq_def]
  dsimp only
  rw [if_neg (not_toUInt8_lt (by omega) (show 0x80 ≤ _ by omega)), tail?_toUInt8]
  dsimp only
  rw [if_neg (not_toUInt8_lt (by omega) (show 0xC2 ≤ _ by omega)),
    if_neg (not_toUInt8_lt (by omega) (show 0xE0 ≤ _ by omega)), tail?_toUInt8]
  dsimp only
  rw [if_neg (not_toUInt8_lt (by omega) (show 0xF0 ≤ _ by omega)), tail?_toUInt8,
    toNat_toUInt8 (by omega), Option.bind_eq_bind, Option.bind_some, hsum, char?_toNat hlow]
  cases decode? bs <;> rfl

/-- The bytes of a code point are read as that code point. -/
theorem decode?_encodeChar (c : Char) (bs : Bytes) :
    decode? (encodeChar c ++ bs) = (decode? bs).map (c :: ·) := by
  rw [encodeChar]
  simp only [Nat.shiftRight_eq_div_pow, Nat.pow_zero, Nat.div_one, Nat.reducePow]
  split_ifs with h₁ h₂ h₃
  · exact decode?_one bs h₁
  · exact decode?_two bs (Nat.not_lt.1 h₁) h₂
  · exact decode?_three bs (Nat.not_lt.1 h₂) h₃
  · exact decode?_four bs (Nat.not_lt.1 h₃)

/-- **A text that is written as bytes is read back.** -/
theorem decode?_encode (t : Text) : decode? (encode t) = some t := by
  induction t with
  | nil => rfl
  | cons c t ih =>
    rw [encode, List.flatMap_cons, decode?_encodeChar, ← encode, ih, Option.map_some]

end Utf8

/-- Without carriage returns the line breaks are of one kind already. -/
theorem Text.unifyBreaks_of_not_mem {t : Text} (h : '\r' ∉ t) : unifyBreaks t = t := by
  induction t with
  | nil => rfl
  | cons c t ih =>
    rw [List.mem_cons, not_or] at h
    rw [unifyBreaks, if_neg (Ne.symm h.1), ih h.2]
    rintro _ rfl
    exact absurd rfl h.1

end TypingAid
