import TypingAid.Proofs.Text.Units
import Mathlib.Order.Bounds.Defs

/-!
# UTF-16

`Utf16.encode` writes a text in code units of 16 bits: a code point above U+FFFF is a pair of them,
a high surrogate and a low one.  The positions of a widget count these units
(`Utf16.length_encode`).

From offsets to positions and back, `Text.toUnits` and `Text.ofUnits` are a Galois pair: an offset is
not before the one of a position if and only if its position is not before that position
(`Text.ofUnits_le_iff`).  All that is said of `Text.ofUnits` in `Text.ofUnits_least` follows, also
for a position inside a pair.
-/

namespace TypingAid

namespace Utf16

/-- The code units of a code point. -/
def encodeChar (c : Char) : List UInt16 :=
  let n := c.toNat
  if n < 0x10000 then [n.toUInt16]
  else [(0xD800 + (n - 0x10000) / 0x400).toUInt16, (0xDC00 + (n - 0x10000) % 0x400).toUInt16]

/-- The code units of a text. -/
def encode (t : Text) : List UInt16 := t.flatMap encodeChar

theorem length_encodeChar (c : Char) : (encodeChar c).length = unitWidth c := by
  simp only [encodeChar, unitWidth]
  split_ifs <;> first | rfl | omega

theorem length_encode (t : Text) : (encode t).length = t.units := by
  induction t with
  | nil => rfl
  | cons c t ih =>
    rw [encode, List.flatMap_cons, List.length_append, length_encodeChar, ← encode, ih, Text.units]

end Utf16

namespace Text

variable {t : Text} {p : Int}

/-! ### Offsets of positions -/

/-- **An offset is not before the one of a position if and only if its position is not before that
position.** -/
theorem ofUnits_le_iff {j : ℕ} (h : j < t.length) : ofUnits t p ≤ j ↔ p ≤ units (t.take j) := by
  induction t generalizing j p with
  | nil => cases h
  | cons c t ih =>
    rw [ofUnits]
    split_ifs with hp
    · exact ⟨fun _ => Int.le_trans hp (Int.natCast_nonneg _), fun _ => Nat.zero_le _⟩
    · cases j with
      | zero =>
        rw [List.take_zero, units]
        omega
      | succ j =>
        have hrest := ih (p := p - unitWidth c) (Nat.lt_of_succ_lt_succ h)
        rw [List.take_succ_cons, units]
        omega

theorem toUnits_of_le {j : ℕ} (h : j ≤ t.length) : toUnits t j = units (t.take j) := by
  rw [toUnits, clamp_natCast h]

/-- Only the end of the text can be the offset of a position that lies behind it. -/
theorem le_toUnits_ofUnits (h : ofUnits t p < t.length) : p ≤ toUnits t (ofUnits t p) := by
  rw [toUnits_of_le h.le]
  exact (ofUnits_le_iff h).1 le_rfl

theorem ofUnits_le_of_le {j : ℕ} (h : p ≤ toUnits t j) (hj : j ≤ t.length) : ofUnits t p ≤ j := by
  rcases Nat.lt_or_eq_of_le hj with hlt | rfl
  · exact (ofUnits_le_iff hlt).2 (toUnits_of_le hj ▸ h)
  · exact ofUnits_le t p

theorem ofUnits_mono {q : Int} (h : p ≤ q) : ofUnits t p ≤ ofUnits t q := by
  rcases Nat.lt_or_ge (ofUnits t q) t.length with hlt | hge
  · exact ofUnits_le_of_le (Int.le_trans h (le_toUnits_ofUnits hlt)) hlt.le
  · exact (ofUnits_le t p).trans hge

/-! ### Texts without pairs -/

theorem unitWidth_of_narrow {c : Char} (h : c.toNat ≤ 0xFFFF) : unitWidth c = 1 :=
  if_neg (Nat.not_lt.2 h)

theorem units_of_narrow (h : ∀ c ∈ t, c.toNat ≤ 0xFFFF) : units t = t.length := by
  induction t with
  | nil => rfl
  | cons c t ih =>
    obtain ⟨hc, ht⟩ := List.forall_mem_cons.1 h
    rw [units, ih ht, unitWidth_of_narrow hc, List.length_cons, Nat.add_comm]

theorem ofUnits_of_narrow (h : ∀ c ∈ t, c.toNat ≤ 0xFFFF) : ofUnits t p = clamp t p := by
  induction t generalizing p with
  | nil => rw [ofUnits, clamp, List.length_nil, Nat.min_zero]
  | cons c t ih =>
    obtain ⟨hc, ht⟩ := List.forall_mem_cons.1 h
    rw [ofUnits, ih ht, unitWidth_of_narrow hc, clamp, clamp, List.length_cons]
    split_ifs <;> omega

/-! ### The theorem -/

/-- **Offsets and UTF-16 positions are a Galois pair.**

* The position of an offset goes back to that offset, clamped.
* The offset of a position is the first one in the text whose position is not before it, and the end
  of the text if there is none.  So a position inside a pair stands for the place just behind it.
* Neither conversion changes the order.
* The position of the end is the number of code units of the text.
* Where no pair stands in front of an offset, its position is the offset itself, and in a text
  without pairs the offset of a position is that position, both clamped. -/
theorem ofUnits_least (t : Text) :
    (∀ i : Int, ofUnits t (toUnits t i) = clamp t i) ∧
    (∀ (p : Int) (i : ℕ), i ≤ t.length → p ≤ toUnits t i →
      IsLeast {j : ℕ | j ≤ t.length ∧ p ≤ toUnits t j} (ofUnits t p)) ∧
    (∀ p : Int, (∀ j : ℕ, j ≤ t.length → (toUnits t j : Int) < p) → ofUnits t p = t.length) ∧
    (∀ (p : Int) (j : ℕ), j < t.length → (toUnits t j : Int) < p → p ≤ toUnits t (j + 1 : ℕ) →
      ofUnits t p = j + 1) ∧
    (∀ i j : Int, i ≤ j → toUnits t i ≤ toUnits t j) ∧
    (∀ p q : Int, p ≤ q → ofUnits t p ≤ ofUnits t q) ∧
    toUnits t t.length = (Utf16.encode t).length ∧
    (∀ i : Int, (∀ c ∈ t.take (clamp t i), c.toNat ≤ 0xFFFF) → toUnits t i = clamp t i) ∧
    ((∀ c ∈ t, c.toNat ≤ 0xFFFF) → ∀ p : Int, ofUnits t p = clamp t p) := by
  refine ⟨ofUnits_toUnits t, fun p i hi hp => ⟨⟨ofUnits_le t p, ?_⟩, fun j hj => ?_⟩,
    fun p hp => ?_, fun p j hj hlt hle => ?_, fun _ _ => toUnits_mono t, fun _ _ => ofUnits_mono, ?_,
    fun i hi => ?_, fun h p => ofUnits_of_narrow h⟩
  · -- at the end of the text, the offset that there is can be no other one
    rcases Nat.lt_or_eq_of_le (ofUnits_le t p) with hlt | heq
    · exact le_toUnits_ofUnits hlt
    · have hend := ofUnits_le_of_le hp hi
      rw [heq] at hend ⊢
      rwa [← Nat.le_antisymm hi hend]
  · exact ofUnits_le_of_le hj.2 hj.1
  · refine (Nat.lt_or_eq_of_le (ofUnits_le t p)).resolve_left fun hlt => ?_
    exact absurd (le_toUnits_ofUnits hlt) (Int.not_le.2 (hp _ hlt.le))
  · have hafter : ¬ofUnits t p ≤ j := by
      rw [ofUnits_le_iff hj, ← toUnits_of_le hj.le]
      omega
    have hbefore := ofUnits_le_of_le hle hj
    omega
  · rw [toUnits_of_le le_rfl, List.take_length, Utf16.length_encode]
  · rw [toUnits, units_of_narrow hi, List.length_take, Nat.min_eq_left (clamp_le t i)]

/-- Around a character that is a pair: the position inside the pair stands for the place just behind
it, the one behind the text for the end, and nothing changes in front of the pair. -/
theorem ofUnits_least_pair :
    let t : Text := ['a', '😀', 'b']
    ofUnits t (toUnits t 2) = 2 ∧ 1 < t.length ∧ (toUnits t 1 : Int) < 2 ∧
      (2 : Int) ≤ toUnits t 2 ∧ IsLeast {j : ℕ | j ≤ t.length ∧ (2 : Int) ≤ toUnits t j} 2 ∧
      ofUnits t 2 = 2 ∧ ofUnits t 9 = 3 ∧ toUnits t 1 ≤ toUnits t 2 ∧
      ofUnits t 2 ≤ ofUnits t 9 ∧ toUnits t 1 = 1 := by
  intro t
  obtain ⟨hback, hleast, hnone, hinside, hmono, hmono', -, hnarrow, -⟩ := ofUnits_least t
  have hstart : (toUnits t 1 : Int) < 2 := by decide
  have hstop : (2 : Int) ≤ toUnits t 2 := by decide
  have hpair : ofUnits t 2 = 2 := hinside 2 1 (by decide) hstart hstop
  have hunits : units t < 9 := by decide
  have hall : ∀ j : ℕ, j ≤ t.length → (toUnits t j : Int) < 9 := fun j _ =>
    Int.ofNat_lt.2 ((toUnits_le_units t j).trans_lt hunits)
  have hfront : ∀ c ∈ t.take (clamp t 1), c.toNat ≤ 0xFFFF :=
    List.forall_mem_singleton.2 (Nat.le_of_ble_eq_true rfl)
  exact ⟨hback 2, by decide, hstart, hstop, hpair ▸ hleast 2 2 (by decide) hstop, hpair,
    hnone 9 hall, hmono 1 2 (by decide), hmono' 2 9 (by decide), hnarrow 1 hfront⟩

end Text

end TypingAid
