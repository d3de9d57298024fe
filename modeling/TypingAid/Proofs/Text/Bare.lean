import TypingAid.Text.Basic
import Mathlib.Data.Nat.Notation
import Mathlib.Order.Basic

/-!
# Texts apart from their spaces

`Text.bare` is a text without its spaces, and `Text.fold` leaves out the case of ASCII letters as
well: what formatting has to keep.  A caret keeps its place if the texts before and behind it are
the same apart from spaces (`Text.SamePlace`).
-/

namespace TypingAid

namespace Text

/-- A text without its spaces. -/
def bare (t : Text) : Text := t.filter (· ≠ ' ')

/-- A text without its spaces and in small letters. -/
def fold (t : Text) : Text := t.bare.map Char.toLower

/-- The caret `c'` stands at the place in `t'` at which `c` stands in `t`: the two texts are the same
before it and behind it, apart from spaces. -/
def SamePlace (t : Text) (c : Int) (t' : Text) (c' : Int) : Prop :=
  ∃ a b a' b' : Text, t = a ++ b ∧ c = a.length ∧ t' = a' ++ b' ∧ c' = a'.length ∧
    bare a' = bare a ∧ bare b' = bare b

variable {t t' t'' u u' : Text} {c c' c'' : Int}

@[simp] theorem bare_append (t u : Text) : bare (t ++ u) = bare t ++ bare u := List.filter_append ..

theorem bare_eq_nil_iff : bare t = [] ↔ ∀ c ∈ t, c = ' ' := by
  rw [bare, List.filter_eq_nil_iff]; simp

theorem bare_take (h : bare t = []) (n : ℕ) : bare (t.take n) = [] :=
  bare_eq_nil_iff.2 fun c hc => bare_eq_nil_iff.1 h c (List.mem_of_mem_take hc)

theorem bare_drop (h : bare t = []) (n : ℕ) : bare (t.drop n) = [] :=
  bare_eq_nil_iff.2 fun c hc => bare_eq_nil_iff.1 h c (List.mem_of_mem_drop hc)

namespace SamePlace

theorem refl (h0 : 0 ≤ c) (hc : c ≤ t.length) : SamePlace t c t c := by
  refine ⟨t.take c.toNat, t.drop c.toNat, _, _, (List.take_append_drop _ t).symm, ?_,
    (List.take_append_drop _ t).symm, ?_, rfl, rfl⟩ <;> rw [List.length_take] <;> omega

theorem trans (h : SamePlace t c t' c') (h' : SamePlace t' c' t'' c'') : SamePlace t c t'' c'' := by
  obtain ⟨a, b, a', b', rfl, rfl, rfl, rfl, ha, hb⟩ := h
  obtain ⟨d, e, d', e', he, hlen, rfl, rfl, hd, he'⟩ := h'
  obtain ⟨rfl, rfl⟩ := List.append_inj he (by omega)
  exact ⟨a, b, d', e', rfl, rfl, rfl, rfl, hd.trans ha, he'.trans hb⟩

theorem prepend (hu : bare u' = bare u) (h : SamePlace t c t' c') :
    SamePlace (u ++ t) (u.length + c) (u' ++ t') (u'.length + c') := by
  obtain ⟨a, b, a', b', rfl, rfl, rfl, rfl, ha, hb⟩ := h
  refine ⟨u ++ a, b, u' ++ a', b', (List.append_assoc ..).symm, ?_, (List.append_assoc ..).symm, ?_,
    ?_, hb⟩
  · rw [List.length_append]; omega
  · rw [List.length_append]; omega
  · rw [bare_append, bare_append, hu, ha]

theorem behind (hu : bare u' = []) (h : SamePlace t c t' c') :
    SamePlace t c (u' ++ t') (u'.length + c') := by
  have := h.prepend (u := []) hu
  rwa [List.nil_append, List.length_nil, Int.natCast_zero, Int.zero_add] at this

theorem append (h : SamePlace t c t' c') (hu : bare u' = bare u) :
    SamePlace (t ++ u) c (t' ++ u') c' := by
  obtain ⟨a, b, a', b', rfl, rfl, rfl, rfl, ha, hb⟩ := h
  refine ⟨a, b ++ u, a', b' ++ u', List.append_assoc .., rfl, List.append_assoc .., rfl, ha, ?_⟩
  rw [bare_append, bare_append, hu, hb]

/-- The caret stands in the text. -/
theorem inside (h : SamePlace t c t' c') : 0 ≤ c' ∧ c' ≤ t'.length := by
  obtain ⟨a, b, a', b', rfl, rfl, rfl, rfl, -, -⟩ := h
  rw [List.length_append]; omega

/-- What stands before the caret is the same apart from spaces. -/
theorem bare_take (h : SamePlace t c t' c') : bare (t'.take c'.toNat) = bare (t.take c.toNat) := by
  obtain ⟨a, b, a', b', rfl, rfl, rfl, rfl, ha, -⟩ := h
  rwa [Int.toNat_natCast, Int.toNat_natCast, List.take_left, List.take_left]

end SamePlace

end Text

end TypingAid
