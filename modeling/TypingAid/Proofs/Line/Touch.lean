import TypingAid.Proofs.Line.Script
import Mathlib.Logic.Relation

/-!
# Touches

All that setting a line ever does to its text is a sequence of three kinds of small change, here
called touches (`Text.Touch`):

* a space comes between two characters, which a relation `gap` has to allow;
* a space goes away behind a character that is set without blanks, before another such character or
  before a further space;
* a small letter becomes a capital.

What one touch preserves, a whole line being set preserves, and one touch is easy to follow through
a recogniser: nothing before it changes, and nothing after it.  `Text.Touches` is any number of
touches.
-/

namespace TypingAid

namespace Text

/-- One small change.  `gap` says between which two characters a space may come. -/
inductive Touch (gap : Char → Char → Prop) : Text → Text → Prop where
  | widen {a c : Char} {t : Text} (h : gap a c) : Touch gap (a :: c :: t) (a :: ' ' :: c :: t)
  | narrow {a c : Char} {t : Text} (ha : isTight a = true) (hc : isTight c = true ∨ c = ' ') :
      Touch gap (a :: ' ' :: c :: t) (a :: c :: t)
  | raise {c : Char} {t : Text} (h : isSmall c = true) : Touch gap (c :: t) (c.toUpper :: t)
  | later {c : Char} {t t' : Text} (h : Touch gap t t') : Touch gap (c :: t) (c :: t')

/-- Any number of small changes, one after the other. -/
def Touches (gap : Char → Char → Prop) : Text → Text → Prop := Relation.ReflTransGen (Touch gap)

variable {gap : Char → Char → Prop} {t t' u u' : Text}

namespace Touch

theorem append_right (h : Touch gap t t') (u : Text) : Touch gap (t ++ u) (t' ++ u) := by
  induction h with
  | widen h => exact .widen h
  | narrow ha hc => exact .narrow ha hc
  | raise h => exact .raise h
  | later _ ih => exact .later ih

theorem append_left (u : Text) (h : Touch gap t t') : Touch gap (u ++ t) (u ++ t') := by
  induction u with
  | nil => exact h
  | cons c u ih => exact .later ih

/-- A character that is neither a space nor a capital was there before. -/
theorem mem_of_mem {d : Char} (h : Touch gap t t') (hd : d ∈ t') (hs : d ≠ ' ')
    (hc : isCapital d = false) : d ∈ t := by
  induction h with
  | widen => simpa [hs] using hd
  | narrow => rw [List.mem_cons] at hd ⊢; exact hd.imp id (List.mem_cons_of_mem _)
  | raise h =>
    rcases List.mem_cons.1 hd with rfl | hd
    · rw [isCapital_toUpper h] at hc; cases hc
    · exact List.mem_cons_of_mem _ hd
  | later _ ih => rw [List.mem_cons] at hd ⊢; exact hd.imp id ih

/-- A character that is neither a space nor a small letter stays. -/
theorem mem_of_mem' {d : Char} (h : Touch gap t t') (hd : d ∈ t) (hs : d ≠ ' ')
    (hc : isSmall d = false) : d ∈ t' := by
  induction h with
  | widen => rw [List.mem_cons] at hd ⊢; exact hd.imp id (List.mem_cons_of_mem _)
  | narrow => simpa [hs] using hd
  | raise h =>
    rcases List.mem_cons.1 hd with rfl | hd
    · rw [h] at hc; cases hc
    · exact List.mem_cons_of_mem _ hd
  | later _ ih => rw [List.mem_cons] at hd ⊢; exact hd.imp id ih

theorem ne_nil (h : Touch gap t t') : t ≠ [] := by cases h <;> simp

theorem ne_nil' (h : Touch gap t t') : t' ≠ [] := by cases h <;> simp

/-- All that one touch of a text can be. -/
theorem cons_cases {a : Char} {y : Text} (h : Touch gap (a :: t) y) :
    (∃ c u, t = c :: u ∧ gap a c ∧ y = a :: ' ' :: c :: u) ∨
      (∃ c u, t = ' ' :: c :: u ∧ isTight a = true ∧ (isTight c = true ∨ c = ' ') ∧
        y = a :: c :: u) ∨
      (isSmall a = true ∧ y = a.toUpper :: t) ∨ ∃ t', Touch gap t t' ∧ y = a :: t' := by
  cases h with
  | widen h => exact .inl ⟨_, _, rfl, h, rfl⟩
  | narrow ha hc => exact .inr (.inl ⟨_, _, rfl, ha, hc, rfl⟩)
  | raise h => exact .inr (.inr (.inl ⟨h, rfl⟩))
  | later h => exact .inr (.inr (.inr ⟨_, h, rfl⟩))

/-- The first character of a touched text was there before, or it has been raised. -/
theorem cons_cases' {b : Char} (h : Touch gap t (b :: t')) :
    (∃ u, t = b :: u) ∨ ∃ c, isSmall c = true ∧ b = c.toUpper ∧ t = c :: t' := by
  cases h with
  | raise h => exact .inr ⟨_, h, rfl, rfl⟩
  | _ => exact .inl ⟨_, rfl⟩

/-- The first character stays, or it is a small letter that becomes a capital. -/
theorem head? (h : Touch gap t t') :
    t'.head? = t.head? ∨ ∃ c, t.head? = some c ∧ isSmall c = true ∧ t'.head? = some c.toUpper := by
  cases h with
  | raise h => exact .inr ⟨_, rfl, h, rfl⟩
  | _ => exact .inl rfl

/-- The last character stays, or it is a small letter that becomes a capital. -/
theorem getLast? (h : Touch gap t t') :
    t'.getLast? = t.getLast? ∨
      ∃ c, t.getLast? = some c ∧ isSmall c = true ∧ t'.getLast? = some c.toUpper := by
  induction h with
  | widen h => left; simp [List.getLast?_cons]
  | narrow ha hc => left; simp [List.getLast?_cons]
  | @raise c t h =>
    cases t with
    | nil => exact .inr ⟨c, rfl, h, rfl⟩
    | cons d t => left; simp [List.getLast?_cons]
  | @later c t t' h ih =>
    obtain ⟨d, u, rfl⟩ := List.exists_cons_of_ne_nil h.ne_nil
    obtain ⟨d', u', rfl⟩ := List.exists_cons_of_ne_nil h.ne_nil'
    simpa only [List.getLast?_cons_cons] using ih

end Touch

namespace Touches

theorem refl (t : Text) : Touches gap t t := Relation.ReflTransGen.refl

theorem trans {u : Text} (h : Touches gap t t') (h' : Touches gap t' u) : Touches gap t u :=
  Relation.ReflTransGen.trans h h'

theorem append_left (u : Text) (h : Touches gap t t') : Touches gap (u ++ t) (u ++ t') :=
  h.lift (u ++ ·) fun _ _ => Touch.append_left u

theorem append_right (h : Touches gap t t') (u : Text) : Touches gap (t ++ u) (t' ++ u) :=
  h.lift (· ++ u) fun _ _ h => h.append_right u

theorem append (h : Touches gap t t') (hu : Touches gap u u') :
    Touches gap (t ++ u) (t' ++ u') :=
  (h.append_right u).trans (hu.append_left t')

theorem cons (c : Char) (h : Touches gap t t') : Touches gap (c :: t) (c :: t') :=
  h.append_left [c]

/-- What one touch preserves, any number of them preserves. -/
theorem preserve {P : Text → Prop} (hP : ∀ {t t'}, Touch gap t t' → P t → P t')
    (h : Touches gap t t') (ht : P t) : P t' := by
  induction h with
  | refl => exact ht
  | tail _ h ih => exact hP h ih

theorem ne_nil (h : Touches gap t t') (ht : t ≠ []) : t' ≠ [] :=
  h.preserve (P := (· ≠ [])) (fun h _ => h.ne_nil') ht

end Touches

/-- A capital in any place. -/
theorem touches_modify (t : Text) (n : ℕ) : Touches gap t (t.modify n Char.toUpper) := by
  induction t generalizing n with
  | nil => cases n <;> exact .refl _
  | cons c t ih =>
    cases n with
    | succ n => exact (ih n).cons c
    | zero =>
      cases hc : isSmall c with
      | true => exact .single (.raise hc)
      | false =>
        rw [List.modify_zero_cons, toUpper_of_not_isSmall hc]
        exact .refl _

end Text

end TypingAid
