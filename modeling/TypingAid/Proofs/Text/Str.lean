import TypingAid.Proofs.Text.Pieces
import TypingAid.Text.Str
import Mathlib.Order.Lattice
import Mathlib.Data.List.Lex

/-!
# Strings and their code points

A string is determined by its code points and every list of code points is a string
(`Str.points_ofPoints`, `Str.ofPoints_points`), so a string can be taken for a list.  It is a text
if and only if no half of a surrogate pair is among them (`Str.isText_iff`).  The order of strings
is linear.
-/

namespace TypingAid

namespace Point

@[simp] theorem char?_char (c : Char) : (char c).char? = some c := rfl

@[simp] theorem isHalf_char (c : Char) : (char c).isHalf = false := rfl

@[simp] theorem isHalf_half (n : Fin 0x800) : (half n).isHalf = true := rfl

theorem char_injective : Function.Injective char := fun _ _ h => char.inj h

theorem code_injective : Function.Injective code := by
  -- the number of a half is no number of a character
  have hapart : ∀ (c : Char) (n : Fin 0x800), c.toNat ≠ 0xD800 + n := fun c n h => by
    rcases c.valid with hc | ⟨hc, -⟩
    · have : c.toNat < 0xD800 := hc
      omega
    · have : 0xDFFF < c.toNat := hc
      omega
  rintro (c | n) (d | m) h
  · exact congrArg char (Char.toNat_inj.1 h)
  · exact absurd h (hapart c m)
  · exact absurd h.symm (hapart d n)
  · exact congrArg half (Fin.ext (Nat.add_left_cancel h))

instance : LinearOrder Point := LinearOrder.lift' code code_injective

end Point

namespace Points

/-- The characters among the code points. -/
def chars (ps : Points) : Text := ps.filterMap Point.char?

/-- Code points without a half among them are the characters of a text. -/
theorem map_char_chars {ps : Points} (h : ∀ p ∈ ps, p.isHalf = false) :
    ps.chars.map Point.char = ps := by
  induction ps with
  | nil => rfl
  | cons p ps ih =>
    obtain ⟨hp, hps⟩ := List.forall_mem_cons.1 h
    cases p with
    | char c =>
      rw [chars, List.filterMap_cons_some (Point.char?_char c), List.map_cons, ← chars, ih hps]
    | half n => cases hp

@[simp] theorem chars_map_char (t : Text) : chars (t.map Point.char) = t := by
  rw [chars, List.filterMap_map]
  exact List.filterMap_some

@[simp] theorem chars_nil : chars [] = [] := rfl

@[simp] theorem chars_append (ps qs : Points) : chars (ps ++ qs) = ps.chars ++ qs.chars :=
  List.filterMap_append

@[simp] theorem chars_cons_char (c : Char) (ps : Points) :
    chars (.char c :: ps) = c :: ps.chars := rfl

theorem chars_intercalate (sep : Points) (parts : List Points) :
    chars (sep.intercalate parts) = sep.chars.intercalate (parts.map chars) := by
  induction parts with
  | nil => rfl
  | cons ps parts ih =>
    cases parts with
    | nil => simp only [List.intercalate_singleton, List.map_cons, List.map_nil]
    | cons qs parts =>
      rw [List.intercalate_cons_cons, chars_append, chars_append, ih]
      exact List.intercalate_cons_cons.symm

theorem any_isHalf_map_char (t : Text) : (t.map Point.char).any Point.isHalf = false := by
  rw [List.any_map]
  exact List.any_eq_false.2 fun c _ => by simp

theorem strip_of_trimmed {ps : Points} (h : Text.Trimmed Point.isBlank ps) : ps.strip = ps :=
  h.trim_eq

/-- Blanks around code points do not count in their pieces. -/
theorem map_strip_splitAt_strip {sep : Point} (hsep : sep.isBlank = false) (ps : Points) :
    (Text.splitAt sep ps.strip).map strip = (Text.splitAt sep ps).map strip :=
  Text.map_trim_splitAt_trim hsep ps

end Points

namespace Str

variable {s : Str} {t : Text}

/-- The characters of a text are a text. -/
@[simp] theorem ofPoints_map_char (t : Text) :
    ofPoints (t.map Point.char) = text (String.ofList t) := by
  rw [ofPoints, dif_neg (by simp), ← Points.chars, Points.chars_map_char]

@[simp] theorem points_text (s : String) : (text s).points = s.toList.map Point.char := rfl

@[simp] theorem points_ofPoints (ps : Points) : (ofPoints ps).points = ps := by
  rw [ofPoints]
  split_ifs with h
  · rfl
  · rw [points_text, String.toList_ofList]
    exact Points.map_char_chars (by simpa using h)

@[simp] theorem ofPoints_points (s : Str) : ofPoints s.points = s := by
  cases s with
  | text s => rw [points_text, ofPoints_map_char, String.ofList_toList]
  | broken ps h => exact dif_pos h

theorem points_injective : Function.Injective points :=
  Function.LeftInverse.injective ofPoints_points

/-! ### Texts -/

@[simp] theorem text?_text (s : String) : (text s).text? = some s.toList := rfl

@[simp] theorem isText_text (s : String) : (text s).isText = true := rfl

theorem exists_eq_text (h : s.isText = true) : ∃ u : String, s = text u := by
  cases s with
  | text u => exact ⟨u, rfl⟩
  | broken => cases h

theorem text?_eq_some_iff : s.text? = some t ↔ s.points = t.map Point.char := by
  cases s with
  | text s => rw [text?_text, Option.some_inj, points_text, Point.char_injective.list_map.eq_iff]
  | broken ps h =>
    refine ⟨fun h => (by cases h), fun hps => ?_⟩
    rw [points] at hps
    rw [hps, Points.any_isHalf_map_char] at h
    cases h

theorem isText_iff_exists : s.isText = true ↔ ∃ t : Text, s.points = t.map Point.char := by
  rw [isText, Option.isSome_iff_exists]
  exact exists_congr fun t => text?_eq_some_iff

/-- **A string is a text if and only if no half of a surrogate pair is in it.** -/
theorem isText_iff : s.isText = true ↔ ∀ p ∈ s.points, p.isHalf = false := by
  rw [isText_iff_exists]
  refine ⟨?_, fun h => ⟨_, (Points.map_char_chars h).symm⟩⟩
  rintro ⟨t, ht⟩ p hp
  rw [ht] at hp
  obtain ⟨c, -, rfl⟩ := List.mem_map.1 hp
  rfl

theorem isText_ofPoints {ps : Points} :
    (ofPoints ps).isText = true ↔ ∀ p ∈ ps, p.isHalf = false := by
  rw [isText_iff, points_ofPoints]

theorem isText_strip (h : s.isText = true) : s.strip.isText = true :=
  isText_ofPoints.2 fun p hp => isText_iff.1 h p (Text.mem_of_mem_trim hp)

theorem strip_strip (s : Str) : s.strip.strip = s.strip := by
  rw [strip, strip, points_ofPoints]
  exact congrArg ofPoints (Text.trim_trim _ _)

/-! ### The order -/

instance : LinearOrder Str := LinearOrder.lift' points points_injective

end Str

end TypingAid
