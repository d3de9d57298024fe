import TypingAid.Proofs.Json.Order
import TypingAid.Proofs.Text.Pieces

/-!
# What a settings file is to hold

What is written for a value are characters other than the carriage return, and the halves of
surrogate pairs that its strings hold (`Value.forall_mem_prettyAt_iff`).

* So it is a text if and only if every string in the value is one (`Value.isText_pretty_iff`).
* A settings file is read with line breaks of one kind, and that changes nothing in a text that has
  been written, because no carriage return is in it (`Value.return_not_mem_pretty`).
-/

namespace TypingAid

/-! ### Numbers and strings -/

theorem return_not_mem_cons {c : Char} {t : Text} (hc : c ≠ '\r') (ht : '\r' ∉ t) :
    '\r' ∉ c :: t := by
  rw [List.mem_cons, not_or]
  exact ⟨hc.symm, ht⟩

theorem return_not_mem_append {s t : Text} (hs : '\r' ∉ s) (ht : '\r' ∉ t) : '\r' ∉ s ++ t := by
  rw [List.mem_append, not_or]
  exact ⟨hs, ht⟩

theorem return_not_mem_toDigits (n : ℕ) : '\r' ∉ Nat.toDigits 10 n := fun h =>
  absurd (Nat.isDigit_of_mem_toDigits (by decide) (Nat.le_refl 10) h) (by decide)

theorem return_not_mem_hexDigits (width n : ℕ) : '\r' ∉ Text.hexDigits width n := by
  have hdigit : ∀ m < 16, Nat.digitChar m ≠ '\r' := by decide
  induction width generalizing n with
  | zero => exact List.not_mem_nil
  | succ width ih =>
    rw [Text.hexDigits, List.mem_append, List.mem_singleton, not_or]
    exact ⟨ih _, (hdigit _ (Nat.mod_lt n (by decide))).symm⟩

namespace Binary64

theorem return_not_mem_decimalText {digits : List Char} (h : '\r' ∉ digits) (position : Int) :
    '\r' ∉ decimalText digits position := by
  have htake : ∀ n, '\r' ∉ digits.take n := fun n => mt List.mem_of_mem_take h
  have hdrop : ∀ n, '\r' ∉ digits.drop n := fun n => mt List.mem_of_mem_drop h
  have hzeros : ∀ n, '\r' ∉ List.replicate n '0' := fun n hmem =>
    absurd (List.mem_replicate.1 hmem).2 (by decide)
  have hpower := return_not_mem_toDigits (position - 1).natAbs
  rw [decimalText]
  by_cases hfar : position ≤ -4 ∨ 16 < position
  · -- a power of ten
    rw [if_pos hfar]
    refine return_not_mem_append (return_not_mem_append (htake 1) ?_)
      (return_not_mem_cons (by decide) (return_not_mem_cons ?_ ?_))
    · split_ifs
      · exact List.not_mem_nil
      · exact return_not_mem_cons (by decide) (hdrop 1)
    · split_ifs <;> decide
    · split_ifs
      · exact return_not_mem_cons (by decide) hpower
      · exact hpower
  · rw [if_neg hfar]
    dsimp only
    split_ifs
    · exact return_not_mem_cons (by decide)
        (return_not_mem_cons (by decide) (return_not_mem_append (hzeros _) h))
    · exact return_not_mem_append (return_not_mem_append h (hzeros _)) (by decide)
    · exact return_not_mem_append (htake _) (return_not_mem_cons (by decide) (hdrop _))

theorem return_not_mem_text (x : Binary64) {infinity notNumber : String}
    (hinfinity : '\r' ∉ infinity.toList) (hnan : '\r' ∉ notNumber.toList) :
    '\r' ∉ (x.text infinity notNumber).toList := by
  cases x with
  | nan => exact hnan
  | infinite negative =>
    rw [text, String.toList_append, List.mem_append, not_or]
    exact ⟨by cases negative <;> decide, hinfinity⟩
  | finite negative m e =>
    rw [text]
    simp only [String.toList_ofList, List.mem_append, not_or]
    refine ⟨by cases negative <;> decide, ?_⟩
    split_ifs
    · decide
    · exact return_not_mem_decimalText (return_not_mem_toDigits _) _

end Binary64

namespace Json

theorem return_not_mem_stringChar (c : Char) : '\r' ∉ stringChar c := by
  rw [stringChar]
  split_ifs with h₁ h₂ h₃ hreturn h₅ h₆ h₇ hcontrol
  iterate 7 decide
  · exact return_not_mem_cons (by decide)
      (return_not_mem_cons (by decide) (return_not_mem_hexDigits 4 c.toNat))
  · exact fun h => hreturn (List.mem_singleton.1 h).symm

end Json

namespace Value

theorem return_not_mem_toString (n : Int) : '\r' ∉ (toString n).toList := by
  rw [Int.toString_eq_repr]
  cases n with
  | ofNat n => exact fun h => return_not_mem_toDigits n (Nat.toList_repr ▸ h)
  | negSucc n =>
    show '\r' ∉ ("-" ++ n.succ.repr).toList
    rw [String.toList_append, Nat.toList_repr, List.mem_append, not_or]
    exact ⟨by decide, return_not_mem_toDigits _⟩

/-! ### The strings in a value -/

mutual

/-- The strings in a value, with the names of fields. -/
def strs : Value → List Str
  | str s => [s]
  | list items => strsItems items
  | object fs => strsFields fs
  | _ => []

def strsItems : List Value → List Str
  | [] => []
  | v :: rest => strs v ++ strsItems rest

def strsFields : Fields → List Str
  | [] => []
  | (key, v) :: rest => key :: (strs v ++ strsFields rest)

end

/-- Every string in the value is a text. -/
def Textual (v : Value) : Prop := ∀ s ∈ v.strs, s.isText = true

instance : DecidablePred Textual := fun v => inferInstanceAs (Decidable (∀ s ∈ v.strs, _))

theorem textual_object_iff {fs : Fields} :
    (object fs).Textual ↔ ∀ e ∈ fs, e.1.isText = true ∧ e.2.Textual := by
  induction fs with
  | nil => exact ⟨fun _ _ h => absurd h List.not_mem_nil, fun _ _ h => absurd h List.not_mem_nil⟩
  | cons e fs ih =>
    rw [List.forall_mem_cons, ← ih]
    simp only [Textual, strs, strsFields, List.forall_mem_cons, List.forall_mem_append, and_assoc]

/-! ### Code points that are written -/

section

variable {P : Point → Prop} (hP : ∀ c, c ≠ '\r' → P (.char c))
include hP

theorem forall_mem_map_char {t : Text} (h : '\r' ∉ t) : ∀ p ∈ t.map Point.char, P p :=
  List.forall_mem_map.2 fun c hc => hP c fun heq => h (heq ▸ hc)

theorem forall_mem_stringText_iff (s : Str) :
    (∀ p ∈ Json.stringText s, P p) ↔ ∀ p ∈ s.points, p.isHalf = true → P p := by
  have hpoint : ∀ p : Point, (∀ q ∈ Json.stringPoint p, P q) ↔ (p.isHalf = true → P p) := by
    rintro (c | n)
    · exact iff_of_true (forall_mem_map_char hP (Json.return_not_mem_stringChar c)) (by simp)
    · simp [Json.stringPoint]
  simp only [Json.stringText, List.cons_append, List.forall_mem_cons, List.forall_mem_append,
    List.forall_mem_flatMap, hpoint, hP '"' (by decide), List.not_mem_nil, false_implies,
    implies_true, true_and, and_true]

theorem forall_mem_scalarText_iff (v : Value) (hlist : ∀ items, v ≠ list items)
    (hobject : ∀ fs, v ≠ object fs) :
    (∀ p ∈ v.scalarText, P p) ↔ ∀ s ∈ v.strs, ∀ p ∈ s.points, p.isHalf = true → P p := by
  cases v with
  | null => exact iff_of_true (forall_mem_map_char hP (by decide)) (by simp [strs])
  | bool b =>
    refine iff_of_true ?_ (by simp [strs])
    cases b
    · exact forall_mem_map_char hP (t := "false".toList) (by decide)
    · exact forall_mem_map_char hP (t := "true".toList) (by decide)
  | int n => exact iff_of_true (forall_mem_map_char hP (return_not_mem_toString n)) (by simp [strs])
  | float x =>
    exact iff_of_true (forall_mem_map_char hP (x.return_not_mem_text (by decide) (by decide)))
      (by simp [strs])
  | str s => rw [scalarText, forall_mem_stringText_iff hP, strs, List.forall_mem_singleton]
  | list items => exact absurd rfl (hlist items)
  | object fs => exact absurd rfl (hobject fs)

theorem forall_mem_newLine (level : ℕ) : ∀ p ∈ newLine level, P p := by
  refine List.forall_mem_cons.2 ⟨hP _ (by decide), fun p hp => ?_⟩
  rw [(List.mem_replicate.1 hp).2]
  exact hP _ (by decide)

/-- The parts are written between marks. -/
theorem forall_mem_block_iff {opening closing : Char} (hopening : opening ≠ '\r')
    (hclosing : closing ≠ '\r') (level : ℕ) (parts : List Points) :
    (∀ p ∈ block opening closing level parts, P p) ↔ ∀ ps ∈ parts, ∀ p ∈ ps, P p := by
  have hline := forall_mem_newLine hP
  have hseparator : ∀ p ∈ .char ',' :: newLine (level + 1), P p :=
    List.forall_mem_cons.2 ⟨hP _ (by decide), hline _⟩
  have hinner : (∀ p ∈ (.char ',' :: newLine (level + 1)).intercalate parts, P p) ↔
      ∀ ps ∈ parts, ∀ p ∈ ps, P p :=
    ⟨fun h ps hps p hp => h p (Text.mem_intercalate_of_mem hps hp), fun h p hp =>
      (Text.mem_or_of_mem_intercalate hp).elim (hseparator p) fun ⟨ps, hps, hp⟩ => h ps hps p hp⟩
  rw [block]
  split_ifs with hempty
  · rw [List.isEmpty_iff.1 hempty]
    simp [hP _ hopening, hP _ hclosing]
  · simp only [List.forall_mem_cons, List.forall_mem_append, hinner, hP _ hopening, hP _ hclosing,
      iff_true_intro (hline (level + 1)), iff_true_intro (hline level), List.not_mem_nil,
      false_implies, implies_true, true_and, and_true]

end

mutual

/-- **What is written for a value**, at any level: characters, no carriage return among them, and
the halves in its strings. -/
theorem forall_mem_prettyAt_iff {P : Point → Prop} (hP : ∀ c, c ≠ '\r' → P (.char c)) (level : ℕ) :
    ∀ v : Value, (∀ p ∈ v.prettyAt level, P p) ↔
      ∀ s ∈ v.strs, ∀ p ∈ s.points, p.isHalf = true → P p
  | list items => by
    rw [prettyAt, forall_mem_block_iff hP (by decide) (by decide), strs,
      forall_mem_prettyItems_iff hP (level + 1) items]
  | object fs => by
    have hperm := Json.perm_sortFields (prettyFields (level + 1) fs)
    rw [prettyAt, forall_mem_block_iff hP (by decide) (by decide), strs,
      ← forall_mem_prettyFields_iff hP (level + 1) fs, List.forall_mem_map]
    refine forall_congr' fun e => imp_congr hperm.mem_iff ?_
    simp only [List.forall_mem_append, List.forall_mem_cons, hP ':' (by decide), hP ' ' (by decide),
      List.not_mem_nil, false_implies, implies_true, and_true]
  | null => forall_mem_scalarText_iff hP null (by simp) (by simp)
  | bool b => forall_mem_scalarText_iff hP (bool b) (by simp) (by simp)
  | int n => forall_mem_scalarText_iff hP (int n) (by simp) (by simp)
  | float x => forall_mem_scalarText_iff hP (float x) (by simp) (by simp)
  | str s => forall_mem_scalarText_iff hP (str s) (by simp) (by simp)

theorem forall_mem_prettyItems_iff {P : Point → Prop} (hP : ∀ c, c ≠ '\r' → P (.char c))
    (level : ℕ) : ∀ items : List Value, (∀ ps ∈ prettyItems level items, ∀ p ∈ ps, P p) ↔
      ∀ s ∈ strsItems items, ∀ p ∈ s.points, p.isHalf = true → P p
  | [] => by simp [prettyItems, strsItems]
  | v :: rest => by
    rw [prettyItems, strsItems, List.forall_mem_cons, List.forall_mem_append,
      forall_mem_prettyAt_iff hP level v, forall_mem_prettyItems_iff hP level rest]

theorem forall_mem_prettyFields_iff {P : Point → Prop} (hP : ∀ c, c ≠ '\r' → P (.char c))
    (level : ℕ) : ∀ fs : Fields,
    (∀ e ∈ prettyFields level fs, (∀ p ∈ Json.stringText e.1, P p) ∧ ∀ p ∈ e.2, P p) ↔
      ∀ s ∈ strsFields fs, ∀ p ∈ s.points, p.isHalf = true → P p
  | [] => by simp [prettyFields, strsFields]
  | (key, v) :: rest => by
    rw [prettyFields, strsFields, List.forall_mem_cons, List.forall_mem_cons,
      List.forall_mem_append, forall_mem_stringText_iff hP, forall_mem_prettyAt_iff hP level v,
      forall_mem_prettyFields_iff hP level rest, and_assoc]

end

/-- **A value can be written if and only if every string in it is a text.** -/
theorem isText_pretty_iff {v : Value} : v.pretty.isText = true ↔ v.Textual := by
  rw [pretty, Str.isText_ofPoints, forall_mem_prettyAt_iff (fun _ _ => rfl)]
  refine forall₂_congr fun s _ => ?_
  rw [Str.isText_iff]
  refine forall₂_congr fun p _ => ?_
  cases p.isHalf <;> simp

/-- **No carriage return is in the text of a settings file.** -/
theorem return_not_mem_pretty {v : Value} {t : Text} (h : v.pretty.text? = some t) : '\r' ∉ t := by
  have hnone : ∀ p ∈ v.prettyAt 0, p ≠ .char '\r' :=
    (forall_mem_prettyAt_iff (fun c hc heq => hc (Point.char.inj heq)) 0 v).2
      fun s _ p _ hp heq => by
        rw [heq] at hp
        cases hp
  rw [Str.text?_eq_some_iff, pretty, Str.points_ofPoints] at h
  exact fun hmem => hnone _ (h ▸ List.mem_map_of_mem hmem) rfl

end Value

end TypingAid
