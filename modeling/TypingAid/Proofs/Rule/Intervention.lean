import TypingAid.Proofs.Edit.Weave
import TypingAid.Rule.Intervention

/-!
# Edits that take the place of others

Whatever the typing aid puts in place of an edit fits the text if the edit did
(`Edit.Fits.intervene`).  A pair that is completed or put around a selection uses the offsets of the
edit itself; everything else has looked at the text around the edit and found there what it
replaces, so that its offsets lie in the text (`Text.stop_le_of_slice_eq`).
-/

namespace TypingAid

/-- Where a text of some length was found, there is that much of the text. -/
theorem Text.stop_le_of_slice_eq {t found : Text} {a : Int} (h0 : 0 ≤ a) (ha : a ≤ t.length)
    (h : Text.slice t a (a + found.length) = found) : a + found.length ≤ t.length := by
  have hlen := congrArg List.length h
  rw [Text.slice, List.length_drop, List.length_take] at hlen
  omega

theorem Edit.fits_single {t : Text} {a b : Int} (h0 : 0 ≤ a) (hab : a ≤ b) (hb : b ≤ t.length)
    (insert : Text) (origin : Origin) (caret : Option Int) (event : String) :
    (Edit.single a b insert origin caret event).Fits t := by
  refine ⟨fun s hs => ?_, List.pairwise_singleton _ _⟩
  obtain rfl := List.mem_singleton.1 hs
  exact ⟨h0, hab, hb⟩

/-! ### A typed character -/

theorem Edit.isChange_typed (n : Int) (c : Char) (origin : Origin) (caret : Option Int) :
    (Edit.single n n [c] origin caret).isChange = true := by
  simp [Edit.isChange, Edit.single, Span.isChange]

theorem Edit.isAutomatic_single (a b : Int) (insert : Text) (origin : Origin)
    (caret : Option Int) : (Edit.single a b insert origin caret).isAutomatic = false := by
  simp only [Edit.isAutomatic, Edit.single]
  decide

theorem Edit.candidate?_typed (n : Int) (c : Char) (origin : Origin) (caret : Option Int) :
    (Edit.single n n [c] origin caret).candidate? = some ⟨n, n, [c]⟩ := by
  rw [Edit.candidate?, Edit.isChange_typed, Edit.isAutomatic_single]
  rfl

/-! ### What takes the place of an edit -/

namespace Intervention

variable {rules : RuleTable} {t : Text} {origin : Origin} {span : Span} {i : Intervention}

theorem fits_of_enclose? (h0 : 0 ≤ span.start) (hle : span.start ≤ span.stop)
    (hlen : span.stop ≤ t.length) (h : enclose? rules origin span = some i) : i.1.Fits t := by
  rw [enclose?] at h
  split_ifs at h with hcond
  obtain ⟨pair, -, rfl⟩ := Option.map_eq_some_iff.1 h
  simp only [Bool.and_eq_true, decide_eq_true_eq] at hcond
  refine ⟨fun s hs => ?_, ?_⟩
  · rcases List.mem_pair.1 hs with rfl | rfl
    · exact ⟨h0, le_rfl, hle.trans hlen⟩
    · exact ⟨h0.trans hle, le_rfl, hlen⟩
  · exact List.pairwise_pair.2 ⟨hcond.1.2, .inl hle⟩

theorem fits_of_deletePair? (h0 : 0 ≤ span.start) (hle : span.start ≤ span.stop)
    (hlen : span.stop ≤ t.length) (h : deletePair? rules t origin span = some i) : i.1.Fits t := by
  unfold deletePair? at h
  split at h
  · obtain ⟨closing, -, h⟩ := Option.bind_eq_some_iff.1 h
    split_ifs at h with hslice
    rw [← Option.some.inj h]
    have : _ + (([closing] : Text).length : Int) ≤ _ :=
      Text.stop_le_of_slice_eq (h0.trans hle) hlen hslice
    simp only [List.length_singleton] at this
    exact Edit.fits_single h0 (by omega) (by omega) _ _ _ _
  · cases h

theorem fits_of_deleteRule? {caret : Int} {rule : Rule} (h0 : 0 ≤ caret) (hlen : caret ≤ t.length)
    (h : deleteRule? t origin caret rule = some i) : i.1.Fits t := by
  rw [deleteRule?] at h
  split_ifs at h with hcond
  rw [← Option.some.inj h]
  have := Text.stop_le_of_slice_eq h0 hlen hcond.2.2
  exact Edit.fits_single hcond.1 (by omega) this _ _ _ _

theorem fits_of_convert? {place : Int} {c : Char} {rule : Rule} (h0 : 0 ≤ place)
    (hlen : place ≤ t.length) (h : convert? t origin place c rule = some i) : i.1.Fits t := by
  rw [convert?] at h
  obtain ⟨htrigger, h⟩ := Option.ite_none_left_eq_some.1 h
  obtain ⟨hstart, h⟩ := Option.ite_none_left_eq_some.1 h
  obtain ⟨hcond, h⟩ := Option.ite_none_right_eq_some.1 h
  rw [← Option.some.inj h]
  have hstop := Text.stop_le_of_slice_eq h0 hlen hcond.2
  -- the typed character is the last one before the caret, so the rule starts no later than it
  have hne : rule.before.left.length ≠ 0 := by
    intro hz
    rw [List.length_eq_zero_iff] at hz
    simp [Rule.trigger?, hz] at htrigger
  rw [Bool.and_eq_true, decide_eq_true_eq, Bool.not_eq_true', not_and, Bool.not_eq_false] at hstart
  refine Edit.fits_single ?_ ?_ hstop _ _ _ _
  · split_ifs with htop
    · exact le_rfl
    · by_contra hneg
      exact htop (hstart (by omega))
  · split_ifs <;> omega

theorem fits_of_complete? {c : Char} (h0 : 0 ≤ span.start) (hle : span.start ≤ span.stop)
    (hlen : span.stop ≤ t.length) (h : complete? rules origin span c = some i) : i.1.Fits t := by
  unfold complete? at h
  dsimp only at h
  split at h
  · rw [← Option.some.inj h]; exact Edit.fits_single h0 hle hlen _ _ _ _
  · obtain ⟨pair, -, rfl⟩ := Option.map_eq_some_iff.1 h
    exact Edit.fits_single h0 hle hlen _ _ _ _

theorem fits_of_ofSpan? {settings : Settings} (h0 : 0 ≤ span.start) (hle : span.start ≤ span.stop)
    (hlen : span.stop ≤ t.length) (h : ofSpan? rules t origin span settings = some i) :
    i.1.Fits t := by
  simp only [ofSpan?, Option.or_eq_some_iff] at h
  rcases h with h | ⟨-, h | ⟨-, h⟩⟩
  · split_ifs at h
    exact fits_of_enclose? h0 hle hlen h
  · split_ifs at h
    rw [delete?] at h
    split_ifs at h
    rw [Option.or_eq_some_iff] at h
    rcases h with h | ⟨-, h⟩
    · exact fits_of_deletePair? h0 hle hlen h
    · obtain ⟨rule, -, h⟩ := List.exists_of_findSome?_eq_some h
      exact fits_of_deleteRule? (h0.trans hle) hlen h
  · unfold input? at h
    split at h
    · split_ifs at h with hcond
      · rw [Option.or_eq_some_iff] at h
        rcases h with h | ⟨-, h⟩
        · obtain ⟨rule, -, h⟩ := List.exists_of_findSome?_eq_some h
          exact fits_of_convert? h0 (hle.trans hlen) h
        · exact fits_of_complete? h0 hle hlen h
      · rw [Option.or_eq_some_iff] at h
        rcases h with h | ⟨-, h⟩
        · obtain ⟨rule, -, h⟩ := List.exists_of_findSome?_eq_some h
          exact fits_of_convert? h0 (hle.trans hlen) h
        · cases h
    · cases h

end Intervention

/-- **What takes the place of an edit fits the text** if the edit did. -/
theorem Edit.Fits.intervene {e : Edit} {t : Text} (h : e.Fits t) (settings : Settings)
    (rules : RuleTable) : (TypingAid.intervene settings rules t e).Fits t := by
  rw [TypingAid.intervene]
  cases hi : intervene? settings rules t e with
  | none => exact h
  | some i =>
    obtain ⟨span, hspan, hi⟩ := Option.bind_eq_some_iff.1 hi
    have hmem : span ∈ e.spans := by
      unfold Edit.candidate? at hspan
      split_ifs at hspan
      split at hspan
      · next s hs => rw [hs, Option.some.inj hspan]; exact List.mem_singleton_self _
      · cases hspan
    obtain ⟨h0, hle, hlen⟩ := h.inRange span hmem
    exact Intervention.fits_of_ofSpan? h0 hle hlen hi

end TypingAid
