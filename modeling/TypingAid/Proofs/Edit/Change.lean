import TypingAid.Proofs.Edit.Weave

/-!
# Edits that change nothing

An edit may have no span, or only spans that take nothing away and put nothing in.  It leaves the
text as it is (`Edit.apply_of_not_isChange`), and without a span it also leaves the caret, unless it
says where the caret goes (`Edit.spans_eq_nil_of_targetCaret`).
-/

namespace TypingAid

namespace Edit

theorem fits_of_spans_eq_nil {e : Edit} (h : e.spans = []) (t : Text) : e.Fits t :=
  ⟨by simp [h], by simp [h]⟩

theorem isChange_of_spans_eq_nil {e : Edit} (h : e.spans = []) : e.isChange = false := by
  simp [isChange, h]

/-- An edit that changes nothing leaves the text as it is. -/
theorem apply_of_not_isChange {e : Edit} (h : e.isChange = false) (t : Text) : e.apply t = t := by
  have hspans : ∀ span ∈ Span.descending e.spans, span.isChange = false := fun span hs => by
    simpa using List.any_eq_false.1 h span ((Span.descending_perm e.spans).mem_iff.1 hs)
  -- the spans apply one after the other, so the induction is over any list of them
  have key : ∀ spans : List Span, (∀ span ∈ spans, span.isChange = false) →
      spans.foldl (fun out s => Text.splice out s.start s.stop s.insert) t = t := by
    intro spans
    induction spans with
    | nil => exact fun _ => rfl
    | cons span spans ih =>
      intro hall
      have hspan := hall span List.mem_cons_self
      rw [Span.isChange, Bool.or_eq_false_iff, decide_eq_false_iff_not, not_not,
        Bool.not_eq_false', List.isEmpty_iff, Span.removedLength] at hspan
      obtain ⟨hlen, hinsert⟩ := hspan
      have hstop : span.stop = span.start := by omega
      rw [List.foldl_cons, Text.splice, hstop, hinsert, Nat.max_self, List.append_nil,
        List.take_append_drop]
      exact ih fun s hs => hall s (List.mem_cons_of_mem _ hs)
  exact key _ hspans

theorem isChange_single_eq_false_iff {a b : Int} {insert : Text} {origin : Origin}
    {caret : Option Int} {event : String} :
    (single a b insert origin caret event).isChange = false ↔ b = a ∧ insert = [] := by
  simp [Edit.isChange, Edit.single, Span.isChange, Span.removedLength, Int.sub_eq_zero]

theorem isChange_single {insert : Text} (h : insert ≠ []) (a b : Int) (origin : Origin)
    (caret : Option Int) (event : String) :
    (single a b insert origin caret event).isChange = true :=
  Bool.of_not_eq_false fun hsame => h (isChange_single_eq_false_iff.1 hsame).2

/-- Only an edit without spans leaves the caret where it is. -/
theorem spans_eq_nil_of_targetCaret {e : Edit} (h : e.targetCaret = none) : e.spans = [] := by
  have hspans : Span.ascending e.spans = [] := by
    rw [targetCaret, Option.or_eq_none_iff, naturalCaret] at h
    cases hs : Span.ascending e.spans with
    | nil => rfl
    | cons span rest =>
      rw [hs, lastStop, Option.or_eq_none_iff] at h
      cases h.2.2
  have hp := Span.ascending_perm e.spans
  rw [hspans] at hp
  exact hp.nil_eq.symm

end Edit

end TypingAid
