import TypingAid.Proofs.Edit.Change
import TypingAid.Proofs.Rule.Intervention
import TypingAid.Proofs.Session.Follow
import TypingAid.Session.Basic

/-!
# A session told of an edit

Whatever editor tells a session of an edit, two things hold.  The outline that was right for the
text before the edit is right for the text after it (`Session.outline_afterCommit`).  And the edits
that follow are none, or one that fits the new text and one that only moves the caret
(`Session.followUps_afterCommit`), so that an editor can carry them out one after the other.

`edits_afterEdit` lists all that can follow from an edit, with every condition under which something
does (`AsksToTidy`).
-/

namespace TypingAid

/-- The edits that tidy a line replace it and move the caret. -/
theorem fits_of_tidyLine? {style : Style} {doc inserted : Text} {start caret : Int}
    {fix move : Edit} (h : tidyLine? style doc start caret inserted = some (fix, move)) :
    fix.Fits doc ∧ move.spans = [] := by
  rw [tidyLine?] at h
  obtain ⟨-, h⟩ := Option.ite_none_left_eq_some.1 h
  obtain ⟨hfix, hmove⟩ := Prod.mk.inj (Option.some.inj h)
  have hlast : Text.firstLineLength (doc.drop (Text.clamp doc start)) ≤
      (doc.drop (Text.clamp doc start)).length := (List.takeWhile_sublist _).length_le
  have hclamp : Text.clamp doc start ≤ doc.length := Nat.min_le_right _ _
  rw [List.length_drop] at hlast
  rw [← hfix, ← hmove]
  refine ⟨Edit.fits_single (by omega) ?_ (by omega) _ _ _ _, rfl⟩
  exact_mod_cast (Nat.sub_le _ _).trans (Nat.le_add_right _ _)

/-! ### Which edits are followed by others -/

/-- The edit asks for the line on which its last span `view` starts: it is settled and the user's
own, takes nothing away and leaves nothing selected, and the line is prose. -/
structure AsksToTidy (settings : Settings) (o : Outline) (before after : Text) (e : Edit)
    (anchor head : Int) (view : Edit.View) : Prop where
  own : e.isAutomatic = false
  enabled : settings.autoFormat = true
  collapsed : anchor = head
  kept : ∀ v ∈ e.views before, v.removed = []
  last : (e.views before).getLast? = some view
  settled : e.isSettled view head = true
  prose : o.isProse (Outline.lineOf after view) = true

theorem asksToTidy_of_tidyTarget? {settings : Settings} {o : Outline} {before after : Text}
    {e : Edit} {anchor head : Int} {line : ℕ} {view : Edit.View}
    (h : tidyTarget? settings o before after e anchor head = some (line, view)) :
    AsksToTidy settings o before after e anchor head view := by
  rw [tidyTarget?] at h
  obtain ⟨hguards, h⟩ := Option.ite_none_left_eq_some.1 h
  simp only [Bool.or_eq_true, decide_eq_true_eq, Bool.not_eq_true', not_or, Bool.not_eq_true,
    Bool.not_eq_false, List.any_eq_false, not_not, List.isEmpty_iff] at hguards
  obtain ⟨⟨⟨hown, henabled⟩, hcollapsed⟩, hkept⟩ := hguards
  cases hlast : (e.views before).getLast? with
  | none => rw [hlast] at h; cases h
  | some last =>
    simp only [hlast] at h
    obtain ⟨hasks, h⟩ := Option.ite_none_right_eq_some.1 h
    obtain ⟨-, rfl⟩ := Prod.mk.inj (Option.some.inj h)
    rw [Bool.and_eq_true] at hasks
    exact ⟨hown, henabled, hcollapsed, hkept, hlast, hasks.1, hasks.2⟩

/-- **All that can follow from an edit**: nothing, or the two edits that tidy the line it asks
for. -/
theorem edits_afterEdit (settings : Settings) (o : Outline) (before after : Text) (e : Edit)
    (anchor head : Int) :
    (afterEdit settings o before after e anchor head).edits = [] ∨
      ∃ fix move view, (afterEdit settings o before after e anchor head).edits = [fix, move] ∧
        AsksToTidy settings (o.follow before after e) before after e anchor head view ∧
        tidyLine? settings.style after view.newStart head view.inserted = some (fix, move) := by
  rw [afterEdit]
  by_cases hc : e.isChange = true
  · rw [if_neg (by simp [hc])]
    dsimp only
    cases htarget :
        tidyTarget? settings (o.follow before after e) before after e anchor head with
    | none => exact .inl rfl
    | some target =>
      obtain ⟨line, view⟩ := target
      simp only [Option.bind_some]
      cases htidy : tidyLine? settings.style after view.newStart head view.inserted with
      | none => exact .inl rfl
      | some edits =>
        exact .inr ⟨edits.1, edits.2, view, rfl, asksToTidy_of_tidyTarget? htarget, htidy⟩
  · rw [if_pos (by simpa using hc)]
    exact .inl rfl

theorem edits_afterEdit_of_isAutomatic {settings : Settings} {o : Outline} {before after : Text}
    {e : Edit} {anchor head : Int} (h : e.isAutomatic = true) :
    (afterEdit settings o before after e anchor head).edits = [] := by
  rcases edits_afterEdit settings o before after e anchor head with hnone | ⟨_, _, _, -, hasks, -⟩
  · exact hnone
  · rw [hasks.own] at h; cases h

namespace Session

variable {s : Session} {before after : Text} {e : Edit}

/-- **Telling the session about an edit** brings its outline up to date. -/
theorem outline_afterCommit (ho : s.outline = .ofText before) (hfits : e.Fits before)
    (anchor head : Int) :
    (s.afterCommit before (e.apply before) e anchor head).1.outline = .ofText (e.apply before) := by
  change (afterEdit s.settings s.outline before (e.apply before) e anchor head).outline = _
  cases hc : e.isChange with
  | false =>
    -- the outline stays, and so does the text
    rw [afterEdit, if_pos (by simp [hc]), ho, Edit.apply_of_not_isChange hc]
  | true =>
    rw [afterEdit, if_neg (by simp [hc])]
    exact Outline.follow_eq_ofText (.inl ho) hfits hc

/-- **What follows from an edit** is nothing, or an edit that fits and one without spans. -/
theorem followUps_afterCommit (s : Session) (before after : Text) (e : Edit) (anchor head : Int) :
    (s.afterCommit before after e anchor head).2.1 = [] ∨
      ∃ fix move : Edit, (s.afterCommit before after e anchor head).2.1 = [fix, move] ∧
        fix.Fits after ∧ move.spans = [] := by
  rcases edits_afterEdit s.settings s.outline before after e anchor head with
    hnone | ⟨fix, move, view, hedits, -, htidy⟩
  · exact .inl hnone
  · exact .inr ⟨fix, move, hedits, fits_of_tidyLine? htidy⟩

/-- Nothing follows from an edit that changes nothing. -/
theorem followUps_of_not_isChange (h : e.isChange = false) (anchor head : Int) :
    (s.afterCommit before after e anchor head).2.1 = [] := by
  simp [afterCommit, afterEdit, h]

end Session

end TypingAid
