import TypingAid.Proofs.Session.Setting

/-!
# Commands on a text that changed behind the session's back

An editor may come to show another text without a word to its session.  The next command finds the
session with the outline of the old text.

* The commands that set lines look first whether the text is still the one that the session knows,
  and classify it if it is not.  After them the outline is that of the text, whatever the session
  knew (`Session.sync`).
* A code block takes the lines above it over from the outline, without a look at the text.  So the
  outline after it is that of the text if and only if the old text and the new one have the same
  lines there (`Session.inStep_insertCodeBlock_iff`).  Where they do not, no later command notices,
  since the outline says that it is of the text in the editor
  (`Session.sync_insertCodeBlock`).

`Session.inStep_behind` says both, and `Session.insertCodeBlock_behind` has a text on which the
outline goes wrong for good.
-/

namespace TypingAid

open Text

namespace Outline

theorem content_reparse (o : Outline) (t : Text) (n : Int) : (o.reparse t n).content = t := by
  rw [reparse]
  split_ifs <;> rfl

/-- Something has been classified, since a text has at least one line. -/
theorem isEmpty_reparse (o : Outline) (t : Text) (n : ℕ) : (o.reparse t n).isEmpty = false := by
  simp only [reparse, Int.toNat_natCast]
  split_ifs with hc
  · exact isEmpty_ofText t
  · rw [not_or, Bool.not_eq_true] at hc
    have hknown : 0 < o.lines.length := by
      rw [List.length_pos_iff, ← List.isEmpty_eq_false_iff]; exact hc.1
    have hlines := length_lines t
    rw [isEmpty, List.isEmpty_eq_false_iff, ← List.length_pos_iff, List.length_append,
      List.length_take, length_scan, List.length_drop]
    omega

end Outline

namespace Session

variable {s : Session} {old t : Text} {view : HostView}

/-- What a session knows after a code block is taken for the text in the editor. -/
theorem sync_insertCodeBlock (s : Session) (hview : view.Shows t) :
    let r := s.insertCodeBlock (some view)
    r.session.sync (r.actions.foldl HostAction.onText t) = r.session := by
  intro r
  obtain ⟨block, htext, houtline⟩ := insertCodeBlock_some s hview
  rw [sync, htext, houtline, Outline.isEmpty_reparse, Outline.content_reparse,
    if_neg (by simp)]

/-- **Commands on a text that changed behind the session's back.**  The three that set lines find the
outline of the new text.  A code block leaves the right outline if and only if the old text has the
lines of the new one above it, or too few lines to take any over; and either way the outline says
that it is of the text in the editor. -/
theorem inStep_behind (hs : s.outline = .ofText old) (hview : view.Shows t) :
    (s.formatArticle (some view)).InStep t ∧
      (∀ line, (s.formatOneLine (some view) line).InStep t) ∧
      (s.formatSelection (some view)).InStep t ∧
      let r := s.insertCodeBlock (some view)
      let first := (position t (min view.anchor view.head : ℕ)).line
      (r.InStep t ↔ (lines old).length < first ∨
        (Outline.ofText old).lines.take first = (Outline.ofText t).lines.take first) ∧
      r.session.outline.content = r.actions.foldl HostAction.onText t ∧
      r.session.sync (r.actions.foldl HostAction.onText t) = r.session := by
  have hknown : s.outline.isEmpty = false := by rw [hs, Outline.isEmpty_ofText]
  have hown : s.outline.isEmpty = true ∨ s.outline = .ofText s.outline.content :=
    .inr (by rw [hs]; rfl)
  obtain ⟨block, htext, houtline⟩ := insertCodeBlock_some s hview
  have hblock := inStep_insertCodeBlock_iff s hview
  have hsynced := sync_insertCodeBlock s hview
  obtain ⟨rfl, -, -⟩ := hview
  have hsync := outline_sync hown view.text
  refine ⟨?_, fun line => ?_, ?_, ?_, ?_, hsynced⟩
  · rw [formatArticle_sync hknown hsync]
    exact (setsLines_formatArticle hsync).inStep hsync
  · rw [formatOneLine_sync hsync]
    exact (setsLines_formatOneLine hsync line).inStep hsync
  · rw [formatSelection_sync hsync]
    exact (setsLines_formatSelection hsync).inStep hsync
  · refine hblock.trans ?_
    rw [hknown, hs, Outline.length_ofText]
    simp only [Bool.false_eq_true, false_or]
  · rw [houtline, Outline.content_reparse, htext]

/-- A code block begins on the second line of the old text, and the new one has the same first
line. -/
theorem inStep_behind_shared :
    let old : Text := "x\n```\na".toList
    let t : Text := "x\ny\nz".toList
    let s : Session := { outline := .ofText old }
    let view : HostView := ⟨t, 2, t.length⟩
    s.outline = .ofText old ∧ view.Shows t ∧ (s.formatArticle (some view)).InStep t ∧
      (s.formatSelection (some view)).InStep t ∧ (s.insertCodeBlock (some view)).InStep t := by
  intro old t s view
  have hview : view.Shows t := ⟨rfl, by decide, Nat.le_refl _⟩
  obtain ⟨harticle, -, hselection, hblock, -⟩ := inStep_behind (s := s) rfl hview
  have habove : (Outline.ofText old).lines.take (position t (2 : ℕ)).line =
      (Outline.ofText t).lines.take (position t (2 : ℕ)).line := by decide +kernel
  exact ⟨rfl, hview, harticle, hselection, hblock.2 (.inr habove)⟩

/-- The old text is a code block, and the new one is prose.  With the caret on the last line, a code
block leaves an outline that is wrong above it: two lines of prose count as lines of the block that
is gone. -/
theorem insertCodeBlock_behind :
    let s : Session := { outline := .ofText "```\na\nb".toList }
    let t : Text := "x\ny\nz".toList
    let after : Text := "x\ny\n```\n```\nz".toList
    let r := s.insertCodeBlock (some ⟨t, 4, 4⟩)
    s.outline.isEmpty = false ∧ r.actions.foldl HostAction.onText t = after ∧
      r.session.outline.content = after ∧
      r.session.outline.kinds = [.code, .code, .code, .code, .code] ∧
      (Outline.ofText after).kinds = [.text, .text, .code, .code, .text] ∧
      ¬ r.InStep t := by
  unfold Response.InStep
  intro s t after r
  decide +kernel

end Session

end TypingAid
