import TypingAid.Proofs.Session.Command

/-!
# Setting lines keeps the blocks

When a line of prose is set in any style, with any caret and under any scope, the text keeps the
number of its lines, what each of them is and the block that each leaves open
(`Text.KeepsBlocks`).  So the commands that set lines only need to give the outline its new text:
it is the one that comes of classifying every line anew, and lines that are not prose are left
alone (`Response.SetsProse`).

`setting_keepsBlocks` says both.  A session may know another text than the one in the editor, and
then it classifies that one first (`Session.sync`).
-/

namespace TypingAid

open Text

namespace Text

/-- The text with another line in the place of line `n`. -/
def replaceLine (t : Text) (n : ℕ) (line : Text) : Text := ofLines ((lines t).set n line)

theorem lines_replaceLine (t : Text) (n : ℕ) {new : Text} (h : '\n' ∉ new) :
    lines (t.replaceLine n new) = (lines t).set n new := by
  refine lines_ofLines (by simp) fun l hl => ?_
  rcases List.mem_or_eq_of_mem_set hl with hl | rfl
  · exact newline_not_mem_of_mem_lines hl
  · exact h

theorem replaceLine_between {x l y new : Text} (hx : lastLine x = []) (hl : '\n' ∉ l)
    (hy : firstLine y = []) (hnew : '\n' ∉ new) :
    (x ++ (l ++ y)).replaceLine (x.count '\n') new = x ++ (new ++ y) := by
  have hlines : (lines (x ++ (l ++ y))).set (x.count '\n') new = lines (x ++ (new ++ y)) := by
    rw [lines_between hx hy, lines_between hx hy, lines_of_not_mem hl, lines_of_not_mem hnew,
      List.set_append_right _ _ (length_dropLast_lines x).le, length_dropLast_lines, Nat.sub_self]
    rfl
  rw [replaceLine, hlines, ofLines_lines]

/-- The text `t'` has the same blocks as `t`, and lines that are not prose are the same. -/
structure KeepsBlocks (t t' : Text) : Prop where
  count : (lines t').length = (lines t).length
  /-- Every line is what it was and leaves the block open that it left open. -/
  blocks : (Outline.ofText t').lines = (Outline.ofText t).lines
  others : ∀ i : ℕ, (Outline.ofText t).isProse i = false → (lines t')[i]? = (lines t)[i]?

theorem KeepsBlocks.refl (t : Text) : t.KeepsBlocks t := ⟨rfl, rfl, fun _ _ => rfl⟩

/-- A text whose lines are the same or prose that has been set. -/
theorem keepsBlocks_of_lines (style : Style) {t t' : Text}
    (hlen : (lines t').length = (lines t).length)
    (h : ∀ (i : ℕ) (line line' : Text), (lines t)[i]? = some line → (lines t')[i]? = some line' →
      line' = line ∨ (Outline.ofText t).isProse i = true ∧
        ∃ caret scope, line' = (formatLine style line caret scope).1) :
    t.KeepsBlocks t' := by
  refine ⟨hlen, ?_, fun i hi => ?_⟩
  · rw [← Outline.setContent_of_lines style hlen h]; rfl
  · by_cases hin : i < (lines t).length
    · have hline := List.getElem?_eq_getElem hin
      have hline' := List.getElem?_eq_getElem (hlen ▸ hin : i < (lines t').length)
      rcases h i _ _ hline hline' with he | ⟨hprose, -⟩
      · rw [hline, hline', he]
      · rw [hi] at hprose; cases hprose
    · rw [List.getElem?_eq_none (by omega), List.getElem?_eq_none (by omega)]

/-- **Setting one line of prose keeps the blocks.** -/
theorem keepsBlocks_replaceLine (style : Style) {t : Text} {n : ℕ}
    (h : (Outline.ofText t).isProse n = true) (caret : Option Int) (scope : Option Scope) :
    t.KeepsBlocks (t.replaceLine n (formatLine style (line t n) caret scope).1) := by
  obtain ⟨m, hm, hn⟩ := Session.exists_of_isProse h
  obtain rfl : n = m := by exact_mod_cast hm
  have hline : line t n = (lines t)[n] := by
    rw [line, if_neg (by omega), Int.toNat_natCast, List.getElem?_eq_getElem hn]; rfl
  set new := (formatLine style (line t n) caret scope).1 with hnew
  have hnl : '\n' ∉ new := newline_not_mem_formatLine style
    (hline ▸ newline_not_mem_of_mem_lines (List.getElem_mem hn)) caret scope
  have hlines := lines_replaceLine t n hnl
  refine keepsBlocks_of_lines style (by rw [hlines, List.length_set]) fun i l l' hl hl' => ?_
  rw [hlines, List.getElem?_set] at hl'
  split_ifs at hl' with hi
  · subst hi
    rw [List.getElem?_eq_getElem hn, Option.some.injEq] at hl
    rw [Option.some.injEq] at hl'
    exact .inr ⟨h, caret, scope, by rw [← hl', hnew, hline, hl]⟩
  · exact .inl (Option.some.inj (hl'.symm.trans hl))

end Text

/-- The response has set lines of prose of the text `t` and nothing else, and its outline is that of
the new text, unless no text has been classified and nothing was done. -/
structure Response.SetsProse {α : Type} (r : Response α) (t : Text) : Prop where
  outline : r.session.outline = .ofText (r.actions.foldl HostAction.onText t) ∨
    r.session.outline.isEmpty = true ∧ r.actions = []
  keeps : t.KeepsBlocks (r.actions.foldl HostAction.onText t)

namespace Session

variable {s : Session} {t : Text}

theorem SetsLines.setsProse {α : Type} {r : Response α} {p : ℕ → Prop} [DecidablePred p]
    (h : s.SetsLines r p t) (hs : s.outline = .ofText t) : r.SetsProse t :=
  ⟨.inl (h.inStep hs), keepsBlocks_of_lines s.settings.style h.text.length_lines
    fun _ _ _ hl hl' => h.text.line_eq hl hl'⟩

theorem sync_sync (h : (s.sync t).outline = .ofText t) : (s.sync t).sync t = s.sync t :=
  sync_of_outline h

/-! ### A session that knows another text -/

variable {view : HostView}

theorem formatArticle_sync (hknown : s.outline.isEmpty = false)
    (h : (s.sync view.text).outline = .ofText view.text) :
    s.formatArticle (some view) = (s.sync view.text).formatArticle (some view) := by
  have hsynced : (s.sync view.text).outline.isEmpty = false := by rw [h, Outline.isEmpty_ofText]
  simp only [formatArticle, hknown, hsynced, Bool.false_eq_true, if_false, sync_sync h]

theorem formatOneLine_sync (h : (s.sync view.text).outline = .ofText view.text) (line : Int) :
    s.formatOneLine (some view) line = (s.sync view.text).formatOneLine (some view) line := by
  rw [formatOneLine, formatOneLine, sync_sync h]

theorem formatSelection_sync (h : (s.sync view.text).outline = .ofText view.text) :
    s.formatSelection (some view) = (s.sync view.text).formatSelection (some view) := by
  rw [formatSelection, formatSelection, sync_sync h]

/-- **The commands that set lines keep the blocks.** -/
theorem setsProse_commands
    (hs : s.outline.isEmpty = true ∨ s.outline = .ofText s.outline.content) :
    (s.formatArticle (some view)).SetsProse view.text ∧
      (∀ line, (s.formatOneLine (some view) line).SetsProse view.text) ∧
      (s.formatSelection (some view)).SetsProse view.text := by
  have hsync := outline_sync hs view.text
  refine ⟨?_, fun line => ?_, ?_⟩
  · by_cases hempty : s.outline.isEmpty = true
    · -- nothing has been classified, and the command leaves it at that
      have hnothing : s.formatArticle (some view) =
          ⟨s, (), [], [⟨.info, "format_article: no parsed article"⟩]⟩ := by
        rw [formatArticle, if_pos hempty]
      rw [hnothing]
      exact ⟨.inr ⟨hempty, rfl⟩, .refl _⟩
    · rw [formatArticle_sync (by simpa using hempty) hsync]
      exact (setsLines_formatArticle hsync).setsProse hsync
  · rw [formatOneLine_sync hsync]
    exact (setsLines_formatOneLine hsync line).setsProse hsync
  · rw [formatSelection_sync hsync]
    exact (setsLines_formatSelection hsync).setsProse hsync

end Session

/-- **Setting prose never changes the blocks of a text.**  A line of prose can be set in any style,
with any caret and under any scope; and after each of the commands that set lines, the outline with
the new text is that of the new text, and lines that are not prose are the same. -/
theorem setting_keepsBlocks (t : Text) :
    (∀ (style : Style) (n : ℕ), (Outline.ofText t).isProse n = true →
      ∀ (caret : Option Int) (scope : Option Scope),
        t.KeepsBlocks (t.replaceLine n (formatLine style (Text.line t n) caret scope).1)) ∧
    ∀ (s : Session) (view : HostView), view.Shows t →
      s.outline.isEmpty = true ∨ s.outline = .ofText s.outline.content →
      (s.formatArticle (some view)).SetsProse t ∧
        (∀ line, (s.formatOneLine (some view) line).SetsProse t) ∧
        (s.formatSelection (some view)).SetsProse t := by
  refine ⟨fun style n h caret scope => Text.keepsBlocks_replaceLine style h caret scope, ?_⟩
  rintro s view ⟨rfl, -, -⟩ hs
  exact Session.setsProse_commands hs

/-- A line with stray marks between a code block and a formula, set strictly under a scope; and the
commands of a session that knows another text. -/
theorem setting_keepsBlocks_strict :
    let t : Text := "```py\n中文ab\n```\n``中文`a`文b$$x$中\n$$\n中a\n$$".toList
    let style : Style := { codeSpaces := .strict, formulaSpaces := .strict }
    let new : Text := "` `中文` a`文b$$x$中".toList
    let s : Session := { outline := .ofText "$$".toList }
    let view : HostView := ⟨t, 0, t.length⟩
    (Outline.ofText t).isProse 3 = true ∧ view.Shows t ∧
      s.outline = .ofText s.outline.content ∧
      (formatLine style (Text.line t 3) (some 5) (some ⟨0, 5⟩)).1 = new ∧
      t.KeepsBlocks (t.replaceLine 3 new) ∧ (s.formatArticle (some view)).SetsProse t := by
  intro t style new s view
  have hprose : (Outline.ofText t).isProse (3 : ℕ) = true := by decide +kernel
  have hnew : (formatLine style (Text.line t (3 : ℕ)) (some 5) (some ⟨0, 5⟩)).1 = new := by
    decide +kernel
  have hview : view.Shows t := ⟨rfl, Nat.zero_le _, Nat.le_refl _⟩
  have h := setting_keepsBlocks t
  have hkeeps := h.1 style 3 hprose (some 5) (some ⟨0, 5⟩)
  rw [hnew] at hkeeps
  exact ⟨hprose, hview, rfl, hnew, hkeeps, (h.2 s view hview (.inr rfl)).1⟩

end TypingAid
