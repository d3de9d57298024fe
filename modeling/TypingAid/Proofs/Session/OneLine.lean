import TypingAid.Proofs.Line.Tidy
import TypingAid.Proofs.Session.Aftermath
import TypingAid.Proofs.Session.Setting

/-!
# What follows from an edit touches one line

An edit is followed by nothing, or by two edits that tidy the line on which its last span starts
(`edits_afterEdit_touch`).  Something follows only from settled input of the user into prose that
takes nothing away and leaves nothing selected, while tidying is switched on.

The two edits put another line in the place of that one and leave every other line and all blocks
alone; the caret keeps its place in the text, also if it is on another line; and nothing follows from
them (`TouchesLine`).
-/

namespace TypingAid

open Text

/-- The edits put another line in the place of line `n` of the text `t` and the caret where it was,
and nothing follows from them. -/
structure TouchesLine (t : Text) (caret n : ℕ) (fix move : Edit) : Prop where
  fixEvent : fix.event = Edit.formatEvent
  moveEvent : move.event = Edit.formatEvent
  /-- The number of lines, what each line is and the blocks that are open stay the same. -/
  keeps : t.KeepsBlocks (move.apply (fix.apply t))
  others : ∀ i ≠ n, (lines (move.apply (fix.apply t)))[i]? = (lines t)[i]?
  /-- Apart from spaces and the case of letters, the same text stands before the caret. -/
  caret : ∃ goal : ℕ, fix.targetCaret = some (goal : Int) ∧ move.targetCaret = some (goal : Int) ∧
    goal ≤ (move.apply (fix.apply t)).length ∧
    fold ((move.apply (fix.apply t)).take goal) = fold (t.take caret)
  /-- The outline follows both edits, and no edit follows from them. -/
  quiet : ∀ (settings : Settings) (anchor head : Int),
    (let a := afterEdit settings (.ofText t) t (fix.apply t) fix anchor head
     a.edits = [] ∧ a.outline = .ofText (fix.apply t)) ∧
    (let a := afterEdit settings (.ofText (fix.apply t)) (fix.apply t)
      (move.apply (fix.apply t)) move anchor head
     a.edits = [] ∧ a.outline = .ofText (move.apply (fix.apply t)))

variable {style : Style} {doc inserted : Text} {fix move : Edit}

/-! ### The line -/

/-- Tidying puts the line of an offset, set, in its place. -/
theorem apply_of_tidyLine? {start caret : Int}
    (h : tidyLine? style doc start caret inserted = some (fix, move)) :
    ∃ caret' scope, fix.apply doc = doc.replaceLine (position doc start).line
      (formatLine style (line doc (position doc start).line) caret' scope).1 := by
  obtain ⟨x, l, y, k, hk, rfl, hclamp, hx, hl, hy⟩ := exists_lineBounds doc start
  have hclamp' : clamp (x ++ (l ++ y)) (x.length + k : ℕ) = x.length + k := by
    simp only [clamp, List.length_append]; omega
  have hbounds : lineBounds (x ++ (l ++ y)) start = (x.length, x.length + l.length) := by
    rw [← lineBounds_eq hx hl hy hk, lineBounds, lineBounds, hclamp, hclamp']
  have hline : (position (x ++ (l ++ y)) start).line = x.count '\n' := by
    have hk' : '\n' ∉ l.take k := mt List.mem_of_mem_take hl
    rw [position, hclamp, List.take_length_add_append, List.take_append_of_le_length hk]
    show (x ++ l.take k).count '\n' = x.count '\n'
    rw [List.count_append, List.count_eq_zero_of_not_mem hk', Nat.add_zero]
  have hget : line (x ++ (l ++ y)) (x.count '\n' : ℕ) = l := by
    rw [line, if_neg (by omega), Int.toNat_natCast, getElem?_lines_between hx hl hy]
    rfl
  -- on the line or off it, the line is set in one way or the other
  have hset : ∃ caret' scope goal, tidyLine? style (x ++ (l ++ y)) start caret inserted =
      let new := (formatLine style l caret' scope).1
      if new = l then none else some (lineFix x l new goal) := by
    simp only [tidyLine?, hbounds, slice_between, lineFix, List.length_append]
    by_cases hcaret : (x.length : Int) ≤ caret ∧ caret ≤ (x.length + l.length : ℕ)
    · simp only [if_pos hcaret]
      exact ⟨_, _, _, rfl⟩
    · simp only [if_neg hcaret]
      exact ⟨_, _, _, rfl⟩
  obtain ⟨caret', scope, goal, hset⟩ := hset
  rw [hset] at h
  obtain ⟨-, h⟩ := Option.ite_none_left_eq_some.1 h
  have hfix : fix = (lineFix x l (formatLine style l caret' scope).1 goal).1 :=
    congrArg Prod.fst (Option.some.inj h).symm
  refine ⟨caret', scope, ?_⟩
  rw [hline, hget, hfix, apply_lineFix,
    replaceLine_between hx hl hy (newline_not_mem_formatLine style hl caret' scope)]

theorem event_of_tidyLine? {start caret : Int}
    (h : tidyLine? style doc start caret inserted = some (fix, move)) :
    fix.event = Edit.formatEvent := by
  rw [tidyLine?] at h
  obtain ⟨-, h⟩ := Option.ite_none_left_eq_some.1 h
  obtain ⟨hfix, -⟩ := Prod.mk.inj (Option.some.inj h)
  rw [← hfix]
  rfl

theorem isAutomatic_of_event {e : Edit} (h : e.event = Edit.formatEvent) : e.isAutomatic = true := by
  rw [Edit.isAutomatic, h, beq_self_eq_true, Bool.or_true]

/-- **Tidying a line of prose touches that line alone.** -/
theorem touchesLine_of_tidyLine? {start caret : ℕ} (hstart : start ≤ doc.length)
    (hcaret : caret ≤ doc.length)
    (hprose : (Outline.ofText doc).isProse (position doc start).line = true)
    (h : tidyLine? style doc start caret inserted = some (fix, move)) :
    TouchesLine doc caret (position doc start).line fix move := by
  obtain ⟨hfits, hmove⟩ := fits_of_tidyLine? h
  obtain ⟨goal, hkeeps⟩ := keeps_tidyLine? hstart hcaret h
  obtain ⟨caret', scope, hfix⟩ := apply_of_tidyLine? h
  set n := (position doc start).line
  have hquiet := Edit.isChange_of_spans_eq_nil hmove
  have hsame : ∀ t : Text, move.apply t = t := Edit.apply_of_not_isChange hquiet
  have hnl : '\n' ∉ (formatLine style (line doc n) caret' scope).1 := by
    obtain ⟨m, hm, hlt⟩ := Session.exists_of_isProse hprose
    refine newline_not_mem_formatLine style ?_ caret' scope
    rw [line, if_neg (by omega), Int.toNat_natCast]
    obtain rfl : n = m := by exact_mod_cast hm
    rw [List.getElem?_eq_getElem hlt]
    exact newline_not_mem_of_mem_lines (List.getElem_mem hlt)
  refine ⟨event_of_tidyLine? h, by rw [hkeeps.again], ?_, fun i hi => ?_,
    ⟨goal, hkeeps.goal, by rw [hkeeps.again]; rfl, ?_, ?_⟩, fun settings anchor head => ⟨?_, ?_⟩⟩
  · rw [hsame, hfix]
    exact keepsBlocks_replaceLine style hprose caret' scope
  · rw [hsame, hfix, lines_replaceLine doc n hnl, List.getElem?_set_ne (Ne.symm hi)]
  · rw [hsame]; exact hkeeps.inside
  · rw [hsame]; exact hkeeps.before
  · exact ⟨edits_afterEdit_of_isAutomatic (isAutomatic_of_event (event_of_tidyLine? h)),
      Session.outline_afterCommit (s := { settings, outline := .ofText doc }) rfl hfits anchor head⟩
  · rw [hsame]
    refine ⟨edits_afterEdit_of_isAutomatic (isAutomatic_of_event (by rw [hkeeps.again])), ?_⟩
    rw [afterEdit, if_pos (by simp [hquiet])]

/-! ### What follows from an edit -/

/-- **What follows from an edit touches one line.**  Nothing follows, or two edits for the line on
which the last span starts, which is prose; and then the edit was the user's own, took nothing away
and left nothing selected. -/
theorem edits_afterEdit_touch (settings : Settings) {before : Text} {e : Edit}
    (hfits : e.Fits before) (anchor : Int) {head : ℕ} (hhead : head ≤ (e.apply before).length) :
    let after := e.apply before
    let a := afterEdit settings (.ofText before) before after e anchor head
    a.edits = [] ∨ ∃ fix move view, a.edits = [fix, move] ∧
      ((∀ s ∈ e.spans, s.stop = s.start) ∧ anchor = head ∧ settings.autoFormat = true ∧
        e.isAutomatic = false) ∧
      (e.views before).getLast? = some view ∧
      (Outline.ofText after).isProse (Outline.lineOf after view) = true ∧
      TouchesLine after head (Outline.lineOf after view) fix move := by
  intro after a
  rcases edits_afterEdit settings (.ofText before) before after e anchor head with
    hnone | ⟨fix, move, view, hedits, hasks, htidy⟩
  · exact .inl hnone
  · have hmem : view ∈ e.views before := List.mem_of_getLast? hasks.last
    have hchange : e.isChange = true := by
      by_contra hc
      have hnil : a.edits = [] := by
        show (afterEdit settings (.ofText before) before after e anchor head).edits = []
        rw [afterEdit, if_pos (by simpa using hc)]
      rw [hnil] at hedits
      cases hedits
    have hprose := hasks.prose
    rw [Outline.follow_eq_ofText (.inl rfl) hfits hchange] at hprose
    -- what the last span inserted starts at an offset of the new text
    obtain ⟨h0, hle⟩ := hfits.newStart hmem
    obtain ⟨start, hstart⟩ := Int.eq_ofNat_of_zero_le h0
    rw [hstart] at htidy hle
    have hline : (position after start).line = Outline.lineOf after view := by
      rw [Outline.lineOf, hstart]
    have hempty : ∀ s ∈ e.spans, s.stop = s.start := fun s hs =>
      Edit.stop_eq_start_of_removed
        (fun x hx => hfits.inRange x ((Span.ascending_perm e.spans).mem_iff.1 hx)) hasks.kept s
        ((Span.ascending_perm e.spans).mem_iff.2 hs)
    refine .inr ⟨fix, move, view, hedits,
      ⟨hempty, hasks.collapsed, hasks.enabled, hasks.own⟩, hasks.last, hprose, ?_⟩
    rw [← hline] at hprose ⊢
    exact touchesLine_of_tidyLine? (by exact_mod_cast hle) hhead hprose htidy

/-- Two spans, the last of which breaks a line of prose in front of a code block: the line above the
caret is tidied. -/
theorem edits_afterEdit_touch_break :
    let before : Text := "a\n中b文c\n```\n中b\n```".toList
    let e : Edit := { spans := [⟨5, 5, ['\n']⟩, ⟨0, 0, ['文']⟩], origin := .input }
    let after : Text := "文a\n中b文\nc\n```\n中b\n```".toList
    e.Fits before ∧ e.apply before = after ∧ 7 ≤ after.length ∧
      ∃ fix move, (afterEdit {} (.ofText before) before after e 7 7).edits = [fix, move] ∧
        move.apply (fix.apply after) = "文a\n中 b 文\nc\n```\n中b\n```".toList ∧
        TouchesLine after 7 1 fix move := by
  intro before e after
  have hfits : e.Fits before := ⟨by decide, by decide⟩
  have happly : e.apply before = after := by decide +kernel
  have hhead : 7 ≤ (e.apply before).length := by rw [happly]; decide
  have hview : (e.views before).getLast? = some ⟨5, 5, 6, 7, ['\n'], []⟩ := by decide +kernel
  have hline : Outline.lineOf after ⟨5, 5, 6, 7, ['\n'], []⟩ = 1 := by decide +kernel
  have h := edits_afterEdit_touch {} hfits 7 hhead
  rw [happly] at h hhead
  refine ⟨hfits, happly, hhead, ?_⟩
  have hset : ((afterEdit {} (.ofText before) before after e 7 7).edits.foldl
      (fun t edit => edit.apply t) after) = "文a\n中 b 文\nc\n```\n中b\n```".toList := by
    decide +kernel
  rcases h with hnone | ⟨fix, move, view, hedits, -, hlast, -, htouch⟩
  · have hsome : (afterEdit {} (.ofText before) before after e 7 7).edits ≠ [] := by decide +kernel
    exact absurd hnone hsome
  · rw [hview, Option.some.injEq] at hlast
    rw [← hlast, hline] at htouch
    have hpair : (afterEdit {} (.ofText before) before after e 7 7).edits = [fix, move] := hedits
    rw [hpair] at hset
    exact ⟨fix, move, hpair, hset, htouch⟩

end TypingAid
