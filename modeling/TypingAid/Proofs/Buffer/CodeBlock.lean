import TypingAid.Proofs.Block.Extent
import TypingAid.Proofs.Buffer.Sync

/-!
# Inserted code blocks

The command for a code block works out from the old text what it puts in, where the caret goes and
from which line on the new text is to be classified.  All of that fits the new text:

* what is put in begins where a line begins and ends where one ends, with line breaks of its own
  where the selection begins or ends within a line (`lastLine_lead`, `firstLine_tail`), so the two
  fences and the lines between them are lines of the new text (`lines_fenced`);
* the caret stands behind the opening fence (`Session.actions_insertCodeBlock`);
* where no block is open, the fences enclose one block, and it runs into no other one
  (`Outline.exists_blocks_fenced`).

`Buffer.insertCodeBlock_encloses` says all of this of a buffer.  The two conditions on the block are
needed: in an open block the first fence opens nothing, and a selected line may be a fence that
closes the block early.
-/

namespace TypingAid

open Text

/-- What is selected, line by line.  Where nothing is selected there is no line. -/
def selectedLines (t : Text) (start stop : ℕ) : List Text :=
  if start = stop then [] else lines (slice t start stop)

/-- Lines between two fences. -/
def fencedLines (ls : List Text) : List Text := Session.codeFence :: (ls ++ [Session.codeFence])

/-- The line break between the line of an offset and a fence put in behind it. -/
def fenceLead (t : Text) (start : ℕ) : Text := if isLineStart t start then [] else ['\n']

/-- The line break between a fence and the rest of the line it is put in front of. -/
def fenceTail (t : Text) (stop : ℕ) : Text := if isLineStop t stop then [] else ['\n']

variable {t front behind : Text} {ls : List Text} {start stop : ℕ}

theorem newline_not_mem_selectedLines : ∀ l ∈ selectedLines t start stop, '\n' ∉ l := by
  intro l hl
  rw [selectedLines] at hl
  split_ifs at hl
  · exact absurd hl List.not_mem_nil
  · exact newline_not_mem_of_mem_lines hl

theorem length_fencedLines (ls : List Text) : (fencedLines ls).length = ls.length + 2 := by
  simp [fencedLines]

theorem newline_not_mem_fencedLines (hls : ∀ l ∈ ls, '\n' ∉ l) :
    ∀ l ∈ fencedLines ls, '\n' ∉ l := by
  have hfence : '\n' ∉ Session.codeFence := by decide
  simp only [fencedLines, List.mem_cons, List.mem_append, List.not_mem_nil, or_false]
  rintro l (rfl | hl | rfl)
  · exact hfence
  · exact hls l hl
  · exact hfence

/-- The selected text, if there is any, stands between the fences as it is. -/
theorem ofLines_fencedLines : ofLines (fencedLines (selectedLines t start stop)) =
    if start ≠ stop then
      Session.codeFence ++ '\n' :: slice t start stop ++ '\n' :: Session.codeFence
    else Session.codeFence ++ '\n' :: Session.codeFence := by
  rw [selectedLines]
  by_cases h : start = stop
  · rw [if_pos h, if_neg (not_not.2 h)]
    rfl
  · have hlines : lines (Session.codeFence ++ '\n' :: slice t start stop ++
        '\n' :: Session.codeFence) = fencedLines (lines (slice t start stop)) := by
      rw [lines_append_newline, lines_append_newline]
      rfl
    rw [if_neg h, if_pos h, ← hlines, ofLines_lines]

theorem exists_ofLines_fencedLines (ls : List Text) :
    ∃ rest, ofLines (fencedLines ls) = Session.codeFence ++ '\n' :: rest := by
  cases ls <;> exact ⟨_, rfl⟩

theorem width_le_length_fenced (ls : List Text) : 3 ≤ (ofLines (fencedLines ls)).length := by
  obtain ⟨rest, hrest⟩ := exists_ofLines_fencedLines ls
  rw [hrest, List.length_append]
  exact Nat.le_add_right 3 _

theorem lastLine_lead (t : Text) (start : ℕ) :
    lastLine (t.take start ++ fenceLead t start) = [] := by
  rw [fenceLead]
  split_ifs with h
  · rw [List.append_nil]
    exact isLineStart_iff.1 h
  · exact lastLine_append_newline _ List.not_mem_nil

theorem firstLine_tail (t : Text) (stop : ℕ) :
    firstLine (fenceTail t stop ++ t.drop stop) = [] := by
  rw [fenceTail]
  split_ifs with h
  · exact isLineStop_iff.1 h
  · rfl

theorem count_fenceLead (t : Text) (start : ℕ) :
    (fenceLead t start).count '\n' = (fenceLead t start).length := by
  rw [fenceLead]
  split_ifs <;> rfl

/-! ### The lines of the new text -/

section Lines

variable (hfront : lastLine front = []) (hbehind : firstLine behind = [])
  (hls : ∀ l ∈ ls, '\n' ∉ l)
include hfront hbehind hls

/-- The fences and the lines between them are lines of the text in which they stand apart. -/
theorem lines_fenced : lines (front ++ (ofLines (fencedLines ls) ++ behind)) =
    (lines front).dropLast ++ (fencedLines ls ++ (lines behind).tail) := by
  have hne : fencedLines ls ≠ [] := List.cons_ne_nil _ _
  rw [lines_between hfront hbehind, lines_ofLines hne (newline_not_mem_fencedLines hls)]

theorem getElem?_lines_fenced {i : ℕ} (hi : i < (fencedLines ls).length) :
    (lines (front ++ (ofLines (fencedLines ls) ++ behind)))[front.count '\n' + i]? =
      (fencedLines ls)[i]? := by
  rw [lines_fenced hfront hbehind hls, ← length_dropLast_lines,
    List.getElem?_append_right (Nat.le_add_right _ _), Nat.add_sub_cancel_left,
    List.getElem?_append_left hi]

theorem take_drop_lines_fenced :
    ((lines (front ++ (ofLines (fencedLines ls) ++ behind))).drop (front.count '\n')).take
      (ls.length + 2) = fencedLines ls := by
  rw [lines_fenced hfront hbehind hls, ← length_dropLast_lines, List.drop_left,
    ← length_fencedLines, List.take_left]

/-- **One block for two fences.**  Where no block is open and no line between the fences closes the
block, it reaches from one fence to the other, and all other blocks lie above it or below it. -/
theorem Outline.exists_blocks_fenced
    (hopen : (ofText (front ++ (ofLines (fencedLines ls) ++ behind))).openBefore
      (front.count '\n') = .none)
    (hinside : ∀ l ∈ ls, ¬ Closes (dropTail (· = '\r') l) (.code backtick 3)) :
    ∃ above below, (ofText (front ++ (ofLines (fencedLines ls) ++ behind))).blocks =
        above ++ ⟨.code, front.count '\n', front.count '\n' + (ls.length + 1)⟩ :: below ∧
      (∀ b ∈ above, b.last < front.count '\n') ∧
        ∀ b ∈ below, front.count '\n' + (ls.length + 1) < b.first := by
  have hlength := length_fencedLines ls
  have hblanks : ∀ c ∈ ([] : Text), isBlank c = true := nofun
  have hopens : Opens (dropTail (· = '\r') Session.codeFence) (front.count '\n')
      (.code backtick 3) :=
    .code (.inl rfl) le_rfl hblanks rfl nofun fun _ => List.not_mem_nil
  have hcloses : Closes (dropTail (· = '\r') Session.codeFence) (.code backtick 3) :=
    .code le_rfl hblanks hblanks rfl
  have hfirst := getElem?_lines_fenced hfront hbehind hls (i := 0) (by omega)
  have hlast := getElem?_lines_fenced hfront hbehind hls (i := ls.length + 1) (by omega)
  refine exists_blocks_eq hopen hfirst hopens (.closed (fun l _ hwhole => nomatch hwhole.1)
    (by omega) ?_ hcloses fun i l hi hilast hl => ?_)
  · rw [getElem?_trimReturns, hlast]
    simp [fencedLines]
  · -- the lines between the fences are the selected ones
    obtain ⟨k, rfl⟩ : ∃ k, i = front.count '\n' + (k + 1) :=
      ⟨i - front.count '\n' - 1, by omega⟩
    have hk : k < ls.length := by omega
    rw [getElem?_trimReturns, getElem?_lines_fenced hfront hbehind hls (by omega), fencedLines,
      List.getElem?_cons_succ, List.getElem?_append_left hk, List.getElem?_eq_getElem hk,
      Option.map_some] at hl
    rw [← Option.some.inj hl]
    exact hinside _ (List.getElem_mem hk)

end Lines

/-! ### The command -/

/-- What is put in stands between what was in front of the selection and what was behind it, each
with its line break. -/
theorem splice_fenced (hle : start ≤ stop) (hstop : stop ≤ t.length) (mid : Text) :
    splice t start stop (fenceLead t start ++ mid ++ fenceTail t stop) =
      t.take start ++ fenceLead t start ++ (mid ++ (fenceTail t stop ++ t.drop stop)) := by
  rw [splice_eq (by omega) (by omega), Int.toNat_natCast, Int.toNat_natCast]
  simp only [List.append_assoc]

/-- The first line of what is put in is the opening fence, so that the caret finds three columns. -/
theorem offsetAt_fenced (hstart : start ≤ t.length) (ls : List Text) (behind : Text) :
    offsetAt (t.take start ++ fenceLead t start ++ (ofLines (fencedLines ls) ++ behind))
      (((t.take start).count '\n' : ℕ) + ((fenceLead t start).length : ℕ)) 3 =
        start + (fenceLead t start).length + 3 := by
  obtain ⟨rest, hrest⟩ := exists_ofLines_fencedLines ls
  have hwidth : firstLineLength (ofLines (fencedLines ls) ++ behind) = 3 := by
    rw [hrest, List.append_assoc, List.cons_append, ← length_firstLine,
      firstLine_append_newline (by decide)]
    rfl
  have hcount : (t.take start ++ fenceLead t start).count '\n' =
      (t.take start).count '\n' + (fenceLead t start).length := by
    rw [List.count_append, count_fenceLead]
  rw [← Int.natCast_add, offsetAt, Int.toNat_natCast, ← hcount,
    offsetFrom_append (lastLine_lead t start), hwidth, List.length_append, List.length_take,
    Nat.min_eq_left hstart]
  rfl

/-- The place and the text of the fences, and the caret behind the opening one. -/
theorem Session.actions_insertCodeBlock (s : Session) {view : HostView} (hview : view.Shows t) :
    let start := min view.anchor view.head
    let stop := max view.anchor view.head
    (s.insertCodeBlock (some view)).actions =
      [.replace start stop (fenceLead t start ++
          ofLines (fencedLines (selectedLines t start stop)) ++ fenceTail t stop),
        .setCaret (start + (fenceLead t start).length + 3)] := by
  intro start stop
  obtain ⟨rfl, hanchor, hhead⟩ := hview
  have hstart : start ≤ view.text.length := by omega
  have hstop : stop ≤ view.text.length := by omega
  have hlead : (if start ≠ (lineBounds view.text start).1 then ['\n'] else []) =
      fenceLead view.text start := by
    simp only [fenceLead, ne_eq, eq_lineBounds_fst_iff hstart, ite_not]
  have htail : (if stop ≠ (lineBounds view.text stop).2 then ['\n'] else []) =
      fenceTail view.text stop := by
    simp only [fenceTail, ne_eq, eq_lineBounds_snd_iff hstop, ite_not]
  have hline : (position view.text start).line = (view.text.take start).count '\n' := by
    have hclamp : clamp view.text start = start := by rw [clamp]; omega
    rw [position, hclamp]
  have hactions (block : Text) (hblock : block = fenceLead view.text start ++
      ofLines (fencedLines (selectedLines view.text start stop)) ++ fenceTail view.text stop) :
      (s.insertCodeBlock (some view)).actions = [.replace start stop block, .setCaret
        (offsetAt (splice view.text start stop block)
          ((position view.text start).line + (fenceLead view.text start).length) 3)] := by
    rw [hblock, ofLines_fencedLines, ← hlead, ← htail]
    rfl
  rw [hactions _ rfl, splice_fenced (by omega) hstop, hline, offsetAt_fenced hstart]

/-- **The selection between two fences.**  What was selected stands between the fences line by line,
the rest of the text stays, and the caret goes behind the opening fence.  The session has the
outline of the new text.  If no block is open above the opening fence and no selected line closes
the block, the fences are the first and the last line of one block, apart from all others. -/
theorem Buffer.insertCodeBlock_encloses {b : Buffer} {s : Session} (h : b.InSync s) :
    let start := b.selection.1
    let stop := b.selection.2
    let lead := fenceLead b.text start
    let selected := selectedLines b.text start stop
    let after := b.text.take start ++ lead ++ ofLines (fencedLines selected) ++
      fenceTail b.text stop ++ b.text.drop stop
    let first := (b.text.take start ++ lead).count '\n'
    let last := first + (selected.length + 1)
    let done := (b.perform (.insertCodeBlock true)).1
    done.text = after ∧ done.anchor = start + lead.length + 3 ∧
      done.head = start + lead.length + 3 ∧
      done.session = some { s with outline := .ofText after } ∧
      ((lines after).drop first).take (selected.length + 2) = fencedLines selected ∧
      ((Outline.ofText after).openBefore first = .none →
        (∀ l ∈ selected, ¬ Closes (dropTail (· = '\r') l) (.code backtick 3)) →
        ∃ above below, (Outline.ofText after).blocks = above ++ ⟨.code, first, last⟩ :: below ∧
          (∀ block ∈ above, block.last < first) ∧ ∀ block ∈ below, last < block.first) := by
  intro start stop lead selected after first last done
  have hview : b.view.Shows b.text := ⟨rfl, h.anchor, h.head⟩
  have hle : start ≤ stop := by simp only [start, stop, selection]; omega
  have hstop : stop ≤ b.text.length := by
    have hanchor := h.anchor
    have hhead := h.head
    simp only [stop, selection]
    omega
  have hafter : after = b.text.take start ++ lead ++
      (ofLines (fencedLines selected) ++ (fenceTail b.text stop ++ b.text.drop stop)) := by
    simp only [after, List.append_assoc]
  have hsplice : spliceRel b.text start stop (lead ++ ofLines (fencedLines selected) ++
      fenceTail b.text stop) = after := by
    rw [spliceRel_eq_splice (by omega) (by omega), splice_fenced hle hstop, hafter]
  have hactions : (s.insertCodeBlock (some b.view)).actions =
      [.replace start stop (lead ++ ofLines (fencedLines selected) ++ fenceTail b.text stop),
        .setCaret (start + lead.length + 3)] := Session.actions_insertCodeBlock s hview
  obtain ⟨htext, hanchor, hhead, hsession⟩ :=
    h.command_replace (·.insertCodeBlock (some b.view)) hactions
  rw [hsplice] at htext hanchor hhead
  have hcaret : clamp after (start + lead.length + 3 : ℕ) = start + lead.length + 3 := by
    have hwidth := width_le_length_fenced selected
    simp only [clamp, after, List.length_append, List.length_take]
    omega
  have houtline : (s.insertCodeBlock (some b.view)).session.outline = .ofText after := by
    have hstep : (s.insertCodeBlock (some b.view)).InStep b.text :=
      Session.inStep_insertCodeBlock h.outline (shows_of_hostView h true)
    rw [hstep, hactions, ← hsplice]
    rfl
  have hfront := lastLine_lead b.text start
  have hbehind := firstLine_tail b.text stop
  have hls : ∀ l ∈ selected, '\n' ∉ l := newline_not_mem_selectedLines
  refine ⟨htext, hanchor.trans hcaret, hhead.trans hcaret, hsession.trans ?_, ?_, ?_⟩
  · rw [← houtline]
    rfl
  · rw [hafter]
    exact take_drop_lines_fenced hfront hbehind hls
  · rw [hafter]
    exact Outline.exists_blocks_fenced hfront hbehind hls

/-- The selection begins and ends within a line.  A formula stands above it, and below it a code
block that is never closed. -/
theorem Buffer.insertCodeBlock_encloses_within_lines :
    let t := "$$x$$\nab\ncd\n~~~".toList
    let s : Session := { outline := .ofText t }
    let b : Buffer := { text := t, anchor := 10, head := 7, session := some s }
    let done := (b.perform (.insertCodeBlock true)).1
    b.InSync s ∧ done.text = "$$x$$\na\n```\nb\nc\n```\nd\n~~~".toList ∧ done.head = 11 ∧
      ∃ above below, (Outline.ofText done.text).blocks = above ++ ⟨.code, 2, 5⟩ :: below ∧
        (∀ block ∈ above, block.last < 2) ∧ ∀ block ∈ below, 5 < block.first := by
  intro t s b done
  have hsync : b.InSync s := ⟨rfl, rfl, by decide, by decide⟩
  obtain ⟨htext, -, hhead, -, -, hblock⟩ := Buffer.insertCodeBlock_encloses hsync
  have hselected : ∀ l ∈ selectedLines t 7 10,
      ¬ Closes (dropTail (· = '\r') l) (.code backtick 3) := by
    have hlength : ∀ l ∈ selectedLines t 7 10, (dropTail (· = '\r') l).length < 3 := by decide
    intro l hl hcloses
    have hlt := hlength l hl
    cases hcloses with
    | code hwidth _ _ hline =>
      rw [hline, List.length_append, List.length_append, List.length_replicate] at hlt
      omega
  have hafter : done.text = "$$x$$\na\n```\nb\nc\n```\nd\n~~~".toList := htext.trans (by decide)
  refine ⟨hsync, hafter, hhead, ?_⟩
  rw [htext]
  exact hblock (by decide) hselected

end TypingAid
