import TypingAid.Proofs.Buffer.Sync

/-!
# The commands that set lines agree

A document is set as a whole, line after line, or as one selection, and the text comes out the same,
with the same outline (`Buffer.format_agree`).  A selection of a part gives on the lines that it
touches what the whole document would get there, and leaves all others alone.

Each command sets the lines that it is for (`Buffer.HasSet`).  Set one after the other, lines do not
get in each other's way: what is prose does not change on the way, and no line is set twice
(`Buffer.HasSet.trans`).
-/

namespace TypingAid

open Text

namespace Buffer

variable {b b' : Buffer} {s : Session} {style : Style} {t : Text} {p q : ℕ → Prop}
  [DecidablePred p] [DecidablePred q]

/-- The buffer holds the text `t` with the prose on the lines that `p` picks set, and it is in sync
with a session of that style. -/
structure HasSet (b : Buffer) (style : Style) (p : ℕ → Prop) [DecidablePred p] (t : Text) :
    Prop where
  text : style.SetsWhere p t b.text
  sync : ∃ s, b.InSync s ∧ s.settings.style = style

namespace HasSet

theorem congr (h : b.HasSet style p t) (hpq : ∀ i < (lines t).length, p i ↔ q i) :
    b.HasSet style q t := ⟨h.text.congr hpq, h.sync⟩

theorem outline (h : b.HasSet style p t) : b.session.map (·.outline) = some (.ofText b.text) := by
  obtain ⟨s, hs, -⟩ := h.sync
  rw [hs.session, Option.map_some, hs.outline]

/-- Buffers in which the same lines have been set hold the same text. -/
theorem agree (h : b.HasSet style p t) (h' : b'.HasSet style q t)
    (hpq : ∀ i < (lines t).length, p i ↔ q i) :
    b.text = b'.text ∧ b.session.map (·.outline) = b'.session.map (·.outline) := by
  have htext : b.text = b'.text := (h.congr hpq).text.unique h'.text
  exact ⟨htext, by rw [h.outline, h'.outline, htext]⟩

/-- **Other lines set after these.** -/
theorem trans (h : b.HasSet style p t) (h' : b'.HasSet style q b.text) (hpq : ∀ i, p i → ¬ q i) :
    b'.HasSet style (fun i => p i ∨ q i) t := ⟨h.text.trans h'.text hpq, h'.sync⟩

end HasSet

/-! ### One command -/

/-- A command that sets lines does so in the buffer. -/
theorem InSync.hasSet {α : Type} (h : b.InSync s) {f : Session → Response α}
    (hr : s.SetsLines (f s) p b.text) :
    (b.command f).1.HasSet s.settings.style p b.text := by
  rw [Buffer.command, h.session]
  refine ⟨?_, (f s).session, foldl_act _ h.anchor h.head rfl (hr.inStep h.outline), ?_⟩
  · rw [text_foldl_act]
    exact hr.text
  · rw [hr.session]

theorem InSync.formatArticle (h : b.InSync s) :
    (b.perform (.formatArticle true)).1.HasSet s.settings.style (fun _ => True) b.text :=
  h.hasSet (f := (·.formatArticle (some b.view))) (Session.setsLines_formatArticle h.outline)

theorem InSync.formatOneLine (h : b.InSync s) (line : Int) :
    (b.perform (.formatOneLine line true)).1.HasSet s.settings.style (fun i => (i : Int) = line)
      b.text :=
  h.hasSet (f := (·.formatOneLine (some b.view) line))
    (Session.setsLines_formatOneLine h.outline line)

/-- The lines that a selection touches, from the offsets as they are given. -/
theorem InSync.formatSelected (h : b.InSync s) (anchor head : Int) :
    (b.run [.select anchor head, .formatSelection true]).HasSet s.settings.style
      (fun i => (position b.text (min anchor head)).line ≤ i ∧
        i ≤ (position b.text (max anchor head)).line) b.text := by
  have hset := (h.select anchor head).hasSet
    (f := (·.formatSelection (some (b.select anchor head).view)))
    (Session.setsLines_formatSelection h.outline)
  have hmin : (position b.text (min (clamp b.text anchor : Int) (clamp b.text head))).line =
      (position b.text (min anchor head)).line := by
    have hclamp : clamp b.text (min (clamp b.text anchor : Int) (clamp b.text head)) =
        clamp b.text (min anchor head) := by simp only [clamp]; omega
    rw [position, position, hclamp]
  have hmax : (position b.text (max (clamp b.text anchor : Int) (clamp b.text head))).line =
      (position b.text (max anchor head)).line := by
    have hclamp : clamp b.text (max (clamp b.text anchor : Int) (clamp b.text head)) =
        clamp b.text (max anchor head) := by simp only [clamp]; omega
    rw [position, position, hclamp]
  refine hset.congr fun i _ => ?_
  show (position b.text (min (clamp b.text anchor : Int) (clamp b.text head))).line ≤ i ∧
    i ≤ (position b.text (max (clamp b.text anchor : Int) (clamp b.text head))).line ↔ _
  rw [hmin, hmax]

/-! ### Line after line -/

/-- After the first `n` lines have been set one after the other, these are the ones that are set. -/
theorem InSync.formatLines (h : b.InSync s) (n : ℕ) :
    (b.run ((List.range n).map fun i : ℕ => .formatOneLine i true)).HasSet s.settings.style
      (fun i => i < n) b.text := by
  induction n with
  | zero =>
    exact ⟨Style.setsWhere_self _ fun i hi => absurd hi (Nat.not_lt_zero i), s, h, rfl⟩
  | succ n ih =>
    obtain ⟨s', hs', hstyle⟩ := ih.sync
    have hnext := hs'.formatOneLine n
    rw [hstyle] at hnext
    rw [List.range_succ, List.map_append, run, List.foldl_append]
    refine (ih.trans hnext fun i hi => by omega).congr fun i _ => ?_
    omega

/-- **The commands that set lines agree.**  Set as a whole, line after line, or all selected, a text
comes out the same, with the same outline.  With any selection, the lines from the first to the last
one that it touches come out as in the whole, and the others stay. -/
theorem format_agree (h : b.InSync s) :
    let article := (b.perform (.formatArticle true)).1
    let byLine := b.run ((List.range (lines b.text).length).map fun n : ℕ => .formatOneLine n true)
    let whole := b.run [.select 0 b.text.length, .formatSelection true]
    byLine.text = article.text ∧ whole.text = article.text ∧
      article.session.map (·.outline) = some (.ofText article.text) ∧
      byLine.session.map (·.outline) = article.session.map (·.outline) ∧
      whole.session.map (·.outline) = article.session.map (·.outline) ∧
      ∀ anchor head : Int,
        let selected := b.run [.select anchor head, .formatSelection true]
        let first := (position b.text (min anchor head)).line
        let last := (position b.text (max anchor head)).line
        (lines selected.text).length = (lines b.text).length ∧
          ∀ i, (lines selected.text)[i]? =
            if first ≤ i ∧ i ≤ last then (lines article.text)[i]? else (lines b.text)[i]? := by
  intro article byLine whole
  have harticle : article.HasSet s.settings.style (fun _ => True) b.text := h.formatArticle
  have hbyLine : byLine.HasSet s.settings.style (fun i => i < (lines b.text).length) b.text :=
    h.formatLines _
  have hwhole : whole.HasSet s.settings.style _ b.text := h.formatSelected 0 b.text.length
  have hlines := hbyLine.agree harticle fun i hi => by simp only [hi]
  have hselected := hwhole.agree harticle fun i hi => by
    -- the whole text reaches from the first line to the last one
    have hfirst : (position b.text (min 0 (b.text.length : Int))).line = 0 := by
      have hclamp : clamp b.text (min 0 (b.text.length : Int)) = 0 := by rw [clamp]; omega
      rw [position, hclamp]
      rfl
    have hlast : (position b.text (max 0 (b.text.length : Int))).line + 1 =
        (lines b.text).length := by
      have hclamp : clamp b.text (max 0 (b.text.length : Int)) = b.text.length := by
        rw [clamp]; omega
      rw [position, hclamp, List.take_length, length_lines]
    rw [hfirst, iff_true]
    omega
  refine ⟨hlines.1, hselected.1, harticle.outline, hlines.2, hselected.2, fun anchor head => ?_⟩
  have hpart := (h.formatSelected anchor head).text
  refine ⟨hpart.length_lines, fun i => ?_⟩
  rw [hpart i]
  split_ifs with hi
  · rw [harticle.text i]
    congr 1
    exact Style.setPicked_congr _ (by simp only [hi, and_self])
  · rw [Style.setPicked_of_not _ fun hp => hi hp.1, Option.map_id_apply]

/-- Prose above and below a code block; of a selection that runs backwards from the last line into
the block, only that line is set. -/
theorem format_agree_backwards :
    let t : Text := "中a\n```\n中b\n```\n文c".toList
    let b := create t (some (.create .null .default)) "note.md"
    let article := (b.perform (.formatArticle true)).1
    let byLine := b.run ((List.range (lines b.text).length).map fun n : ℕ => .formatOneLine n true)
    let selected := b.run [.select 16 9, .formatSelection true]
    b.HasSync ∧ article.text = "中 a\n```\n中b\n```\n文 c".toList ∧ byLine.text = article.text ∧
      selected.text = "中a\n```\n中b\n```\n文 c".toList ∧
      (lines selected.text)[4]? = (lines article.text)[4]? := by
  intro t b article byLine selected
  have hsync : b.HasSync := hasSync_create .null .default t "note.md"
  obtain ⟨s, hs⟩ := hsync
  obtain ⟨hbyLine, -, -, -, -, hselected⟩ := format_agree hs
  have htext : article.text = "中 a\n```\n中b\n```\n文 c".toList := by decide +kernel
  have hpart : selected.text = "中a\n```\n中b\n```\n文 c".toList := by decide +kernel
  have hline := (hselected 16 9).2 4
  rw [if_pos (by decide +kernel)] at hline
  exact ⟨⟨s, hs⟩, htext, hbyLine, hpart, hline⟩

end Buffer

end TypingAid
