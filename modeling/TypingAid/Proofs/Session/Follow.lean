import TypingAid.Proofs.Block.Locality
import TypingAid.Proofs.Edit.Weave
import TypingAid.Session.Aftermath

/-!
# Following an edit

`Outline.follow` looks only at the lines on which the spans of an edit now start, and classifies
anew only when a span may have opened, closed or split a block or its line is not what it was.
`Outline.follow_eq_ofText` says that this is enough: the outline that comes out is that of the
whole new text, whatever the number of spans.

The proof goes through the spans from left to right with the text woven so far and the part of the
old text it came from.  As long as nothing has been classified anew, the two have equally many
lines, and line by line they are equal, except for lines on which a span starts; those have been
looked at in the new text and found right (`Text.Tracks`).  The first span that asks for it
classifies anew from its own line on, and all lines above are right by then.  From there on the
outline is that of the new text and stays so (`Outline.followViews_ofText`).
-/

namespace TypingAid

/-- Two texts have the same number of lines, and line by line they are equal or `S` holds. -/
def Text.Tracks (S : ℕ → Prop) (x y : Text) : Prop :=
  x.count '\n' = y.count '\n' ∧ ∀ i, (Text.lines x)[i]? = (Text.lines y)[i]? ∨ S i

namespace Text.Tracks

variable {S : ℕ → Prop} {x y : Text}

theorem refl (x : Text) : Tracks S x x := ⟨rfl, fun _ => .inl rfl⟩

theorem lastLine_eq (h : Tracks S x y) : lastLine x = lastLine y ∨ S (x.count '\n') := by
  refine (h.2 (x.count '\n')).imp (fun he => ?_) id
  rw [getElem?_lines_count, h.1, getElem?_lines_count] at he
  exact Option.some.inj he

/-- The same text behind both. -/
theorem append (h : Tracks S x y) (p : Text) : Tracks S (x ++ p) (y ++ p) := by
  refine ⟨by simp [h.1], fun i => ?_⟩
  rw [getElem?_lines_append, getElem?_lines_append, ← h.1]
  -- a line above the seam, the line that the seam is on, or a line of `p`
  split_ifs with hlt heq
  · exact h.2 i
  · exact h.lastLine_eq.imp (fun he => by rw [he]) fun hs => heq ▸ hs
  · exact .inl rfl

/-- Different texts behind both, which stay on the line. -/
theorem append_of_line (h : Tracks S x y) {p q : Text} (hp : '\n' ∉ p) (hq : '\n' ∉ q)
    (hs : S (x.count '\n')) : Tracks S (x ++ p) (y ++ q) := by
  refine ⟨by simp [h.1, List.count_eq_zero_of_not_mem hp, List.count_eq_zero_of_not_mem hq], ?_⟩
  intro i
  rw [getElem?_lines_append, getElem?_lines_append, ← h.1]
  split_ifs with hlt heq
  · exact h.2 i
  · exact .inr (heq ▸ hs)
  · -- `p` and `q` have no further line
    left
    have hnone : ∀ r : Text, '\n' ∉ r → (lines r)[i - x.count '\n']? = none := by
      intro r hr
      rw [lines_of_not_mem hr, List.getElem?_eq_none]
      simp only [List.length_singleton]; omega
    rw [hnone p hp, hnone q hq]

end Text.Tracks

/-- What does not ask for a new classification holds no line break. -/
theorem newline_not_mem_of_mayReshape {inserted removed : Text} {first : Bool}
    (h : mayReshape inserted removed first = false) : '\n' ∉ inserted ∧ '\n' ∉ removed := by
  simp only [mayReshape, Bool.or_eq_false_iff, List.any_eq_false] at h
  refine ⟨fun hm => ?_, fun hm => ?_⟩
  · simpa using h.1 _ hm
  · simpa using h.2 _ hm

namespace Outline

/-- The line of a place is the number of line breaks before it. -/
theorem lineOf_append {x y : Text} {view : Edit.View} (h : view.newStart = x.length) :
    lineOf (x ++ y) view = x.count '\n' := by
  have hc : Text.clamp (x ++ y) view.newStart = x.length := by
    rw [h, Text.clamp, List.length_append]; omega
  rw [lineOf, Text.position, hc, List.take_left]

theorem lineOf_lt (after : Text) (view : Edit.View) :
    lineOf after view < (Text.lines after).length := by
  rw [Text.length_lines, lineOf, Text.position]
  exact Nat.lt_succ_of_le ((List.take_sublist _ _).count_le _)

/-- The outline of the new text stays what it is. -/
theorem followViews_ofText (after : Text) (views : List Edit.View) :
    ((ofText after).followViews after views).1 = ofText after := by
  induction views with
  | nil => rfl
  | cons view rest ih =>
    simp only [followViews]
    split_ifs
    · simp only [reparse_ofText_self after (lineOf_lt after view).le, ih]
    · exact ih

/-- An outline of nothing is replaced by the first span. -/
theorem followViews_of_isEmpty {o : Outline} (ho : o.isEmpty = true) (after : Text)
    {views : List Edit.View} (hv : views ≠ []) :
    (o.followViews after views).1 = ofText after := by
  obtain ⟨view, rest, rfl⟩ := List.exists_cons_of_ne_nil hv
  have hlines : o.lines = [] := List.isEmpty_iff.1 ho
  have hstale : o.isStale after (lineOf after view) = true := by
    simp [isStale, hlines]
  simp only [followViews, needsReparse, hstale, Bool.or_true, if_true]
  rw [reparse_of_isEmpty ho, followViews_ofText]

/-- Lines that are tracked from the old text are right for the new one. -/
theorem isStale_of_tracks {before after kept rest : Text} {old : Text}
    (hafter : after = kept ++ rest) (hold : ∃ tail, before = old ++ tail)
    (h : Text.Tracks (fun n => (ofText before).isStale after n = false) kept old) :
    ∀ i < kept.count '\n', (ofText before).isStale after i = false := by
  obtain ⟨tail, hbefore⟩ := hold
  intro i hi
  rcases h.2 i with he | hs
  · have ha : (Text.lines after)[i]? = (Text.lines kept)[i]? := by
      rw [hafter, Text.getElem?_lines_append, if_pos hi]
    have hb : (Text.lines before)[i]? = (Text.lines old)[i]? := by
      rw [hbefore, Text.getElem?_lines_append, if_pos (by rw [← h.1]; exact hi)]
    refine isStale_ofText_of_eq ?_ (by rw [ha, hb, he])
    rw [Text.length_lines, hafter, List.count_append]; omega
  · exact hs

/-- The spans still to come, with the text woven so far. -/
theorem followViews_weave {before after : Text} {ss : List Span} {offset : Int} {kept : Text}
    (h0 : 0 ≤ offset) (hss : Span.Ordered offset before.length ss)
    (hafter : after = kept ++ Span.weave before offset ss)
    (htracks : Text.Tracks (fun n => (ofText before).isStale after n = false) kept
      (before.take offset.toNat)) :
    (((ofText before).followViews after
      (Edit.viewsFrom before (kept.length - offset) ss)).1.setContent after) = ofText after := by
  induction ss generalizing offset kept with
  | nil =>
    -- nothing more is changed: the whole new text is tracked from the whole old one
    have hall := htracks.append (before.drop offset.toNat)
    rw [List.take_append_drop, ← Span.weave, ← hafter] at hall
    refine setContent_eq_ofText ?_ fun i hi => ?_
    · simp only [Edit.viewsFrom, followViews, length_ofText, Text.length_lines, hall.1]
    · rcases hall.2 i with he | hs
      · exact isStale_ofText_of_eq hi he
      · exact hs
  | cons s rest ih =>
    obtain ⟨h1, h2, h3⟩ := hss
    have hlast := h3.le
    have hlen := Text.length_slice h0 h1 (h2.trans hlast)
    -- first the text in front of the span, which is kept
    set kept' := kept ++ Text.slice before offset s.start with hkept'
    have hafter' : after = kept' ++ (s.insert ++ Span.weave before s.stop rest) := by
      rw [hafter, Span.weave, hkept', List.append_assoc]
    have htracks' := htracks.append (Text.slice before offset s.start)
    rw [Text.take_append_slice h1, ← hkept'] at htracks'
    have hshift : s.start + (kept.length - offset) = kept'.length := by
      rw [hkept', List.length_append]; push_cast; omega
    simp only [Edit.viewsFrom, followViews]
    set view : Edit.View :=
      { start := s.start, stop := s.stop, newStart := s.start + (kept.length - offset)
        newStop := s.start + (kept.length - offset) + s.insert.length
        inserted := s.insert, removed := Text.sliceRel before s.start s.stop } with hview
    have hline : lineOf after view = kept'.count '\n' := by
      rw [hafter', lineOf_append hshift]
    split_ifs with hneeds
    · -- the lines above the span are right, so the new classification is that of the new text
      have hre : (ofText before).reparse after (lineOf after view) = ofText after := by
        rw [hline]
        exact reparse_eq_ofText (isStale_of_tracks hafter'
          ⟨before.drop s.start.toNat, (List.take_append_drop _ _).symm⟩ htracks')
      rw [hre, followViews_ofText]; rfl
    · -- the span stays on its line, and that line has been looked at
      simp only [needsReparse, Bool.or_eq_true, not_or, Bool.not_eq_true] at hneeds
      obtain ⟨hreshape, hstale⟩ := hneeds
      obtain ⟨hins, hrem⟩ := newline_not_mem_of_mayReshape hreshape
      rw [hline] at hstale
      rw [hview, Text.sliceRel_eq_slice (h0.trans h1) (by omega)] at hrem
      have htracks'' := htracks'.append_of_line hins hrem hstale
      rw [Text.take_append_slice h2] at htracks''
      -- what the views are shifted by behind the span
      have hgrowth : (kept.length : Int) - offset + s.growth =
          ((kept' ++ s.insert).length : Int) - s.stop := by
        rw [Span.growth, Span.removedLength, List.length_append]; push_cast; omega
      rw [hgrowth]
      exact ih (by omega) h3 (hafter'.trans (List.append_assoc _ _ _).symm) htracks''

/-- **Looking at the lines of the spans is enough.**  An outline that was right for the text before
an edit, or was not there yet, is right for the text after it. -/
theorem follow_eq_ofText {o : Outline} {before : Text} {e : Edit}
    (ho : o = ofText before ∨ o.isEmpty = true) (h : e.Fits before) (hc : e.isChange = true) :
    o.follow before (e.apply before) e = ofText (e.apply before) := by
  rcases ho with rfl | ho
  · have hw : e.apply before = [] ++ Span.weave before 0 (Span.ascending e.spans) :=
      Edit.apply_eq_weave h
    have := followViews_weave le_rfl h.ordered hw (Text.Tracks.refl [])
    simpa [follow, Edit.views] using this
  · -- an edit that changes something has a span
    have hviews : e.views before ≠ [] := by
      intro hnil
      have hspans : Span.ascending e.spans = [] := by
        cases hs : Span.ascending e.spans with
        | nil => rfl
        | cons s rest => rw [Edit.views, hs, Edit.viewsFrom] at hnil; cases hnil
      have : e.spans = [] := by
        have hp := Span.ascending_perm e.spans
        rw [hspans] at hp; exact hp.nil_eq.symm
      simp [Edit.isChange, this] at hc
    rw [follow, followViews_of_isEmpty ho _ hviews]; rfl

/-- **After an edit the outline is that of the new text**, whatever else follows from the edit: the
outline before was that of the old text, or of nothing, and the spans of the edit fit. -/
theorem outline_afterEdit (settings : Settings) {o : Outline} {before : Text} {e : Edit}
    (ho : o = ofText before ∨ o.isEmpty = true) (h : e.Fits before) (hc : e.isChange = true)
    (anchor head : Int) :
    (afterEdit settings o before (e.apply before) e anchor head).outline =
      ofText (e.apply before) := by
  rw [afterEdit, if_neg (by simp [hc])]
  exact follow_eq_ofText ho h hc

/-- Two spans, the later one first: the one above turns the opener of a formula back into prose
without inserting any mark, and the lines below are classified anew. -/
theorem outline_afterEdit_two_spans :
    let before : Text := ['$', '$', '\n', 'x']
    let e : Edit := { spans := [⟨4, 4, ['b']⟩, ⟨1, 1, ['a']⟩], origin := .typed }
    (ofText before = ofText before ∨ (ofText before).isEmpty = true) ∧ e.Fits before ∧
      e.isChange = true ∧
      (afterEdit {} (ofText before) before (e.apply before) e 5 5).outline =
        ofText (e.apply before) := by
  intro before e
  have hfits : e.Fits before := ⟨by decide, by decide⟩
  exact ⟨.inl rfl, hfits, by decide, outline_afterEdit {} (.inl rfl) hfits (by decide) 5 5⟩

end Outline

end TypingAid
