import TypingAid.Editor.Basic
import TypingAid.Proofs.Edit.Change
import TypingAid.Proofs.Rule.Intervention
import TypingAid.Proofs.Text.Units

/-!
# Carrying out an edit on a widget

An editor carries out an edit span by span, on a text that changes under it, with a cursor that
counts UTF-16 units of the text before the edit.  For an edit that fits, the text afterwards is that
of `Edit.apply`, and the caret stands where the edit wants it (`Editor.exists_carryOut`): the last
span comes first, so what stands in front of the spans still to come is as it was.  In offsets of
the text, this is `Editor.text_carryOut`.

Meanwhile the editor does not listen, so that nothing else of it changes but the list of events.
-/

namespace TypingAid

open Text

/-! ### Cursors -/

theorem Cursor.moveTo_of_le (c : Cursor) {length position : ℕ} (h : position ≤ length) :
    c.moveTo length position = ⟨position, position⟩ := if_pos h

theorem Cursor.extendTo_of_le (c : Cursor) {length position : ℕ} (h : position ≤ length) :
    c.extendTo length position = { c with position } := if_pos h

namespace Widget

variable (w : Widget)

theorem setCaret_eq (offset : Int) :
    w.setCaret offset = { w with cursor := ⟨toUnits w.text offset, toUnits w.text offset⟩ } := by
  have h : toUnits w.text offset ≤ w.length := toUnits_le_units w.text offset
  rw [setCaret, setCursor, Cursor.moveTo_of_le _ h]

/-- A cursor that selects between two offsets replaces what lies between them. -/
theorem replacement_between (c : Cursor) {a b : Int} (hab : a ≤ b) (x : Text) :
    ((c.moveTo w.length (toUnits w.text a)).extendTo w.length (toUnits w.text b)).replacement x =
      ⟨toUnits w.text a, toUnits w.text b, x⟩ := by
  have ha : toUnits w.text a ≤ w.length := toUnits_le_units w.text a
  have hb : toUnits w.text b ≤ w.length := toUnits_le_units w.text b
  have hle := toUnits_mono w.text hab
  rw [Cursor.moveTo_of_le _ ha, Cursor.extendTo_of_le _ hb, Cursor.replacement,
    Nat.min_eq_left hle, Nat.max_eq_right hle]

theorem text_replace_between {a b : Int} (hab : a ≤ b) (x : Text) :
    (w.replace ⟨toUnits w.text a, toUnits w.text b, x⟩).text = splice w.text a b x :=
  spliceUnits_toUnits w.text hab x

end Widget

/-- The spans of an edit that fits, last span first, lie one in front of the other. -/
theorem Edit.Fits.descending {e : Edit} {t : Text} (h : e.Fits t) :
    (Span.descending e.spans).Pairwise fun a b => b.stop ≤ a.start := by
  have hsymm : ∀ {a b : Span}, (a.start ≠ b.start ∧ (a.stop ≤ b.start ∨ b.stop ≤ a.start)) →
      b.start ≠ a.start ∧ (b.stop ≤ a.start ∨ a.stop ≤ b.start) :=
    fun h => ⟨h.1.symm, h.2.symm⟩
  have hapart := (List.Perm.pairwise_iff hsymm (Span.descending_perm e.spans)).2 h.apart
  refine ((Span.descending_pairwise e.spans).and hapart).imp_of_mem ?_
  rintro a b ha - ⟨hle, hne, hdisjoint⟩
  have hin := h.inRange a ((Span.descending_perm e.spans).mem_iff.1 ha)
  omega

/-! ### Edits of the user -/

/-- What a key press means fits the text in which the selection lies. -/
theorem KeyPress.fits_of_edit? {k : KeyPress} {a b : ℕ} {t : Text} {e : Edit} (ha : a ≤ t.length)
    (hb : b ≤ t.length) (h : k.edit? a b t = some e) : e.Fits t := by
  have hstart : (0 : Int) ≤ min (a : Int) b := by omega
  have hle : min (a : Int) b ≤ max (a : Int) b := by omega
  have hstop : max (a : Int) b ≤ t.length := by omega
  rw [edit?] at h
  cases hk : k.key with
  | backspace =>
    simp only [hk] at h
    obtain ⟨hfront, h⟩ := Option.ite_none_left_eq_some.1 h
    simp only [Bool.or_eq_true, Bool.and_eq_true, decide_eq_true_eq, not_or, not_and] at hfront
    rw [← Option.some.inj h]
    split_ifs with hsame
    · have := hfront.2 hsame
      exact Edit.fits_single (by omega) (by omega) hstop _ _ _ _
    · exact Edit.fits_single hstart hle hstop _ _ _ _
  | delete =>
    simp only [hk] at h
    obtain ⟨hend, h⟩ := Option.ite_none_left_eq_some.1 h
    simp only [Bool.or_eq_true, Bool.and_eq_true, decide_eq_true_eq, not_or, not_and] at hend
    rw [← Option.some.inj h]
    split_ifs with hsame
    · have := hend.2 hsame
      exact Edit.fits_single hstart (by omega) (by omega) _ _ _ _
    · exact Edit.fits_single hstart hle hstop _ _ _ _
  | enter =>
    simp only [hk] at h
    obtain ⟨-, h⟩ := Option.ite_none_left_eq_some.1 h
    rw [← Option.some.inj h]
    exact Edit.fits_single hstart hle hstop _ _ _ _
  | other =>
    simp only [hk] at h
    obtain ⟨-, h⟩ := Option.ite_none_left_eq_some.1 h
    rw [← Option.some.inj h]
    exact Edit.fits_single hstart hle hstop _ _ _ _

/-- What an input method settles on fits the text in which the selection lies. -/
theorem fits_of_composedEdit? {finished t : Text} {a b : ℕ} {e : Edit} (ha : a ≤ t.length)
    (hb : b ≤ t.length) (h : composedEdit? finished a b = some e) : e.Fits t := by
  rw [composedEdit?] at h
  obtain ⟨-, h⟩ := Option.ite_none_left_eq_some.1 h
  rw [← Option.some.inj h]
  exact Edit.fits_single (by omega) (by omega) (by omega) _ _ _ _

namespace Editor

variable {ed : Editor} {doc : Text}

/-! ### Changes that are not listened to -/

theorem hear_of_applying (h : ed.applying = true) : ed.hear = ed := if_pos h

theorem change_of_applying (h : ed.applying = true) (r : Replacement) :
    ed.change r = { ed with widget := ed.widget.replace r } := hear_of_applying h

/-- One part is replaced, at offsets that mean the same in the text. -/
theorem changeEach_cons (happlying : ed.applying = true) {a b : Int} (hab : a ≤ b)
    (ha : toUnits doc a = toUnits ed.text a) (hb : toUnits doc b = toUnits ed.text b) (x : Text)
    (c : Cursor) (rest : List (Int × Int × Text)) :
    ∃ w c', w.text = splice ed.text a b x ∧
      (changeEach doc ed c ((a, b, x) :: rest)).1 =
        (changeEach doc { ed with widget := w } c' rest).1 := by
  set r : Replacement := ⟨toUnits ed.text a, toUnits ed.text b, x⟩ with hr
  refine ⟨ed.widget.replace r, ⟨r.newStop, r.newStop⟩, ed.widget.text_replace_between hab x, ?_⟩
  have hselect := ed.widget.replacement_between c hab x
  simp only [changeEach, ha, hb]
  rw [text] at hr ⊢
  rw [hselect, change_of_applying happlying, hr]

/-- The spans, last one first, are carried out on a text that is still the same in front of them. -/
theorem exists_changeEach (ed : Editor) {spans : List Span} {n : ℕ} (happlying : ed.applying = true)
    (hsame : doc.take n = ed.text.take n) (hdoc : n ≤ doc.length) (htext : n ≤ ed.text.length)
    (hin : ∀ s ∈ spans, 0 ≤ s.start ∧ s.start ≤ s.stop ∧ s.stop ≤ n)
    (hapart : spans.Pairwise fun a b => b.stop ≤ a.start) (c : Cursor) :
    ∃ w : Widget, w.text = spans.foldl (fun out s => splice out s.start s.stop s.insert) ed.text ∧
      (changeEach doc ed c (spans.map fun s => (s.start, s.stop, s.insert))).1 =
        { ed with widget := w } := by
  induction spans generalizing ed n c with
  | nil => exact ⟨ed.widget, rfl, rfl⟩
  | cons s rest ih =>
    obtain ⟨h0, hle, hn⟩ := hin s List.mem_cons_self
    obtain ⟨hfront, hapart⟩ := List.pairwise_cons.1 hapart
    obtain ⟨w, c', hw, hone⟩ := changeEach_cons happlying hle
      (toUnits_congr hsame hdoc htext (hle.trans hn)) (toUnits_congr hsame hdoc htext hn) s.insert c
      (rest.map fun s => (s.start, s.stop, s.insert))
    -- the text in front of the span is still that of the document
    have hfirst : (ed.text.take s.start.toNat).length = s.start.toNat := by
      rw [List.length_take]; omega
    have hnew : w.text =
        ed.text.take s.start.toNat ++ (s.insert ++ ed.text.drop s.stop.toNat) := by
      rw [hw, splice_eq hle (by omega), List.append_assoc]
    have hsame' : doc.take s.start.toNat = w.text.take s.start.toNat := by
      have h := congrArg (List.take s.start.toNat) hsame
      rw [List.take_take, List.take_take, Nat.min_eq_left (by omega)] at h
      rw [hnew, List.take_left' hfirst, h]
    have hlength : s.start.toNat ≤ w.text.length := by
      rw [hnew, List.length_append, hfirst]; exact Nat.le_add_right _ _
    have hin' : ∀ x ∈ rest, 0 ≤ x.start ∧ x.start ≤ x.stop ∧ x.stop ≤ (s.start.toNat : Int) := by
      intro x hx
      have h := hin x (List.mem_cons_of_mem _ hx)
      have := hfront x hx
      omega
    obtain ⟨w', hw', hrest⟩ := ih { ed with widget := w } happlying hsame' (by omega)
      hlength hin' hapart c'
    refine ⟨w', ?_, hone.trans hrest⟩
    rw [hw', List.foldl_cons, ← hw]
    rfl

/-- Several changes are one event. -/
theorem replaceEach_eq {parts : List (Int × Int × Text)} {w : Widget}
    (h : (changeEach doc ed {} parts).1 = { ed with widget := w }) :
    ed.replaceEach doc parts = { ed with
      widget := w, events := ed.events ++ [.edited (changeEach doc ed {} parts).2] } := by
  rw [replaceEach]
  dsimp only
  rw [h]
  rfl

/-- All spans of an edit that fits are carried out. -/
theorem exists_replaceEach (ed : Editor) {e : Edit} (happlying : ed.applying = true)
    (h : e.Fits ed.text) :
    ∃ (w : Widget) (rs : List Replacement), w.text = e.apply ed.text ∧
      ed.replaceEach ed.text ((Span.descending e.spans).map fun s => (s.start, s.stop, s.insert)) =
        { ed with widget := w, events := ed.events ++ [.edited rs] } := by
  have hin : ∀ s ∈ Span.descending e.spans, 0 ≤ s.start ∧ s.start ≤ s.stop ∧
      s.stop ≤ ed.text.length :=
    fun s hs => h.inRange s ((Span.descending_perm e.spans).mem_iff.1 hs)
  obtain ⟨w, hw, hdone⟩ := exists_changeEach ed happlying rfl le_rfl le_rfl hin h.descending {}
  exact ⟨w, _, hw, replaceEach_eq hdone⟩

/-- One part of the text is replaced. -/
theorem exists_replacePart (ed : Editor) (happlying : ed.applying = true) {a b : Int}
    (hab : a ≤ b) (x : Text) :
    ∃ (w : Widget) (rs : List Replacement), w.text = splice ed.text a b x ∧
      ed.replaceEach ed.text [(a, b, x)] =
        { ed with widget := w, events := ed.events ++ [.edited rs] } := by
  obtain ⟨w, c, hw, hdone⟩ := changeEach_cons happlying hab rfl rfl x {} []
  exact ⟨w, _, hw, replaceEach_eq hdone⟩

/-! ### What the editor does itself -/

/-- Where the cursor is after an edit. -/
def cursorAfter (ed : Editor) (e : Edit) : Cursor :=
  match e.targetCaret with
  | some caret => ⟨toUnits (e.apply ed.text) caret, toUnits (e.apply ed.text) caret⟩
  | none => ed.widget.cursor

/-- **Carrying out an edit that fits** gives the text of the edit and puts the caret where the edit
wants it. -/
theorem exists_carryOut {e : Edit} (h : e.Fits ed.text) :
    ∃ rs : List (List Replacement), ed.carryOut e = { ed with
      widget := ⟨e.apply ed.text, ed.cursorAfter e⟩
      applying := false
      events := ed.events ++ rs.map .edited } := by
  rw [carryOut, unheard, cursorAfter]
  cases hc : e.isChange with
  | false =>
    refine ⟨[], ?_⟩
    rw [Edit.apply_of_not_isChange hc]
    cases e.targetCaret with
    | none => simp [text]
    | some caret => simp [text, setCaret, Widget.setCaret_eq]
  | true =>
    obtain ⟨w, rs, hw, hdone⟩ := exists_replaceEach { ed with applying := true } rfl h
    refine ⟨[rs], ?_⟩
    cases hcaret : e.targetCaret with
    | none =>
      rw [Edit.isChange_of_spans_eq_nil (Edit.spans_eq_nil_of_targetCaret hcaret)] at hc
      cases hc
    | some caret =>
      simp only [if_true, hdone, setCaret, Widget.setCaret_eq, hw]
      rfl

/-- **Editing the widget is editing the text.**  Afterwards the widget holds the text that the edit
gives, and if the edit has a place for the caret that lies in that text, the caret is there and
nothing is selected, wherever the cursor was before.  The session hears of nothing. -/
theorem text_carryOut (ed : Editor) {e : Edit} (h : e.Fits ed.text) :
    (ed.carryOut e).text = e.apply ed.text ∧
      (∀ caret, e.targetCaret = some caret → 0 ≤ caret → caret ≤ (e.apply ed.text).length →
        ((ed.carryOut e).widget.anchor : Int) = caret ∧
          ((ed.carryOut e).widget.head : Int) = caret) ∧
      (ed.carryOut e).session = ed.session ∧ (ed.carryOut e).snapshot = ed.snapshot := by
  obtain ⟨rs, hdone⟩ := exists_carryOut h
  rw [hdone]
  refine ⟨rfl, fun caret hcaret hnonneg hle => ?_, rfl, rfl⟩
  have hoffset : (ofUnits (e.apply ed.text) (toUnits (e.apply ed.text) caret) : Int) = caret := by
    rw [ofUnits_toUnits, clamp]
    omega
  simp only [Widget.anchor, Widget.head, cursorAfter, hcaret]
  exact ⟨hoffset, hoffset⟩

/-- Two spans of a text with characters outside the basic plane, the last one listed first.  The
cursor stands inside a surrogate pair, and the selection reaches into text that goes away. -/
theorem text_carryOut_astral :
    let t : Text := "a😀b😀c".toList
    let e : Edit := { spans := [⟨3, 5, "é😀".toList⟩, ⟨1, 1, "😀x".toList⟩], caret := some 5 }
    let ed : Editor := { session := {}, widget := ⟨t, ⟨2, 6⟩⟩ }
    e.Fits ed.text ∧ e.targetCaret = some 5 ∧ (ed.carryOut e).text = "a😀x😀bé😀".toList ∧
      ((ed.carryOut e).widget.anchor : Int) = 5 ∧ ((ed.carryOut e).widget.head : Int) = 5 := by
  intro t e ed
  have hfits : e.Fits ed.text := ⟨by decide, by decide⟩
  obtain ⟨htext, hcaret, -⟩ := text_carryOut ed hfits
  obtain ⟨hanchor, hhead⟩ := hcaret 5 rfl (by decide) (by decide)
  exact ⟨hfits, rfl, htext.trans (by decide), hanchor, hhead⟩

/-- **Replacing a part of the text** for the session puts the caret behind it. -/
theorem exists_replaceRange (ed : Editor) {start stop : ℕ} (h : start ≤ stop) (t : Text) :
    ∃ rs : List (List Replacement), ed.replaceRange start stop t =
      let new := spliceRel ed.text start stop t
      let caret := toUnits new (start + t.length)
      { ed with
        widget := ⟨new, caret, caret⟩
        snapshot := new
        applying := false
        events := ed.events ++ rs.map .edited } := by
  have hle : (start : Int) ≤ stop := by exact_mod_cast h
  obtain ⟨w, rs, hw, hdone⟩ := exists_replacePart { ed with applying := true } rfl hle t
  have hnew : w.text = spliceRel ed.text start stop t := by
    rw [spliceRel_eq_splice (by omega) hle]; exact hw
  refine ⟨[rs], ?_⟩
  simp only [replaceRange, unheard, hdone]
  simp only [setCaret, Widget.setCaret_eq, text, hnew]
  rfl

/-- The editor does not listen while it shows another document. -/
theorem openDocument_eq (ed : Editor) (path : String) (t : Text) :
    ed.openDocument path t =
      let r := ed.session.activate path t true
      let shown := { ed with
        session := r.session, widget := { text := t }, snapshot := t, applying := false
        filePath := path }
      (r.actions.foldl act (shown.note r.log)).repaint := by
  rw [openDocument, unheard, hear_of_applying rfl]
  rfl

end Editor

end TypingAid
