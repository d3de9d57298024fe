import TypingAid.Editor.Operation
import TypingAid.Proofs.Edit.Diff
import TypingAid.Proofs.Editor.Carry
import TypingAid.Proofs.Session.Aftermath
import TypingAid.Proofs.Session.Command

/-!
# The books of an editor

An editor keeps the last text that it knows of, listens unless it changes the text itself, and
paints the lines anew when their kinds have changed.  Between two operations all of that is in order
(`Editor.AtRest`): the text that it knows of is the one on the screen, it listens, the session holds
the outline of the text, and what has been painted are the kinds of the lines.

There are two ways to get from one such state to the next:

* The editor changes the text itself.  It does not listen, and the session is told edit by edit
  (`Editor.Writes`); at the end the editor takes the new text down and paints (`AtRest.finish`).
* Others change the text.  The editor listens and tells the session the smallest span that makes
  the change (`Knows.hear`); the painting is put off until the widget is idle (`Knows.settle`).

`Editor.atRest_run` puts the operations together for a whole run.
-/

namespace TypingAid

namespace Editor

variable {ed done : Editor}

/-- What the editor and its session know of the text is right, and so is what has been painted,
unless the lines are to be painted. -/
structure Knows (ed : Editor) : Prop where
  snapshot : ed.snapshot = ed.text
  applying : ed.applying = false
  outline : ed.session.outline = .ofText ed.text
  painted : ed.repaintDue = false → ed.painted = ed.kinds

/-- Everything that the editor keeps is in order, and nothing is under way. -/
structure AtRest (ed : Editor) : Prop where
  snapshot : ed.snapshot = ed.text
  applying : ed.applying = false
  pendingOrigin : ed.pendingOrigin = none
  outline : ed.session.outline = .ofText ed.text
  painted : ed.painted = ed.kinds
  repaintDue : ed.repaintDue = false

theorem AtRest.knows (h : ed.AtRest) : ed.Knows :=
  ⟨h.snapshot, h.applying, h.outline, fun _ => h.painted⟩

/-! ### Changes by others -/

/-- **The widget has changed the text**, and the editor hears of it. -/
theorem Knows.hear (h : ed.Knows) (w : Widget) :
    ({ ed with widget := w }.hear).Knows ∧
      ({ ed with widget := w }.hear).pendingOrigin = ed.pendingOrigin ∧
      ({ ed with widget := w }.hear).text = w.text := by
  rw [Editor.hear, if_neg (by simp [h.applying])]
  split
  next hdiff =>
    -- the text is the one that the editor knows of
    have hsame : ed.snapshot = w.text := Text.diff?_eq_none_iff.1 hdiff
    refine ⟨⟨hsame, h.applying, ?_, h.painted⟩, rfl, rfl⟩
    exact h.outline.trans (congrArg Outline.ofText (h.snapshot.symm.trans hsame))
  next span hdiff =>
    set caret : Int := span.start + span.insert.length
    set origin := ed.pendingOrigin.getD .program
    obtain ⟨hfits, happly⟩ := Text.diff?_spec hdiff origin
    have hknown : ed.session.outline = .ofText ed.snapshot := h.snapshot ▸ h.outline
    have houtline := Session.outline_afterCommit hknown hfits caret caret
    rw [happly] at houtline
    dsimp only
    split_ifs with hkinds
    · exact ⟨⟨rfl, h.applying, houtline, fun hdue => (h.painted hdue).trans hkinds.symm⟩, rfl, rfl⟩
    · exact ⟨⟨rfl, h.applying, houtline, nofun⟩, rfl, rfl⟩

theorem Knows.change (h : ed.Knows) (r : Replacement) :
    (ed.change r).Knows ∧ (ed.change r).pendingOrigin = ed.pendingOrigin :=
  ⟨(h.hear _).1, (h.hear _).2.1⟩

/-- What has been put off is done when the widget is idle. -/
theorem Knows.settle (h : ed.Knows) (horigin : ed.pendingOrigin = none) : ed.settle.AtRest := by
  rw [Editor.settle]
  split_ifs with hdue
  · exact ⟨h.snapshot, h.applying, horigin, h.outline, rfl, rfl⟩
  · have hdue' : ed.repaintDue = false := by simpa using hdue
    exact ⟨h.snapshot, h.applying, horigin, h.outline, h.painted hdue', hdue'⟩

/-! ### Changes by the editor -/

/-- From `ed` to `done` the editor has changed the text itself and told the session; nothing has
been painted since. -/
structure Writes (ed done : Editor) : Prop where
  applying : done.applying = false
  outline : done.session.outline = .ofText done.text
  pendingOrigin : done.pendingOrigin = ed.pendingOrigin
  painted : done.painted = ed.painted
  repaintDue : done.repaintDue = ed.repaintDue

theorem Writes.trans {ed' : Editor} (h : ed.Writes ed') (h' : ed'.Writes done) : ed.Writes done :=
  ⟨h'.applying, h'.outline, h'.pendingOrigin.trans h.pendingOrigin, h'.painted.trans h.painted,
    h'.repaintDue.trans h.repaintDue⟩

/-- **At the end the editor takes the new text down and paints**, and all is in order again. -/
theorem AtRest.finish (h : ed.AtRest) (hwrites : ed.Writes done) :
    ({ done with snapshot := done.text }.repaintUnless ed.kinds).AtRest := by
  have horigin := hwrites.pendingOrigin.trans h.pendingOrigin
  have hdue := hwrites.repaintDue.trans h.repaintDue
  rw [repaintUnless]
  split_ifs with hkinds
  · have hpainted : done.painted = done.kinds :=
      hwrites.painted.trans (h.painted.trans hkinds.symm)
    exact ⟨rfl, hwrites.applying, horigin, hwrites.outline, hpainted, hdue⟩
  · exact ⟨rfl, hwrites.applying, horigin, hwrites.outline, rfl, hdue⟩

/-- An edit that fits is carried out, and the session is told. -/
theorem writes_commitOne {e : Edit} (houtline : ed.session.outline = .ofText ed.text)
    (hfits : e.Fits ed.text) : ed.Writes (ed.commitOne e).1 := by
  obtain ⟨rs, hdone⟩ := exists_carryOut hfits
  rw [commitOne, hdone]
  exact ⟨rfl, Session.outline_afterCommit houtline hfits _ _, rfl, rfl, rfl⟩

/-- What follows from an edit fits the text after it. -/
theorem followUps_commitOne (ed : Editor) {e : Edit} (hfits : e.Fits ed.text) :
    (ed.commitOne e).2 = [] ∨ ∃ fix move : Edit, (ed.commitOne e).2 = [fix, move] ∧
      fix.Fits (ed.commitOne e).1.text ∧ move.spans = [] := by
  obtain ⟨rs, hdone⟩ := exists_carryOut hfits
  rw [commitOne, hdone]
  exact Session.followUps_afterCommit _ _ _ _ _ _

/-- **An edit of the user** leaves everything in order. -/
theorem AtRest.commit (h : ed.AtRest) {e : Edit} (hfits : e.Fits ed.text) :
    (ed.commit e).AtRest := by
  have hfits' : (ed.session.filter ed.text e).Fits ed.text :=
    hfits.intervene ed.session.settings ed.session.rules
  rw [Editor.commit]
  dsimp only
  set e' := ed.session.filter ed.text e
  set ed' := ed.note (ed.session.filterLog ed.text e)
  have hnote : ed.Writes ed' := ⟨h.applying, h.outline, rfl, rfl, rfl⟩
  have hfits'' : e'.Fits ed'.text := hfits'
  have hone := writes_commitOne hnote.outline hfits''
  refine h.finish ?_
  rcases followUps_commitOne ed' hfits'' with hnone | ⟨fix, move, hedits, hfix, hmove⟩
  · rw [hnone]
    exact hnote.trans hone
  · rw [hedits]
    have htwo := writes_commitOne hone.outline hfix
    have hthree := writes_commitOne htwo.outline (Edit.fits_of_spans_eq_nil hmove _)
    exact ((hnote.trans hone).trans htwo).trans hthree

/-! ### Commands -/

/-- What a session asks for changes the text, and the editor knows of it. -/
theorem exists_act (ed : Editor) (happlying : ed.applying = false)
    (hsnapshot : ed.snapshot = ed.text) {a : HostAction} (ha : a.InOrder) :
    ∃ (w : Widget) (events : List Event), w.text = a.onText ed.text ∧
      ed.act a = { ed with widget := w, snapshot := w.text, events } := by
  cases a with
  | replace start stop t =>
    obtain ⟨rs, hdone⟩ := exists_replaceRange ed ha t
    exact ⟨_, _, rfl, by rw [act, hdone, happlying]⟩
  | setCaret offset =>
    exact ⟨ed.widget.setCaret offset, ed.events, rfl,
      congrArg (fun snapshot => { ed.setCaret offset with snapshot }) hsnapshot⟩
  | notify message =>
    exact ⟨ed.widget, ed.events ++ [.notice message], rfl,
      congrArg (fun snapshot => { ed.tell (.notice message) with snapshot }) hsnapshot⟩

theorem exists_acts (ed : Editor) (happlying : ed.applying = false)
    (hsnapshot : ed.snapshot = ed.text) {actions : List HostAction}
    (hactions : ∀ a ∈ actions, a.InOrder) :
    ∃ (w : Widget) (events : List Event), w.text = actions.foldl HostAction.onText ed.text ∧
      actions.foldl act ed = { ed with widget := w, snapshot := w.text, events } := by
  induction actions generalizing ed with
  | nil =>
    exact ⟨ed.widget, ed.events, rfl, congrArg (fun snapshot => { ed with snapshot }) hsnapshot⟩
  | cons a actions ih =>
    obtain ⟨w, events, hw, hone⟩ :=
      exists_act ed happlying hsnapshot (hactions a List.mem_cons_self)
    obtain ⟨w', events', hw', hrest⟩ := ih { ed with widget := w, snapshot := w.text, events }
      happlying rfl fun a ha => hactions a (List.mem_cons_of_mem _ ha)
    refine ⟨w', events', ?_, ?_⟩
    · rw [hw', List.foldl_cons, ← hw]
      rfl
    · rw [List.foldl_cons, hone, hrest]

/-- **A command that changes the text** leaves everything in order. -/
theorem AtRest.runCommand {α : Type} (h : ed.AtRest) (run : Session → Response α)
    (hstep : (run ed.session).InStep ed.text) (horderly : (run ed.session).Orderly) :
    (ed.runCommand run).AtRest := by
  rw [Editor.runCommand]
  set r := run ed.session
  obtain ⟨w, events, hw, hdone⟩ := exists_acts ({ ed with session := r.session }.note r.log)
    h.applying h.snapshot horderly.inOrder
  refine h.finish ?_
  rw [hdone]
  exact ⟨h.applying, hstep.trans (congrArg Outline.ofText hw.symm), rfl, rfl, rfl⟩

theorem AtRest.toggleAutoFormat (h : ed.AtRest) : ed.toggleAutoFormat.1.AtRest := by
  obtain ⟨w, events, hw, hdone⟩ := exists_acts
    ({ ed with session := (ed.session.toggleAutoFormat true).session }.note
      (ed.session.toggleAutoFormat true).log)
    h.applying h.snapshot (Session.orderly_toggleAutoFormat ed.session true).inOrder
  have htext : w.text = ed.text := hw
  rw [Editor.toggleAutoFormat]
  dsimp only
  rw [hdone]
  exact ⟨rfl, h.applying, h.pendingOrigin, h.outline.trans (congrArg Outline.ofText htext.symm),
    h.painted, h.repaintDue⟩

/-- What a session sees of an editor. -/
theorem shows_view (ed : Editor) : ∀ view, some ed.view = some view → view.Shows ed.text := by
  rintro view ⟨⟩
  exact ⟨rfl, Text.ofUnits_le _ _, Text.ofUnits_le _ _⟩

theorem AtRest.command (h : ed.AtRest) (c : Command) : (ed.command c).1.AtRest := by
  cases c with
  | formatArticle =>
    exact h.runCommand (·.formatArticle (some ed.view))
      (Session.inStep_formatArticle h.outline ed.shows_view) (Session.orderly_formatArticle _ _)
  | formatSelection =>
    exact h.runCommand (·.formatSelection (some ed.view))
      (Session.inStep_formatSelection h.outline ed.shows_view) (Session.orderly_formatSelection _ _)
  | insertCodeBlock =>
    exact h.runCommand (·.insertCodeBlock (some ed.view))
      (Session.inStep_insertCodeBlock h.outline ed.shows_view) (Session.orderly_insertCodeBlock _ _)
  | toggleAutoFormat => exact h.toggleAutoFormat
  | save => exact h

theorem AtRest.strike (h : ed.AtRest) (chord : Points) : (ed.strike chord).AtRest := by
  rw [Editor.strike]
  generalize Shortcut.commandsOf ed.shortcuts chord = commands
  induction commands generalizing ed with
  | nil => exact h
  | cons c commands ih => exact ih (h.command c)

/-! ### Input -/

theorem AtRest.tell (h : ed.AtRest) (e : Event) : (ed.tell e).AtRest :=
  ⟨h.snapshot, h.applying, h.pendingOrigin, h.outline, h.painted, h.repaintDue⟩

theorem AtRest.press (h : ed.AtRest) (k : KeyPress) : (ed.press k).1.AtRest := by
  rw [Editor.press]
  split
  next => exact h.tell _
  next e he =>
    have hedit : k.edit? ed.widget.anchor ed.widget.head ed.text = some e := by
      split_ifs at he
      exact he
    exact h.commit (KeyPress.fits_of_edit? (Text.ofUnits_le _ _) (Text.ofUnits_le _ _) hedit)

theorem AtRest.pressAll (h : ed.AtRest) (t : Text) :
    (t.foldl (fun ed c => (ed.press (.ofChar c)).1) ed).AtRest := by
  induction t generalizing ed with
  | nil => exact h
  | cons c t ih => exact ih (h.press _)

theorem AtRest.compose (h : ed.AtRest) (finished unfinished : Text) (takesAway : Bool) :
    (ed.compose finished unfinished takesAway).1.AtRest := by
  rw [Editor.compose]
  split_ifs
  · exact h.tell _
  · split
    next => exact h.tell _
    next e he =>
      exact (h.tell _).commit
        (fits_of_composedEdit? (Text.ofUnits_le _ _) (Text.ofUnits_le _ _) he)

/-- **The widget pastes**, and the editor hears of it. -/
theorem AtRest.paste (h : ed.AtRest) (t : Text) : (ed.paste t).AtRest := by
  rw [Editor.paste]
  set ed' := { ed with pendingOrigin := some .paste }.tell .pasteLeft
  have hknows : ed'.Knows := ⟨h.snapshot, h.applying, h.outline, fun _ => h.painted⟩
  obtain ⟨hheard, -⟩ := hknows.change (ed'.widget.cursor.replacement t)
  have hdone : { ed'.change (ed'.widget.cursor.replacement t) with pendingOrigin := none }.Knows :=
    ⟨hheard.snapshot, hheard.applying, hheard.outline, hheard.painted⟩
  exact hdone.settle rfl

/-- **Others change the text**, and the editor hears of it. -/
theorem AtRest.alter (h : ed.AtRest) (start stop : Int) (t : Text) :
    (ed.alter start stop t).AtRest := by
  rw [Editor.alter]
  set r := Cursor.replacement ⟨Text.toUnits ed.text (Text.resolve ed.text start),
    Text.toUnits ed.text (Text.resolve ed.text stop)⟩ t
  obtain ⟨hheard, horigin⟩ := h.knows.change r
  have hmoved : ({ ed.change r with widget := (ed.change r).widget.setCursor r.newStop }).Knows :=
    ⟨hheard.snapshot, hheard.applying, hheard.outline, hheard.painted⟩
  exact hmoved.settle (horigin.trans h.pendingOrigin)

/-! ### Documents -/

/-- **Another document** comes into the editor. -/
theorem AtRest.openDocument (h : ed.AtRest) (path : String) (t : Text) :
    (ed.openDocument path t).AtRest := by
  have hknown : ed.session.outline = .ofText ed.session.outline.content := by rw [h.outline]; rfl
  have hstep := Session.inStep_activate (t := t) (.inr hknown) path true
  have horderly := Session.orderly_activate ed.session path t true
  rw [openDocument_eq]
  dsimp only
  set r := ed.session.activate path t true
  set shown : Editor := { ed with
    session := r.session, widget := { text := t }, snapshot := t, applying := false
    filePath := path }
  obtain ⟨w, events, hw, hdone⟩ := exists_acts (shown.note r.log) rfl rfl horderly.inOrder
  rw [hdone]
  exact ⟨rfl, rfl, h.pendingOrigin, hstep.trans (congrArg Outline.ofText hw.symm), rfl,
    h.repaintDue⟩

/-! ### Operations -/

/-- The operation is not one that a session asks for, as it does when it carries out a command. -/
def Operation.Regular : Operation → Prop
  | .replaceRange .. => False
  | _ => True

/-- **Every operation leaves everything in order.** -/
theorem AtRest.perform (h : ed.AtRest) {op : Operation} (hop : op.Regular) :
    (ed.perform op).1.AtRest := by
  -- what the books do not mention may change
  have hother : ∀ (w : Widget) (readOnly : Bool) (font : Font) (shortcuts : List Shortcut),
      w.text = ed.text → { ed with widget := w, readOnly, font, shortcuts }.AtRest :=
    fun w _ _ _ hw => ⟨h.snapshot.trans hw.symm, h.applying, h.pendingOrigin,
      h.outline.trans (congrArg Outline.ofText hw.symm), h.painted, h.repaintDue⟩
  cases op with
  | press k => exact h.press k
  | type t => exact h.pressAll t
  | compose finished unfinished takesAway => exact h.compose finished unfinished takesAway
  | paste t => exact h.paste t
  | alter start stop t => exact h.alter start stop t
  | select anchor head => exact hother (ed.widget.select _ _) _ _ _ rfl
  | setCaret offset => exact hother (ed.widget.setCaret offset) _ _ _ rfl
  | openDocument path t => exact h.openDocument path t
  | setReadOnly on => exact hother ed.widget on _ _ rfl
  | command c => exact h.command c
  | strike chord => exact h.strike chord
  | updateSettings settings =>
    exact ⟨h.snapshot, h.applying, h.pendingOrigin, h.outline, h.painted, h.repaintDue⟩
  | bindKeys bindings => exact hother ed.widget _ _ (Shortcut.rebind _ _) rfl
  | setFont family size =>
    rw [Editor.perform]
    cases Font.read? family size with
    | ok f => exact hother ed.widget _ (f.fillFrom ed.font) _ rfl
    | error why => exact h
  | replaceRange => exact hop.elim

/-- An editor that has just been made is in order. -/
theorem atRest_create (settings bindings : Value) : (create settings bindings).AtRest :=
  ⟨rfl, rfl, rfl, rfl, show [LineKind.text] = (Outline.ofText []).kinds by decide, rfl⟩

theorem AtRest.run (h : ed.AtRest) {ops : List Operation} (hops : ∀ op ∈ ops, op.Regular) (n : ℕ) :
    (ed.run (ops.take n)).AtRest := by
  rw [Editor.run]
  induction ops generalizing ed n with
  | nil => rw [List.take_nil]; exact h
  | cons op ops ih =>
    cases n with
    | zero => exact h
    | succ n =>
      exact ih (h.perform (hops op List.mem_cons_self))
        (fun op hop => hops op (List.mem_cons_of_mem _ hop)) n

/-- **The books are always in order.**  After every operation of a run the editor knows the text on
the screen, listens to it, and is not waiting for a change; the session holds the outline of the
text, as if all of it had been classified anew; and what has been painted are the kinds of its
lines. -/
theorem atRest_run (settings bindings : Value) {ops : List Operation}
    (hops : ∀ op ∈ ops, op.Regular) (n : ℕ) :
    ((create settings bindings).run (ops.take n)).AtRest :=
  (atRest_create settings bindings).run hops n

/-- A document with a character of two units: others open a formula in front of it, the user pastes
over a selection, others close the formula again, the user types, and the article is set. -/
theorem atRest_run_formula :
    let ops : List Operation := [.openDocument "note.md" ['😀', '字', '\n', 'a', 'b'],
      .alter 0 0 ['$', '$', '\n'], .select 4 5, .paste ['“', 'x'], .alter 0 3 [],
      .press (.ofChar 'y'), .command .formatArticle]
    let ed := (create .null .null).run (ops.take 7)
    (∀ op ∈ ops, op.Regular) ∧ ed.text = ['Y', '😀', '“', 'x', '\n', 'A', 'b'] ∧ ed.AtRest := by
  intro ops ed
  have hops : ∀ op ∈ ops, op.Regular := by
    intro op hop
    simp only [ops, List.mem_cons, List.not_mem_nil, or_false] at hop
    rcases hop with rfl | rfl | rfl | rfl | rfl | rfl | rfl <;> trivial
  exact ⟨hops, by decide +kernel, atRest_run .null .null hops 7⟩

end Editor

end TypingAid
