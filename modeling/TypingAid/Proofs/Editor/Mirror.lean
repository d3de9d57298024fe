import TypingAid.Proofs.Buffer.Sync
import TypingAid.Proofs.Editor.Bookkeeping

/-!
# An editor and a buffer

A buffer does without a screen what an editor does on one.  They are written apart: the buffer cuts
and joins texts by code points, the editor moves a cursor through a widget that counts UTF-16 units
and is told where the caret has gone.  Still a buffer that is given the edits and the commands of an
editor stays in the same state (`Editor.mirrors_run`): the text, the selection, the session and the
notices are the same after every step, whatever characters the text holds.

* `Editor.Mirrors` : the state of an editor and that of a buffer are the same.
* `Operation.onBuffer?` : what a buffer has to do to follow an operation of an editor.
* `Mirrors.commit`, `Mirrors.command`, `Mirrors.select` : one step of both.

Only operations are followed that go through the session or select something; pasting, changes by
others and other documents come into an editor alone.
-/

namespace TypingAid

/-- The message of a notice. -/
def Event.notice? : Event → Option String
  | .notice message => some message
  | _ => none

namespace Editor

/-- The notices for the user, the first one first. -/
def notices (ed : Editor) : List String := ed.events.filterMap Event.notice?

/-- The operation by which a buffer follows an operation of the editor, if there is one: the edit
that the user wants, a selection, or a command. -/
def Operation.onBuffer? (ed : Editor) : Operation → Option TypingAid.Operation
  | .press k => (k.edit? ed.widget.anchor ed.widget.head ed.text).map .dispatch
  | .compose finished [] false =>
    (composedEdit? finished ed.widget.anchor ed.widget.head).map .dispatch
  | .select anchor head => if 0 ≤ anchor ∧ 0 ≤ head then some (.select anchor head) else none
  | .command .formatArticle => some (.formatArticle true)
  | .command .formatSelection => some (.formatSelection true)
  | .command .insertCodeBlock => some (.insertCodeBlock true)
  | .command .toggleAutoFormat => some (.toggleAutoFormat true)
  | _ => none

/-- The operations by which a buffer follows a run of the editor. -/
def onBuffer? (ed : Editor) : List Operation → Option (List TypingAid.Operation)
  | [] => some []
  | op :: ops =>
    (op.onBuffer? ed).bind fun op' =>
      ((ed.perform op).1.onBuffer? ops).map fun ops' => op' :: ops'

/-- The editor and the buffer are in the same state. -/
structure Mirrors (ed : Editor) (b : Buffer) : Prop where
  session : b.session = some ed.session
  text : b.text = ed.text
  anchor : ed.widget.cursor.anchor = Text.toUnits ed.text b.anchor
  position : ed.widget.cursor.position = Text.toUnits ed.text b.head
  anchor_le : b.anchor ≤ b.text.length
  head_le : b.head ≤ b.text.length
  notices : b.notices = ed.notices
  readOnly : ed.readOnly = false

variable {ed : Editor} {b : Buffer}

/-! ### The selection -/

theorem Mirrors.anchor_eq (h : ed.Mirrors b) : ed.widget.anchor = b.anchor := by
  have hle := h.anchor_le
  rw [h.text] at hle
  rw [Widget.anchor, h.anchor]
  exact (Text.ofUnits_toUnits _ _).trans (Text.clamp_natCast hle)

theorem Mirrors.head_eq (h : ed.Mirrors b) : ed.widget.head = b.head := by
  have hle := h.head_le
  rw [h.text] at hle
  rw [Widget.head, h.position]
  exact (Text.ofUnits_toUnits _ _).trans (Text.clamp_natCast hle)

theorem Mirrors.view_eq (h : ed.Mirrors b) : ed.view = b.view := by
  rw [view, Buffer.view, h.anchor_eq, h.head_eq, h.text]

/-- **Selecting** between offsets of the text. -/
theorem mirrors_select (hsession : b.session = some ed.session) (htext : b.text = ed.text)
    (hnotices : b.notices = ed.notices) (hreadOnly : ed.readOnly = false) {anchor head : Int}
    (hanchor : 0 ≤ anchor) (hhead : 0 ≤ head) :
    (ed.select anchor head).Mirrors (b.select anchor head) := by
  have hunits : ∀ i : Int, 0 ≤ i →
      Text.toUnits ed.text (Text.resolve ed.text i) = Text.toUnits ed.text (Text.clamp b.text i) :=
    fun i hi => by rw [Text.resolve_of_nonneg hi, htext]
  have hle : ∀ i : Int, Text.toUnits ed.text i ≤ ed.widget.length :=
    Text.toUnits_le_units ed.widget.text
  have hcursor : (ed.select anchor head).widget.cursor =
      ⟨Text.toUnits ed.text (Text.clamp b.text anchor),
        Text.toUnits ed.text (Text.clamp b.text head)⟩ := by
    rw [← hunits anchor hanchor, ← hunits head hhead, select]
    exact (congrArg (Cursor.extendTo · _ _) (Cursor.moveTo_of_le _ (hle _))).trans
      (Cursor.extendTo_of_le _ (hle _))
  refine ⟨hsession, htext, ?_, ?_, Text.clamp_le _ _, Text.clamp_le _ _, hnotices, hreadOnly⟩
  · rw [hcursor]; rfl
  · rw [hcursor]; rfl

/-- A caret that has been put at an offset. -/
theorem mirrors_caret (hsession : b.session = some ed.session) (htext : b.text = ed.text)
    (hnotices : b.notices = ed.notices) (hreadOnly : ed.readOnly = false) {offset : Int}
    (hcursor : ed.widget.cursor = ⟨Text.toUnits ed.text offset, Text.toUnits ed.text offset⟩)
    (hanchor : b.anchor = Text.clamp b.text offset) (hhead : b.head = Text.clamp b.text offset) :
    ed.Mirrors b := by
  have hunits : Text.toUnits ed.text (Text.clamp b.text offset) = Text.toUnits ed.text offset := by
    rw [htext, Text.toUnits_clamp]
  refine ⟨hsession, htext, ?_, ?_, ?_, ?_, hnotices, hreadOnly⟩
  · rw [hcursor, hanchor, hunits]
  · rw [hcursor, hhead, hunits]
  · rw [hanchor]; exact Text.clamp_le _ _
  · rw [hhead]; exact Text.clamp_le _ _

/-! ### Edits -/

theorem Mirrors.note (h : ed.Mirrors b) (lines : List LogLine) :
    (ed.note lines).Mirrors (b.note lines) :=
  ⟨h.session, h.text, h.anchor, h.position, h.anchor_le, h.head_le, h.notices, h.readOnly⟩

theorem notices_append (ed : Editor) {es : List Event} (h : ∀ e ∈ es, e.notice? = none) :
    (ed.events ++ es).filterMap Event.notice? = ed.notices := by
  rw [List.filterMap_append, List.filterMap_eq_nil_iff.2 h, List.append_nil, notices]

theorem Mirrors.tell (h : ed.Mirrors b) {e : Event} (he : e.notice? = none) :
    (ed.tell e).Mirrors b :=
  ⟨h.session, h.text, h.anchor, h.position, h.anchor_le, h.head_le,
    h.notices.trans (ed.notices_append fun _ hx => List.mem_singleton.1 hx ▸ he).symm, h.readOnly⟩

/-- What the editor does on the screen alone does not show in the buffer. -/
theorem Mirrors.finish (h : ed.Mirrors b) (snapshot : Text) (kinds : List LineKind) :
    ({ ed with snapshot }.repaintUnless kinds).Mirrors b := by
  rw [repaintUnless]
  split_ifs
  · exact ⟨h.session, h.text, h.anchor, h.position, h.anchor_le, h.head_le, h.notices, h.readOnly⟩
  · have htold := h.tell (e := .repainted (shades ed.text ed.kinds)) rfl
    exact ⟨htold.session, htold.text, htold.anchor, htold.position, htold.anchor_le, htold.head_le,
      htold.notices, htold.readOnly⟩

/-- **An edit that fits** is carried out alike. -/
theorem Mirrors.carryOut (h : ed.Mirrors b) {e : Edit} (hfits : e.Fits ed.text) :
    (ed.carryOut e).Mirrors (b.commit e) := by
  obtain ⟨rs, hdone⟩ := exists_carryOut hfits
  obtain ⟨hanchor, hhead⟩ := Buffer.selection_commit_eq b e
  obtain ⟨hanchor_le, hhead_le⟩ := Buffer.selection_commit h.anchor_le h.head_le e
  have hsession : (b.commit e).session = b.session := Buffer.session_commit b e
  have htext : (b.commit e).text = e.apply ed.text := by rw [Buffer.text_commit, h.text]
  have hcursor : ed.cursorAfter e = ⟨Text.toUnits (e.apply ed.text) (b.commit e).anchor,
      Text.toUnits (e.apply ed.text) (b.commit e).head⟩ := by
    rw [hanchor, hhead, cursorAfter, h.text]
    cases hcaret : e.targetCaret with
    | some caret => simp only [Option.map_some, Option.getD_some, Text.toUnits_clamp]
    | none =>
      -- without a span the text and the cursor stay
      have hsame := Edit.isChange_of_spans_eq_nil (Edit.spans_eq_nil_of_targetCaret hcaret)
      rw [Edit.apply_of_not_isChange hsame]
      change ed.widget.cursor = ⟨Text.toUnits ed.text b.anchor, Text.toUnits ed.text b.head⟩
      rw [← h.anchor, ← h.position]
  have hquiet : ∀ event ∈ rs.map Event.edited, event.notice? = none := fun event he => by
    obtain ⟨r, -, rfl⟩ := List.mem_map.1 he
    rfl
  have hnotices : (b.commit e).notices = b.notices := Buffer.notices_commit b e
  rw [hdone, hcursor]
  exact ⟨hsession.trans h.session, htext, rfl, rfl, hanchor_le, hhead_le,
    hnotices.trans (h.notices.trans (ed.notices_append hquiet).symm), h.readOnly⟩

/-- **The session is told of an edit** alike, and asks for the same edits to follow. -/
theorem Mirrors.report (h : ed.Mirrors b) (before : Text) (e : Edit) :
    (ed.report before e ed.widget.anchor ed.widget.head).1.Mirrors (b.report before e).1 ∧
      (ed.report before e ed.widget.anchor ed.widget.head).2 = (b.report before e).2 := by
  have hafter : ed.session.afterCommit before ed.text e ed.widget.anchor ed.widget.head =
      ed.session.afterCommit before b.text e b.anchor b.head := by
    rw [h.anchor_eq, h.head_eq, h.text]
  rw [Editor.report, Buffer.report, hafter, h.session]
  exact ⟨⟨rfl, h.text, h.anchor, h.position, h.anchor_le, h.head_le, h.notices, h.readOnly⟩, rfl⟩

theorem Mirrors.commitOne (h : ed.Mirrors b) {e : Edit} (hfits : e.Fits ed.text) :
    (ed.commitOne e).1.Mirrors ((b.commit e).report b.text e).1 ∧
      (ed.commitOne e).2 = ((b.commit e).report b.text e).2 := by
  rw [h.text]
  exact (h.carryOut hfits).report ed.text e

/-- **An edit of the user** and what follows from it are carried out alike. -/
theorem Mirrors.commit (h : ed.Mirrors b) {e : Edit} (hfits : e.Fits ed.text) :
    (ed.commit e).Mirrors (b.dispatch e).1 := by
  have hfits' : (ed.session.filter ed.text e).Fits ed.text :=
    hfits.intervene ed.session.settings ed.session.rules
  rw [Editor.commit, Buffer.dispatch, h.session]
  dsimp only
  rw [h.text]
  set e' := ed.session.filter ed.text e
  set ed' := ed.note (ed.session.filterLog ed.text e)
  set b' := b.note (ed.session.filterLog ed.text e)
  have hnote : ed'.Mirrors b' := h.note _
  have hfits'' : e'.Fits ed'.text := hfits'
  obtain ⟨hone, hedits⟩ := hnote.commitOne hfits''
  rw [show b'.text = ed.text from h.text] at hone hedits
  refine Mirrors.finish ?_ _ _
  rw [← hedits]
  rcases followUps_commitOne ed' hfits'' with hnone | ⟨fix, move, hfollow, hfix, hmove⟩
  · rw [hnone]
    exact hone
  · rw [hfollow]
    obtain ⟨htwo, -⟩ := hone.commitOne hfix
    obtain ⟨hthree, -⟩ := htwo.commitOne (Edit.fits_of_spans_eq_nil hmove _)
    exact hthree

/-! ### Commands -/

/-- What a session asks for is done alike. -/
theorem Mirrors.act (h : ed.Mirrors b) {a : HostAction} (ha : a.InOrder) :
    (ed.act a).Mirrors (b.act a) := by
  cases a with
  | replace start stop t =>
    obtain ⟨rs, hdone⟩ := exists_replaceRange ed ha t
    have hquiet : ∀ event ∈ rs.map Event.edited, event.notice? = none := fun event he => by
      obtain ⟨r, -, rfl⟩ := List.mem_map.1 he
      rfl
    have htext : Text.spliceRel b.text start stop t = Text.spliceRel ed.text start stop t := by
      rw [h.text]
    rw [Editor.act, hdone]
    exact mirrors_caret h.session htext (h.notices.trans (ed.notices_append hquiet).symm) h.readOnly
      rfl rfl rfl
  | setCaret offset =>
    rw [Editor.act, setCaret, Widget.setCaret_eq]
    exact mirrors_caret h.session h.text h.notices h.readOnly rfl rfl rfl
  | notify message =>
    refine ⟨h.session, h.text, h.anchor, h.position, h.anchor_le, h.head_le, ?_, h.readOnly⟩
    change b.notices ++ [message] = (ed.events ++ [Event.notice message]).filterMap Event.notice?
    rw [h.notices, List.filterMap_append]
    rfl

theorem Mirrors.acts (h : ed.Mirrors b) {actions : List HostAction}
    (hactions : ∀ a ∈ actions, a.InOrder) :
    (actions.foldl Editor.act ed).Mirrors (actions.foldl Buffer.act b) := by
  induction actions generalizing ed b with
  | nil => exact h
  | cons a actions ih =>
    exact ih (h.act (hactions a List.mem_cons_self))
      fun a ha => hactions a (List.mem_cons_of_mem _ ha)

/-- The answer of a session is taken alike. -/
theorem Mirrors.respond {α : Type} (h : ed.Mirrors b) {r : Response α} (horderly : r.Orderly) :
    (r.actions.foldl Editor.act ({ ed with session := r.session }.note r.log)).Mirrors
      (r.actions.foldl Buffer.act ({ b with session := some r.session }.note r.log)) := by
  have hr : ({ ed with session := r.session }.note r.log).Mirrors
      ({ b with session := some r.session }.note r.log) :=
    ⟨rfl, h.text, h.anchor, h.position, h.anchor_le, h.head_le, h.notices, h.readOnly⟩
  exact hr.acts horderly.inOrder

/-- **A command** is carried out alike, as both show the session the same. -/
theorem Mirrors.command {α : Type} (h : ed.Mirrors b)
    (run : Session → Option HostView → Response α) (horderly : ∀ s host, (run s host).Orderly) :
    (ed.runCommand fun s => run s (some ed.view)).Mirrors
      (b.command fun s => run s (b.hostView true)).1 := by
  have hhost : b.hostView true = some ed.view := by rw [h.view_eq]; rfl
  rw [Editor.runCommand, Buffer.command, h.session, hhost]
  exact (h.respond (horderly _ _)).finish _ _

theorem Mirrors.toggleAutoFormat (h : ed.Mirrors b) :
    ed.toggleAutoFormat.1.Mirrors (b.command (·.toggleAutoFormat true)).1 := by
  rw [Editor.toggleAutoFormat, Buffer.command, h.session]
  exact h.respond (Session.orderly_toggleAutoFormat ed.session true)

/-! ### Runs -/

/-- **An operation of the editor and the one by which a buffer follows it** lead to the same
state. -/
theorem Mirrors.perform (h : ed.Mirrors b) {op : Operation} {op' : TypingAid.Operation}
    (hop : op.onBuffer? ed = some op') : (ed.perform op).1.Mirrors (b.perform op').1 := by
  cases op with
  | press k =>
    obtain ⟨e, he, rfl⟩ := Option.map_eq_some_iff.1 hop
    have hfits := KeyPress.fits_of_edit? (Text.ofUnits_le _ _) (Text.ofUnits_le _ _) he
    have hpress : (ed.press k).1 = ed.commit e := by
      rw [Editor.press, h.readOnly]
      simp [he]
    change (ed.press k).1.Mirrors _
    rw [hpress]
    exact h.commit hfits
  | compose finished unfinished takesAway =>
    cases unfinished with
    | cons => cases hop
    | nil =>
      cases takesAway with
      | true => cases hop
      | false =>
        obtain ⟨e, he, rfl⟩ := Option.map_eq_some_iff.1 hop
        have hfits := fits_of_composedEdit? (Text.ofUnits_le _ _) (Text.ofUnits_le _ _) he
        have hcompose : (ed.compose finished [] false).1 =
            (ed.tell (.inputLeft [] [])).commit e := by
          rw [Editor.compose, h.readOnly]
          simp [he]
        change (ed.compose finished [] false).1.Mirrors _
        rw [hcompose]
        exact (h.tell rfl).commit hfits
  | select anchor head =>
    rw [Operation.onBuffer?] at hop
    obtain ⟨⟨hanchor, hhead⟩, hop⟩ := Option.ite_none_right_eq_some.1 hop
    rw [← Option.some.inj hop]
    exact mirrors_select h.session h.text h.notices h.readOnly hanchor hhead
  | command c =>
    cases c with
    | formatArticle =>
      cases hop
      exact h.command Session.formatArticle Session.orderly_formatArticle
    | formatSelection =>
      cases hop
      exact h.command Session.formatSelection Session.orderly_formatSelection
    | insertCodeBlock =>
      cases hop
      exact h.command Session.insertCodeBlock Session.orderly_insertCodeBlock
    | toggleAutoFormat =>
      cases hop
      exact h.toggleAutoFormat
    | save => cases hop
  | _ => cases hop

theorem Mirrors.run (h : ed.Mirrors b) {ops : List Operation} {ops' : List TypingAid.Operation}
    (hops : ed.onBuffer? ops = some ops') (n : ℕ) :
    (ed.run (ops.take n)).Mirrors (b.run (ops'.take n)) := by
  rw [Editor.run, Buffer.run]
  induction ops generalizing ed b ops' n with
  | nil =>
    cases hops
    rw [List.take_nil, List.take_nil]
    exact h
  | cons op ops ih =>
    rw [Editor.onBuffer?] at hops
    obtain ⟨op', hop, hmap⟩ := Option.bind_eq_some_iff.1 hops
    obtain ⟨rest, hrest, rfl⟩ := Option.map_eq_some_iff.1 hmap
    cases n with
    | zero => exact h
    | succ n => exact ih (h.perform hop) hrest n

/-- The first document of a session. -/
theorem activate_first {s : Session} (h : s.active = none) (identity : String) (t : Text) :
    s.activate identity t true =
      ⟨{ s with outline := .ofText t, active := some (stripString identity) }, true,
        [.notify (Session.noticeStart ++ ("Parse New Active Article: " ++ stripString identity))],
        []⟩ := by
  simp [Session.activate, h, Session.announce]

/-- A document in an editor, and the same document in a buffer, once the same part is selected. -/
theorem mirrors_start (settings bindings : Value) (path : String) (t : Text) (anchor head : ℕ) :
    (((create settings bindings).openDocument path t).select anchor head).Mirrors
      ((Buffer.create t (some (.create settings)) path).select anchor head) := by
  rw [openDocument_eq, Buffer.create, Buffer.command]
  dsimp only
  rw [activate_first rfl, activate_first rfl]
  exact mirrors_select rfl rfl rfl rfl (Int.natCast_nonneg _) (Int.natCast_nonneg _)

/-- **A buffer does what an editor does.**  An editor and a buffer have the same settings, the same
document and the same selection.  If the buffer is given the edits that the user of the editor
wants, the same selections and the same commands, then after every step the texts, the selections,
the sessions with their outlines and the notices are the same. -/
theorem mirrors_run (settings bindings : Value) (path : String) (t : Text) (anchor head : ℕ)
    {ops : List Operation} {ops' : List TypingAid.Operation}
    (hops : (((create settings bindings).openDocument path t).select anchor head).onBuffer? ops =
      some ops') (n : ℕ) :
    let ed := (((create settings bindings).openDocument path t).select anchor head).run (ops.take n)
    let b := ((Buffer.create t (some (.create settings)) path).select anchor head).run (ops'.take n)
    b.text = ed.text ∧ b.anchor = ed.widget.anchor ∧ b.head = ed.widget.head ∧
      b.session = some ed.session ∧ b.notices = ed.notices := by
  intro ed b
  have h : ed.Mirrors b := (mirrors_start settings bindings path t anchor head).run hops n
  exact ⟨h.text, h.anchor_eq.symm, h.head_eq.symm, h.session, h.notices⟩

/-- Behind a character of two units the user encloses a selection and types on, and an input method
puts in a text that the line is set for; then the character in front becomes a code block. -/
theorem mirrors_run_enclosing :
    let start := ((create .null .null).openDocument "note.md" ['😀', '字', '\n']).select
      (1 : ℕ) (2 : ℕ)
    let ops : List Operation := [.press (.ofChar '（'), .select 3 3, .press (.ofChar 'x'),
      .compose ['文', '字'] [] false, .select 0 1, .command .insertCodeBlock]
    let ed := start.run (ops.take 6)
    ed.text = "```\n😀\n```\n（字 x 文字）\n".toList ∧
      ∃ ops', start.onBuffer? ops = some ops' ∧
        let b := ((Buffer.create ['😀', '字', '\n'] (some (.create .null)) "note.md").select
          (1 : ℕ) (2 : ℕ)).run (ops'.take 6)
        b.text = ed.text ∧ b.anchor = ed.widget.anchor ∧ b.head = ed.widget.head ∧
          b.session = some ed.session ∧ b.notices = ed.notices := by
  intro start ops ed
  have hsome : (start.onBuffer? ops).isSome = true := by decide +kernel
  obtain ⟨ops', hops⟩ := Option.isSome_iff_exists.1 hsome
  exact ⟨by decide +kernel, ops', hops,
    mirrors_run .null .null "note.md" ['😀', '字', '\n'] 1 2 hops 6⟩

end Editor

end TypingAid
