import TypingAid.Buffer.Operation
import TypingAid.Proofs.Session.Aftermath
import TypingAid.Proofs.Session.Command
import TypingAid.Proofs.Text.Units

/-!
# Buffers in sync with their session

A buffer is in sync if its session holds the outline of the text, down to the block that each line
leaves open, and the selection lies in the text (`Buffer.InSync`).  A buffer that has just been made
is (`Buffer.hasSync_create`), and every operation keeps it so (`Buffer.HasSync.perform`):

* an edit, what takes its place and what follows from it all fit the text they are committed to, so
  that following them gives the outline of the new text (`Buffer.inSync_report`);
* undoing is reported as an edit of the whole text;
* a command and the changes it asks for are in step (`Buffer.InSync.command`).

`Buffer.HasSync.run` puts the steps together for a whole run.  Only what `Operation.Regular` leaves
out is not covered: changes of the text that the session does not hear of, another document coming
into the editor, and edits that do not fit the text.
-/

namespace TypingAid

/-- The operation goes through the session, and an edit fits the text. -/
def Operation.Regular (t : Text) : Operation → Prop
  | .dispatch e => e.Fits t
  | .replaceRange .. | .assignText _ | .activate .. => False
  | _ => True

namespace Buffer

/-- The session of the buffer holds the outline of its text, and the selection lies in the text. -/
structure InSync (b : Buffer) (s : Session) : Prop where
  session : b.session = some s
  outline : s.outline = .ofText b.text
  anchor : b.anchor ≤ b.text.length
  head : b.head ≤ b.text.length

/-- The buffer has a session and is in sync with it. -/
def HasSync (b : Buffer) : Prop := ∃ s, b.InSync s

variable {b : Buffer} {s : Session}

theorem InSync.note (h : b.InSync s) (lines : List LogLine) : (b.note lines).InSync s :=
  ⟨h.session, h.outline, h.anchor, h.head⟩

theorem InSync.select (h : b.InSync s) (anchor head : Int) : (b.select anchor head).InSync s :=
  ⟨h.session, h.outline, Text.clamp_le _ _, Text.clamp_le _ _⟩

theorem InSync.setCaret (h : b.InSync s) (offset : Int) : (b.setCaret offset).InSync s :=
  h.select offset offset

theorem shows_of_hostView (h : b.InSync s) (asHost : Bool) :
    ∀ view, b.hostView asHost = some view → view.Shows b.text := by
  intro view hview
  rw [hostView] at hview
  split_ifs at hview
  rw [← Option.some.inj hview]
  exact ⟨rfl, h.anchor, h.head⟩

/-! ### Edits -/

theorem text_commit (b : Buffer) (e : Edit) : (b.commit e).text = e.apply b.text := by
  have hbase : (if e.isChange then { b.remember with text := e.apply b.text } else b).text =
      e.apply b.text := by
    split_ifs with hc
    · rfl
    · exact (Edit.apply_of_not_isChange (by simpa using hc) b.text).symm
  rw [commit]
  cases e.targetCaret with
  | none => exact hbase
  | some caret => exact hbase

theorem session_commit (b : Buffer) (e : Edit) : (b.commit e).session = b.session := by
  rw [commit]
  cases e.targetCaret <;> dsimp only [setCaret, select] <;> split_ifs <;> rfl

theorem notices_commit (b : Buffer) (e : Edit) : (b.commit e).notices = b.notices := by
  rw [commit]
  cases e.targetCaret <;> dsimp only [setCaret, select] <;> split_ifs <;> rfl

/-- Where the selection is after an edit. -/
theorem selection_commit_eq (b : Buffer) (e : Edit) :
    (b.commit e).anchor = (e.targetCaret.map (Text.clamp (e.apply b.text))).getD b.anchor ∧
      (b.commit e).head = (e.targetCaret.map (Text.clamp (e.apply b.text))).getD b.head := by
  rw [commit]
  cases hc : e.isChange with
  | true => cases e.targetCaret <;> exact ⟨rfl, rfl⟩
  | false =>
    rw [Edit.apply_of_not_isChange hc]
    cases e.targetCaret <;> exact ⟨rfl, rfl⟩

/-- The selection lies in the text after an edit, which puts the caret somewhere or changes
nothing. -/
theorem selection_commit (hanchor : b.anchor ≤ b.text.length) (hhead : b.head ≤ b.text.length)
    (e : Edit) : (b.commit e).anchor ≤ (b.commit e).text.length ∧
      (b.commit e).head ≤ (b.commit e).text.length := by
  rw [text_commit, (selection_commit_eq b e).1, (selection_commit_eq b e).2]
  cases ht : e.targetCaret with
  | some caret => exact ⟨Text.clamp_le _ _, Text.clamp_le _ _⟩
  | none =>
    -- an edit with a span has a caret after it
    have hc := Edit.isChange_of_spans_eq_nil (Edit.spans_eq_nil_of_targetCaret ht)
    rw [Edit.apply_of_not_isChange hc]
    exact ⟨hanchor, hhead⟩

/-- **Telling the session about an edit** brings its outline up to date. -/
theorem inSync_report {before : Text} {e : Edit} (hs : b.session = some s)
    (ho : s.outline = .ofText before) (hfits : e.Fits before) (htext : b.text = e.apply before)
    (hanchor : b.anchor ≤ b.text.length) (hhead : b.head ≤ b.text.length) :
    (b.report before e).1.HasSync := by
  rw [report, hs]
  refine ⟨_, rfl, ?_, hanchor, hhead⟩
  change (s.afterCommit before b.text e b.anchor b.head).1.outline = .ofText b.text
  rw [htext]
  exact Session.outline_afterCommit ho hfits _ _

theorem InSync.commit_report (h : b.InSync s) {e : Edit} (hfits : e.Fits b.text) :
    ((b.commit e).report b.text e).1.HasSync := by
  obtain ⟨hanchor, hhead⟩ := selection_commit h.anchor h.head e
  exact inSync_report (by rw [session_commit, h.session]) h.outline hfits (text_commit b e) hanchor
    hhead

/-- The edits that follow from an edit: none, or one that fits and one without spans. -/
theorem followUps_report (b : Buffer) (before : Text) (e : Edit) :
    (b.report before e).2 = [] ∨ ∃ fix move : Edit, (b.report before e).2 = [fix, move] ∧
      fix.Fits b.text ∧ move.spans = [] := by
  rw [report]
  cases b.session with
  | none => exact .inl rfl
  | some s => exact s.followUps_afterCommit before b.text e b.anchor b.head

theorem text_report (b : Buffer) (before : Text) (e : Edit) :
    (b.report before e).1.text = b.text := by
  rw [report]
  cases b.session <;> rfl

theorem HasSync.commitFollowUp (h : b.HasSync) {e : Edit} (hfits : e.Fits b.text) :
    (b.commitFollowUp e).HasSync := by
  obtain ⟨s, hs⟩ := h
  exact hs.commit_report hfits

/-- **Dispatching an edit that fits** keeps the buffer in sync. -/
theorem InSync.dispatch (h : b.InSync s) {e : Edit} (hfits : e.Fits b.text) :
    (b.dispatch e).1.HasSync := by
  rw [Buffer.dispatch, h.session]
  dsimp only
  set e' := s.filter b.text e
  have hfits' : e'.Fits b.text := hfits.intervene s.settings s.rules
  have hnote := h.note (s.filterLog b.text e)
  set b' := b.note (s.filterLog b.text e)
  have hdone : ((b'.commit e').report b.text e').1.HasSync := hnote.commit_report hfits'
  -- what follows from the edit was worked out for the text that the edit gave
  have htext := text_report (b'.commit e') b.text e'
  rcases followUps_report (b'.commit e') b.text e' with hnone | ⟨fix, move, hedits, hfix, hmove⟩
  · rw [hnone]; exact hdone
  · rw [hedits]
    have hfirst := hdone.commitFollowUp (htext.symm ▸ hfix)
    exact hfirst.commitFollowUp (Edit.fits_of_spans_eq_nil hmove _)

theorem InSync.insert (h : b.InSync s) (t : Text) (origin : Origin) :
    (b.insert t origin).1.HasSync := by
  have h1 := h.anchor
  have h2 := h.head
  exact h.dispatch (Edit.fits_single (by omega) (by simp only [selection]; omega)
    (by simp only [selection]; omega) _ _ _ _)

theorem HasSync.type (h : b.HasSync) (t : Text) (origin : Origin) : (b.type t origin).HasSync := by
  rw [Buffer.type]
  induction t generalizing b with
  | nil => exact h
  | cons c t ih =>
    obtain ⟨s, hs⟩ := h
    exact ih (hs.insert [c] origin)

theorem InSync.backspace (h : b.InSync s) : b.backspace.1.HasSync := by
  have h1 := h.anchor
  have h2 := h.head
  have hfits : ∀ start ≤ b.selection.2,
      (Edit.single start b.selection.2 [] .deleteBackward).Fits b.text := fun start hstart =>
    Edit.fits_single (by omega) (by omega) (by simp only [selection]; omega) _ _ _ _
  have hle : b.selection.1 ≤ b.selection.2 := by simp only [selection]; omega
  rw [Buffer.backspace]
  dsimp only
  split_ifs
  · exact ⟨s, h⟩
  · exact h.dispatch (hfits _ (by omega))
  · exact h.dispatch (hfits _ hle)

/-- Undoing is an edit of the whole text. -/
theorem InSync.undo (h : b.InSync s) : b.undo.1.HasSync := by
  rw [Buffer.undo]
  cases hb : b.history with
  | nil => exact ⟨s, h⟩
  | cons last rest =>
    refine inSync_report (s := s) h.session h.outline
      (Edit.fits_single le_rfl (by omega) le_rfl _ _ _ _) ?_ (Text.clamp_le _ _) (Text.clamp_le _ _)
    change last.text = Text.splice b.text 0 b.text.length last.text
    rw [Text.splice_eq (by omega) le_rfl]
    simp

/-! ### Commands -/

theorem text_act (b : Buffer) (a : HostAction) : (b.act a).text = a.onText b.text := by
  cases a <;> rfl

theorem text_foldl_act (actions : List HostAction) (b : Buffer) :
    (actions.foldl act b).text = actions.foldl HostAction.onText b.text :=
  (List.foldl_hom Buffer.text fun b a => (text_act b a).symm).symm

theorem foldl_act (actions : List HostAction) (h1 : b.anchor ≤ b.text.length)
    (h2 : b.head ≤ b.text.length) (hs : b.session = some s)
    (ho : s.outline = .ofText (actions.foldl HostAction.onText b.text)) :
    (actions.foldl act b).InSync s := by
  induction actions generalizing b with
  | nil => exact ⟨hs, ho, h1, h2⟩
  | cons a actions ih =>
    rw [List.foldl_cons] at ho ⊢
    rw [← text_act] at ho
    -- a notice leaves the caret alone, all else puts it into the text
    refine ih ?_ ?_ ?_ ho
    · cases a with
      | notify => exact h1
      | _ => exact Text.clamp_le _ _
    · cases a with
      | notify => exact h2
      | _ => exact Text.clamp_le _ _
    · cases a <;> exact hs

/-- **A command that is in step** keeps the buffer in sync. -/
theorem InSync.command {α : Type} (h : b.InSync s) {run : Session → Response α}
    (hrun : (run s).InStep b.text) : (b.command run).1.HasSync := by
  rw [Buffer.command, h.session]
  exact ⟨(run s).session, foldl_act _ h.anchor h.head rfl hrun⟩

/-- A command that asks for one replacement and a place for the caret. -/
theorem InSync.command_replace {α : Type} (h : b.InSync s) (run : Session → Response α)
    {start stop caret : ℕ} {t : Text}
    (hactions : (run s).actions = [.replace start stop t, .setCaret caret]) :
    let after := Text.spliceRel b.text start stop t
    let done := (b.command run).1
    done.text = after ∧ done.anchor = Text.clamp after caret ∧
      done.head = Text.clamp after caret ∧ done.session = some (run s).session := by
  rw [Buffer.command, h.session]
  dsimp only
  rw [hactions]
  exact ⟨rfl, rfl, rfl, rfl⟩

/-- **Every operation keeps the buffer in sync.** -/
theorem HasSync.perform (h : b.HasSync) {op : Operation} (hop : op.Regular b.text) :
    (b.perform op).1.HasSync := by
  have hfound := h
  obtain ⟨s, hs⟩ := h
  have hview := shows_of_hostView hs
  cases op with
  | type t origin => exact hfound.type t origin
  | insert t origin => exact hs.insert t origin
  | enter => exact hs.insert _ _
  | backspace => exact hs.backspace
  | undo => exact hs.undo
  | select anchor head => exact ⟨s, hs.select anchor head⟩
  | setCaret offset => exact ⟨s, hs.setCaret offset⟩
  | dispatch e => exact hs.dispatch hop
  | replaceRange => exact hop.elim
  | assignText => exact hop.elim
  | activate => exact hop.elim
  | formatArticle asHost =>
    exact hs.command (Session.inStep_formatArticle hs.outline (hview asHost))
  | formatOneLine line asHost =>
    exact hs.command (Session.inStep_formatOneLine hs.outline (hview asHost) line)
  | formatSelection asHost =>
    exact hs.command (Session.inStep_formatSelection hs.outline (hview asHost))
  | insertCodeBlock asHost =>
    exact hs.command (Session.inStep_insertCodeBlock hs.outline (hview asHost))
  | toggleAutoFormat asHost =>
    exact hs.command (Session.inStep_toggleAutoFormat hs.outline asHost)
  | updateSettings settings =>
    exact hs.command hs.outline

/-! ### Runs -/

/-- A buffer with a fresh session is in sync. -/
theorem hasSync_fresh (settings : Settings) (rules : RuleTable) (t : Text) (identity : String) :
    (create t (some { settings, rules }) identity).HasSync := by
  rw [create, Buffer.command]
  refine ⟨_, foldl_act _ le_rfl le_rfl rfl ?_⟩
  simp only [Session.activate, reduceCtorEq, false_and, if_false]
  rw [Session.onText_announce]
  rfl

/-- A buffer that has just been made is in sync. -/
theorem hasSync_create (settings : Value) (rules : RuleTable) (t : Text) (identity : String) :
    (create t (some (.create settings rules)) identity).HasSync :=
  hasSync_fresh (.normalize settings) rules t identity

/-- Every operation of the sequence is regular when it is carried out. -/
def RunsRegularly : Buffer → List Operation → Prop
  | _, [] => True
  | b, op :: ops => op.Regular b.text ∧ RunsRegularly (b.perform op).1 ops

theorem HasSync.run (h : b.HasSync) {ops : List Operation} (hops : b.RunsRegularly ops) (n : ℕ) :
    (b.run (ops.take n)).HasSync := by
  rw [Buffer.run]
  induction ops generalizing b n with
  | nil => rw [List.take_nil]; exact h
  | cons op ops ih =>
    cases n with
    | zero => exact h
    | succ n => exact ih (h.perform hops.1) hops.2 n

/-- **The outline never drifts.**  After every operation of a run the session holds the outline of
the text, as if all of it had been classified anew: its content is the text, and the kind of every
line and the block that it leaves open are those of the text. -/
theorem outline_run (settings : Value) (rules : RuleTable) (t : Text) (identity : String)
    {ops : List Operation}
    (hops : (create t (some (.create settings rules)) identity).RunsRegularly ops) (n : ℕ) :
    ∃ s, ((create t (some (.create settings rules)) identity).run (ops.take n)).session = some s ∧
      s.outline =
        .ofText ((create t (some (.create settings rules)) identity).run (ops.take n)).text := by
  obtain ⟨s, hs⟩ := (hasSync_create settings rules t identity).run hops n
  exact ⟨s, hs.session, hs.outline⟩

/-- An edit of two lines turns a formula back into prose, a fence is put around the caret and
undone, and at last the article is formatted. -/
theorem outline_run_two_spans :
    let before : Text := ['$', '$', '\n', 'x']
    let e : Edit := { spans := [⟨4, 4, ['b']⟩, ⟨1, 1, ['a']⟩], origin := .typed }
    let b := create before (some (.create .null .default)) "note.md"
    let ops : List Operation := [.dispatch e, .insertCodeBlock true, .undo, .formatArticle true]
    b.RunsRegularly ops ∧
      ∃ s, (b.run (ops.take 4)).session = some s ∧
        s.outline = .ofText (b.run (ops.take 4)).text := by
  intro before e b ops
  have hfits : e.Fits before := ⟨by decide, by decide⟩
  have hops : b.RunsRegularly ops := ⟨hfits, trivial, trivial, trivial, trivial⟩
  exact ⟨hops, outline_run .null .default before "note.md" hops 4⟩

end Buffer

end TypingAid
