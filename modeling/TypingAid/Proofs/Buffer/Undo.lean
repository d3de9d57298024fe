import TypingAid.Proofs.Buffer.Sync
import TypingAid.Proofs.Rule.Substantial

/-!
# Undoing an operation

Every change of the text is one step of the history, and a step holds the text and the selection
from before it.  So undoing as often as an operation has added steps goes back to where the
operation made its first change (`Buffer.undo_perform`).

* `Buffer.Records` : one buffer comes from another by steps that have been noted in the history, the
  first of which shows where they started.
* `Buffer.HasSync.undo_all` : undoing takes one step after the other back, and the session follows.

Most operations make their first change where they start.  Only typing may go on for a while before
that: a closing symbol that stands for the empty pair, or a pair of two empty texts around a
selection, moves the caret and is no step of the history (`Buffer.idle`).  No table does so whose
pairs hold something (`RuleTable.Substantial`).
-/

namespace TypingAid

/-- The selection lies in the text. -/
structure Snapshot.Inside (p : Snapshot) : Prop where
  anchor : p.anchor ≤ p.text.length
  head : p.head ≤ p.text.length

namespace Buffer

variable {b b' b'' : Buffer} {s : Session} {pushed pushed' rest : List Snapshot}

/-- The text and the selection, as undoing goes back to them. -/
def snapshot (b : Buffer) : Snapshot := ⟨b.text, b.anchor, b.head⟩

theorem InSync.inside (h : b.InSync s) : b.snapshot.Inside := ⟨h.anchor, h.head⟩

/-! ### Steps back -/

theorem select_of_inside (h : b.snapshot.Inside) : b.select b.anchor b.head = b := by
  have hanchor : Text.clamp b.text b.anchor = b.anchor := Text.clamp_natCast h.anchor
  have hhead : Text.clamp b.text b.head = b.head := Text.clamp_natCast h.head
  rw [select, hanchor, hhead]

theorem snapshot_report (b : Buffer) (before : Text) (e : Edit) :
    (b.report before e).1.snapshot = b.snapshot := by
  rw [report]
  cases b.session <;> rfl

theorem history_report (b : Buffer) (before : Text) (e : Edit) :
    (b.report before e).1.history = b.history := by
  rw [report]
  cases b.session <;> rfl

/-- One step back. -/
theorem undo_cons {p : Snapshot} (hhistory : b.history = p :: rest) (hp : p.Inside) :
    b.undo.2 = true ∧ b.undo.1.snapshot = p ∧ b.undo.1.history = rest := by
  have hback := select_of_inside (b := { b with
    text := p.text, anchor := p.anchor, head := p.head, history := rest }) hp
  rw [undo, hhistory]
  refine ⟨rfl, ?_, ?_⟩
  · rw [snapshot_report]
    exact congrArg snapshot hback
  · rw [history_report]
    exact congrArg Buffer.history hback

theorem length_history_undo (b : Buffer) : b.undo.1.history.length ≤ b.history.length := by
  rw [undo]
  cases hb : b.history with
  | nil => simp [hb]
  | cons last rest =>
    dsimp only
    rw [history_report]
    exact Nat.le_succ _

/-- **Undoing takes one step after the other back**, and the session follows. -/
theorem HasSync.undo_all (h : b.HasSync) (hhistory : b.history = pushed ++ rest)
    (hinside : ∀ p ∈ pushed, p.Inside) :
    (∀ i < pushed.length, (b.run (List.replicate i .undo)).undo.2 = true) ∧
      (b.run (List.replicate pushed.length .undo)).HasSync ∧
      (b.run (List.replicate pushed.length .undo)).history = rest ∧
      ∀ p ∈ pushed.getLast?, (b.run (List.replicate pushed.length .undo)).snapshot = p := by
  induction pushed generalizing b with
  | nil => exact ⟨fun i hi => absurd hi (by simp), h, hhistory, by simp⟩
  | cons p pushed ih =>
    obtain ⟨hdone, hsnapshot, hrest⟩ := undo_cons hhistory (hinside p List.mem_cons_self)
    have hsync : b.undo.1.HasSync := let ⟨_, hs⟩ := h; hs.undo
    obtain ⟨h1, h2, h3, h4⟩ := ih hsync hrest fun q hq => hinside q (List.mem_cons_of_mem _ hq)
    -- the first step back, and then as many as there are further ones
    have hrun : ∀ i, b.run (List.replicate (i + 1) .undo) =
        b.undo.1.run (List.replicate i .undo) := fun i => rfl
    refine ⟨fun i hi => ?_, by rw [List.length_cons, hrun]; exact h2,
      by rw [List.length_cons, hrun]; exact h3, fun q hq => ?_⟩
    · cases i with
      | zero => exact hdone
      | succ i => rw [hrun]; exact h1 i (by simpa using hi)
    · rw [List.length_cons, hrun]
      cases pushed with
      | nil =>
        obtain rfl : p = q := by simpa using hq
        exact hsnapshot
      | cons r pushed => exact h4 q (by simpa [List.getLast?_cons_cons] using hq)

/-! ### Steps that are noted -/

/-- From `b` to `b'` the history has grown by `pushed`.  The selections lie in their texts, and the
first step shows the text and the selection of `b`.  Without a step the text is the same. -/
structure Records (b b' : Buffer) (pushed : List Snapshot) : Prop where
  history : b'.history = pushed ++ b.history
  inside : ∀ p ∈ pushed, p.Inside
  first : ∀ p ∈ pushed.getLast?, p = b.snapshot
  text : pushed = [] → b'.text = b.text

theorem Records.none (hhistory : b'.history = b.history) (htext : b'.text = b.text) :
    Records b b' [] :=
  ⟨hhistory, by simp, by simp, fun _ => htext⟩

theorem Records.one (hhistory : b'.history = b.snapshot :: b.history) (h : b.snapshot.Inside) :
    Records b b' [b.snapshot] :=
  ⟨hhistory, by simpa using h, by simp, by simp⟩

/-- Once a step has been noted, any others may follow. -/
theorem Records.append (h : Records b b' pushed) (hne : pushed ≠ [])
    (hhistory : b''.history = pushed' ++ b'.history) (hinside : ∀ p ∈ pushed', p.Inside) :
    Records b b'' (pushed' ++ pushed) := by
  refine ⟨by rw [hhistory, h.history, List.append_assoc], fun p hp => ?_, fun p hp => ?_, ?_⟩
  · exact (List.mem_append.1 hp).elim (hinside p) (h.inside p)
  · rw [List.getLast?_append_of_ne_nil _ hne] at hp
    exact h.first p hp
  · exact fun he => absurd (List.append_eq_nil_iff.1 he).2 hne

/-! ### Edits -/

theorem history_commit (b : Buffer) (e : Edit) :
    (b.commit e).history = if e.isChange then b.snapshot :: b.history else b.history := by
  rw [commit]
  cases e.targetCaret with
  | none => split_ifs <;> rfl
  | some caret => split_ifs <;> rfl

theorem records_commit (h : b.snapshot.Inside) (e : Edit) :
    Records b (b.commit e) (if e.isChange then [b.snapshot] else []) := by
  have hhistory := history_commit b e
  cases hc : e.isChange with
  | true =>
    rw [if_pos hc] at hhistory
    exact .one hhistory h
  | false =>
    rw [if_neg (by simp [hc])] at hhistory
    exact .none hhistory (by rw [text_commit, Edit.apply_of_not_isChange hc])

theorem inside_commit (h : b.snapshot.Inside) (e : Edit) : (b.commit e).snapshot.Inside :=
  have := selection_commit h.anchor h.head e
  ⟨this.1, this.2⟩

/-- Edits that follow from another one only add steps. -/
theorem exists_followUps (es : List Edit) (h : b.snapshot.Inside) :
    ∃ pushed, (es.foldl commitFollowUp b).history = pushed ++ b.history ∧
      ∀ p ∈ pushed, p.Inside := by
  induction es generalizing b with
  | nil => exact ⟨[], rfl, by simp⟩
  | cons e es ih =>
    have hinside : (b.commitFollowUp e).snapshot.Inside := by
      rw [commitFollowUp, snapshot_report]
      exact inside_commit h e
    obtain ⟨pushed, hhistory, hall⟩ := ih hinside
    have hone := records_commit h e
    have hstep : (b.commitFollowUp e).history =
        (if e.isChange then [b.snapshot] else []) ++ b.history := by
      rw [commitFollowUp, history_report]
      exact hone.history
    refine ⟨_, by rw [List.foldl_cons, hhistory, hstep, ← List.append_assoc], fun p hp => ?_⟩
    exact (List.mem_append.1 hp).elim (hall p) (hone.inside p)

/-- Nothing follows from an edit that changes nothing. -/
theorem followUps_of_not_isChange {e : Edit} (h : e.isChange = false) (b : Buffer) (before : Text) :
    (b.report before e).2 = [] := by
  rw [report]
  cases b.session with
  | none => rfl
  | some s => exact Session.followUps_of_not_isChange h _ _

/-- **An edit is noted where it starts**, or what takes its place changes nothing. -/
theorem InSync.records_dispatch (h : b.InSync s) (e : Edit) :
    ∃ pushed, Records b (b.dispatch e).1 pushed ∧
      (pushed = [] → (s.filter b.text e).isChange = false) := by
  rw [Buffer.dispatch, h.session]
  dsimp only
  set e' := s.filter b.text e
  set b' := b.note (s.filterLog b.text e)
  have hinside : b'.snapshot.Inside := h.inside
  -- an entry of the log shows neither in the text nor in the history
  have hcommit : Records b (b'.commit e') (if e'.isChange then [b.snapshot] else []) :=
    have hnote := records_commit hinside e'
    ⟨hnote.history, hnote.inside, hnote.first, hnote.text⟩
  have hreport : Records b ((b'.commit e').report b.text e').1
      (if e'.isChange then [b.snapshot] else []) :=
    ⟨by rw [history_report]; exact hcommit.history, hcommit.inside, hcommit.first,
      fun hnil => by rw [text_report]; exact hcommit.text hnil⟩
  cases hc : e'.isChange with
  | false =>
    rw [followUps_of_not_isChange hc]
    exact ⟨_, hreport, fun _ => rfl⟩
  | true =>
    have hdone : ((b'.commit e').report b.text e').1.snapshot.Inside := by
      rw [snapshot_report]
      exact inside_commit hinside e'
    obtain ⟨pushed, hhistory, hall⟩ :=
      exists_followUps ((b'.commit e').report b.text e').2 hdone
    exact ⟨_, hreport.append (by simp [hc]) hhistory hall, fun hnil => by simp [hc] at hnil⟩

/-! ### Typing -/

/-- The buffer after the first characters of a text, as long as they make no step. -/
def idle (b : Buffer) (origin : Origin) : Text → Buffer
  | [] => b
  | c :: t =>
    let b' := (b.insert [c] origin).1
    if b'.history.length = b.history.length then b'.idle origin t else b

/-- **Typing is noted where it makes its first change.**  The characters before that leave the text
and the history as they are. -/
theorem HasSync.records_type (h : b.HasSync) (t : Text) (origin : Origin) :
    (∃ pushed, Records (b.idle origin t) (b.type t origin) pushed) ∧
      (b.idle origin t).text = b.text ∧ (b.idle origin t).history = b.history := by
  induction t generalizing b with
  | nil => exact ⟨⟨[], .none rfl rfl⟩, rfl, rfl⟩
  | cons c t ih =>
    obtain ⟨s, hs⟩ := h
    obtain ⟨pushed, hone, -⟩ := hs.records_dispatch (.single b.selection.1 b.selection.2 [c] origin)
    obtain ⟨⟨pushed', hrest⟩, htext, hhistory⟩ := ih (hs.insert [c] origin)
    have hlength := congrArg List.length hone.history
    rw [List.length_append] at hlength
    rw [idle]
    change ((b.insert [c] origin).1.history.length = _) at hlength
    split_ifs with hsame
    · have hnil : pushed = [] := List.length_eq_zero_iff.1 (by omega)
      subst hnil
      exact ⟨⟨pushed', hrest⟩, htext.trans (hone.text rfl), hhistory.trans hone.history⟩
    · refine ⟨⟨pushed' ++ pushed, hone.append ?_ ?_ hrest.inside⟩, rfl, rfl⟩
      · rintro rfl
        exact hsame (by simpa using hlength)
      · change ((b.insert [c] origin).1.type t origin).history =
          pushed' ++ (b.insert [c] origin).1.history
        rw [hrest.history, hhistory]

theorem dispatch_of_not_isChange (hs : b.session = some s) {e : Edit}
    (hsame : (s.filter b.text e).isChange = false) :
    (b.dispatch e).1 = (((b.note (s.filterLog b.text e)).commit (s.filter b.text e)).report b.text
      (s.filter b.text e)).1 := by
  rw [dispatch, hs]
  dsimp only
  rw [followUps_of_not_isChange hsame, List.foldl_nil]

/-- **A character that is no step leaves the selection**, if every pair of the table holds
something. -/
theorem InSync.idle_insert (h : b.InSync s) (hrules : s.rules.Substantial) {c : Char}
    {origin : Origin} (hlength : (b.insert [c] origin).1.history.length = b.history.length) :
    (b.insert [c] origin).1.anchor = b.anchor ∧ (b.insert [c] origin).1.head = b.head ∧
      ∃ s', (b.insert [c] origin).1.session = some s' ∧ s'.rules = s.rules := by
  set e : Edit := .single b.selection.1 b.selection.2 [c] origin with he
  have hsame : (s.filter b.text e).isChange = false := by
    obtain ⟨pushed, hone, hnil⟩ := h.records_dispatch e
    have hpushed := congrArg List.length hone.history
    rw [List.length_append] at hpushed
    have hdispatch : (b.dispatch e).1.history.length = b.history.length := hlength
    exact hnil (List.length_eq_zero_iff.1 (by omega))
  obtain ⟨hplace, hcaret⟩ := caret_filter_typed hrules (Int.natCast_nonneg _) hsame
  rw [Buffer.insert, ← he, dispatch_of_not_isChange h.session hsame]
  have hsession : ((b.note (s.filterLog b.text e)).commit (s.filter b.text e)).session = some s :=
    (session_commit _ _).trans h.session
  have hsnapshot : ((b.note (s.filterLog b.text e)).commit (s.filter b.text e)).snapshot =
      b.snapshot := by
    -- nothing is selected, and the caret is put where it is
    have h1 := h.anchor
    have hcaret' : Text.clamp b.text (b.selection.1 : Int) = b.anchor := by
      simp only [selection] at hplace ⊢
      rw [Text.clamp]
      omega
    have hhead : b.anchor = b.head := by simp only [selection] at hplace; omega
    rw [commit, if_neg (by simp [hsame]), hcaret]
    change Snapshot.mk b.text (Text.clamp b.text _) (Text.clamp b.text _) = ⟨b.text, _, _⟩
    rw [hcaret', hhead]
  have hreport := (snapshot_report _ b.text (s.filter b.text e)).trans hsnapshot
  refine ⟨congrArg Snapshot.anchor hreport, congrArg Snapshot.head hreport, ?_⟩
  rw [report, hsession]
  exact ⟨_, rfl, rfl⟩

theorem HasSync.selection_idle (h : b.HasSync)
    (hrules : ∀ s, b.session = some s → s.rules.Substantial) (t : Text) (origin : Origin) :
    (b.idle origin t).anchor = b.anchor ∧ (b.idle origin t).head = b.head := by
  induction t generalizing b with
  | nil => exact ⟨rfl, rfl⟩
  | cons c t ih =>
    obtain ⟨s, hs⟩ := h
    rw [idle]
    split_ifs with hlength
    · obtain ⟨hanchor, hhead, s', hs', hsame⟩ := hs.idle_insert (hrules s hs.session) hlength
      obtain ⟨h1, h2⟩ := ih (hs.insert [c] origin) fun s'' hs'' => by
        rw [hs'] at hs''
        rw [← Option.some.inj hs'', hsame]
        exact hrules s hs.session
      exact ⟨h1.trans hanchor, h2.trans hhead⟩
    · exact ⟨rfl, rfl⟩

/-! ### Commands -/

theorem exists_acts (actions : List HostAction) (h : b.snapshot.Inside) :
    ∃ pushed, (actions.foldl act b).history = pushed ++ b.history ∧ ∀ p ∈ pushed, p.Inside := by
  induction actions generalizing b with
  | nil => exact ⟨[], rfl, by simp⟩
  | cons a actions ih =>
    rw [List.foldl_cons]
    cases a with
    | replace start stop t =>
      obtain ⟨pushed, hhistory, hall⟩ :=
        ih (b := b.replaceRange start stop t) ⟨Text.clamp_le _ _, Text.clamp_le _ _⟩
      refine ⟨pushed ++ [b.snapshot], ?_, fun p hp => ?_⟩
      · rw [List.append_assoc]
        exact hhistory
      rcases List.mem_append.1 hp with hp | hp
      · exact hall p hp
      · rwa [List.mem_singleton.1 hp]
    | setCaret offset => exact ih (b := b.setCaret offset) ⟨Text.clamp_le _ _, Text.clamp_le _ _⟩
    | notify message => exact ih (b := { b with notices := b.notices ++ [message] }) h

theorem history_notices {actions : List HostAction}
    (h : ∀ a ∈ actions, ∃ message, a = .notify message) :
    (actions.foldl act b).history = b.history ∧ (actions.foldl act b).text = b.text := by
  induction actions generalizing b with
  | nil => exact ⟨rfl, rfl⟩
  | cons a actions ih =>
    obtain ⟨message, rfl⟩ := h a List.mem_cons_self
    exact ih (b := b.act (.notify message)) fun a ha => h a (List.mem_cons_of_mem _ ha)

/-- **A command is noted where it starts**, or the text and the history stay. -/
theorem InSync.records_command {α : Type} (h : b.InSync s) {run : Session → Response α}
    (hrun : (run s).Orderly) : ∃ pushed, Records b (b.command run).1 pushed := by
  rw [Buffer.command, h.session]
  dsimp only
  rcases hrun with hnotices | ⟨start, stop, new, rest, -, hactions, -⟩
  · obtain ⟨hhistory, htext⟩ :=
      history_notices (b := { b with session := some (run s).session }.note (run s).log) hnotices
    exact ⟨[], .none hhistory htext⟩
  · rw [hactions, List.foldl_cons]
    set b' := { b with session := some (run s).session }.note (run s).log
    have hone : Records b (b'.act (.replace start stop new)) [b.snapshot] := .one rfl h.inside
    obtain ⟨pushed, hhistory, hall⟩ := exists_acts rest
      (b := b'.act (.replace start stop new)) ⟨Text.clamp_le _ _, Text.clamp_le _ _⟩
    exact ⟨_, hone.append (List.cons_ne_nil _ _) hhistory hall⟩

/-! ### Operations -/

/-- The buffer where an operation starts to change the text. -/
def beforeChange (b : Buffer) : Operation → Buffer
  | .type t origin => b.idle origin t
  | _ => b

/-- **An operation that adds steps is noted where it starts to change the text.** -/
theorem HasSync.records_perform (h : b.HasSync) {op : Operation} (hop : op.Regular b.text)
    (hgrows : b.history.length < (b.perform op).1.history.length) :
    (∃ pushed, Records (b.beforeChange op) (b.perform op).1 pushed) ∧
      (b.beforeChange op).text = b.text ∧ (b.beforeChange op).history = b.history := by
  have hfound := h
  obtain ⟨s, hs⟩ := h
  have hdispatch : ∀ e, ∃ pushed, Records b (b.dispatch e).1 pushed := fun e =>
    let ⟨pushed, hone, _⟩ := hs.records_dispatch e; ⟨pushed, hone⟩
  cases op with
  | type t origin => exact hfound.records_type t origin
  | insert t origin => exact ⟨hdispatch _, rfl, rfl⟩
  | enter => exact ⟨hdispatch _, rfl, rfl⟩
  | backspace =>
    refine ⟨?_, rfl, rfl⟩
    change ∃ pushed, Records b b.backspace.1 pushed
    rw [Buffer.backspace]
    dsimp only
    split_ifs
    · exact ⟨[], .none rfl rfl⟩
    · exact hdispatch _
    · exact hdispatch _
  | undo => exact absurd hgrows (length_history_undo b).not_gt
  | select anchor head => exact absurd hgrows (lt_irrefl _)
  | setCaret offset => exact absurd hgrows (lt_irrefl _)
  | dispatch e => exact ⟨hdispatch _, rfl, rfl⟩
  | replaceRange => exact hop.elim
  | assignText => exact hop.elim
  | activate => exact hop.elim
  | formatArticle asHost =>
    exact ⟨hs.records_command (Session.orderly_formatArticle _ _), rfl, rfl⟩
  | formatOneLine line asHost =>
    exact ⟨hs.records_command (Session.orderly_formatOneLine _ _ _), rfl, rfl⟩
  | formatSelection asHost =>
    exact ⟨hs.records_command (Session.orderly_formatSelection _ _), rfl, rfl⟩
  | insertCodeBlock asHost =>
    exact ⟨hs.records_command (Session.orderly_insertCodeBlock _ _), rfl, rfl⟩
  | toggleAutoFormat asHost =>
    exact ⟨hs.records_command (Session.orderly_toggleAutoFormat _ _), rfl, rfl⟩
  | updateSettings settings =>
    exact ⟨hs.records_command (.inl fun _ h => absurd h List.not_mem_nil), rfl, rfl⟩

/-- **Undoing takes an operation back.**  If an operation of a run has added `k` steps to the
history, then undoing `k` times succeeds each time and gives the text and the history from before
the operation, and the outline is that of the text.  The selection is that from where the operation
started to change the text, and if every pair of the table holds something, the one from before the
operation. -/
theorem undo_perform (settings : Value) (rules : RuleTable) (t : Text) (identity : String)
    {ops : List Operation}
    (hops : (create t (some (.create settings rules)) identity).RunsRegularly ops)
    (op : Operation) (k : ℕ) :
    let b := (create t (some (.create settings rules)) identity).run ops
    let done := (b.perform op).1
    let back := done.run (List.replicate k .undo)
    op.Regular b.text → done.history.length = b.history.length + k → 0 < k →
      (∀ i < k, (done.run (List.replicate i .undo)).undo.2 = true) ∧
        back.text = b.text ∧ back.history = b.history ∧
        (∃ s, back.session = some s ∧ s.outline = .ofText b.text) ∧
        back.anchor = (b.beforeChange op).anchor ∧ back.head = (b.beforeChange op).head ∧
        ((∀ s, b.session = some s → s.rules.Substantial) →
          back.anchor = b.anchor ∧ back.head = b.head) := by
  intro b done back hop hk hpos
  have hsync : b.HasSync := by
    have := (hasSync_create settings rules t identity).run hops ops.length
    rwa [List.take_length] at this
  obtain ⟨⟨pushed, hrecords⟩, htext, hhistory⟩ := hsync.records_perform hop
    (hk.symm ▸ Nat.lt_add_of_pos_right hpos)
  have hadded : done.history = pushed ++ b.history := by rw [hrecords.history, hhistory]
  obtain rfl : pushed.length = k := by
    have := congrArg List.length hadded
    rw [List.length_append] at this
    omega
  obtain ⟨hsteps, ⟨s, hs⟩, hrest, hlast⟩ := (hsync.perform hop).undo_all hadded hrecords.inside
  obtain ⟨first, hfirst⟩ : ∃ first, pushed.getLast? = some first :=
    ⟨_, List.getLast?_eq_some_getLast (List.ne_nil_of_length_pos hpos)⟩
  have hback : back.snapshot = (b.beforeChange op).snapshot :=
    (hlast first hfirst).trans (hrecords.first first hfirst)
  have hanchor : back.anchor = (b.beforeChange op).anchor := congrArg Snapshot.anchor hback
  have hhead : back.head = (b.beforeChange op).head := congrArg Snapshot.head hback
  have hsame : back.text = b.text := (congrArg Snapshot.text hback).trans htext
  have houtline : s.outline = .ofText b.text := hsame ▸ hs.outline
  refine ⟨hsteps, hsame, hrest, ⟨s, hs.session, houtline⟩, hanchor, hhead, fun hrules => ?_⟩
  rw [hanchor, hhead]
  cases op with
  | type t origin => exact hsync.selection_idle hrules t origin
  | _ => exact ⟨rfl, rfl⟩

/-- Two characters are typed over a selection and a blank is put between the lines of script, which
makes three steps. -/
theorem undo_perform_spaced :
    let b := (create ['字', 'a'] (some (.create .null .default)) "note.md").run [.select 1 2]
    let done := (b.perform (.type ['o', 'k'] .typed)).1
    let back := done.run (List.replicate 3 .undo)
    done.text = ['字', ' ', 'o', 'k'] ∧ done.history.length = b.history.length + 3 ∧
      back.text = b.text ∧ back.history = b.history ∧ back.anchor = b.anchor ∧
      back.head = b.head := by
  intro b done back
  have hlength : done.history.length = b.history.length + 3 := by decide +kernel
  have hops : (create ['字', 'a'] (some (.create .null .default)) "note.md").RunsRegularly
      [.select 1 2] := ⟨trivial, trivial⟩
  have hrules : ∀ s, b.session = some s → s.rules.Substantial := fun s hs => by
    rw [← Option.some.inj hs]
    exact RuleTable.substantial_default
  obtain ⟨-, htext, hhistory, -, -, -, hselection⟩ := undo_perform .null .default ['字', 'a']
    "note.md" hops (.type ['o', 'k'] .typed) 3 trivial hlength (by decide)
  exact ⟨by decide +kernel, hlength, htext, hhistory, hselection hrules⟩

/-- A closing symbol that stands for the empty pair moves the caret and is no step, so that undoing
goes back to the caret behind it. -/
theorem undo_emptyPair :
    let rules : RuleTable := { RuleTable.default with ambiguous := [(['”'], [])] }
    let b := (create ['a', 'b'] (some (.create .null rules)) "untitled.md").run [.setCaret 0]
    let done := (b.perform (.type ['”', 'x'] .typed)).1
    done.history.length = b.history.length + 2 ∧
      ¬((done.run [.undo, .undo]).anchor = b.anchor ∧ (done.run [.undo, .undo]).head = b.head) := by
  decide +kernel

end Buffer

end TypingAid
