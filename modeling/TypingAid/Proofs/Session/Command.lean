import TypingAid.Proofs.Block.Picked
import TypingAid.Proofs.Text.Place
import TypingAid.Session.Command

/-!
# Commands and the outline

A command changes the outline of its session, and it asks the editor for changes of the text.  The
two fit together (`Response.InStep`): if the outline was that of the text in the editor, then it is
that of the text after everything has been done that the command asks for.

* Setting lines keeps the number of lines, and every line what it is, so that the outline only needs
  the new text.  The commands that set lines do just that, to the lines that each is for
  (`Session.SetsLines`): all of them, one, or those that the selection touches.
* A code block leaves the lines above it alone, and everything from its own line on is classified
  anew (`Session.inStep_insertCodeBlock_iff`).
-/

namespace TypingAid

open Text

/-! ### What a command asks for -/

/-- The text after an action. -/
def HostAction.onText (t : Text) : HostAction → Text
  | .replace start stop new => spliceRel t start stop new
  | _ => t

/-- The outline of the session is that of the text `t` after the actions of the response. -/
def Response.InStep {α : Type} (r : Response α) (t : Text) : Prop :=
  r.session.outline = .ofText (r.actions.foldl HostAction.onText t)

/-- The action leaves the text alone. -/
def HostAction.isQuiet : HostAction → Bool
  | .replace .. => false
  | _ => true

/-- A part to be replaced does not stop before it starts. -/
def HostAction.InOrder : HostAction → Prop
  | .replace start stop _ => start ≤ stop
  | _ => True

/-- Nothing is asked for but notices; or first a part of the text is to be replaced, and after that
the text stays. -/
def Response.Orderly {α : Type} (r : Response α) : Prop :=
  (∀ a ∈ r.actions, ∃ message, a = .notify message) ∨
    ∃ (start stop : ℕ) (new : Text) (rest : List HostAction), start ≤ stop ∧
      r.actions = .replace start stop new :: rest ∧ ∀ a ∈ rest, a.isQuiet

theorem Response.Orderly.inOrder {α : Type} {r : Response α} (h : r.Orderly) :
    ∀ a ∈ r.actions, a.InOrder := by
  intro a ha
  rcases h with hnotices | ⟨start, stop, new, rest, hle, hactions, hquiet⟩
  · obtain ⟨message, rfl⟩ := hnotices a ha
    trivial
  · rw [hactions] at ha
    rcases List.mem_cons.1 ha with rfl | hrest
    · exact hle
    · have hq := hquiet a hrest
      cases a with
      | replace => cases hq
      | _ => trivial

/-- The view shows the text `t`, with a selection that lies in it. -/
structure HostView.Shows (view : HostView) (t : Text) : Prop where
  text : view.text = t
  anchor : view.anchor ≤ t.length
  head : view.head ≤ t.length

namespace Outline

/-- Lines above a change of the text are what they were. -/
theorem take_ofText_append (x y y' : Text) :
    (ofText (x ++ y)).lines.take (x.count '\n') = (ofText (x ++ y')).lines.take (x.count '\n') := by
  refine take_eq_ofText fun i hi => isStale_ofText_of_eq ?_ ?_
  · rw [length_lines, List.count_append]; omega
  · rw [getElem?_lines_append, getElem?_lines_append, if_pos hi, if_pos hi]

end Outline

namespace Session

variable {s : Session} {t : Text} {host : Option HostView}

/-! ### Setting lines -/

theorem sync_of_outline (h : s.outline = .ofText t) : s.sync t = s := by
  have hne := Outline.isEmpty_ofText t
  rw [sync, if_neg]
  rw [h, hne]
  rintro (h | h)
  · cases h
  · exact h rfl

/-- A session that knows its own text, or none yet, comes to know the one in the editor. -/
theorem outline_sync (h : s.outline.isEmpty = true ∨ s.outline = .ofText s.outline.content)
    (t : Text) : (s.sync t).outline = .ofText t := by
  rw [sync]
  split_ifs with hc
  · rfl
  · rw [not_or, not_not] at hc
    rw [h.resolve_left hc.1, ← hc.2]

theorem length_formatLines (first : ℕ) (ls : List Text) :
    (s.formatLines first ls).length = ls.length := by simp [formatLines]

/-- A line of a block is set if it is prose, and left alone otherwise. -/
theorem getElem?_formatLines (first i : ℕ) (ls : List Text) :
    (s.formatLines first ls)[i]? = ls[i]?.map fun line =>
      if s.outline.isProse (first + i : ℕ) then (formatLine s.settings.style line).1 else line := by
  rw [formatLines, List.getElem?_mapIdx]
  rfl

theorem newline_not_mem_formatLines {first : ℕ} {ls : List Text} (h : ∀ l ∈ ls, '\n' ∉ l) :
    ∀ l ∈ s.formatLines first ls, '\n' ∉ l := by
  intro l hl
  rw [formatLines, List.mem_mapIdx] at hl
  obtain ⟨i, hi, rfl⟩ := hl
  have hline := h _ (List.getElem_mem hi)
  split_ifs
  · exact newline_not_mem_formatLine _ hline _ _
  · exact hline

theorem lines_ofLines_formatLines (first : ℕ) (t : Text) :
    lines (ofLines (s.formatLines first (lines t))) = s.formatLines first (lines t) := by
  refine lines_ofLines ?_ (newline_not_mem_formatLines fun _ => newline_not_mem_of_mem_lines)
  intro h
  have := length_formatLines (s := s) first (lines t)
  rw [h, length_lines] at this; cases this

/-- **Setting a block of lines** sets the prose on its lines and leaves all else alone. -/
theorem setsWhere_setBlock {x m y : Text} (hs : s.outline = .ofText (x ++ (m ++ y)))
    (hx : lastLine x = []) (hy : firstLine y = []) :
    s.settings.style.SetsWhere (fun i => x.count '\n' ≤ i ∧ i ≤ (x ++ m).count '\n')
      (x ++ (m ++ y)) (x ++ (ofLines (s.formatLines (x.count '\n') (lines m)) ++ y)) := by
  intro i
  have hlen := length_formatLines (s := s) (x.count '\n') (lines m)
  have hcount := length_dropLast_lines x
  have hmid := length_lines m
  have hsum : (x ++ m).count '\n' = x.count '\n' + m.count '\n' := List.count_append
  rw [lines_between hx hy, lines_between hx hy, lines_ofLines_formatLines]
  simp only [List.getElem?_append, hcount, hlen]
  -- above the block, in it, or below it
  by_cases h1 : i < x.count '\n'
  · rw [if_pos h1, if_pos h1, s.settings.style.setPicked_of_not (fun hp => by omega),
      Option.map_id_apply]
  · rw [if_neg h1, if_neg h1]
    by_cases h2 : i - x.count '\n' < (lines m).length
    · have hin : x.count '\n' ≤ i ∧ i ≤ (x ++ m).count '\n' := by omega
      have hpicked : s.settings.style.setPicked (.ofText (x ++ (m ++ y)))
          (fun i => x.count '\n' ≤ i ∧ i ≤ (x ++ m).count '\n') i = fun line =>
          if s.outline.isProse i then (formatLine s.settings.style line).1 else line := by
        funext line
        rw [Style.setPicked, hs]
        simp only [hin, and_self, true_and]
      rw [if_pos h2, if_pos h2, getElem?_formatLines, Nat.add_sub_cancel' (by omega), hpicked]
    · rw [if_neg h2, if_neg h2, s.settings.style.setPicked_of_not (fun hp => by omega),
        Option.map_id_apply]

/-- A command has set the prose on the lines of the text `t` that `p` picks, and of the session it
has replaced the text of the outline and nothing else. -/
structure SetsLines {α : Type} (s : Session) (r : Response α) (p : ℕ → Prop) [DecidablePred p]
    (t : Text) : Prop where
  text : s.settings.style.SetsWhere p t (r.actions.foldl HostAction.onText t)
  session : r.session =
    { s with outline := s.outline.setContent (r.actions.foldl HostAction.onText t) }

/-- Where lines are set, nothing has to be classified anew. -/
theorem SetsLines.inStep {α : Type} {r : Response α} {p : ℕ → Prop} [DecidablePred p]
    (h : s.SetsLines r p t) (hs : s.outline = .ofText t) : r.InStep t := by
  rw [Response.InStep, h.session, hs]
  exact h.text.setContent_eq

/-! ### The commands -/

theorem inStep_withoutHost {α : Type} (hs : s.outline = .ofText t) (command : String) (result : α) :
    (s.withoutHost command result).InStep t := hs

/-- A block of a text is replaced. -/
theorem onText_replace_between (x mid y new : Text) :
    HostAction.onText (x ++ (mid ++ y)) (.replace x.length (x ++ mid).length new) =
      x ++ (new ++ y) := by
  rw [HostAction.onText, spliceRel_eq_splice (by omega) (by rw [List.length_append]; omega),
    splice_between]

theorem setsLines_of_eq {α : Type} {r : Response α} {p : ℕ → Prop} [DecidablePred p] {t' : Text}
    (hset : s.settings.style.SetsWhere p t t') (htext : r.actions.foldl HostAction.onText t = t')
    (hr : r.session = { s with outline := s.outline.setContent t' }) : s.SetsLines r p t :=
  ⟨htext ▸ hset, htext ▸ hr⟩

/-- A command that finds all as it is to be leaves it so. -/
theorem setsLines_of_unchanged {α : Type} {r : Response α} {p : ℕ → Prop} [DecidablePred p]
    (hs : s.outline = .ofText t) (hset : s.settings.style.SetsWhere p t t)
    (htext : r.actions.foldl HostAction.onText t = t) (hr : r.session = s) : s.SetsLines r p t := by
  have hsame : s.outline.setContent t = s.outline := by rw [hs]; rfl
  exact setsLines_of_eq hset htext (by rw [hr, hsame])

/-- The command for the whole document sets all of its prose. -/
theorem setsLines_formatArticle {view : HostView} (hs : s.outline = .ofText view.text) :
    s.SetsLines (s.formatArticle (some view)) (fun _ => True) view.text := by
  have hne : s.outline.isEmpty = false := by rw [hs, Outline.isEmpty_ofText]
  have hblock := setsWhere_setBlock (s := s) (x := []) (m := view.text) (y := [])
    (by rw [hs, List.nil_append, List.append_nil]) rfl rfl
  simp only [List.nil_append, List.append_nil, List.count_nil] at hblock
  have hset : s.settings.style.SetsWhere (fun _ => True) view.text
      (ofLines (s.formatLines 0 (lines view.text))) :=
    hblock.congr fun i hi => by rw [length_lines] at hi; simp only [iff_true]; omega
  rw [formatArticle]
  simp only [hne, Bool.false_eq_true, if_false, sync_of_outline hs]
  set new := ofLines (s.formatLines 0 (lines view.text))
  split_ifs with heq
  · rw [heq] at hset
    exact setsLines_of_unchanged hs hset rfl rfl
  · have htext : HostAction.onText view.text (.replace 0 view.text.length new) = new := by
      simpa using onText_replace_between [] view.text [] new
    exact setsLines_of_eq hset htext rfl

/-- The line of a number that is prose. -/
theorem exists_of_isProse {line : Int} (h : (Outline.ofText t).isProse line = true) :
    ∃ n : ℕ, line = n ∧ n < (lines t).length := by
  unfold Outline.isProse Outline.kind? at h
  split_ifs at h with hneg
  · simp at h
  · refine ⟨line.toNat, by omega, ?_⟩
    by_contra hge
    rw [List.getElem?_eq_none (by rw [Outline.length_ofText]; omega)] at h
    simp at h

/-- The command for one line sets that line. -/
theorem setsLines_formatOneLine {view : HostView} (hs : s.outline = .ofText view.text)
    (line : Int) :
    s.SetsLines (s.formatOneLine (some view) line) (fun i => (i : Int) = line) view.text := by
  rw [formatOneLine, sync_of_outline hs]
  dsimp only
  by_cases hprose : s.outline.isProse line = true
  · rw [if_neg (by simp [hprose])]
    rw [hs] at hprose
    obtain ⟨n, rfl, hn⟩ := exists_of_isProse hprose
    obtain ⟨x, y, ht, hx, hcount, hlast, hfirst⟩ := exists_line hn
    have hline : Text.line view.text n = (lines view.text)[n] := by
      rw [Text.line, if_neg (by omega), Int.toNat_natCast, List.getElem?_eq_getElem hn]; rfl
    have hnl : '\n' ∉ (lines view.text)[n] := newline_not_mem_of_mem_lines (List.getElem_mem hn)
    have hstart : offsetAt view.text n 0 = x.length := by rw [offsetAt_natCast, hx]
    rw [hline, hstart]
    set l := (lines view.text)[n]
    set new := (formatLine s.settings.style l).1
    -- the line is a block of its own
    have hlines : ofLines (s.formatLines (x.count '\n') (lines l)) = new := by
      rw [lines_of_not_mem hnl, formatLines, hcount, hs]
      simp [hprose, ofLines, new]
    have hblock := setsWhere_setBlock (s := s) (x := x) (m := l) (y := y) (ht ▸ hs) hlast hfirst
    rw [hlines, ← ht] at hblock
    have hset : s.settings.style.SetsWhere (fun i : ℕ => (i : Int) = n) view.text
        (x ++ (new ++ y)) := hblock.congr fun i _ => by
      rw [List.count_append, List.count_eq_zero_of_not_mem hnl, hcount]
      omega
    split_ifs with heq
    · rw [heq, ← ht] at hset
      exact setsLines_of_unchanged hs hset rfl rfl
    · have htext := onText_replace_between x l y new
      have hsplice := splice_between x l y new
      rw [← ht, List.length_append] at htext hsplice
      exact setsLines_of_eq hset htext (by rw [← hsplice])
  · rw [if_pos (by simp [hprose])]
    refine setsLines_of_unchanged hs (Style.setsWhere_self _ fun i hi => ?_) rfl rfl
    rwa [hi, ← hs, ← Bool.not_eq_true]

/-- The command for the selection sets the lines from the one on which it starts to the one on which
it stops. -/
theorem setsLines_formatSelection {view : HostView} (hs : s.outline = .ofText view.text) :
    s.SetsLines (s.formatSelection (some view))
      (fun i => (position view.text (min (view.anchor : Int) view.head)).line ≤ i ∧
        i ≤ (position view.text (max (view.anchor : Int) view.head)).line) view.text := by
  rw [formatSelection]
  simp only [sync_of_outline hs]
  by_cases hcaret : view.anchor = view.head
  · rw [if_pos hcaret]
    have hone := setsLines_formatOneLine hs (position view.text view.head).line
    refine ⟨hone.text.congr fun i _ => ?_, hone.session⟩
    rw [hcaret, Int.min_self, Int.max_self]
    omega
  · rw [if_neg hcaret]
    have hmono : (position view.text (min (view.anchor : Int) view.head)).line ≤
        (position view.text (max (view.anchor : Int) view.head)).line :=
      line_position_mono view.text (by omega)
    obtain ⟨x, mid, y, ht, hx, hstop, hfirst, hlast, hlastx, hfirsty⟩ :=
      exists_block hmono (line_position_lt view.text (max (view.anchor : Int) view.head))
    have hset := setsWhere_setBlock (s := s) (x := x) (m := mid) (y := y) (ht ▸ hs) hlastx hfirsty
    have hold : slice view.text x.length ((x ++ mid).length : ℕ) = mid := by
      rw [slice, ht, Int.toNat_natCast, Int.toNat_natCast, ← List.append_assoc, List.take_left,
        List.drop_left]
    rw [← hx, ← hstop, hold, ← hlast, ← hfirst]
    rw [← ht] at hset
    set new := ofLines (s.formatLines (x.count '\n') (lines mid))
    split_ifs with heq
    · rw [heq, ← ht] at hset
      exact setsLines_of_unchanged hs hset rfl rfl
    · have htext := onText_replace_between x mid y new
      have hsplice := splice_between x mid y new
      rw [← ht] at htext hsplice
      exact setsLines_of_eq hset htext (by rw [← hsplice])

theorem inStep_formatArticle (hs : s.outline = .ofText t)
    (hh : ∀ view, host = some view → view.Shows t) : (s.formatArticle host).InStep t := by
  cases host with
  | none => exact inStep_withoutHost hs _ _
  | some view =>
    obtain ⟨rfl, -, -⟩ := hh view rfl
    exact (setsLines_formatArticle hs).inStep hs

theorem inStep_formatOneLine (hs : s.outline = .ofText t)
    (hh : ∀ view, host = some view → view.Shows t) (line : Int) :
    (s.formatOneLine host line).InStep t := by
  cases host with
  | none => exact inStep_withoutHost hs _ _
  | some view =>
    obtain ⟨rfl, -, -⟩ := hh view rfl
    exact (setsLines_formatOneLine hs line).inStep hs

theorem inStep_formatSelection (hs : s.outline = .ofText t)
    (hh : ∀ view, host = some view → view.Shows t) : (s.formatSelection host).InStep t := by
  cases host with
  | none => exact inStep_withoutHost hs _ _
  | some view =>
    obtain ⟨rfl, -, -⟩ := hh view rfl
    exact (setsLines_formatSelection hs).inStep hs

/-- What a code block does to the text: it stands between two parts of it, and from the line of the
first one's end on the text is classified anew. -/
theorem insertCodeBlock_some (s : Session) {view : HostView} (hview : view.Shows t) :
    ∃ block : Text,
      let start := min view.anchor view.head
      let r := s.insertCodeBlock (some view)
      let after := t.take start ++ (block ++ t.drop (max view.anchor view.head))
      r.actions.foldl HostAction.onText t = after ∧
        r.session.outline = s.outline.reparse after ((t.take start).count '\n') := by
  obtain ⟨rfl, hanchor, hhead⟩ := hview
  obtain ⟨block, caret, hactions, houtline⟩ : ∃ (block : Text) (caret : ℕ),
      (s.insertCodeBlock (some view)).actions =
        [.replace (min view.anchor view.head) (max view.anchor view.head) block,
          .setCaret caret] ∧
      (s.insertCodeBlock (some view)).session.outline = s.outline.reparse
        (splice view.text (min view.anchor view.head : ℕ) (max view.anchor view.head : ℕ) block)
        (position view.text (min view.anchor view.head : ℕ)).line := ⟨_, _, rfl, rfl⟩
  have hclamp : clamp view.text (min view.anchor view.head : ℕ) = min view.anchor view.head := by
    rw [clamp]; omega
  have hsplice :
      splice view.text (min view.anchor view.head : ℕ) (max view.anchor view.head : ℕ) block =
        view.text.take (min view.anchor view.head) ++
          (block ++ view.text.drop (max view.anchor view.head)) := by
    rw [splice_eq (by omega) (by omega), Int.toNat_natCast, Int.toNat_natCast, List.append_assoc]
  refine ⟨block, ?_, ?_⟩
  · simp only [hactions, List.foldl_cons, List.foldl_nil, HostAction.onText]
    rw [spliceRel_eq_splice (by omega) (by omega), hsplice]
  · rw [houtline, hsplice, position, hclamp]

/-- **What a code block needs of the outline**: that the lines above it are those of the text, or
that there are so few of them that all of the text is classified. -/
theorem inStep_insertCodeBlock_iff (s : Session) {view : HostView} (hview : view.Shows t) :
    let first := (position t (min view.anchor view.head : ℕ)).line
    (s.insertCodeBlock (some view)).InStep t ↔ s.outline.isEmpty = true ∨
      s.outline.lines.length < first ∨
      s.outline.lines.take first = (Outline.ofText t).lines.take first := by
  obtain ⟨block, htext, houtline⟩ := insertCodeBlock_some s hview
  have hclamp : clamp t (min view.anchor view.head : ℕ) = min view.anchor view.head := by
    have := hview.anchor
    rw [clamp]; omega
  have hline : (position t (min view.anchor view.head : ℕ)).line =
      (t.take (min view.anchor view.head)).count '\n' := by rw [position, hclamp]
  rw [Response.InStep, htext, houtline, hline, Outline.reparse_eq_ofText_iff, ← Outline.take_ofText_append
    _ (t.drop (min view.anchor view.head)), List.take_append_drop]
  rw [length_lines, List.count_append]
  omega

theorem inStep_insertCodeBlock (hs : s.outline = .ofText t)
    (hh : ∀ view, host = some view → view.Shows t) : (s.insertCodeBlock host).InStep t := by
  cases host with
  | none => exact inStep_withoutHost hs _ _
  | some view =>
    exact (inStep_insertCodeBlock_iff s (hh view rfl)).2 (.inr (.inr (by rw [hs])))

theorem onText_announce (hasHost : Bool) (message : String) (t : Text) :
    (announce hasHost message).1.foldl HostAction.onText t = t := by cases hasHost <;> rfl

theorem inStep_toggleAutoFormat (hs : s.outline = .ofText t) (hasHost : Bool) :
    (s.toggleAutoFormat hasHost).InStep t := by
  simp only [toggleAutoFormat, Response.InStep, onText_announce]
  exact hs

/-- A document that comes into the editor is classified. -/
theorem inStep_activate (hs : s.outline.isEmpty = true ∨ s.outline = .ofText s.outline.content)
    (identity : String) (hasHost : Bool) : (s.activate identity t hasHost).InStep t := by
  simp only [activate]
  split_ifs
  · exact outline_sync hs t
  · rw [Response.InStep, onText_announce]

/-! ### The order of the actions -/

theorem orderly_withoutHost {α : Type} (s : Session) (command : String) (result : α) :
    (s.withoutHost command result).Orderly := .inl fun _ h => absurd h List.not_mem_nil

theorem orderly_formatArticle (s : Session) (host : Option HostView) :
    (s.formatArticle host).Orderly := by
  cases host with
  | none => exact orderly_withoutHost s _ _
  | some view =>
    rw [formatArticle]
    dsimp only
    split_ifs
    · exact .inl fun _ h => absurd h List.not_mem_nil
    · exact .inl fun a h => ⟨_, List.mem_singleton.1 h⟩
    · refine .inr ⟨_, _, _, _, Nat.zero_le _, rfl, fun a h => ?_⟩
      simp only [List.mem_cons, List.not_mem_nil, or_false] at h
      rcases h with rfl | rfl <;> rfl

theorem orderly_formatOneLine (s : Session) (host : Option HostView) (line : Int) :
    (s.formatOneLine host line).Orderly := by
  cases host with
  | none => exact orderly_withoutHost s _ _
  | some view =>
    rw [formatOneLine]
    dsimp only
    split_ifs
    · exact .inl fun _ h => absurd h List.not_mem_nil
    · exact .inl fun _ h => absurd h List.not_mem_nil
    · refine .inr ⟨_, _, _, _, Nat.le_add_right _ _, rfl, fun a h => ?_⟩
      rw [List.mem_singleton.1 h]; rfl

theorem orderly_formatSelection (s : Session) (host : Option HostView) :
    (s.formatSelection host).Orderly := by
  cases host with
  | none => exact orderly_withoutHost s _ _
  | some view =>
    rw [formatSelection]
    dsimp only
    split_ifs
    · exact orderly_formatOneLine _ _ _
    · exact .inl fun _ h => absurd h List.not_mem_nil
    · have hmono : (position view.text (min (view.anchor : Int) view.head)).line ≤
          (position view.text (max (view.anchor : Int) view.head)).line :=
        line_position_mono view.text (by omega)
      obtain ⟨x, mid, y, -, hx, hstop, -⟩ :=
        exists_block hmono (line_position_lt view.text (max (view.anchor : Int) view.head))
      refine .inr ⟨_, _, _, _, ?_, rfl, fun a h => ?_⟩
      · rw [← hx, ← hstop, List.length_append]
        exact Nat.le_add_right _ _
      · rw [List.mem_singleton.1 h]; rfl

theorem orderly_insertCodeBlock (s : Session) (host : Option HostView) :
    (s.insertCodeBlock host).Orderly := by
  cases host with
  | none => exact orderly_withoutHost s _ _
  | some view =>
    rw [insertCodeBlock]
    refine .inr ⟨_, _, _, _, by omega, rfl, fun a h => ?_⟩
    rw [List.mem_singleton.1 h]; rfl

theorem notify_of_mem_announce {hasHost : Bool} {message : String} {a : HostAction}
    (h : a ∈ (announce hasHost message).1) : ∃ message, a = .notify message := by
  cases hasHost with
  | false => exact absurd h List.not_mem_nil
  | true => exact ⟨_, List.mem_singleton.1 h⟩

theorem orderly_toggleAutoFormat (s : Session) (hasHost : Bool) :
    (s.toggleAutoFormat hasHost).Orderly := .inl fun _ h => notify_of_mem_announce h

theorem orderly_activate (s : Session) (identity : String) (t : Text) (hasHost : Bool) :
    (s.activate identity t hasHost).Orderly := by
  simp only [activate]
  split_ifs
  · exact .inl fun _ h => absurd h List.not_mem_nil
  · exact .inl fun _ h => notify_of_mem_announce h

end Session

end TypingAid
