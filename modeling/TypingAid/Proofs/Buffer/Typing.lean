import TypingAid.Proofs.Block.Article
import TypingAid.Proofs.Buffer.Keystroke

/-!
# Typing a document

Typing a text without marks key by key ends with what the command for the whole document makes of
the text (`Buffer.typing_eq_formatArticle`).

The invariant of the run is that the buffer holds the article of what has been typed so far, with
the caret at its end (`Buffer.Wrote`).  A key changes the last line of the article only, and there
the typing aid makes room for one more character just as the command does for all of the line
(`respace_respace_concat`).  A line break ends a line that is set already.

What the first line is may change while it is typed, as a mark of front matter does that goes on.
No harm comes of that, because such a mark has nothing to space (`Text.Unmarked.settled_front`).
-/

namespace TypingAid

open Text Outline

variable {s : Session} {settings : Settings} {style : Style} {t x y z l new : Text} {c : Char}
  {origin : Origin}

/-- The keys that type a text. -/
def typing (t : Text) : List Keystroke :=
  t.map fun c => if c = '\n' then .enter else .char c .typed

/-! ### What follows from a key at the end -/

/-- A key at the end of a text that the session knows. -/
theorem keyFix?_length (hs : s.outline = .ofText t) (hauto : s.settings.autoFormat = true)
    (horigin : origin = .typed ∨ origin = .input) (c : Char) :
    keyFix? s t t.length c origin =
      if (Outline.ofText (t ++ [c])).isProse (t.count '\n') then
        tidyLine? s.settings.style (t ++ [c]) t.length (t.length + 1 : ℕ) [c]
      else none := by
  have happly : (Edit.single t.length t.length [c] origin).apply t = t ++ [c] := by
    rw [apply_key le_rfl, List.take_length, List.drop_length]
  have hfollow : s.outline.follow t (t ++ [c]) (.single t.length t.length [c] origin) =
      .ofText (t ++ [c]) := by
    have := Outline.follow_eq_ofText (e := .single t.length t.length [c] origin) (.inl hs)
      (Edit.fits_single (by omega) le_rfl le_rfl _ _ _ _)
      (Edit.isChange_typed t.length c origin none)
    rwa [happly] at this
  have hsettled : (Edit.single t.length t.length [c] origin).isSettled
      ⟨t.length, t.length, t.length, t.length + 1, [c], []⟩ (t.length + 1) = true := by
    rcases horigin with rfl | rfl <;> rfl
  rw [keyFix?]
  simp only [List.take_length, List.drop_length, hauto, hsettled, hfollow, Bool.true_and]

/-- So it is at the end of what stands above the last line and a line `z`: the key makes the line `l`
of it, and the last line is tidied if `l` is prose. -/
theorem keyFix?_above (hs : s.outline = .ofText (s.settings.style.above t ++ z))
    (hauto : s.settings.autoFormat = true) (horigin : origin = .typed ∨ origin = .input)
    (hz : '\n' ∉ z) (hsplit : z ++ [c] = l ++ y) (hl : '\n' ∉ l) (hy : firstLine y = []) :
    keyFix? s (s.settings.style.above t ++ z) (s.settings.style.above t ++ z).length c origin =
      if (classify l (t.count '\n') (openBehind 0 .none (lines t).dropLast)).kind = .text then
        tidyLine? s.settings.style (s.settings.style.above t ++ z ++ [c])
          (s.settings.style.above t ++ z).length ((s.settings.style.above t ++ z).length + 1 : ℕ) [c]
      else none := by
  have hprose := isProse_above_append s.settings.style t hl hy
  rw [List.append_assoc, ← hsplit, ← List.append_assoc] at hprose
  rw [keyFix?_length hs hauto horigin, count_above_append _ t hz, hprose]
  simp only [decide_eq_true_eq]

/-- On a last line that has been set, room is made for one more character, and the caret is put
behind that. -/
theorem tidyLine?_concat (hx : lastLine x = []) (hl : '\n' ∉ style.respace l ++ [c])
    (hstyle : style.autoCapital = false) (hplain : Plain (l ++ [c]) []) :
    tidyLine? style (x ++ style.respace l ++ [c]) (x ++ style.respace l).length
        ((x ++ style.respace l).length + 1 : ℕ) [c] =
      if style.respace (l ++ [c]) = style.respace l ++ [c] then none
      else some (lineFix x (style.respace l ++ [c]) (style.respace (l ++ [c]))
        (x ++ style.respace (l ++ [c])).length) := by
  have htidy := tidyLine?_inside (k := (style.respace l).length)
    (j := (style.respace l).length + 1) style hx hl (y := []) rfl
    (by rw [List.length_append]; omega) (by rw [List.length_append]; rfl) [c]
  dsimp only at htidy
  rw [hplain.formatLine_concat hstyle ?_ ?_] at htidy
  · simp only [List.append_nil, ← List.append_assoc, List.length_append] at htidy ⊢
    exact htidy
  · show max 0 (((style.respace l).length : Int) - typingContext) ≤ _
    rw [typingContext]
    omega
  · exact le_trans (by omega) (le_max_left _ _)

/-- A line break at the end of a settled line is all that comes of it. -/
theorem tidyLine?_newline (hx : lastLine x = []) (hl : '\n' ∉ l)
    (hsettled : (formatLine style l).1 = l) :
    tidyLine? style (x ++ l ++ ['\n']) (x ++ l).length ((x ++ l).length + 1 : ℕ) ['\n'] = none := by
  have hcaret : ¬ ((x.length : Int) ≤ ((x ++ l).length + 1 : ℕ) ∧
      (((x ++ l).length + 1 : ℕ) : Int) ≤ (x ++ l).length) := by omega
  have htidy := tidyLine?_outside (k := l.length) style hx hl (y := ['\n']) rfl le_rfl hcaret ['\n']
  rw [hsettled, if_pos rfl, ← List.append_assoc, ← List.length_append] at htidy
  exact htidy

/-! ### One more character of an article -/

/-- A key at the end of the article of `t` makes the article of `t ++ [c]` of it: the last line `l`
is tidied if it is not yet what it is to be. -/
def SetsArticle (s : Session) (t : Text) (c : Char) (origin : Origin) : Prop :=
  ∃ x l new : Text, s.settings.style.article t ++ [c] = x ++ l ∧
    s.settings.style.article (t ++ [c]) = x ++ new ∧
    keyFix? s (s.settings.style.article t) (s.settings.style.article t).length c origin =
      if new = l then none else some (lineFix x l new (x ++ new).length)

theorem newline_not_mem_concat (hl : '\n' ∉ l) (hc : c ≠ '\n') : '\n' ∉ l ++ [c] := by
  simp [hl, hc.symm]

/-- A character on the last line, outside of front matter. -/
theorem setsArticle_prose (hs : s.outline = .ofText (s.settings.style.article t))
    (hauto : s.settings.autoFormat = true) (hcapital : s.settings.style.autoCapital = false)
    (hline : (lastLine t ++ [c]).Unmarked) (hc : c ≠ '\n')
    (hopen : openBehind 0 .none (lines t).dropLast = .none) : SetsArticle s t c .typed := by
  have hcur : '\n' ∉ lastLine t := newline_not_mem_lastLine t
  have hcurrent : (lastLine t).Unmarked := hline.part (List.prefix_append _ [c]).isInfix
  have harticle := article_eq s.settings.style t
  have harticle' := article_append s.settings.style t (newline_not_mem_concat List.not_mem_nil hc)
  rw [hopen, hcurrent.setLine_none hcapital] at harticle
  rw [hopen, List.nil_append, hline.setLine_none hcapital] at harticle'
  have hz : '\n' ∉ s.settings.style.respace (lastLine t) := by
    rw [← hcurrent.plain.formatLine_fst hcapital]
    exact newline_not_mem_formatLine _ hcur none none
  have hl := newline_not_mem_concat hz hc
  refine ⟨_, _, _, by rw [harticle, List.append_assoc], harticle', ?_⟩
  rw [harticle, keyFix?_above (harticle ▸ hs) hauto (.inl rfl) hz (List.append_nil _).symm hl rfl,
    hopen]
  by_cases hprose : (classify (s.settings.style.respace (lastLine t) ++ [c]) (t.count '\n')
      .none).kind = .text
  · rw [if_pos hprose, tidyLine?_concat (lastLine_above _ t) hl hcapital hline.plain]
  · rw [if_neg hprose, if_pos (hline.respace_concat_of_kind hprose)]

/-- In front matter a character stays as it is. -/
theorem setsArticle_frontMatter (hs : s.outline = .ofText (s.settings.style.article t))
    (hauto : s.settings.autoFormat = true) (hc : c ≠ '\n')
    (hopen : openBehind 0 .none (lines t).dropLast = .frontMatter) : SetsArticle s t c .typed := by
  have hcur : '\n' ∉ lastLine t := newline_not_mem_lastLine t
  have harticle := article_eq s.settings.style t
  have harticle' := article_append s.settings.style t (newline_not_mem_concat List.not_mem_nil hc)
  rw [hopen, setLine_frontMatter] at harticle harticle'
  refine ⟨_, lastLine t ++ [c], lastLine t ++ [c], by rw [harticle, List.append_assoc],
    harticle', ?_⟩
  rw [harticle, keyFix?_above (harticle ▸ hs) hauto (.inl rfl) hcur (List.append_nil _).symm
    (newline_not_mem_concat hcur hc) rfl, hopen, if_pos rfl, if_neg]
  intro hkind
  cases (classify_of_kind_eq_text hkind).1

/-- A character on the last line. -/
theorem setsArticle_char (hs : s.outline = .ofText (s.settings.style.article t))
    (hauto : s.settings.autoFormat = true) (hcapital : s.settings.style.autoCapital = false)
    (ht : (t ++ [c]).Unmarked) (hc : c ≠ '\n') : SetsArticle s t c .typed := by
  have hsingle : '\n' ∉ [c] := newline_not_mem_concat List.not_mem_nil hc
  have hmem : ∀ l ∈ (lines t).dropLast ++ [lastLine t ++ [c]], l.Unmarked := by
    intro l hl
    refine ht.of_mem_lines ?_
    rwa [lines_append, firstLine_of_not_mem hsingle, lines_of_not_mem hsingle]
  have hopen := Unmarked.openBehind_eq (i := 0) (fun l hl => hmem l (List.mem_append_left _ hl))
    (.inl rfl)
  rcases hopen with hopen | hopen
  · exact setsArticle_prose hs hauto hcapital (hmem _ (by simp)) hc hopen
  · exact setsArticle_frontMatter hs hauto hc hopen

/-- A line break behind the last line. -/
theorem setsArticle_newline (hs : s.outline = .ofText (s.settings.style.article t))
    (hauto : s.settings.autoFormat = true) (hcapital : s.settings.style.autoCapital = false)
    (ht : t.Unmarked) : SetsArticle s t '\n' .input := by
  have hcur : '\n' ∉ lastLine t := newline_not_mem_lastLine t
  have hline : (lastLine t).Unmarked :=
    ht.of_mem_lines (lines_eq_dropLast_append t ▸ List.mem_append_right _ List.mem_cons_self)
  have harticle := article_eq s.settings.style t
  have hz : '\n' ∉ s.settings.style.setLine (t.count '\n')
      (openBehind 0 .none (lines t).dropLast) (lastLine t) := by
    rw [Style.setLine]
    split_ifs
    · exact newline_not_mem_formatLine _ hcur none none
    · exact hcur
  refine ⟨s.settings.style.article t, ['\n'], ['\n'], rfl, article_newline _ t, ?_⟩
  rw [if_pos rfl, harticle, keyFix?_above (harticle ▸ hs) hauto (.inr rfl) hz rfl hz rfl,
    classify_setLine]
  split_ifs with hprose
  · refine tidyLine?_newline (lastLine_above _ t) hz ?_
    rw [Style.setLine, if_pos hprose, hline.plain.formatLine_fst hcapital,
      hline.plain.formatLine_respace hcapital]
  · rfl

namespace Buffer

variable {b : Buffer}

/-! ### One key at the end -/

/-- A key at the end of a text, after which its last line is tidied unless that is settled. -/
theorem Holds.concat (h : b.Holds settings t t.length) (hverbatim : settings.Verbatim)
    (hs : b.session = some s) (ht : t ++ [c] = x ++ l)
    (hfix : keyFix? s t t.length c origin =
      if new = l then none else some (lineFix x l new (x ++ new).length)) :
    (b.insert [c] origin).1.Holds settings (x ++ new) (x ++ new).length := by
  have hafter : t.take t.length ++ c :: t.drop t.length = x ++ l := by
    rw [List.take_length, List.drop_length, ht]
  split_ifs at hfix with hnew
  · have := h.insert hverbatim hs hfix
    rwa [hafter, ← hnew, show t.length + 1 = (x ++ new).length by rw [hnew, ← ht]; simp] at this
  · obtain ⟨fix, heq, hgoal, happly⟩ : ∃ fix : Edit, lineFix x l new (x ++ new).length =
        (fix, { caret := some ((x ++ new).length : Int), event := Edit.formatEvent }) ∧
        fix.targetCaret = some ((x ++ new).length : Int) ∧ fix.apply (x ++ l) = x ++ new := by
      have := apply_lineFix x l [] new (x ++ new).length
      rw [List.append_nil, List.append_nil] at this
      exact ⟨_, rfl, rfl, this⟩
    have := h.insert_fix hverbatim hs (heq ▸ hfix) hgoal (by rw [hafter, happly])
    rwa [hafter, happly] at this

/-- The buffer is in sync and holds the article of `t`, with the caret at its end. -/
structure Wrote (b : Buffer) (settings : Settings) (t : Text) : Prop where
  sync : b.HasSync
  holds : b.Holds settings (settings.style.article t) (settings.style.article t).length

/-- A session that is in sync, as it is before the next key. -/
theorem Wrote.exists_session (h : b.Wrote settings t) : ∃ s, b.InSync s ∧ s.settings = settings ∧
    s.outline = .ofText (settings.style.article t) := by
  obtain ⟨⟨s, hs⟩, hholds⟩ := h
  obtain ⟨s', hs', hsettings⟩ := hholds.session
  obtain rfl : s = s' := Option.some.inj (hs.session.symm.trans hs')
  exact ⟨s, hs, hsettings, hholds.text ▸ hs.outline⟩

/-- The step of the run. -/
theorem Wrote.insert (h : b.Wrote settings t) (hverbatim : settings.Verbatim)
    (hset : ∀ s : Session, s.settings = settings → s.outline = .ofText (settings.style.article t) →
      SetsArticle s t c origin) :
    (b.insert [c] origin).1.Wrote settings (t ++ [c]) := by
  obtain ⟨s, hs, rfl, houtline⟩ := h.exists_session
  obtain ⟨x, l, new, hbefore, hafter, hfix⟩ := hset s rfl houtline
  refine ⟨hs.insert [c] origin, ?_⟩
  rw [hafter]
  exact h.holds.concat hverbatim hs.session hbefore hfix

/-- The run: what has been typed is held as an article after every key. -/
theorem wrote_run (hverbatim : settings.Verbatim) (hauto : settings.autoFormat = true)
    (hcapital : settings.style.autoCapital = false) (hb : b.Wrote settings []) (ht : t.Unmarked) :
    (b.run ((typing t).map Keystroke.operation)).Wrote settings t := by
  induction t using List.reverseRecOn with
  | nil => exact hb
  | append_singleton t c ih =>
    have hwrote := ih (ht.part (List.prefix_append t [c]).isInfix)
    rw [typing, List.map_append, List.map_append, Buffer.run, List.foldl_append]
    by_cases hc : c = '\n'
    · subst hc
      exact hwrote.insert hverbatim fun s hs houtline => by
        subst hs
        exact setsArticle_newline houtline hauto hcapital
          (ht.part (List.prefix_append t ['\n']).isInfix)
    · have hchar : [c].map (fun c => if c = '\n' then Keystroke.enter else .char c .typed) =
          [.char c .typed] := by simp [hc]
      rw [hchar]
      exact hwrote.insert hverbatim fun s hs houtline => by
        subst hs
        exact setsArticle_char houtline hauto hcapital ht hc

/-! ### The whole text -/

theorem holds_fresh (settings : Settings) (rules : RuleTable) (t : Text) (identity : String) :
    (create t (some { settings, rules }) identity).Holds settings t t.length := by
  rw [create, Buffer.command]
  simp only [Session.activate, reduceCtorEq, false_and, if_false]
  exact ⟨⟨_, rfl, rfl⟩, rfl, rfl, rfl, le_rfl⟩

theorem wrote_fresh (settings : Settings) (rules : RuleTable) (identity : String) :
    (create [] (some { settings, rules }) identity).Wrote settings [] :=
  ⟨hasSync_fresh settings rules [] identity, holds_fresh settings rules [] identity⟩

/-- The command for the whole document makes the article of a text. -/
theorem text_formatArticle (h : b.InSync s) :
    (b.perform (.formatArticle true)).1.text = s.settings.style.article b.text := by
  show (b.command (·.formatArticle (some b.view))).1.text = _
  rw [command, h.session]
  dsimp only
  rw [text_foldl_act]
  have hview : b.view.Shows b.view.text := ⟨rfl, h.anchor, h.head⟩
  exact onText_formatArticle h.outline hview

/-- **Typing a text gives what the command for the whole document makes of it**, and leaves the
caret at the end.  The text holds none of the characters that spans are made of and no address;
sentences get no capitals, nothing is paired and nothing converted. -/
theorem typing_eq_formatArticle (settings : Settings) (rules : RuleTable) (identity : String)
    {t : Text} (ht : t.Unmarked) (hauto : settings.autoFormat = true)
    (hcapital : settings.style.autoCapital = false) (hverbatim : settings.Verbatim) :
    let typed := (create [] (some { settings, rules }) identity).run
      ((typing t).map Keystroke.operation)
    let formatted := (create t (some { settings, rules }) identity).run [.formatArticle true]
    typed.text = formatted.text ∧ typed.anchor = typed.text.length ∧
      typed.head = typed.text.length := by
  intro typed formatted
  have htyped := (wrote_run hverbatim hauto hcapital (wrote_fresh settings rules identity) ht).holds
  have hfresh := holds_fresh settings rules t identity
  obtain ⟨s, hs⟩ := hasSync_fresh settings rules t identity
  have hsettings : s.settings = settings := by
    obtain ⟨s', hs', hsettings⟩ := hfresh.session
    rwa [Option.some.inj (hs.session.symm.trans hs')]
  have hformatted : formatted.text = settings.style.article t := by
    rw [← hsettings, ← hfresh.text]
    exact text_formatArticle hs
  exact ⟨by rw [hformatted, htyped.text], by rw [htyped.anchor, htyped.text],
    by rw [htyped.head, htyped.text]⟩

/-- The first line opens front matter for as long as it is only the mark.  In the second one a run of
spaces is closed up that is longer than what typing looks at. -/
theorem typing_eq_formatArticle_front :
    let settings : Settings :=
      { pairSymbols := false, convertBasic := false, convertFullWidth := false,
        style := { autoCapital := false } }
    let t : Text := "---字\n字      字ok".toList
    let b (t : Text) : Buffer := create t (some { settings, rules := .default }) "note.md"
    let typed := (b []).run ((typing t).map Keystroke.operation)
    (t.Unmarked ∧ settings.autoFormat = true ∧ settings.style.autoCapital = false ∧
      settings.Verbatim) ∧ typed.text = "---字\n字字 ok".toList ∧
      typed.text = ((b t).run [.formatArticle true]).text ∧ typed.head = 10 := by
  intro settings t b typed
  have ht : t.Unmarked :=
    ⟨by decide, fun h => absurd (h.subset List.mem_cons_self) (by decide : ':' ∉ t)⟩
  have hverbatim : settings.Verbatim := ⟨rfl, rfl, rfl⟩
  obtain ⟨hsame, -, hhead⟩ :=
    typing_eq_formatArticle settings .default "note.md" ht rfl rfl hverbatim
  have htyped : typed.text = "---字\n字字 ok".toList := by decide +kernel
  refine ⟨⟨ht, rfl, rfl, hverbatim⟩, htyped, hsame, ?_⟩
  rw [hhead, htyped]
  rfl

end Buffer

end TypingAid
