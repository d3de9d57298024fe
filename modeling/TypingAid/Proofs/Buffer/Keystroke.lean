import TypingAid.Proofs.Buffer.Sync
import TypingAid.Proofs.Line.Tidy

/-!
# Keys

A key puts one character in place of an empty selection.  If the typing aid neither pairs symbols
nor converts anything (`Settings.Verbatim`), then the character that is put in is the one of the
key, and all that may follow is that its line is tidied (`keyFix?`).

* `Buffer.Holds` : a buffer with a session, reduced to what matters here: the settings, the text and
  the caret.
* `Buffer.Holds.insert` : one key, as a step between such buffers.
* `Buffer.Holds.insert_fold` : the step keeps what has been written and adds the character where the
  caret is, apart from spaces and the case of letters.
* `Buffer.run_keys_agree` : so two runs of the same keys agree after every key, whatever is tidied
  in them.
-/

namespace TypingAid

open Text

/-- Of what is typed, nothing is paired and nothing converted. -/
structure Settings.Verbatim (settings : Settings) : Prop where
  pairs : settings.pairSymbols = false
  basic : settings.convertBasic = false
  fullWidth : settings.convertFullWidth = false

/-- A key on the keyboard, or a character from elsewhere. -/
inductive Keystroke where
  | char (c : Char) (origin : Origin)
  | enter

/-- What pressing the key does to a buffer. -/
def Keystroke.operation : Keystroke → Operation
  | .char c origin => .insert [c] origin
  | .enter => .enter

/-- The edits that tidy the line of a key that put `c` at `n` into the text `t`, if there are any. -/
def keyFix? (s : Session) (t : Text) (n : ℕ) (c : Char) (origin : Origin) : Option (Edit × Edit) :=
  let e : Edit := .single n n [c] origin
  let after := t.take n ++ c :: t.drop n
  if s.settings.autoFormat && e.isSettled ⟨n, n, n, n + 1, [c], []⟩ (n + 1) &&
      (s.outline.follow t after e).isProse ((t.take n).count '\n') then
    tidyLine? s.settings.style after n (n + 1 : ℕ) [c]
  else none

variable {s : Session} {t : Text} {n : ℕ} {c : Char} {origin : Origin}

/-! ### The edit of a key -/

theorem apply_key (hn : n ≤ t.length) (c : Char) (origin : Origin) (caret : Option Int) :
    (Edit.single n n [c] origin caret).apply t = t.take n ++ c :: t.drop n := by
  show splice t n n [c] = _
  rw [splice_eq le_rfl (by omega), Int.toNat_natCast, List.append_assoc]
  rfl

theorem views_key (t : Text) (n : ℕ) (c : Char) (origin : Origin) :
    (Edit.single n n [c] origin).views t = [⟨n, n, n, n + 1, [c], []⟩] := by
  have hremoved : sliceRel t n n = [] := by
    rw [sliceRel, List.drop_eq_nil_iff, List.length_take]
    exact Nat.min_le_left ..
  show [Edit.View.mk n n (n + 0) (n + 0 + 1) [c] (sliceRel t n n)] = _
  rw [hremoved, Int.add_zero]

/-- A key is not replaced. -/
theorem intervene_key {settings : Settings} (h : settings.Verbatim) (rules : RuleTable) (t : Text)
    (n : ℕ) (c : Char) (origin : Origin) :
    intervene settings rules t (.single n n [c] origin) = .single n n [c] origin := by
  have henclose : Intervention.enclose? rules origin ⟨n, n, [c]⟩ = none := by
    simp [Intervention.enclose?]
  have hrules : Intervention.conversionRules rules settings = [] := by
    simp [Intervention.conversionRules, h.basic, h.fullWidth]
  have hspan : Intervention.ofSpan? rules t origin ⟨n, n, [c]⟩ settings = none := by
    simp [Intervention.ofSpan?, Intervention.input?, henclose, hrules, h.pairs]
  have hnone : intervene? settings rules t (.single n n [c] origin) = none := by
    rw [intervene?, Edit.candidate?_typed, Option.bind_some]
    exact hspan
  rw [intervene, hnone]
  rfl

/-- What follows from a key is that its line is tidied, or nothing. -/
theorem edits_key (s : Session) (hn : n ≤ t.length) (c : Char) (origin : Origin) :
    (s.afterCommit t (t.take n ++ c :: t.drop n) (.single n n [c] origin) (n + 1 : ℕ)
      (n + 1 : ℕ)).2.1 = ((keyFix? s t n c origin).map fun (fix, move) => [fix, move]).getD [] := by
  have hline : Outline.lineOf (t.take n ++ c :: t.drop n) ⟨n, n, n, n + 1, [c], []⟩ =
      (t.take n).count '\n' :=
    Outline.lineOf_append (by rw [List.length_take, Nat.min_eq_left hn])
  simp only [Session.afterCommit, afterEdit, Edit.isChange_typed, Bool.not_true,
    Bool.false_eq_true, if_false, tidyTarget?, Edit.isAutomatic_single, views_key, ne_eq,
    not_true_eq_false, decide_false, Bool.false_or, List.any_cons, List.any_nil, List.isEmpty_nil,
    Bool.or_false, List.getLast?_singleton, hline, keyFix?]
  push_cast
  cases s.settings.autoFormat with
  | false => rfl
  | true =>
    simp only [Bool.not_true, Bool.false_eq_true, if_false, Bool.true_and]
    split_ifs
    · rw [Option.bind_some, Option.map_map]
      dsimp only
      cases tidyLine? s.settings.style (t.take n ++ c :: t.drop n) n (n + 1) [c] <;> rfl
    · rfl

namespace Buffer

/-! ### One key -/

/-- The buffer has a session with these settings and this text, and nothing is selected at the
caret. -/
structure Holds (b : Buffer) (settings : Settings) (t : Text) (caret : ℕ) : Prop where
  session : ∃ s, b.session = some s ∧ s.settings = settings
  text : b.text = t
  anchor : b.anchor = caret
  head : b.head = caret
  inside : caret ≤ t.length

variable {b : Buffer} {settings : Settings} {caret : ℕ}

/-- An edit that puts the caret into the text. -/
theorem Holds.commit (h : b.Holds settings t n) {e : Edit}
    (htarget : e.targetCaret = some (caret : Int)) (hinside : caret ≤ (e.apply t).length) :
    (b.commit e).Holds settings (e.apply t) caret := by
  have hselect : ∀ b' : Buffer, b'.text = e.apply t → b'.session = b.session →
      (b'.setCaret caret).Holds settings (e.apply t) caret := by
    intro b' htext hsession
    have hclamp : clamp b'.text caret = caret := by rw [htext, clamp]; omega
    exact ⟨hsession ▸ h.session, htext, hclamp, hclamp, hinside⟩
  rw [Buffer.commit, htarget]
  refine hselect _ ?_ ?_
  · split_ifs with hchange
    · show e.apply b.text = e.apply t
      rw [h.text]
    · rw [Edit.apply_of_not_isChange (by simpa using hchange), h.text]
  · split_ifs <;> rfl

theorem Holds.report (h : b.Holds settings t caret) (before : Text) (e : Edit) :
    (b.report before e).1.Holds settings t caret := by
  obtain ⟨s, hs, hsettings⟩ := h.session
  rw [Buffer.report, hs]
  exact ⟨⟨_, rfl, hsettings⟩, h.text, h.anchor, h.head, h.inside⟩

theorem Holds.commitFollowUp (h : b.Holds settings t n) {e : Edit}
    (htarget : e.targetCaret = some (caret : Int)) (hinside : caret ≤ (e.apply t).length) :
    (b.commitFollowUp e).Holds settings (e.apply t) caret :=
  (h.commit htarget hinside).report b.text e

/-- The character of a key is put in at the caret, and what follows is carried out after that. -/
theorem Holds.exists_insert (h : b.Holds settings t n) (hverbatim : settings.Verbatim)
    (hs : b.session = some s) (c : Char) (origin : Origin) :
    ∃ b' : Buffer, b'.Holds settings (t.take n ++ c :: t.drop n) (n + 1) ∧
      (b.insert [c] origin).1 = (((keyFix? s t n c origin).map
        fun (fix, move) => [fix, move]).getD []).foldl Buffer.commitFollowUp b' := by
  obtain ⟨s', hs', hsettings⟩ := h.session
  obtain rfl : s' = s := Option.some.inj (hs'.symm.trans hs)
  set e : Edit := .single n n [c] origin
  have happly : e.apply t = t.take n ++ c :: t.drop n := apply_key h.inside c origin none
  have hinside : n + 1 ≤ (e.apply t).length := by
    have := h.inside
    rw [happly, List.length_append, List.length_cons, List.length_take, List.length_drop]; omega
  have hnote : (b.note (s'.filterLog t e)).Holds settings t n :=
    ⟨h.session, h.text, h.anchor, h.head, h.inside⟩
  have hcommit : ((b.note (s'.filterLog t e)).commit e).Holds settings (e.apply t) (n + 1) :=
    hnote.commit rfl hinside
  rw [happly] at hcommit
  have hselection : b.selection = (n, n) := by
    rw [selection, h.anchor, h.head, Nat.min_self, Nat.max_self]
  have hfilter : s'.filter t e = e := intervene_key (hsettings ▸ hverbatim) s'.rules t n c origin
  have hedits : (((b.note (s'.filterLog t e)).commit e).report t e).2 =
      ((keyFix? s' t n c origin).map fun (fix, move) => [fix, move]).getD [] := by
    rw [← edits_key s' h.inside, Buffer.report, session_commit,
      show (b.note (s'.filterLog t e)).session = some s' from hs, hcommit.text, hcommit.anchor,
      hcommit.head]
  refine ⟨_, hcommit.report t e, ?_⟩
  rw [← hedits, Buffer.insert, hselection, Buffer.dispatch, hs, h.text]
  dsimp only
  rw [hfilter]

/-- **One key after which nothing follows.** -/
theorem Holds.insert (h : b.Holds settings t n) (hverbatim : settings.Verbatim)
    (hs : b.session = some s) (hfix : keyFix? s t n c origin = none) :
    (b.insert [c] origin).1.Holds settings (t.take n ++ c :: t.drop n) (n + 1) := by
  obtain ⟨b', hb', hinsert⟩ := h.exists_insert hverbatim hs c origin
  rw [hinsert, hfix]
  exact hb'

/-- **One key whose line is tidied.**  The caret is put where it belongs twice. -/
theorem Holds.insert_fix (h : b.Holds settings t n) (hverbatim : settings.Verbatim)
    (hs : b.session = some s) {fix : Edit} (hfix : keyFix? s t n c origin =
      some (fix, { caret := some (caret : Int), event := Edit.formatEvent }))
    (hgoal : fix.targetCaret = some (caret : Int))
    (hinside : caret ≤ (fix.apply (t.take n ++ c :: t.drop n)).length) :
    (b.insert [c] origin).1.Holds settings (fix.apply (t.take n ++ c :: t.drop n)) caret := by
  obtain ⟨b', hb', hinsert⟩ := h.exists_insert hverbatim hs c origin
  rw [hinsert, hfix]
  exact (hb'.commitFollowUp hgoal hinside).commitFollowUp rfl hinside

/-- **One key keeps what has been written** and adds its character where the caret is, apart from
spaces and the case of letters. -/
theorem Holds.insert_fold (h : b.Holds settings t n) (hverbatim : settings.Verbatim) (c : Char)
    (origin : Origin) :
    ∃ t' caret, (b.insert [c] origin).1.Holds settings t' caret ∧
      fold t' = fold (t.take n) ++ fold [c] ++ fold (t.drop n) ∧
      fold (t'.take caret) = fold (t.take n) ++ fold [c] := by
  obtain ⟨s, hs, hsettings⟩ := h.session
  have hn := h.inside
  have hlength : (t.take n).length = n := by rw [List.length_take, Nat.min_eq_left hn]
  have hwhole : fold (t.take n ++ c :: t.drop n) =
      fold (t.take n) ++ fold [c] ++ fold (t.drop n) := by
    rw [← List.singleton_append, ← List.append_assoc, fold_append, fold_append]
  have hfront : (t.take n ++ c :: t.drop n).take (n + 1) = t.take n ++ [c] := by
    rw [List.take_append, hlength, Nat.add_sub_cancel_left, List.take_of_length_le (by omega)]
    rfl
  cases hfix : keyFix? s t n c origin with
  | none =>
    refine ⟨_, _, h.insert hverbatim hs hfix, hwhole, ?_⟩
    rw [hfront, fold_append]
  | some edits =>
    obtain ⟨fix, move⟩ := edits
    have htidy := hfix
    rw [keyFix?] at htidy
    obtain ⟨-, htidy⟩ := Option.ite_none_right_eq_some.1 htidy
    obtain ⟨caret, hkeeps⟩ := keeps_tidyLine? (by rw [List.length_append]; omega)
      (by rw [List.length_append, List.length_cons, List.length_drop]; omega) htidy
    refine ⟨_, caret, h.insert_fix hverbatim hs (hkeeps.again ▸ hfix) hkeeps.goal hkeeps.inside,
      hkeeps.content.trans hwhole, ?_⟩
    rw [hkeeps.before, hfront, fold_append]

/-! ### Two runs -/

/-- Two buffers hold the same content, before the caret and behind it, apart from spaces and the
case of letters. -/
structure Agrees (b b' : Buffer) : Prop where
  content : fold b.text = fold b'.text
  before : fold (b.text.take b.head) = fold (b'.text.take b'.head)

variable {b' : Buffer} {settings' : Settings} {t' : Text} {n' : ℕ}

/-- What stands behind the caret agrees as well. -/
theorem Holds.agrees_behind (h : b.Holds settings t n) (h' : b'.Holds settings' t' n')
    (hagrees : b.Agrees b') : fold (t.take n) = fold (t'.take n') ∧
      fold (t.drop n) = fold (t'.drop n') := by
  obtain ⟨hcontent, hbefore⟩ := hagrees
  rw [h.text, h'.text] at hcontent
  rw [h.text, h'.text, h.head, h'.head] at hbefore
  refine ⟨hbefore, ?_⟩
  rw [← List.take_append_drop n t, ← List.take_append_drop n' t', fold_append, fold_append,
    hbefore] at hcontent
  exact List.append_cancel_left hcontent

/-- The step of two runs: the same key, on texts that may be set differently. -/
theorem Holds.agrees_insert (h : b.Holds settings t n) (h' : b'.Holds settings' t' n')
    (hverbatim : settings.Verbatim) (hverbatim' : settings'.Verbatim) (hagrees : b.Agrees b')
    (c : Char) (origin : Origin) :
    (∃ u k, (b.insert [c] origin).1.Holds settings u k) ∧
      (∃ u k, (b'.insert [c] origin).1.Holds settings' u k) ∧
      (b.insert [c] origin).1.Agrees (b'.insert [c] origin).1 := by
  obtain ⟨hbefore, hbehind⟩ := h.agrees_behind h' hagrees
  obtain ⟨u, k, hu, hcontent, hfront⟩ := h.insert_fold hverbatim c origin
  obtain ⟨u', k', hu', hcontent', hfront'⟩ := h'.insert_fold hverbatim' c origin
  refine ⟨⟨u, k, hu⟩, ⟨u', k', hu'⟩, ?_, ?_⟩
  · rw [hu.text, hu'.text, hcontent, hcontent', hbefore, hbehind]
  · rw [hu.text, hu'.text, hu.head, hu'.head, hfront, hfront', hbefore]

/-- **Two runs of the same keys agree after every key**, whatever is tidied in them. -/
theorem Holds.agrees_run (h : b.Holds settings t n) (h' : b'.Holds settings' t' n')
    (hverbatim : settings.Verbatim) (hverbatim' : settings'.Verbatim) (hagrees : b.Agrees b')
    (keys : List Keystroke) :
    (b.run (keys.map Keystroke.operation)).Agrees (b'.run (keys.map Keystroke.operation)) := by
  unfold Buffer.run
  induction keys generalizing b b' t n t' n' with
  | nil => exact hagrees
  | cons key keys ih =>
    obtain ⟨c, origin, hkey⟩ : ∃ c origin, ∀ b : Buffer,
        (b.perform key.operation).1 = (b.insert [c] origin).1 := by
      cases key with
      | char c origin => exact ⟨c, origin, fun b => rfl⟩
      | enter => exact ⟨'\n', .input, fun b => rfl⟩
    obtain ⟨⟨u, k, hu⟩, ⟨u', k', hu'⟩, hstep⟩ :=
      h.agrees_insert h' hverbatim hverbatim' hagrees c origin
    rw [List.map_cons, List.foldl_cons, List.foldl_cons, hkey, hkey]
    exact ih hu hu' hstep

/-- **Tidying loses no keystroke, writes none twice and swaps none.**  Two buffers start with the
same text and caret, and with settings that differ in `autoFormat` only.  After every one of the
keys their texts are the same apart from spaces and the case of letters, and so is what stands
before the caret. -/
theorem run_keys_agree (settings : Settings) (hverbatim : settings.Verbatim) {t : Text} {n : ℕ}
    {b b' : Buffer} (h : b.Holds { settings with autoFormat := true } t n)
    (h' : b'.Holds { settings with autoFormat := false } t n) (keys : List Keystroke) (k : ℕ) :
    (b.run ((keys.take k).map Keystroke.operation)).Agrees
      (b'.run ((keys.take k).map Keystroke.operation)) := by
  refine h.agrees_run h' ⟨hverbatim.pairs, hverbatim.basic, hverbatim.fullWidth⟩
    ⟨hverbatim.pairs, hverbatim.basic, hverbatim.fullWidth⟩ ⟨?_, ?_⟩ (keys.take k)
  · rw [h.text, h'.text]
  · rw [h.text, h'.text, h.head, h'.head]

/-- A word typed behind another one, and one more on the next line: one run sets the lines, the
other one leaves them. -/
theorem run_keys_agree_two_lines :
    let settings : Settings :=
      { pairSymbols := false, convertBasic := false, convertFullWidth := false }
    let b (autoFormat : Bool) : Buffer :=
      { text := "字".toList, anchor := 1, head := 1,
        session := some { settings := { settings with autoFormat } } }
    let keys : List Keystroke := [.char 'o' .typed, .char 'k' .typed, .enter, .char 'a' .composed]
    let run (autoFormat : Bool) := (b autoFormat).run ((keys.take 4).map Keystroke.operation)
    (settings.Verbatim ∧ (b true).Holds { settings with autoFormat := true } "字".toList 1 ∧
      (b false).Holds { settings with autoFormat := false } "字".toList 1) ∧
      (run true).text = "字 ok\nA".toList ∧ (run false).text = "字ok\na".toList ∧
      (run true).Agrees (run false) := by
  intro settings b keys run
  have hverbatim : settings.Verbatim := ⟨rfl, rfl, rfl⟩
  have hholds : ∀ autoFormat,
      (b autoFormat).Holds { settings with autoFormat } "字".toList 1 := fun autoFormat =>
    ⟨⟨_, rfl, rfl⟩, rfl, rfl, rfl, Nat.le_refl 1⟩
  exact ⟨⟨hverbatim, hholds true, hholds false⟩, by decide +kernel, by decide +kernel,
    run_keys_agree settings hverbatim (hholds true) (hholds false) keys 4⟩

end Buffer

end TypingAid
