import TypingAid.Proofs.Line.Unmarked
import TypingAid.Proofs.Session.Command
import TypingAid.Proofs.Text.Pieces

/-!
# Articles

`Style.article` is a text in which each line of prose has been set.  It is what the command for the
whole document makes of a text (`onText_formatArticle`), and a line that is set stays what it was
(`classify_setLine`), so that the article can be said of one line after the other.

Of a text without marks no line opens anything but front matter.  Then the last line is set by the
spacing rules alone, unless front matter is open before it (`Text.Unmarked.setLine_none`).
-/

namespace TypingAid

open Text Outline

variable {style : Style} {t l y : Text} {ls ms : List Text} {i n : ℕ} {b : OpenBlock} {c : Char}

/-- A line with the given number behind an open block, set if it is prose. -/
def Style.setLine (style : Style) (i : ℕ) (b : OpenBlock) (l : Text) : Text :=
  if (classify l i b).kind = .text then (formatLine style l).1 else l

/-- Lines, the first of which has number `i`, behind an open block; prose is set. -/
def Style.setLines (style : Style) : ℕ → OpenBlock → List Text → List Text
  | _, _, [] => []
  | i, b, l :: ls => style.setLine i b l :: setLines style (i + 1) (classify l i b).after ls

/-- A text in which every line of prose has been set. -/
def Style.article (style : Style) (t : Text) : Text := ofLines (style.setLines 0 .none (lines t))

/-- The block that is open behind lines. -/
def openBehind : ℕ → OpenBlock → List Text → OpenBlock
  | _, b, [] => b
  | i, b, l :: ls => openBehind (i + 1) (classify l i b).after ls

/-! ### Lines one after the other -/

theorem openAt_scan (ls : List Text) (i : ℕ) (b : OpenBlock) :
    openAt (scan ls i b) b ls.length = openBehind i b ls := by
  induction ls generalizing i b with
  | nil => rfl
  | cons l ls ih =>
    rw [openBehind, ← ih]
    cases ls with
    | nil => rfl
    | cons m ls => rfl

theorem setLines_append (style : Style) (ls ms : List Text) (i : ℕ) (b : OpenBlock) :
    style.setLines i b (ls ++ ms) =
      style.setLines i b ls ++ style.setLines (i + ls.length) (openBehind i b ls) ms := by
  induction ls generalizing i b with
  | nil => rfl
  | cons m ls ih =>
    rw [List.cons_append, Style.setLines, ih, Style.setLines, openBehind, List.length_cons,
      Nat.add_right_comm i]
    rfl

theorem length_setLines (style : Style) (ls : List Text) (i : ℕ) (b : OpenBlock) :
    (style.setLines i b ls).length = ls.length := by
  induction ls generalizing i b with
  | nil => rfl
  | cons l ls ih => rw [Style.setLines, List.length_cons, List.length_cons, ih]

/-- A line is what it was after it has been set. -/
theorem classify_setLine (style : Style) (l : Text) (i : ℕ) (b : OpenBlock) :
    classify (style.setLine i b l) i b = classify l i b := by
  rw [Style.setLine]
  split_ifs with h
  · exact classify_formatLine style h none none
  · rfl

theorem openBehind_setLines (style : Style) (ls : List Text) (i : ℕ) (b : OpenBlock) :
    openBehind i b (style.setLines i b ls) = openBehind i b ls := by
  induction ls generalizing i b with
  | nil => rfl
  | cons l ls ih => rw [Style.setLines, openBehind, openBehind, classify_setLine, ih]

theorem newline_not_mem_setLines (h : ∀ l ∈ ls, '\n' ∉ l) :
    ∀ l ∈ style.setLines i b ls, '\n' ∉ l := by
  induction ls generalizing i b with
  | nil => exact fun l hl => absurd hl List.not_mem_nil
  | cons m ls ih =>
    intro l hl
    rcases List.mem_cons.1 hl with rfl | hl
    · have hm := h m List.mem_cons_self
      rw [Style.setLine]
      split_ifs
      · exact newline_not_mem_formatLine style hm none none
      · exact hm
    · exact ih (fun l hl => h l (List.mem_cons_of_mem _ hl)) l hl

/-! ### The command for the whole document -/

theorem isProse_of_getElem? {o : Outline} {info : LineInfo} (h : o.lines[n]? = some info) :
    o.isProse n = decide (info.kind = .text) := by
  rw [isProse, kind?, if_neg (by omega), Int.toNat_natCast, h, Option.map_some]
  cases info.kind <;> rfl

theorem mapIdx_eq_setLines {o : Outline} (h : ∀ k, o.lines[i + k]? = (scan ls i b)[k]?) :
    (ls.mapIdx fun k l => if o.isProse (i + k : ℕ) then (formatLine style l).1 else l) =
      style.setLines i b ls := by
  induction ls generalizing i b with
  | nil => rfl
  | cons l ls ih =>
    have hfirst : o.isProse (i + 0 : ℕ) = decide ((classify l i b).kind = .text) :=
      isProse_of_getElem? (h 0)
    have hrest : ∀ k, o.lines[i + 1 + k]? = (scan ls (i + 1) (classify l i b).after)[k]? := by
      intro k
      have := h (k + 1)
      rwa [scan, List.getElem?_cons_succ, ← Nat.add_assoc, Nat.add_right_comm] at this
    have hplace : (fun k l => if o.isProse (i + (k + 1) : ℕ) then (formatLine style l).1 else l) =
        fun k l => if o.isProse (i + 1 + k : ℕ) then (formatLine style l).1 else l := by
      funext k l
      rw [Nat.add_assoc, Nat.add_comm 1 k]
    rw [List.mapIdx_cons, hfirst, hplace, ih hrest, Style.setLines, Style.setLine]
    simp only [decide_eq_true_eq]

/-- The command for the whole document sets its prose. -/
theorem ofLines_formatLines {s : Session} (h : s.outline = .ofText t) :
    ofLines (s.formatLines 0 (lines t)) = s.settings.style.article t := by
  have hlines : ∀ k, s.outline.lines[0 + k]? = (scan (lines t) 0 .none)[k]? := by
    intro k
    rw [h, Nat.zero_add]
    rfl
  rw [Style.article, ← mapIdx_eq_setLines hlines, Session.formatLines]
  simp only [Int.natCast_zero, Nat.zero_add, Int.zero_add]

theorem onText_formatArticle {s : Session} {view : HostView} (hs : s.outline = .ofText view.text)
    (hview : view.Shows view.text) :
    (s.formatArticle (some view)).actions.foldl HostAction.onText view.text =
      s.settings.style.article view.text := by
  have hstep : (s.formatArticle (some view)).InStep view.text :=
    Session.inStep_formatArticle hs fun v hv => Option.some.inj hv ▸ hview
  have hempty : s.outline.isEmpty = false := by rw [hs, isEmpty_ofText]
  have hcontent : (s.formatArticle (some view)).session.outline.content =
      s.settings.style.article view.text := by
    simp only [Session.formatArticle, hempty, Bool.false_eq_true, if_false,
      Session.sync_of_outline hs, ofLines_formatLines hs]
    split_ifs with hsame
    · rw [hs]
      exact hsame.symm
    · rfl
  rwa [hstep] at hcontent

/-! ### The last line -/

/-- What stands above the last line, set. -/
def Style.above (style : Style) (t : Text) : Text :=
  (style.setLines 0 .none (lines t).dropLast).flatMap (· ++ ['\n'])

theorem ofLines_concat (ls : List Text) (l : Text) :
    ofLines (ls ++ [l]) = ls.flatMap (· ++ ['\n']) ++ l := by
  induction ls with
  | nil => exact List.intercalate_singleton
  | cons m ls ih =>
    have hcons : ofLines (m :: (ls ++ [l])) = m ++ ['\n'] ++ ofLines (ls ++ [l]) :=
      List.intercalate_cons_of_ne_nil (by simp)
    rw [List.cons_append, hcons, ih, List.flatMap_cons, List.append_assoc (m ++ _)]

/-- An article is what stands above its last line, and that line; so it is when there is more on that
line. -/
theorem article_append (style : Style) (t : Text) (hl : '\n' ∉ l) :
    style.article (t ++ l) = style.above t ++
      style.setLine (t.count '\n') (openBehind 0 .none (lines t).dropLast) (lastLine t ++ l) := by
  rw [Style.article, lines_append, firstLine_of_not_mem hl, lines_of_not_mem hl, List.tail_cons,
    setLines_append, Nat.zero_add, length_dropLast_lines]
  exact ofLines_concat _ _

theorem article_eq (style : Style) (t : Text) :
    style.article t = style.above t ++
      style.setLine (t.count '\n') (openBehind 0 .none (lines t).dropLast) (lastLine t) := by
  have h := article_append style t (l := []) List.not_mem_nil
  rwa [List.append_nil, List.append_nil] at h

/-- A line break at the end of a text stays there. -/
theorem article_newline (style : Style) (t : Text) :
    style.article (t ++ ['\n']) = style.article t ++ ['\n'] := by
  have hlines : lines (t ++ ['\n']) = lines t ++ [[]] := lines_append_newline t []
  have hnil : ∀ i b, style.setLine i b [] = [] := fun i b => by
    rw [Style.setLine]
    split_ifs <;> rfl
  have hlast : style.article (t ++ ['\n']) =
      (style.setLines 0 .none (lines t)).flatMap (· ++ ['\n']) := by
    rw [Style.article, hlines, setLines_append, Style.setLines, hnil, Style.setLines,
      ofLines_concat, List.append_nil]
  rw [hlast, article_eq, lines_eq_dropLast_append, setLines_append, List.flatMap_append,
    Nat.zero_add, length_dropLast_lines, List.dropLast_concat]
  simp only [Style.setLines, List.flatMap_cons, List.flatMap_nil, List.append_nil, Style.above,
    List.append_assoc]

theorem lines_above_append (style : Style) (t : Text) (hl : '\n' ∉ l) :
    lines (style.above t ++ l) = style.setLines 0 .none (lines t).dropLast ++ [l] := by
  rw [Style.above, ← ofLines_concat]
  refine lines_ofLines (by simp) fun m hm => ?_
  rcases List.mem_append.1 hm with hm | hm
  · exact newline_not_mem_setLines
      (fun k hk => newline_not_mem_of_mem_lines ((List.dropLast_sublist _).subset hk)) m hm
  · rwa [List.mem_singleton.1 hm]

theorem lastLine_above (style : Style) (t : Text) : lastLine (style.above t) = [] := by
  have h := lines_above_append style t (l := []) List.not_mem_nil
  rw [List.append_nil, lines_eq_dropLast_append] at h
  exact List.singleton_injective (List.append_inj' h rfl).2

theorem count_above_append (style : Style) (t : Text) (hl : '\n' ∉ l) :
    (style.above t ++ l).count '\n' = t.count '\n' := by
  have h := congrArg List.length (lines_above_append style t hl)
  rw [length_lines, List.length_append, length_setLines, length_dropLast_lines] at h
  exact Nat.add_right_cancel h

/-- Whether the line `l` below what stands above the last line is prose, whatever follows it. -/
theorem isProse_above_append (style : Style) (t : Text) (hl : '\n' ∉ l) (hy : firstLine y = []) :
    (ofText (style.above t ++ l ++ y)).isProse (t.count '\n') =
      decide ((classify l (t.count '\n') (openBehind 0 .none (lines t).dropLast)).kind = .text) := by
  have hlines : lines (style.above t ++ l ++ y) =
      style.setLines 0 .none (lines t).dropLast ++ l :: (lines y).tail := by
    rw [lines_append, hy, List.append_nil, lines_above_append style t hl, List.dropLast_concat,
      lastLine_append (lastLine_above style t) hl]
  have hlength : (scan (style.setLines 0 .none (lines t).dropLast) 0 .none).length =
      t.count '\n' := by
    rw [length_scan, length_setLines, length_dropLast_lines]
  refine isProse_of_getElem? ?_
  rw [ofText, hlines, scan_append, openAt_scan, openBehind_setLines,
    List.getElem?_append_right hlength.le, hlength, Nat.sub_self, scan, length_setLines,
    length_dropLast_lines, Nat.zero_add, List.getElem?_cons_zero]

/-! ### Text without marks -/

/-- A line of a text stands in it. -/
theorem exists_of_mem_lines (h : l ∈ lines t) : ∃ x y : Text, t = x ++ (l ++ y) := by
  obtain ⟨n, hn, rfl⟩ := List.getElem_of_mem h
  obtain ⟨x, y, ht, -⟩ := exists_line hn
  exact ⟨x, y, ht⟩

namespace Text.Unmarked

theorem of_mem_lines (h : t.Unmarked) (hl : l ∈ lines t) : l.Unmarked := by
  obtain ⟨x, y, rfl⟩ := exists_of_mem_lines hl
  exact h.part ⟨x, y, List.append_assoc ..⟩

/-- Outside of front matter, such a line is prose, or it opens front matter. -/
theorem classify_none (h : l.Unmarked) (n : ℕ) : classify l n .none = ⟨.text, .none⟩ ∨
    classify l n .none = ⟨.frontMatter, .frontMatter⟩ ∧
      dropTail (· = '\r') l = frontMatterMark := by
  by_cases hfront : n = 0 ∧ dropTail (· = '\r') l = frontMatterMark
  · right
    refine ⟨?_, hfront.2⟩
    rw [classify, classifyOutside, if_pos hfront]
  · left
    have hmark : ∀ {m : Char} {k : ℕ} {rest : Text}, m ∈ spanMarks → 0 < k →
        stripLeft (dropTail (· = '\r') l) ≠ List.replicate k m ++ rest := by
      intro m k rest hm hk hs
      have hmem : m ∈ stripLeft (dropTail (· = '\r') l) := by
        rw [hs]
        exact List.mem_append_left _ (List.mem_replicate.2 ⟨hk.ne', rfl⟩)
      exact h.marks m (mem_of_mem_dropTail ((List.dropWhile_sublist _).subset hmem)) hm
    refine classifyOutside_eq_text_iff.2 ⟨hfront, ?_, ?_⟩
    · by_contra hfence
      obtain ⟨m, k, rest, hm, hk, hs, -⟩ := filter_opens_ne_none_iff.1 hfence
      refine hmark ?_ (by omega) hs
      rcases hm with rfl | rfl <;> decide
    · refine Bool.eq_false_iff.2 fun hformula => ?_
      obtain ⟨rest, hs⟩ := isPrefixOf_strip_iff.1 hformula
      exact hmark (by decide) (by omega) hs

theorem openBehind_eq (h : ∀ l ∈ ls, l.Unmarked) (hb : b = .none ∨ b = .frontMatter) :
    openBehind i b ls = .none ∨ openBehind i b ls = .frontMatter := by
  induction ls generalizing i b with
  | nil => exact hb
  | cons l ls ih =>
    refine ih (fun m hm => h m (List.mem_cons_of_mem _ hm)) ?_
    rcases hb with rfl | rfl
    · rcases (h l List.mem_cons_self).classify_none i with hl | ⟨hl, -⟩
      · exact .inl (by rw [hl])
      · exact .inr (by rw [hl])
    · rw [classify]
      split_ifs
      · exact .inl rfl
      · exact .inr rfl

/-- The line that opens front matter has nothing to space. -/
theorem settled_front (style : Style) (h : dropTail (· = '\r') l = frontMatterMark) :
    Settled style l := by
  refine settled_of_forall style fun c hc => ?_
  have hchar : c = '\r' ∨ c = '-' := by
    rcases mem_or_of_mem_dropTail (p := (· = '\r')) hc with h' | h'
    · exact .inl (by simpa using h')
    · rw [h] at h'
      exact .inr (by simpa [frontMatterMark] using h')
  rcases hchar with rfl | rfl <;> decide

/-- Outside of front matter, such a line is set by the spacing rules alone. -/
theorem setLine_none (h : l.Unmarked) (hstyle : style.autoCapital = false) (n : ℕ) :
    style.setLine n .none l = style.respace l := by
  rw [Style.setLine]
  rcases h.classify_none n with hl | ⟨hl, hfront⟩
  · rw [hl, if_pos rfl, h.plain.formatLine_fst hstyle]
  · rw [hl, if_neg (by decide), (settled_front style hfront).respace_eq]

/-- A line that one more character keeps from being prose has nothing to space. -/
theorem respace_concat_of_kind (h : (l ++ [c]).Unmarked)
    (hkind : (classify (style.respace l ++ [c]) n .none).kind ≠ .text) :
    style.respace (l ++ [c]) = style.respace l ++ [c] := by
  rcases h.classify_none n with hl | ⟨-, hfront⟩
  · have htouches : Touches OpenGap (l ++ [c]) (style.respace l ++ [c]) :=
      (touches_respace (fun _ _ => FillableGap.isBlank_eq) l).append_right [c]
    refine absurd ?_ hkind
    rw [htouches.preserve (P := fun t => classify t n .none = ⟨.text, .none⟩) classify_of_touch hl]
  · have hsettled := settled_front style hfront
    rw [hsettled.respace_eq, hsettled.of_append.respace_eq]

end Text.Unmarked

theorem setLine_frontMatter (style : Style) (n : ℕ) (l : Text) :
    style.setLine n .frontMatter l = l := by
  rw [Style.setLine, if_neg]
  intro h
  cases h

end TypingAid
