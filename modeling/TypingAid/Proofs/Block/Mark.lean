import TypingAid.Block.Basic
import TypingAid.Proofs.Text.Runs
import Mathlib.Tactic.Tauto

/-!
# Marks of blocks

What opens a block and what closes it again, said of the characters of the line (`Opens`, `Closes`).
A block whose opening line closes it as well is that line alone (`IsWhole`).

Classification finds these marks, and nothing else decides about a line:

* a line that opens a block belongs to it and leaves it open, unless it is all of it
  (`classifyOutside_of_opens`), and a line that opens none is prose (`classifyOutside_of_not_opens`);
* a line behind that one belongs to the block and leaves it open, unless it closes it
  (`Opens.classify`).

Carriage returns at the end of a line are no part of a mark; they have to be taken off before.
-/

namespace TypingAid

open Text

/-- What the lines of an open block are; where no block is open, they are prose. -/
def OpenBlock.kind : OpenBlock → LineKind
  | none => .text
  | code _ _ => .code
  | formula => .formula
  | frontMatter => .frontMatter

/-- The line, which has number `index`, opens a block if none is open before it. -/
inductive Opens (line : Text) (index : ℕ) : OpenBlock → Prop where
  | frontMatter (hindex : index = 0) (hline : line = frontMatterMark) :
      Opens line index .frontMatter
  /-- The run of marks is as long as it can be. -/
  | code {mark : Char} {width : ℕ} {blanks info : Text} (hmark : mark = backtick ∨ mark = '~')
      (hwidth : 3 ≤ width) (hblanks : ∀ c ∈ blanks, isBlank c = true)
      (hline : line = blanks ++ (List.replicate width mark ++ info))
      (hrun : info.head? ≠ some mark) (hinfo : mark = backtick → backtick ∉ info) :
      Opens line index (.code mark width)
  | formula (hline : formulaMark <+: Text.strip line) : Opens line index .formula

/-- The line closes an open block. -/
inductive Closes (line : Text) : OpenBlock → Prop where
  | frontMatter (hline : line = frontMatterMark ∨ line = ['.', '.', '.']) : Closes line .frontMatter
  | code {mark : Char} {width n : ℕ} {blanks blanks' : Text} (hwidth : width ≤ n)
      (hblanks : ∀ c ∈ blanks, isBlank c = true) (hblanks' : ∀ c ∈ blanks', isBlank c = true)
      (hline : line = blanks ++ (List.replicate n mark ++ blanks')) : Closes line (.code mark width)
  | formula (hline : formulaMark <:+ Text.strip line) : Closes line .formula

/-- The line opens the block and closes it as well. -/
def IsWhole (line : Text) (b : OpenBlock) : Prop :=
  b = .formula ∧ 4 ≤ (Text.strip line).length ∧ formulaMark <:+ Text.strip line

variable {line : Text} {n : ℕ} {b b' : OpenBlock}

/-! ### Fences -/

theorem isBlank_of_isFenceMark {c : Char} (h : c = backtick ∨ c = '~') : isBlank c = false := by
  rcases h with rfl | rfl <;> decide

/-- The fence that a line starts with: blanks, a run of marks, and what follows the run. -/
theorem Fence.ofLine?_eq_some_iff {f : Fence} : Fence.ofLine? line = some f ↔
    (f.mark = backtick ∨ f.mark = '~') ∧ 3 ≤ f.width ∧ f.info.head? ≠ some f.mark ∧
      ∃ blanks, (∀ c ∈ blanks, isBlank c = true) ∧
        line = blanks ++ (List.replicate f.width f.mark ++ f.info) := by
  constructor
  · intro h
    unfold Fence.ofLine? at h
    split at h
    · cases h
    · next c rest hs =>
      dsimp only at h
      split_ifs at h with hc
      cases h
      refine ⟨hc.1, hc.2, fun hhead => ?_, line.takeWhile isBlank,
        fun d hd => List.mem_takeWhile_imp hd, ?_⟩
      · have := head?_dropWhile (· = c) rest
        rw [hhead] at this
        simp at this
      · -- the run that is counted consists of nothing but the mark
        have hrun : rest.takeWhile (· = c) = List.replicate (rest.takeWhile (· = c)).length c :=
          List.eq_replicate_iff.2 ⟨rfl, fun d hd => by simpa using List.mem_takeWhile_imp hd⟩
        dsimp only
        rw [List.replicate_succ, List.cons_append, ← hrun, List.takeWhile_append_dropWhile, ← hs,
          Text.stripLeft, List.takeWhile_append_dropWhile]
  · obtain ⟨mark, width, info⟩ := f
    rintro ⟨hmark, hwidth, hrun, blanks, hblanks, rfl⟩
    dsimp only at hmark hwidth hrun ⊢
    obtain ⟨k, rfl⟩ : ∃ k, width = k + 1 := ⟨width - 1, by omega⟩
    rw [List.replicate_succ, List.cons_append]
    have hs : Text.stripLeft (blanks ++ mark :: (List.replicate k mark ++ info)) =
        mark :: (List.replicate k mark ++ info) :=
      dropWhile_append_stop hblanks (by simp [isBlank_of_isFenceMark hmark])
    have hinfo : info.head?.any (· = mark) = false := by
      cases info with
      | nil => rfl
      | cons c info => simpa using hrun
    have hmarks : ∀ c ∈ List.replicate k mark, decide (c = mark) = true := by simp
    rw [Fence.ofLine?, hs]
    dsimp only
    rw [takeWhile_append_stop hmarks hinfo, dropWhile_append_stop hmarks hinfo,
      List.length_replicate, if_pos ⟨hmark, hwidth⟩]

theorem Fence.opens_iff {f : Fence} :
    f.opens = true ↔ (f.mark = backtick → backtick ∉ f.info) := by
  simp only [Fence.opens, Bool.not_eq_true', Bool.and_eq_false_iff, beq_eq_false_iff_ne,
    List.contains_eq_mem, decide_eq_false_iff_not]
  tauto

theorem filter_opens_eq_some_iff {f : Fence} : (Fence.ofLine? line).filter Fence.opens = some f ↔
    Fence.ofLine? line = some f ∧ f.opens = true := by
  rw [Option.filter_eq_some_iff]

/-- Whether a line opens a code block does not depend on how many marks are counted. -/
theorem filter_opens_ne_none_iff :
    (Fence.ofLine? line).filter Fence.opens ≠ none ↔ ∃ (c : Char) (n : ℕ) (rest : Text),
      (c = backtick ∨ c = '~') ∧ 3 ≤ n ∧ Text.stripLeft line = List.replicate n c ++ rest ∧
        (c = backtick → backtick ∉ rest) := by
  rw [Option.ne_none_iff_exists']
  constructor
  · rintro ⟨f, hf⟩
    obtain ⟨hf, hopens⟩ := filter_opens_eq_some_iff.1 hf
    obtain ⟨hmark, hwidth, -, blanks, hblanks, rfl⟩ := Fence.ofLine?_eq_some_iff.1 hf
    refine ⟨f.mark, f.width, f.info, hmark, hwidth, ?_, Fence.opens_iff.1 hopens⟩
    obtain ⟨k, hk⟩ : ∃ k, f.width = k + 1 := ⟨f.width - 1, by omega⟩
    refine dropWhile_append_stop hblanks ?_
    simp [hk, List.replicate_succ, isBlank_of_isFenceMark hmark]
  · rintro ⟨c, n, rest, hc, hn, hs, hrest⟩
    -- `rest` may go on with the same mark, and the fence is longer then
    obtain ⟨info, hsplit, hrun, hinfo⟩ := exists_takeWhile (· = c) rest
    refine ⟨⟨c, n + (rest.takeWhile (· = c)).length, info⟩, filter_opens_eq_some_iff.2
      ⟨Fence.ofLine?_eq_some_iff.2 ⟨hc, by dsimp only; omega, fun hhead => ?_,
        line.takeWhile isBlank, fun d hd => List.mem_takeWhile_imp hd, ?_⟩,
      Fence.opens_iff.2 fun hb hm => hrest hb ?_⟩⟩
    · dsimp only at hhead
      simp [hhead] at hinfo
    · have hmarks : rest.takeWhile (· = c) = List.replicate (rest.takeWhile (· = c)).length c :=
        List.eq_replicate_iff.2 ⟨rfl, fun d hd => by simpa using hrun d hd⟩
      dsimp only
      rw [← List.replicate_append_replicate, ← hmarks, List.append_assoc, ← hsplit, ← hs, Text.stripLeft,
        List.takeWhile_append_dropWhile]
    · rw [hsplit]
      exact List.mem_append_right _ hm

/-! ### Formulas -/

theorem Text.dropTail_cons (p : Char → Bool) (c : Char) (t : Text) :
    dropTail p (c :: t) = if dropTail p t = [] ∧ p c = true then [] else c :: dropTail p t := by
  have hne : (t.reverse.dropWhile p).reverse = [] ↔ (t.reverse.dropWhile p).isEmpty = true := by
    simp
  simp only [dropTail, List.reverse_cons, List.dropWhile_append, hne]
  by_cases he : (t.reverse.dropWhile p).isEmpty = true
  · cases hp : p c <;> simp [hp, List.isEmpty_iff.1 he]
  · simp [he]

/-- Blanks at the end of a line do not matter for how it starts. -/
theorem isPrefixOf_strip_iff :
    formulaMark.isPrefixOf (Text.strip line) = true ↔
      ∃ rest, Text.stripLeft line = List.replicate 2 '$' ++ rest := by
  constructor
  · intro h
    obtain ⟨u, hu⟩ := List.isPrefixOf_iff_prefix.1 h
    have hpre : Text.strip line <+: Text.stripLeft line := by
      rw [Text.strip, dropTail]
      obtain ⟨v, hv⟩ := List.dropWhile_suffix isBlank (l := (Text.stripLeft line).reverse)
      exact ⟨v.reverse, by rw [← List.reverse_append, hv, List.reverse_reverse]⟩
    obtain ⟨v, hv⟩ := hpre
    exact ⟨u ++ v, by rw [← hv, ← hu]; simp [formulaMark, List.replicate]⟩
  · rintro ⟨rest, hs⟩
    have hd : ∀ t : Text, dropTail isBlank ('$' :: t) = '$' :: dropTail isBlank t := fun t => by
      rw [dropTail_cons, if_neg fun h => absurd h.2 (by decide)]
    rw [Text.strip, hs]
    simp only [List.replicate, List.cons_append, List.nil_append, hd]
    exact List.isPrefixOf_iff_prefix.2 ⟨dropTail isBlank rest, rfl⟩

/-- A line that starts with a formula mark starts with no fence. -/
theorem filter_opens_eq_none_of_formula (h : formulaMark <+: Text.strip line) :
    (Fence.ofLine? line).filter Fence.opens = none := by
  by_contra hne
  obtain ⟨c, n, rest, hc, hn, hs, -⟩ := filter_opens_ne_none_iff.1 hne
  obtain ⟨rest', hs'⟩ := isPrefixOf_strip_iff.1 (List.isPrefixOf_iff_prefix.2 h)
  obtain ⟨k, rfl⟩ : ∃ k, n = k + 1 := ⟨n - 1, by omega⟩
  rw [hs', List.replicate_succ, List.replicate_succ, List.cons_append, List.cons_append] at hs
  obtain ⟨rfl, -⟩ := List.cons.inj hs
  rcases hc with hc | hc <;> exact absurd hc (by decide)

/-! ### Outside of blocks -/

/-- What makes a line prose when no block is open before it. -/
theorem classifyOutside_eq_text_iff :
    classifyOutside line n = ⟨.text, .none⟩ ↔ ¬ (n = 0 ∧ line = frontMatterMark) ∧
      (Fence.ofLine? line).filter Fence.opens = none ∧
        formulaMark.isPrefixOf (Text.strip line) = false := by
  rw [classifyOutside]
  by_cases hfront : n = 0 ∧ line = frontMatterMark
  · simp [hfront]
  · cases hfence : (Fence.ofLine? line).filter Fence.opens with
    | some f => simp [hfront]
    | none =>
      cases hformula : formulaMark.isPrefixOf (Text.strip line) with
      | false => simp [hfront]
      | true =>
        simp only [hfront, if_false, if_true]
        split_ifs <;> simp

/-- A line that opens no block is prose. -/
theorem classifyOutside_of_not_opens (h : ∀ b, ¬ Opens line n b) :
    classifyOutside line n = ⟨.text, .none⟩ := by
  refine classifyOutside_eq_text_iff.2 ⟨fun hfront => h _ (.frontMatter hfront.1 hfront.2), ?_, ?_⟩
  · by_contra hne
    obtain ⟨f, hf⟩ := Option.ne_none_iff_exists'.1 hne
    obtain ⟨hf, hopens⟩ := filter_opens_eq_some_iff.1 hf
    obtain ⟨hmark, hwidth, hrun, blanks, hblanks, hline⟩ := Fence.ofLine?_eq_some_iff.1 hf
    exact h _ (.code hmark hwidth hblanks hline hrun (Fence.opens_iff.1 hopens))
  · refine Bool.eq_false_iff.2 fun hpre => h _ (.formula ?_)
    exact List.isPrefixOf_iff_prefix.1 hpre

/-- A line that opens a code block starts with its fence. -/
theorem Opens.exists_fence {mark : Char} {width : ℕ} (h : Opens line n (.code mark width)) :
    (mark = backtick ∨ mark = '~') ∧ 3 ≤ width ∧ ∃ info,
      (Fence.ofLine? line).filter Fence.opens = some ⟨mark, width, info⟩ := by
  cases h with
  | code hmark hwidth hblanks hline hrun hinfo =>
    exact ⟨hmark, hwidth, _, filter_opens_eq_some_iff.2
      ⟨Fence.ofLine?_eq_some_iff.2 ⟨hmark, hwidth, hrun, _, hblanks, hline⟩,
        Fence.opens_iff.2 hinfo⟩⟩

/-- A line that opens a block belongs to it, and leaves it open if it is not all of it. -/
theorem classifyOutside_of_opens (h : Opens line n b) :
    IsWhole line b ∧ classifyOutside line n = ⟨b.kind, .none⟩ ∨
      ¬ IsWhole line b ∧ classifyOutside line n = ⟨b.kind, b⟩ := by
  cases b with
  | none => cases h
  | frontMatter =>
    cases h with
    | frontMatter hindex hline =>
      rw [classifyOutside, if_pos ⟨hindex, hline⟩]
      exact .inr ⟨(nomatch ·.1), rfl⟩
  | code mark width =>
    obtain ⟨-, -, info, hfence⟩ := h.exists_fence
    have hfront : ¬ (n = 0 ∧ line = frontMatterMark) := by
      rintro ⟨-, rfl⟩
      cases hfence
    rw [classifyOutside, if_neg hfront, hfence]
    exact .inr ⟨(nomatch ·.1), rfl⟩
  | formula =>
    have hline : formulaMark <+: Text.strip line := by
      cases h with
      | formula hline => exact hline
    have hfront : ¬ (n = 0 ∧ line = frontMatterMark) := by
      rintro ⟨-, rfl⟩
      exact absurd hline (by decide)
    rw [classifyOutside, if_neg hfront, filter_opens_eq_none_of_formula hline]
    dsimp only
    rw [if_pos (List.isPrefixOf_iff_prefix.2 hline)]
    by_cases hwhole : IsWhole line .formula
    · rw [if_pos ⟨hwhole.2.1, List.isSuffixOf_iff_suffix.2 hwhole.2.2⟩]
      exact .inl ⟨hwhole, rfl⟩
    · rw [if_neg fun h => hwhole ⟨rfl, h.1, List.isSuffixOf_iff_suffix.1 h.2⟩]
      exact .inr ⟨hwhole, rfl⟩

theorem Opens.kind_ne_text (h : Opens line n b) : b.kind ≠ .text := by
  cases h <;> exact (nomatch ·)

/-- A line opens one block only. -/
theorem Opens.unique (h : Opens line n b) (h' : Opens line n b') : b = b' := by
  have hkind : b.kind = b'.kind := by
    rcases classifyOutside_of_opens h with ⟨-, h⟩ | ⟨-, h⟩ <;>
      rcases classifyOutside_of_opens h' with ⟨-, h'⟩ | ⟨-, h'⟩ <;>
        exact congrArg LineInfo.kind (h.symm.trans h')
  cases b <;> cases b' <;> first | rfl | cases hkind
  -- two code blocks, and the line starts with the fence of both
  obtain ⟨-, -, info, hfence⟩ := h.exists_fence
  obtain ⟨-, -, info', hfence'⟩ := h'.exists_fence
  cases hfence.symm.trans hfence'
  rfl

/-! ### Inside a block -/

/-- A fence closes a code block if its run is long enough and nothing but blanks follows it. -/
theorem any_closes_iff {mark : Char} {width : ℕ} (hmark : mark = backtick ∨ mark = '~')
    (hwidth : 3 ≤ width) :
    (Fence.ofLine? line).any (·.closes mark width) = true ↔ Closes line (.code mark width) := by
  rw [Option.any_eq_true]
  simp only [Fence.closes, Bool.and_eq_true, beq_iff_eq, decide_eq_true_eq, List.all_eq_true]
  constructor
  · rintro ⟨f, hf, ⟨rfl, hle⟩, hinfo⟩
    obtain ⟨-, -, -, blanks, hblanks, hline⟩ := Fence.ofLine?_eq_some_iff.1 hf
    exact .code hle hblanks hinfo hline
  · intro h
    cases h with
    | code hle hblanks hblanks' hline =>
      refine ⟨⟨mark, _, _⟩, Fence.ofLine?_eq_some_iff.2
        ⟨hmark, hwidth.trans hle, fun hhead => ?_, _, hblanks, hline⟩, ⟨rfl, hle⟩, hblanks'⟩
      have := hblanks' mark (List.mem_of_mem_head? hhead)
      rw [isBlank_of_isFenceMark hmark] at this
      cases this

/-- A line behind the one that opens a block belongs to the block, and leaves it open if it does not
close it. -/
theorem Opens.classify {opening : Text} (h : Opens opening n b) (line : Text) (i : ℕ) :
    Closes (dropTail (· = '\r') line) b ∧ classify line i b = ⟨b.kind, .none⟩ ∨
      ¬ Closes (dropTail (· = '\r') line) b ∧ classify line i b = ⟨b.kind, b⟩ := by
  unfold TypingAid.classify
  generalize dropTail (· = '\r') line = line
  have key (p : Prop) [Decidable p] (hp : p ↔ Closes line b) :
      Closes line b ∧ (⟨b.kind, if p then .none else b⟩ : LineInfo) = ⟨b.kind, .none⟩ ∨
        ¬ Closes line b ∧ (⟨b.kind, if p then .none else b⟩ : LineInfo) = ⟨b.kind, b⟩ := by
    split_ifs with hc
    · exact .inl ⟨hp.1 hc, rfl⟩
    · exact .inr ⟨fun h => hc (hp.2 h), rfl⟩
  cases b with
  | none => cases h
  | frontMatter =>
    refine key _ ⟨.frontMatter, fun h => ?_⟩
    cases h with
    | frontMatter hline => exact hline
  | code mark width =>
    obtain ⟨hmark, hwidth, -⟩ := h.exists_fence
    exact key _ (any_closes_iff hmark hwidth)
  | formula =>
    refine key _ ⟨fun h => .formula (List.isSuffixOf_iff_suffix.1 h), fun h => ?_⟩
    cases h with
    | formula hline => exact List.isSuffixOf_iff_suffix.2 hline

end TypingAid
