import TypingAid.Proofs.Line.Content
import TypingAid.Proofs.Line.NormalForm

/-!
# Where capitals come

A line may be set without capitals, with a capital for the sentence that the caret is in, or with
capitals for all sentences (`Style.withCapitals`).  The three results differ in letters only
(`formatLine_capitals`): a capital stands where a small letter stands without it, and where a
sentence starts with a word that takes one (`SentenceAt`).  With a caret there is one capital at
most, which is before the caret and among those of all sentences.

This holds under every scope.  A sentence starts where the lead of the line ends, and that is still
so in the new line, because spacing changes nothing up to there (`Tracked.lead_respace`).  All other
sentences start behind a break of the plain part that they are in, as it has been set
(`Inline.exists_of_mem_starts`).
-/

namespace TypingAid

open Text

variable {style : Style} {t u v w b : Text} {n : ℕ}

/-! ### Behind a break -/

/-- The place `n` is where a sentence break ends, together with the blanks behind it. -/
def Text.BehindBreak (t : Text) (n : ℕ) : Prop :=
  ∃ x mark gap y, t = x ++ mark :: (gap ++ y) ∧ n = x.length + 1 + gap.length ∧
    isSentenceBreak x.reverse mark (gap ++ y) = true ∧ (∀ c ∈ gap, isBlank c = true) ∧
    y.head?.any isBlank = false

theorem head?_dropWhile_isBlank (t : Text) : (t.dropWhile isBlank).head?.any isBlank = false := by
  induction t with
  | nil => rfl
  | cons c t ih => cases hc : isBlank c <;> simp [hc, ih]

theorem exists_of_mem_sentenceStartsFrom {k : ℕ} (h : n ∈ sentenceStartsFrom b k t) :
    ∃ x mark gap y, t = x ++ mark :: (gap ++ y) ∧ n = k + x.length + 1 + gap.length ∧
      isSentenceBreak (x.reverse ++ b) mark (gap ++ y) = true ∧ (∀ c ∈ gap, isBlank c = true) ∧
      y.head?.any isBlank = false := by
  induction t generalizing b k with
  | nil => cases h
  | cons c t ih =>
    by_cases hfirst : isSentenceBreak b c t = true ∧ n = k + 1 + (t.takeWhile isBlank).length
    · refine ⟨[], c, t.takeWhile isBlank, t.dropWhile isBlank, ?_, hfirst.2, ?_,
        fun c hc => List.mem_takeWhile_imp hc, head?_dropWhile_isBlank t⟩
      · rw [List.takeWhile_append_dropWhile]; rfl
      · rw [List.takeWhile_append_dropWhile]; exact hfirst.1
    · have hlater : n ∈ sentenceStartsFrom (c :: b) (k + 1) t := by
        rw [sentenceStartsFrom] at h
        split_ifs at h with hbreak
        · exact (List.mem_cons.1 h).resolve_left fun hn => hfirst ⟨hbreak, hn⟩
        · exact h
      obtain ⟨x, mark, gap, y, rfl, hn, hbreak, hrest⟩ := ih hlater
      refine ⟨c :: x, mark, gap, y, rfl, ?_, by simpa using hbreak, hrest⟩
      rw [hn, List.length_cons]; omega

theorem behindBreak_of_mem_sentenceStarts (h : n ∈ sentenceStarts t) : t.BehindBreak n := by
  obtain ⟨x, mark, gap, y, ht, hn, hbreak, hrest⟩ := exists_of_mem_sentenceStartsFrom h
  rw [Nat.zero_add] at hn
  rw [List.append_nil] at hbreak
  exact ⟨x, mark, gap, y, ht, hn, hbreak, hrest⟩

theorem Text.OpensAt.append {before : Option Char} (h : OpensAt before n t) (u : Text) :
    OpensAt before n (t ++ u) := by
  induction t generalizing before n with
  | nil =>
    cases n with
    | zero => cases u <;> exact h
    | succ n => exact h.elim
  | cons c t ih =>
    cases n with
    | zero => exact h
    | succ n => exact ih h

theorem Text.OpensAt.prepend {before : Option Char} (h : ∀ before, OpensAt before n t) (u : Text) :
    OpensAt before (u.length + n) (u ++ t) := by
  induction u generalizing before with
  | nil => rw [List.length_nil, Nat.zero_add]; exact h before
  | cons c u ih =>
    rw [List.length_cons, Nat.add_right_comm]
    exact ih

/-! ### The lead under a scope -/

theorem Text.EndsOpen.getElem? (h : EndsOpen n t) :
    ∃ a, t[n - 1]? = some a ∧ (isBlank a = true ∨ a = '>') := by
  obtain ⟨x, a, y, rfl, rfl, ha⟩ := h
  exact ⟨a, by simp, ha⟩

/-- A text that ends in neither a blank nor a quote mark is no lead. -/
theorem leadLength_ne_length {a : Char} (ha : isBlank a = false) (hquote : a ≠ '>') (u v : Text) :
    leadLength (u ++ a :: v) ≠ u.length + 1 := by
  intro hn
  obtain ⟨d, hd, hopen⟩ := (endsOpen_lead (t := u ++ a :: v) (by omega)).getElem?
  rw [hn, Nat.add_sub_cancel, List.getElem?_append_right le_rfl, Nat.sub_self] at hd
  obtain rfl : a = d := Option.some.inj hd
  rcases hopen with h | h
  · rw [ha] at h; cases h
  · exact hquote h

/-- A lead ends before a tight character. -/
theorem leadLength_lt_of_tight (h : u.getLast?.any isTight = true) (v : Text) :
    leadLength (u ++ v) < u.length := by
  obtain ⟨x, a, rfl⟩ : ∃ x a, u = x ++ [a] := by
    rcases List.eq_nil_or_concat u with rfl | ⟨x, a, rfl⟩
    · cases h
    · exact ⟨x, a, List.concat_eq_append⟩
  rw [List.getLast?_concat, Option.any_some] at h
  have htight : ((x ++ [a]).reverse ++ []).head?.any isTight = true := by simpa using h
  have hquote : a ≠ '>' := by rintro rfl; exact absurd h (by decide)
  -- what comes behind the character does not matter
  have halike : Alike ((x ++ [a]).reverse ++ []) v [] := .tight htight
  have hlead := (halike.prepend (x ++ [a])).leadLength_eq steady_nil
  have hne := leadLength_ne_length (isBlank_of_isTight h) hquote x v
  have hle := leadLength_le (x ++ [a] ++ [])
  rw [hlead] at hle
  simp only [List.append_assoc, List.singleton_append, List.length_append,
    List.length_singleton] at hle ⊢
  omega

/-- A lead ends before the word in front of a gap between words. -/
theorem leadLength_lt_of_wordGap (h : WordGap u.reverse v) : leadLength (u ++ v) < u.length := by
  obtain ⟨a, rest, hu, ha, hmark, -⟩ := h.behind
  have hquote : a ≠ '>' := by rintro rfl; exact hmark (by decide)
  have hu' : u = rest.reverse ++ [a] := by
    rw [← List.reverse_reverse u, hu, List.reverse_cons]
  have halike : Alike (u.reverse ++ []) v [' '] := .widen (by rwa [List.append_nil])
  have hlead := (halike.prepend u).leadLength_eq steady_nil
  have hle := leadLength_le (u ++ [' '])
  have hbefore : leadLength (u ++ v) ≠ u.length := by
    have := leadLength_ne_length ha hquote rest.reverse v
    rw [hu', List.append_assoc, List.singleton_append]
    simpa using this
  -- nor does the lead end with the character behind the gap
  have hbehind : leadLength (u ++ v) ≠ u.length + 1 := by
    cases v with
    | nil =>
      have := leadLength_le (u ++ [])
      rw [List.length_append, List.length_nil] at this
      omega
    | cons c v =>
      obtain ⟨hc, hcmark⟩ := h.head c rfl
      have hquote' : c ≠ '>' := by rintro rfl; exact hcmark (by decide)
      exact leadLength_ne_length hc hquote' u v
  rw [hlead, List.length_append, List.length_singleton] at hle
  omega

theorem exists_of_mem_gapsFrom {rule : GapRule} {offset : ℕ} {f : Fix}
    (h : f ∈ gapsFrom rule b offset t) : ∃ u c v, t = u ++ c :: v ∧
      f = ⟨offset + u.length, offset + u.length, [' ']⟩ ∧ rule (u.reverse ++ b) c = true := by
  induction t generalizing b offset with
  | nil => cases h
  | cons c t ih =>
    by_cases hfirst : rule b c = true ∧ f = ⟨offset, offset, [' ']⟩
    · exact ⟨[], c, t, rfl, hfirst.2, hfirst.1⟩
    · have hlater : f ∈ gapsFrom rule (c :: b) (offset + 1) t := by
        rw [gapsFrom] at h
        split_ifs at h with hr
        · exact (List.mem_cons.1 h).resolve_left fun hf => hfirst ⟨hr, hf⟩
        · exact h
      obtain ⟨u, d, v, rfl, rfl, hr⟩ := ih hlater
      refine ⟨c :: u, d, v, rfl, ?_, by simpa using hr⟩
      rw [List.length_cons, Nat.add_assoc, Nat.add_comm 1]

theorem exists_of_mem_loosenedFrom {before : Option Char} {offset : ℕ} {f : Fix}
    (h : f ∈ loosenedFrom before offset t) : ∃ u v, t = u ++ v ∧
      f.start = offset + u.length ∧ f.insert = [] ∧ (u.getLast?.or before).any isTight = true := by
  induction t generalizing before offset with
  | nil => cases h
  | cons c t ih =>
    rw [loosenedFrom] at h
    have hlater : f ∈ loosenedFrom (some c) (offset + 1) t → ∃ u v, c :: t = u ++ v ∧
        f.start = offset + u.length ∧ f.insert = [] ∧
          (u.getLast?.or before).any isTight = true := fun h => by
      obtain ⟨u, v, rfl, hstart, hinsert, htight⟩ := ih h
      refine ⟨c :: u, v, rfl, by rw [hstart, List.length_cons]; omega, hinsert, ?_⟩
      rw [List.getLast?_cons]
      cases hu : u.getLast? <;> simpa [hu] using htight
    split_ifs at h with hcond
    · rcases List.mem_cons.1 h with rfl | h
      · simp only [Bool.and_eq_true] at hcond
        exact ⟨[], c :: t, rfl, rfl, rfl, hcond.1.2⟩
      · exact hlater h
    · exact hlater h

/-- **Whichever fixes of a rule are carried out**, they come behind the lead and leave it as it
is. -/
theorem lead_applyFrom {rule : SpacingRule} (hrule : rule ∈ spacingRules style) (p : Fix → Bool)
    (t : Text) : leadLength (Fix.applyFrom 0 t ((rule t).filter p)) = leadLength t ∧
      (Fix.applyFrom 0 t ((rule t).filter p)).take (leadLength t) = t.take (leadLength t) := by
  cases hfixes : (rule t).filter p with
  | nil => exact ⟨rfl, rfl⟩
  | cons f rest =>
    have hf : f ∈ rule t := (List.mem_filter.1 (hfixes ▸ List.mem_cons_self)).1
    -- all that matters is what stands around the first fix
    obtain ⟨u, v, w, rfl, hw, hlt, halike⟩ : ∃ u v w, t = u ++ v ∧
        Fix.applyFrom 0 t (f :: rest) = u ++ w ∧ leadLength t < u.length ∧
        Alike (u.reverse ++ []) v w := by
      rw [spacingRules_eq, List.mem_append, List.mem_ite_nil_right, List.mem_singleton,
        List.mem_map] at hrule
      rcases hrule with ⟨-, rfl⟩ | ⟨g, hg, rfl⟩
      · obtain ⟨u, v, rfl, hstart, -, htight⟩ := exists_of_mem_loosenedFrom hf
        rw [Option.or_none] at htight
        refine ⟨u, v, f.insert ++ Fix.applyFrom f.stop ((u ++ v).drop f.stop) rest, rfl, ?_,
          leadLength_lt_of_tight htight v, .tight ?_⟩
        · rw [Fix.applyFrom, hstart, Nat.zero_add, Nat.sub_zero, Nat.sub_zero, List.take_left,
            List.append_assoc]
        · rw [List.append_nil, List.head?_reverse]; exact htight
      · obtain ⟨u, c, v, rfl, rfl, hfires⟩ := exists_of_mem_gapsFrom hf
        rw [List.append_nil] at hfires
        have hgap : WordGap u.reverse (c :: v) := wordGap_of_mem_gapRules hg hfires
        refine ⟨u, c :: v, ' ' :: Fix.applyFrom (0 + u.length) ((u ++ c :: v).drop (0 + u.length)) rest,
          rfl, ?_, leadLength_lt_of_wordGap hgap, .widen (by rwa [List.append_nil])⟩
        rw [Fix.applyFrom, Nat.zero_add, Nat.sub_zero, List.take_left, List.append_assoc]
        rfl
    rw [hw]
    refine ⟨(halike.prepend u).leadLength_eq steady_nil, ?_⟩
    rw [List.take_append_of_le_length hlt.le, List.take_append_of_le_length hlt.le]

/-- **Setting a text leaves its lead as it is**, under any scope. -/
theorem Tracked.lead_respace (style : Style) (t : Tracked) :
    leadLength (t.respace style).text = leadLength t.text ∧
      (t.respace style).text.take (leadLength t.text) = t.text.take (leadLength t.text) := by
  refine List.foldlRecOn (motive := fun t' : Tracked => leadLength t'.text = leadLength t.text ∧
    t'.text.take (leadLength t.text) = t.text.take (leadLength t.text)) (spacingRules style) _
    ⟨rfl, rfl⟩ ?_
  rintro t' ⟨hlead, htake⟩ rule hrule
  obtain ⟨hlead', htake'⟩ := lead_applyFrom hrule
    (fun f => Scope.touches t'.scope f.start f.stop) t'.text
  rw [hlead] at hlead' htake'
  exact ⟨hlead', htake'.trans htake⟩

/-! ### The part that a sentence is in -/

namespace Inline

/-- Of the parts `ps`, which are set to `plain`, the plain text `t` stands between the parts `l` and
`r`.  It has become `t'`, which stands between `x` and `z` and has the same lead. -/
structure SetsPlain (ps : List Inline) (plain : Text) (l r : List Inline) (t x t' z : Text) :
    Prop where
  parts : ∃ visible, ps = l ++ .leaf .text t visible :: r
  text : plain = x ++ (t' ++ z)
  before : bare x = bare (textOf l)
  image : bare t' = bare t
  behind : bare z = bare (textOf r)
  lead : leadLength t' = leadLength t ∧ t'.take (leadLength t) = t.take (leadLength t)

variable {caret : Option Int} {scope : Option Scope}

/-- **A sentence starts in a plain part**, where the first sentence of the line does, or behind a
break of the text that the part is set to. -/
theorem exists_of_mem_starts {first : Option ℕ} {start length : ℕ} {previous : Option Neighbour}
    {ps : List Inline} {m : ℕ × Bool}
    (h : m ∈ (formatAll style caret scope first start previous length ps).starts) :
    ∃ l r t x t' z n,
      SetsPlain ps (formatAll style caret scope first start previous length ps).text l r t x t' z ∧
      (l = [] → previous = none → x = []) ∧
      m = (length + x.length + n, startsSmallWord (t'.drop n)) ∧
      (n ∈ sentenceStarts t' ∨ first = some (start + (textOf l).length + n)) := by
  induction ps generalizing start length previous with
  | nil => cases h
  | cons p ps ih =>
    have hp := bare_format style caret scope start p
    rcases hnow : p.format style caret scope start with ⟨now, local?⟩
    rw [hnow] at hp
    rw [starts_formatAll_cons hnow] at h
    rw [text_formatAll_cons hnow]
    have hgap := bare_blankBetween style scope previous now
    have hnone : previous = none → blankBetween style scope previous now = [] := by rintro rfl; rfl
    generalize blankBetween style scope previous now = gap at h hgap hnone ⊢
    rcases List.mem_append.1 h with h | h
    · -- the sentence starts in the first part, which is plain text then
      cases hpt : p.isText with
      | false => rw [hpt] at h; cases h
      | true =>
        obtain ⟨t, visible, rfl⟩ := exists_of_isText hpt
        rw [format, if_pos rfl] at hnow
        obtain ⟨rfl, -⟩ := Prod.mk.inj hnow
        rw [hpt, if_pos rfl] at h
        obtain ⟨n, hn, rfl⟩ := List.mem_map.1 h
        refine ⟨[], ps, t, gap, _, _, n, ⟨⟨visible, rfl⟩, rfl, hgap, hp, bare_formatAll ..,
          Tracked.lead_respace style ⟨t, _, _⟩⟩, fun _ => hnone, rfl, ?_⟩
        rcases List.mem_append.1 hn with hn | hn
        · refine .inr ?_
          obtain ⟨s, hs, rfl⟩ := Option.map_eq_some_iff.1 (Option.mem_toList.1 hn)
          obtain ⟨hfirst, hrange⟩ := Option.filter_eq_some_iff.1 hs
          simp only [Bool.and_eq_true, decide_eq_true_eq] at hrange
          rw [hfirst, textOf, List.length_nil]
          congr 1
          omega
        · exact .inl hn
    · obtain ⟨l, r, t, x, t', z, n, ⟨⟨visible, rfl⟩, htext, hx, himage, hz, hlead⟩, -, rfl, hplace⟩ :=
        ih h
      refine ⟨p :: l, r, t, gap ++ (now.text ++ x), t', z, n, ⟨⟨visible, rfl⟩, ?_, ?_, himage, hz,
        hlead⟩, fun hl => absurd hl (List.cons_ne_nil _ _), ?_, ?_⟩
      · rw [htext]; simp only [List.append_assoc]
      · rw [bare_append, bare_append, hgap, hp, hx, textOf, bare_append, List.nil_append]
      · simp only [List.length_append, Prod.mk.injEq, and_true]; omega
      · rw [textOf, List.length_append, ← Nat.add_assoc]; exact hplace

/-- The lead of a line that starts with plain text is the lead of that text. -/
theorem leadLength_of_first {line t visible : Text} {r : List Inline}
    (hparts : parse line = .leaf .text t visible :: r) :
    line = t ++ textOf r ∧ leadLength line = leadLength t := by
  have hloose := loose_parse line
  have hsep := allSeparate_parse line
  have htext := textOf_parse line
  rw [hparts] at hloose hsep htext
  have hlead := leadLength_cons hloose hsep
  rw [htext] at hlead
  exact ⟨htext.symm, hlead⟩

/-- Where the lead of a line ends is in its first part. -/
theorem eq_nil_of_leadLength {line t visible : Text} {l r : List Inline}
    (hparts : parse line = l ++ .leaf .text t visible :: r)
    (hlead : (textOf l).length ≤ leadLength line) : l = [] := by
  have hloose := loose_parse line
  have hsep := allSeparate_parse line
  have htext := textOf_parse line
  rw [hparts] at hloose hsep htext
  cases l with
  | nil => rfl
  | cons p l =>
    exfalso
    rw [List.cons_append] at hloose hsep htext
    rw [← htext, leadLength_cons hloose hsep, textOf, List.length_append] at hlead
    split_ifs at hlead with hpt
    · -- another part stands between two plain ones
      cases l with
      | nil => exact absurd (hsep.2.1 hpt _ rfl) (by simp [isText])
      | cons q l =>
        have hq := List.length_pos_iff.2 hloose.tail.text_ne_nil
        have hle := leadLength_le p.text
        rw [textOf, List.length_append] at hlead
        omega
    · have hp := List.length_pos_iff.2 hloose.text_ne_nil
      omega

end Inline

/-- In `plain`, which the line is set to, a sentence starts at `i` with a word that takes a capital:
behind a break of the plain part that it is in, or right behind the lead of the line. -/
def SentenceAt (line plain : Text) (i : ℕ) : Prop :=
  ∃ l r t x t' z n, Inline.SetsPlain (Inline.parse line) plain l r t x t' z ∧ i = x.length + n ∧
    startsSmallWord (t'.drop n) = true ∧
    (t'.BehindBreak n ∨
      (l = [] ∧ x = [] ∧ n = leadLength line ∧ plain.take n = line.take n))

/-- **Capitals come where sentences start**, and no word goes on there. -/
theorem sentenceAt_of_mem_starts {line : Text} {caret : Option Int} {scope : Option Scope} {i : ℕ}
    (h : (i, true) ∈ (formatParts style line caret scope).starts) :
    SentenceAt line (formatParts style line caret scope).text i ∧
      OpensAt none i (formatParts style line caret scope).text := by
  obtain ⟨l, r, t, x, t', z, n, hset, hfirst, hm, hplace⟩ := Inline.exists_of_mem_starts h
  change Inline.SetsPlain _ (formatParts style line caret scope).text l r t x t' z at hset
  obtain ⟨hi, hword⟩ := Prod.mk.inj hm
  rw [Nat.zero_add] at hi
  have htext := hset.text
  rcases hplace with hbreak | hlead
  · refine ⟨⟨l, r, t, x, t', z, n, hset, hi, hword.symm,
      .inl (behindBreak_of_mem_sentenceStarts hbreak)⟩, ?_⟩
    have hopens := (opensAt_of_mem_sentenceStarts hbreak).2
    rw [hi, htext]
    exact OpensAt.prepend (fun before => (hopens before).append z) x
  · rw [Nat.zero_add] at hlead
    obtain ⟨visible, hparts⟩ := hset.parts
    obtain rfl : l = [] := Inline.eq_nil_of_leadLength hparts (by
      have := Option.some.inj hlead
      omega)
    obtain rfl : x = [] := hfirst rfl rfl
    have hn : leadLength line = n := by
      have := Option.some.inj hlead
      rwa [Inline.textOf, List.length_nil, Nat.zero_add] at this
    obtain ⟨hline, hleadLine⟩ := Inline.leadLength_of_first hparts
    rw [hn] at hleadLine
    rw [List.length_nil, Nat.zero_add] at hi
    rw [List.nil_append] at htext
    obtain ⟨hsame, hfront⟩ := hset.lead
    have hle := leadLength_le t
    have hle' := leadLength_le t'
    refine ⟨⟨[], r, t, [], t', z, n, hset, by simpa using hi, hword.symm, .inr ⟨rfl, rfl, hn.symm, ?_⟩⟩,
      ?_⟩
    · rw [htext, hline, List.take_append_of_le_length (by omega),
        List.take_append_of_le_length (by omega), hleadLine, hfront]
    · rw [hi, htext, hleadLine, ← hsame]
      exact Inline.opensAt_lead t' z

/-! ### Three ways to set a line -/

/-- The style without capitals, or with those of a mode. -/
def Style.withCapitals (style : Style) : Option CapitalMode → Style
  | none => { style with autoCapital := false }
  | some mode => { style with autoCapital := true, capitalMode := mode }

theorem Tracked.respace_withCapitals (style : Style) (mode : Option CapitalMode) (t : Tracked) :
    t.respace (style.withCapitals mode) = t.respace style := by
  cases mode <;> rfl

theorem needsBlank_withCapitals (style : Style) (mode : Option CapitalMode) (l r : Neighbour) :
    needsBlank (style.withCapitals mode) l r = needsBlank style l r := by
  cases mode <;> rfl

namespace Inline

mutual

theorem format_withCapitals (style : Style) (mode : Option CapitalMode) (caret : Option Int)
    (scope : Option Scope) (start : ℕ) : (p : Inline) →
    p.format (style.withCapitals mode) caret scope start = p.format style caret scope start
  | leaf kind t visible => by simp only [format, Tracked.respace_withCapitals]
  | emphasis marker inner => by
    simp only [format, formatAll_withCapitals style mode _ _ none 0 none 0 inner]

/-- Capitals do not matter for the parts that they come into. -/
theorem formatAll_withCapitals (style : Style) (mode : Option CapitalMode) (caret : Option Int)
    (scope : Option Scope) (first : Option ℕ) (start : ℕ) (previous : Option Neighbour)
    (length : ℕ) : (ps : List Inline) →
    formatAll (style.withCapitals mode) caret scope first start previous length ps =
      formatAll style caret scope first start previous length ps
  | [] => rfl
  | p :: ps => by
    simp only [formatAll, format_withCapitals style mode caret scope start p,
      needsBlank_withCapitals, formatAll_withCapitals style mode caret scope first _ _ _ ps]

end

end Inline

variable {line : Text} {caret : Option Int} {scope : Option Scope} {f : Formatted} {i j : ℕ}

theorem formatLine_withCapitals (hline : line ≠ []) (mode : Option CapitalMode) :
    formatLine (style.withCapitals mode) line caret scope =
      (raiseAt ((formatParts style line caret scope).raised (style.withCapitals mode)) 0
        (formatParts style line caret scope).text,
      (formatParts style line caret scope).caret.getD
        (formatParts style line caret scope).text.length) := by
  have hparts : formatParts (style.withCapitals mode) line caret scope =
      formatParts style line caret scope := Inline.formatAll_withCapitals ..
  rw [formatLine_eq hline, hparts, capitalize_eq, length_raiseAt]

/-! ### The capitals of the two modes -/

theorem raised_none (f : Formatted) : f.raised (style.withCapitals none) = [] := by
  simp [Formatted.raised, Style.withCapitals]

theorem raised_everywhere (f : Formatted) :
    f.raised (style.withCapitals (some .everywhere)) = (f.starts.filter (·.2)).map (·.1) := by
  simp only [Formatted.raised, Style.withCapitals, if_true, Style.chosenMarks]
  cases f.caret <;> rfl

/-- Without a caret all sentences get capitals. -/
theorem raised_typing_none (h : f.caret = none) :
    f.raised (style.withCapitals (some .typing)) =
      f.raised (style.withCapitals (some .everywhere)) := by
  simp [Formatted.raised, Style.withCapitals, Style.chosenMarks, h]

/-- With a caret the last sentence before it gets a capital, if any. -/
theorem raised_typing_some {c : Int} (h : f.caret = some c) :
    f.raised (style.withCapitals (some .typing)) =
      (((f.starts.filter fun m => (m.1 : Int) < c).getLast?.toList).filter (·.2)).map (·.1) := by
  simp [Formatted.raised, Style.withCapitals, Style.chosenMarks, h]

theorem lt_of_mem_raised_typing {c : Int} (h : f.caret = some c)
    (hi : i ∈ f.raised (style.withCapitals (some .typing))) : (i : Int) < c := by
  rw [raised_typing_some h] at hi
  obtain ⟨m, hm, rfl⟩ := List.mem_map.1 hi
  have hlast := Option.mem_toList.1 (List.mem_filter.1 hm).1
  exact of_decide_eq_true (List.mem_filter.1 (List.mem_of_getLast? hlast)).2

theorem eq_of_mem_raised_typing {c : Int} (h : f.caret = some c)
    (hi : i ∈ f.raised (style.withCapitals (some .typing)))
    (hj : j ∈ f.raised (style.withCapitals (some .typing))) : i = j := by
  rw [raised_typing_some h] at hi hj
  obtain ⟨m, hm, rfl⟩ := List.mem_map.1 hi
  obtain ⟨m', hm', rfl⟩ := List.mem_map.1 hj
  have hlast := Option.mem_toList.1 (List.mem_filter.1 hm).1
  have hlast' := Option.mem_toList.1 (List.mem_filter.1 hm').1
  rw [Option.mem_unique hlast hlast']

/-- The capitals of one sentence are among those of all. -/
theorem raised_typing_subset (hi : i ∈ f.raised (style.withCapitals (some .typing))) :
    i ∈ f.raised (style.withCapitals (some .everywhere)) := by
  have hstart := mem_starts_of_mem_raised hi
  rw [raised_everywhere]
  exact List.mem_map.2 ⟨(i, true), List.mem_filter.2 ⟨hstart, rfl⟩, rfl⟩

/-! ### Where two lines differ -/

/-- At `i` a small letter of one text is a capital in the other. -/
def Text.RaisedAt (t t' : Text) (i : ℕ) : Prop :=
  ∃ a, t[i]? = some a ∧ isSmall a = true ∧ t'[i]? = some a.toUpper

theorem mem_of_ne_raiseAt {N : List ℕ} (h : (raiseAt N 0 t)[i]? ≠ t[i]?) : i ∈ N := by
  by_contra hi
  refine h ?_
  rw [getElem?_raiseAt, Nat.zero_add]
  simp only [hi, if_false, Option.map_id']

theorem SentenceAt.isSmall (h : SentenceAt line t i) : ∃ a, t[i]? = some a ∧ isSmall a = true := by
  obtain ⟨l, r, u, x, t', z, n, hset, rfl, hword, -⟩ := h
  have hlt := lt_length_of_startsSmallWord hword
  rw [startsSmallWord, Bool.and_eq_true, List.head?_drop] at hword
  obtain ⟨a, ha, hsmall⟩ := (Option.any_eq_true _ _).1 hword.1
  refine ⟨a, ?_, hsmall⟩
  rw [hset.text, List.getElem?_append_right (Nat.le_add_right ..), Nat.add_sub_cancel_left,
    List.getElem?_append_left hlt, ha]

/-- A place that gets a capital holds a small letter, where a sentence starts. -/
theorem raisedAt_of_mem_raised {mode : CapitalMode}
    (hi : i ∈ (formatParts style line caret scope).raised (style.withCapitals (some mode))) :
    SentenceAt line (formatParts style line caret scope).text i ∧
      OpensAt none i (formatParts style line caret scope).text ∧
      ∀ N : List ℕ, i ∈ N → RaisedAt (formatParts style line caret scope).text
        (raiseAt N 0 (formatParts style line caret scope).text) i := by
  obtain ⟨hsentence, hopens⟩ := sentenceAt_of_mem_starts (mem_starts_of_mem_raised hi)
  obtain ⟨a, ha, hsmall⟩ := hsentence.isSmall
  refine ⟨hsentence, hopens, fun N hN => ⟨a, ha, hsmall, ?_⟩⟩
  rw [getElem?_raiseAt, ha, Nat.zero_add, Option.map_some, if_pos hN]

/-- **Capitals for one sentence are a restriction of capitals for all.**  The three ways to set a
line give lines of one length and the same caret.  Where one with capitals differs from the one
without, a small letter has become a capital where a sentence starts; if there is a caret and only
its sentence gets one, there is one such place at most, which is before the caret. -/
theorem formatLine_capitals (style : Style) (line : Text) (caret : Option Int)
    (scope : Option Scope) :
    let plain := formatLine (style.withCapitals none) line caret scope
    let typing := formatLine (style.withCapitals (some .typing)) line caret scope
    let all := formatLine (style.withCapitals (some .everywhere)) line caret scope
    (typing.1.length = plain.1.length ∧ all.1.length = plain.1.length) ∧
      (typing.2 = plain.2 ∧ all.2 = plain.2) ∧
      (∀ i : ℕ, typing.1[i]? ≠ plain.1[i]? → RaisedAt plain.1 typing.1 i ∧
        RaisedAt plain.1 all.1 i ∧ (i : Int) < plain.2) ∧
      (caret ≠ none →
        ∀ i j : ℕ, typing.1[i]? ≠ plain.1[i]? → typing.1[j]? ≠ plain.1[j]? → i = j) ∧
      (∀ i : ℕ, all.1[i]? ≠ plain.1[i]? → RaisedAt plain.1 all.1 i ∧ SentenceAt line plain.1 i ∧
        OpensAt none i plain.1) ∧
      (caret = none → typing = all) := by
  intro plain typing all
  by_cases hline : line = []
  · subst hline
    have hsame : ∀ i : ℕ, ¬ ([] : Text)[i]? ≠ ([] : Text)[i]? := fun i h => h rfl
    exact ⟨⟨rfl, rfl⟩, ⟨rfl, rfl⟩, fun i h => absurd h (hsame i),
      fun _ i _ h => absurd h (hsame i), fun i h => absurd h (hsame i), fun _ => rfl⟩
  · have hplain : plain = ((formatParts style line caret scope).text,
        (formatParts style line caret scope).caret.getD
          (formatParts style line caret scope).text.length) := by
      have hset : plain = _ := formatLine_withCapitals hline none
      rwa [raised_none, raiseAt_eq_self (by simp)] at hset
    have htyping : typing = _ := formatLine_withCapitals hline (some .typing)
    have hall : all = _ := formatLine_withCapitals hline (some .everywhere)
    have hcaret : caret ≠ none → ∃ c, (formatParts style line caret scope).caret = some c := by
      intro hne
      obtain ⟨c, rfl⟩ := Option.ne_none_iff_exists'.1 hne
      obtain ⟨y, hy, -⟩ := samePlace_formatParts hline style c scope
      exact ⟨y, hy⟩
    have hnone : caret = none → (formatParts style line caret scope).caret = none := by
      rintro rfl
      exact caret_formatParts_none style line scope
    rw [hplain, htyping, hall]
    dsimp only
    refine ⟨⟨length_raiseAt .., length_raiseAt ..⟩, ⟨rfl, rfl⟩, fun i h => ?_, fun hne i j hi hj => ?_,
      fun i h => ?_, fun h => ?_⟩
    · have hi := mem_of_ne_raiseAt h
      obtain ⟨-, -, hraised⟩ := raisedAt_of_mem_raised hi
      refine ⟨hraised _ hi, hraised _ (raised_typing_subset hi), ?_⟩
      cases hc : (formatParts style line caret scope).caret with
      | some c => exact lt_of_mem_raised_typing hc hi
      | none =>
        -- the caret comes to the end of the line
        obtain ⟨a, ha, -⟩ := hraised _ hi
        have := (List.getElem?_eq_some_iff.1 ha).1
        rw [Option.getD_none]
        omega
    · obtain ⟨c, hc⟩ := hcaret hne
      exact eq_of_mem_raised_typing hc (mem_of_ne_raiseAt hi) (mem_of_ne_raiseAt hj)
    · have hi := mem_of_ne_raiseAt h
      obtain ⟨hsentence, hopens, hraised⟩ := raisedAt_of_mem_raised hi
      exact ⟨hraised _ hi, hsentence, hopens⟩
    · rw [raised_typing_none (hnone h)]

/-- With the caret in the second of three sentences, of which the first stands behind a bullet. -/
theorem formatLine_capitals_bullet :
    let line : Text := "- so在. go on. ok".toList
    let set (mode : Option CapitalMode) := formatLine (Style.withCapitals {} mode) line (some 9) none
    set none = ("- so 在. go on. ok".toList, 10) ∧
      set (some .typing) = ("- so 在. Go on. ok".toList, 10) ∧
      set (some .everywhere) = ("- So 在. Go on. Ok".toList, 10) ∧
      SentenceAt line (set none).1 2 ∧ SentenceAt line (set none).1 8 := by
  intro line set
  have hplain : set none = ("- so 在. go on. ok".toList, 10) := by decide +kernel
  have hall : set (some .everywhere) = ("- So 在. Go on. Ok".toList, 10) := by decide +kernel
  obtain ⟨-, -, -, -, hcapitals, -⟩ := formatLine_capitals {} line (some 9) none
  change ∀ i : ℕ, (set (some .everywhere)).1[i]? ≠ (set none).1[i]? → _ at hcapitals
  have hplaces : (set (some .everywhere)).1[2]? ≠ (set none).1[2]? ∧
      (set (some .everywhere)).1[8]? ≠ (set none).1[8]? := by
    rw [hplain, hall]
    decide
  exact ⟨hplain, by decide +kernel, hall, (hcapitals 2 hplaces.1).2.1, (hcapitals 8 hplaces.2).2.1⟩

end TypingAid
