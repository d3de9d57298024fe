import TypingAid.Proofs.Inline.Settled
import TypingAid.Proofs.Line.Caret
import TypingAid.Proofs.Line.Lead

/-!
# Capitals in the parts of a line

The sentence starts of a line are those of its plain parts outside of emphasis, and the place where
its lead ends if that lies in the first part (`Inline.starts`).  They are the same for the parts
that formatting goes through (`starts_formatAll`), for these parts with the blanks joined to plain
text (`starts_glueAll`), and for the parts with capitals (`Inline.starts_raiseAt`), in which no word
takes a capital any more where one has been given.
-/

namespace TypingAid

open Text Recognised

variable {style : Style}

/-- The sentence starts of a text at `k`, with the first sentence of the line if it starts there: the
places, and whether a word stands there that takes a capital. -/
def Text.starts (first : Option ℕ) (k : ℕ) (t : Text) : List (ℕ × Bool) :=
  (first.toList ++ sentenceStarts t).map fun n => (k + n, startsSmallWord (t.drop n))

/-- What matters of a sentence start for capitals. -/
def SentenceStart.mark (s : SentenceStart) : ℕ × Bool := (s.offset, startsSmallWord s.rest)

theorem map_mark_sentences (s : TextSpan) :
    s.sentences.map SentenceStart.mark = s.text.starts s.firstSentence s.start := by
  simp [TextSpan.sentences, Text.starts, SentenceStart.mark, Function.comp_def]

/-- The sentence starts of formatted parts. -/
def Formatted.starts (f : Formatted) : List (ℕ × Bool) :=
  f.spans.flatMap fun s => s.sentences.map SentenceStart.mark

/-- The sentence starts that get a capital: the last one before the caret, or all of them. -/
def Style.chosenMarks (style : Style) (caret : Option Int) (marks : List (ℕ × Bool)) :
    List (ℕ × Bool) :=
  match caret, style.capitalMode with
  | some c, .typing => ((marks.filter fun m => (m.1 : Int) < c).getLast?).toList
  | _, _ => marks

/-- The places in formatted parts that get a capital. -/
def Formatted.raised (style : Style) (f : Formatted) : List ℕ :=
  if style.autoCapital then ((style.chosenMarks f.caret f.starts).filter (·.2)).map (·.1) else []

theorem map_mark_chosenSentences (caret : Option Int) (all : List SentenceStart) :
    (style.chosenSentences caret all).map SentenceStart.mark =
      style.chosenMarks caret (all.map SentenceStart.mark) := by
  unfold Style.chosenSentences Style.chosenMarks
  cases caret with
  | none => rfl
  | some c =>
    cases style.capitalMode with
    | typing => dsimp only; rw [List.filter_map, List.getLast?_map, Option.toList_map]; rfl
    | everywhere => rfl

/-- **Capitals come where a chosen sentence starts with a word that takes one.** -/
theorem capitalize_eq (f : Formatted) : f.capitalize style = raiseAt (f.raised style) 0 f.text := by
  rw [Formatted.capitalize, Formatted.raised]
  split_ifs
  · have hstarts : f.starts = (f.spans.flatMap TextSpan.sentences).map SentenceStart.mark := by
      rw [Formatted.starts, List.map_flatMap]
    rw [foldl_capitalizeAt, hstarts, ← map_mark_chosenSentences, List.filter_map, List.map_map]
    rfl
  · exact (raiseAt_eq_self (by simp)).symm

theorem mem_of_mem_chosenMarks {caret : Option Int} {marks : List (ℕ × Bool)} {m : ℕ × Bool}
    (h : m ∈ style.chosenMarks caret marks) : m ∈ marks := by
  unfold Style.chosenMarks at h
  split at h
  · exact List.mem_of_mem_filter (List.mem_of_getLast? (Option.mem_toList.1 h))
  · exact h

theorem mem_starts_of_mem_raised {f : Formatted} {n : ℕ} (h : n ∈ f.raised style) :
    (n, true) ∈ f.starts := by
  rw [Formatted.raised] at h
  split_ifs at h
  · obtain ⟨⟨n, b⟩, hm, rfl⟩ := List.mem_map.1 h
    obtain ⟨hm, hb⟩ := List.mem_filter.1 hm
    rw [← show b = true from hb]
    exact mem_of_mem_chosenMarks hm
  · cases h

/-- Marks at the same places are chosen alike. -/
theorem forall₂_chosenMarks (style : Style) {R : ℕ × Bool → ℕ × Bool → Prop}
    (hR : ∀ m m', R m m' → m'.1 = m.1) (caret : Option Int) {marks marks' : List (ℕ × Bool)}
    (h : List.Forall₂ R marks marks') :
    List.Forall₂ R (style.chosenMarks caret marks) (style.chosenMarks caret marks') := by
  unfold Style.chosenMarks
  split
  · next c _ =>
    have hfilter : List.Forall₂ R (marks.filter fun m => (m.1 : Int) < c)
        (marks'.filter fun m => (m.1 : Int) < c) :=
      List.rel_filter (fun m m' hm => by dsimp only; rw [hR m m' hm]) h
    -- the last mark is the first one from behind
    have hreverse := List.rel_reverse hfilter
    rw [List.getLast?_eq_head?_reverse, List.getLast?_eq_head?_reverse]
    generalize (marks.filter fun m => (m.1 : Int) < c).reverse = l at hreverse ⊢
    generalize (marks'.filter fun m => (m.1 : Int) < c).reverse = l' at hreverse ⊢
    cases hreverse with
    | nil => exact .nil
    | cons hm _ => exact .cons hm .nil
  · exact h

namespace Inline

/-- The sentence starts of parts at `k`. -/
def starts (first : Option ℕ) (k : ℕ) : List Inline → List (ℕ × Bool)
  | [] => []
  | p :: ps => (if p.isText then p.text.starts first k else []) ++ starts none (k + p.text.length) ps

theorem starts_blank (k : ℕ) (ps : List Inline) :
    starts none k (blank :: ps) = starts none (k + 1) ps := rfl

/-! ### Spans and the lead -/

theorem checkBoxLength_link {shown rest : Text} (h : ∀ c ∈ shown, within ']' c = true) :
    checkBoxLength ('[' :: (shown ++ ']' :: '(' :: rest)) = 0 := by
  match shown, h with
  | [], _ => exact checkBoxLength_of_content (by simp [boxContent])
  | [c], _ =>
    by_cases hc : c ∈ boxContent
    · simp only [List.singleton_append]
      rw [checkBoxLength_box hc]
      rfl
    · exact checkBoxLength_of_content (by simpa using hc)
  | c :: d :: shown, h =>
    refine checkBoxLength_of_closing fun hd => ?_
    have := h d (by simp)
    rw [show d = ']' from Option.some.inj hd] at this
    exact absurd this (by decide)

/-- **A lead does not reach into a span.** -/
theorem inert_of_spanAt? {t : Text} {r : Recognised} (h : spanAt? t = some r) : Inert t := by
  -- no mark of a lead starts with one of these; brackets and stars have to be looked at
  have hother : ∀ {c : Char}, t.head? = some c → c ∈ ['\x60', '$', '!', 'h', 'f', '_', '~', '='] →
      Inert t := by
    intro c hc hmem
    obtain ⟨u, rfl⟩ := List.head?_eq_some_iff.1 hc
    have key : ∀ d ∈ ['\x60', '$', '!', 'h', 'f', '_', '~', '='],
        d ∈ spanHeads ∧ d ∉ ['-', '+', '*', '>', '#'] ∧ Unicode.isDecimal d = false ∧ d ≠ '[' := by
      decide +kernel
    obtain ⟨h1, h2, h3, h4⟩ := key c hmem
    exact ⟨by simpa using h1, markLength_of_other h2 h3 u, checkBoxLength_of_head? (by simpa)⟩
  have hbracket : ∀ {u : Text}, t = '[' :: u → checkBoxLength ('[' :: u) = 0 → Inert t := by
    rintro u rfl hbox
    have hhead : '[' ∈ spanHeads := by decide
    exact ⟨by simpa using hhead, markLength_of_other (by decide) (by decide +kernel) u, hbox⟩
  rcases spanAt?_eq_some_iff.1 h with h | h | h | h | h | h
  · exact hother (head?_of_code? h) (by decide)
  · exact hother (head?_of_formula? h) (by decide)
  · obtain ⟨bang, body, rest, hbang, rfl, -⟩ := wikilink?_eq_some_iff.1 h
    rcases hbang with rfl | rfl
    · exact hbracket rfl (checkBoxLength_of_content (by simp [boxContent]))
    · exact hother (c := '!') rfl (by decide)
  · obtain ⟨bang, shown, target, rest, hbang, rfl, hshown, -⟩ := link?_eq_some_iff.1 h
    rcases hbang with rfl | rfl
    · exact hbracket rfl (checkBoxLength_link hshown)
    · exact hother (c := '!') rfl (by decide)
  · rcases head?_of_url? h with hh | hh
    · exact hother hh (by decide)
    · exact hother hh (by decide)
  · obtain ⟨m, c, body, rest, rfl, hm, -⟩ := emphasis?_eq_some_iff.1 h
    by_cases hstar : m = '*'
    · -- a bullet needs a blank behind it, and emphasis does not begin with one
      subst hstar
      have hhead : '*' ∈ spanHeads := by decide
      refine ⟨by simpa using hhead, ?_, checkBoxLength_of_head? (by simp)⟩
      rw [markLength_bullet (by decide)]
      rfl
    · refine hother (c := m) rfl ?_
      have key : ∀ d ∈ markerChars, d = '*' ∨ d ∈ ['\x60', '$', '!', 'h', 'f', '_', '~', '='] := by
        decide
      exact (key m hm).resolve_left hstar

theorem Loose.exists_spanAt? {p : Inline} {ps : List Inline} (h : Loose (p :: ps))
    (hp : p.isText = false) : ∃ r, spanAt? (textOf (p :: ps)) = some r := by
  cases h with
  | text => cases hp
  | copy _ hspan => exact ⟨_, hspan⟩
  | emphasis he => exact ⟨_, he.spanAt?_eq _⟩

theorem Loose.inert {ps : List Inline} (h : Loose ps) (hps : ∀ p ∈ ps.head?, p.isText = false) :
    Inert (textOf ps) := by
  cases ps with
  | nil => exact ⟨by simp [textOf], markLength_nil, rfl⟩
  | cons p ps =>
    obtain ⟨r, hr⟩ := h.exists_spanAt? (hps p rfl)
    exact inert_of_spanAt? hr

theorem Loose.text_ne_nil {p : Inline} {ps : List Inline} (h : Loose (p :: ps)) : p.text ≠ [] := by
  cases h with
  | text hne => exact hne
  | copy _ hspan =>
    obtain ⟨s, rest, he, hlen, hne, -⟩ := exists_of_spanAt? hspan
    rw [(List.append_inj he hlen.symm).1]; exact hne
  | emphasis he => simp [Inline.text, Emphasises.ne_nil he]

theorem leadLength_append {t rest : Text} (h : Inert rest) :
    leadLength (t ++ rest) = leadLength t := by
  have hnil : Inert [] := ⟨by simp, markLength_nil, rfl⟩
  have := (Alike.prepend (b := []) t (.stop hnil h)).leadLength_eq steady_nil
  rwa [List.append_nil] at this

/-- The lead of parts lies in the first one if that is plain text, and else there is none. -/
theorem leadLength_cons {p : Inline} {ps : List Inline} (h : Loose (p :: ps))
    (hsep : AllSeparate (p :: ps)) :
    leadLength (textOf (p :: ps)) = if p.isText then leadLength p.text else 0 := by
  cases hpt : p.isText with
  | true => exact leadLength_append (h.tail.inert (hsep.2.1 hpt))
  | false =>
    refine (leadLength_append (t := []) (h.inert fun q hq => ?_)).trans (by rw [leadLength]; rfl)
    rw [← Option.some.inj hq, hpt]

/-! ### The parts that formatting goes through -/

/-- No plain part from `start` on can hold the place where the lead ends. -/
def Past (lead start : ℕ) (ps : List Inline) : Prop :=
  lead < start ∨ (lead ≤ start ∧ ∀ p ∈ ps.head?, p.isText = false ∧ p.text ≠ [])

theorem kind_format (style : Style) (caret : Option Int) (scope : Option Scope) (start : ℕ)
    (p : Inline) : (p.format style caret scope start).1.kind = .text ↔ p.isText = true := by
  cases p with
  | leaf kind t visible =>
    rw [format]
    split_ifs with hkind
    · simp [isText, hkind]
    · simp [isText]
  | emphasis => simp [format, isText]

/-- What a part in front adds to the sentence starts of the rest. -/
theorem starts_formatAll_cons {caret : Option Int} {scope : Option Scope} {start : ℕ} {p : Inline}
    {now : Neighbour} {local? : Option Int} (hnow : p.format style caret scope start = (now, local?))
    (first : Option ℕ) (previous : Option Neighbour) (length : ℕ) (ps : List Inline) :
    (formatAll style caret scope first start previous length (p :: ps)).starts =
      (if p.isText then now.text.starts
        ((first.filter fun s => start ≤ s && s ≤ start + p.text.length).map (· - start))
        (length + (blankBetween style scope previous now).length)
      else []) ++
      (formatAll style caret scope first (start + p.text.length) (some now)
        (length + (blankBetween style scope previous now).length + now.text.length) ps).starts := by
  have hkind := kind_format style caret scope start p
  rw [hnow] at hkind
  rw [Formatted.starts, spans_formatAll_cons hnow, List.flatMap_append]
  simp only [hkind]
  congr 1
  split_ifs
  · rw [List.flatMap_cons, List.flatMap_nil, List.append_nil, map_mark_sentences]
  · rfl

theorem text_of_unplaced {now : Neighbour} {q : Inline} (h : now.unplaced = q.shown) :
    now.text = q.text := by
  rw [← text_shown, ← h]; rfl

theorem blankBetween_some (style : Style) (left now : Neighbour) :
    blankBetween style none (some left) now = if needsBlank style left now then [' '] else [] := by
  rw [blankBetween, Neighbour.boundaryTouches_none, Bool.true_and]

theorem starts_spacedAfter (previous : Option Neighbour) (length : ℕ) {q : Inline}
    {now : Neighbour} (hnow : now.unplaced = q.shown) (qs : List Inline) :
    starts none length (spacedAfter style previous (q :: qs)) =
      starts none (length + (blankBetween style none previous now).length) (q :: qs) := by
  cases previous with
  | none => rfl
  | some left =>
    have hb : needsBlank style left now = needsBlank style left q.shown := by rw [← hnow]; rfl
    rw [blankBetween_some, hb, spacedAfter, spaced]
    split_ifs
    · rfl
    · rfl

theorem spacedAfter_some {now : Neighbour} {q : Inline} (hnow : now.unplaced = q.shown)
    (qs : List Inline) : spacedAfter style (some now) qs = spaced style q.shown qs := by
  rw [← spacedAfter_unplaced, Option.map_some, hnow]; rfl

theorem starts_formatAll_past {lead start : ℕ} {ps : List Inline} (h : Past lead start ps)
    (caret : Option Int) (previous : Option Neighbour) (length : ℕ) :
    (formatAll style caret none (some lead) start previous length ps).starts =
      starts none length (spacedAfter style previous (resetAll style ps)) := by
  induction ps generalizing start previous length with
  | nil => cases previous <;> rfl
  | cons p ps ih =>
    rcases hnow : p.format style caret none start with ⟨now, local?⟩
    have hp : now.unplaced = (p.reset style).shown := by
      have := unplaced_format style caret start p
      rwa [hnow] at this
    have hrest : Past lead (start + p.text.length) ps := by
      rcases h with h | ⟨h, hhead⟩
      · exact .inl (by omega)
      · have := List.length_pos_iff.2 (hhead p rfl).2
        exact .inl (by omega)
    -- the first sentence does not start in this part any more
    have hfirst : p.isText = true →
        ((some lead).filter fun s => start ≤ s && s ≤ start + p.text.length) = none := by
      intro hpt
      rcases h with h | ⟨h, hhead⟩
      · simp [Option.filter]; omega
      · rw [(hhead p rfl).1] at hpt; cases hpt
    rw [starts_formatAll_cons hnow, ih hrest, spacedAfter_some hp, text_of_unplaced hp, resetAll,
      starts_spacedAfter previous length hp, starts, isText_reset]
    cases hpt : p.isText with
    | true => simp only [if_true, hfirst hpt, Option.map_none]
    | false => rfl

/-- **The sentence starts of a line that is formatted** are those of the parts that it is set to. -/
theorem starts_formatAll (caret : Option Int) (line : Text) :
    (formatAll style caret none (some (leadLength line)) 0 none 0 (parse line)).starts =
      starts (some (leadLength line)) 0 (resetAll style (parse line)) := by
  have hloose := loose_parse line
  have hsep := allSeparate_parse line
  have htext := textOf_parse line
  cases hps : parse line with
  | nil => rfl
  | cons p ps =>
    rw [hps] at hloose hsep htext
    rcases hnow : p.format style caret none 0 with ⟨now, local?⟩
    have hp : now.unplaced = (p.reset style).shown := by
      have := unplaced_format style caret 0 p
      rwa [hnow] at this
    cases hpt : p.isText with
    | true =>
      -- the lead ends in the first part, and no later one can hold its end
      have hne : ∀ q ∈ ps.head?, q.isText = false ∧ q.text ≠ [] := fun q hq => by
        obtain ⟨qs, rfl⟩ := List.head?_eq_some_iff.1 hq
        exact ⟨hsep.2.1 hpt q rfl, hloose.tail.text_ne_nil⟩
      have hlead : leadLength line ≤ p.text.length := by
        rw [← htext, leadLength_cons hloose hsep, hpt]
        exact leadLength_le _
      rw [starts_formatAll_cons hnow, starts_formatAll_past (.inr ⟨by omega, hne⟩),
        spacedAfter_some hp, text_of_unplaced hp, resetAll, starts, isText_reset, hpt]
      have hfirst : ((some (leadLength line)).filter fun s => 0 ≤ s && s ≤ 0 + p.text.length) =
          some (leadLength line) := by simpa [Option.filter] using hlead
      simp only [hfirst, if_true, Option.map_some, Nat.sub_zero, blankBetween, List.length_nil,
        Nat.add_zero]
    | false =>
      have hlead : leadLength line = 0 := by
        rw [← htext, leadLength_cons hloose hsep, hpt]; rfl
      have hpast : Past (leadLength line) 0 (p :: ps) := .inr ⟨by omega, fun q hq => by
        rw [← Option.some.inj hq]; exact ⟨hpt, hloose.text_ne_nil⟩⟩
      rw [starts_formatAll_past hpast, spacedAfter, resetAll, starts, starts, isText_reset, hpt]
      rfl

/-! ### Blanks that have joined plain text -/

theorem starts_append_space {first : Option ℕ} {t : Text} (hfirst : ∀ n ∈ first, n ≤ t.length)
    (hlast : ∀ a ∈ t.getLast?, endsSentence a = false) (k : ℕ) :
    (t ++ [' ']).starts first k = t.starts first k := by
  rw [Text.starts, Text.starts, sentenceStarts_append_space hlast]
  refine List.map_congr_left fun n hn => ?_
  have hle : n ≤ t.length := by
    rcases List.mem_append.1 hn with hn | hn
    · exact hfirst n (Option.mem_toList.1 hn)
    · exact (opensAt_of_mem_sentenceStarts hn).1
  rw [List.drop_append_of_le_length hle, startsSmallWord_append_space]

/-- The words that take a capital are the same, also where a sentence ends before the space. -/
theorem mem_starts_append_space (first : Option ℕ) (k : ℕ) (t : Text) (n : ℕ) :
    (n, true) ∈ (t ++ [' ']).starts first k ↔ (n, true) ∈ t.starts first k := by
  have hplaces : ∀ m, startsSmallWord (t.drop m) = true →
      (m ∈ first.toList ++ sentenceStarts (t ++ [' ']) ↔ m ∈ first.toList ++ sentenceStarts t) := by
    intro m hm
    rw [List.mem_append, List.mem_append, sentenceStarts, sentenceStarts,
      mem_sentenceStartsFrom_append_space
        (by rw [Nat.zero_add]; exact lt_length_of_startsSmallWord hm)]
  rw [Text.starts, Text.starts, List.mem_map, List.mem_map]
  refine exists_congr fun m => ?_
  rw [startsSmallWord_drop_append_space]
  constructor
  · rintro ⟨hm, he⟩
    exact ⟨(hplaces m (Prod.mk.inj he).2).1 hm, he⟩
  · rintro ⟨hm, he⟩
    exact ⟨(hplaces m (Prod.mk.inj he).2).2 hm, he⟩

theorem starts_space_cons (t : Text) (k : ℕ) :
    Text.starts none k (' ' :: t) = t.starts none (k + 1) := by
  rw [Text.starts, Text.starts, sentenceStarts_space_cons]
  simp only [Option.toList_none, List.nil_append, List.map_map]
  refine List.map_congr_left fun n _ => ?_
  simp only [Function.comp_apply, List.drop_succ_cons]
  rw [Nat.add_assoc, Nat.add_comm 1]

theorem starts_consPart_blank (k : ℕ) (ps : List Inline) :
    starts none k (consPart blank ps) = starts none (k + 1) ps := by
  by_cases hps : ∀ q ∈ ps.head?, q.isText = false
  · rw [consPart_eq_cons fun _ => hps, starts_blank]
  · simp only [not_forall, Bool.not_eq_false] at hps
    obtain ⟨q, hq, hqt⟩ := hps
    obtain ⟨qs, rfl⟩ := List.head?_eq_some_iff.1 hq
    obtain ⟨u, w, rfl⟩ := exists_of_isText hqt
    have hlen : k + (' ' :: u).length = k + 1 + u.length := by simp only [List.length_cons]; omega
    change Text.starts none k (' ' :: u) ++ starts none (k + (' ' :: u).length) qs =
      Text.starts none (k + 1) u ++ starts none (k + 1 + u.length) qs
    rw [starts_space_cons, hlen]

/-- Plain text that needs a blank behind it ends with a letter, a digit, or a Chinese or Japanese
character. -/
theorem last_of_needsBlank (hstyle : style.IsSoft) {l r : Neighbour} (hl : l.kind = .text)
    (h : needsBlank style l r = true) : ∃ a, l.text.getLast? = some a ∧ isBlank a = false ∧
      (Unicode.isAlphanumeric a = true ∨ isCjk a = true ∨ isLatin a = true ∨ isFigure a = true) := by
  obtain ⟨a, c, ha, hc, hab, hcb⟩ := needsBlank_edges h
  have hface : l.face = l.text := by rw [Neighbour.face, hl]; rfl
  refine ⟨a, ha, hab, ?_⟩
  simp only [needsBlank, ha, hc, hab, hcb, hl, hface, PartKind.isSpaced, Bool.or_false,
    Bool.false_or, Bool.false_and, Bool.false_eq_true, if_false, Option.any_some] at h
  split_ifs at h with hr
  · cases hm : style.spaceMode r.kind with
    | none => rw [hm] at h; cases h
    | soft => rw [hm] at h; exact .inl h
    | strict =>
      rw [Style.spaceMode] at hm
      split_ifs at hm
      · exact absurd hm hstyle.code
      · exact absurd hm hstyle.formula
  · split at h
    · next b d hb _ =>
      obtain rfl := Option.some.inj hb
      exact .inr (class_of_separates h).1
    · cases h

theorem not_mem_of_last {a : Char} (h : Unicode.isAlphanumeric a = true ∨ isCjk a = true ∨
    isLatin a = true ∨ isFigure a = true) {marks : List Char}
    (hmarks : ∀ d ∈ marks, ¬ (Unicode.isAlphanumeric d = true ∨ isCjk d = true ∨
      isLatin d = true ∨ isFigure d = true)) : a ∉ marks := fun hm => hmarks a hm h

theorem endsSentence_of_needsBlank (hstyle : style.IsSoft) {l r : Neighbour} (hl : l.kind = .text)
    (h : needsBlank style l r = true) : ∀ a ∈ l.text.getLast?, endsSentence a = false := by
  intro a ha
  obtain ⟨b, hb, hblank, hclass⟩ := last_of_needsBlank hstyle hl h
  obtain rfl : a = b := by rw [Option.mem_def, hb] at ha; exact (Option.some.inj ha).symm
  have hmem : a ∉ stopMarks ++ fullStopMarks := not_mem_of_last hclass (by decide +kernel)
  rw [List.mem_append, not_or] at hmem
  simp [endsSentence, hblank, hmem]

/-- **Joining blanks to plain text moves no sentence start.** -/
theorem starts_glueAll (hstyle : style.IsSoft) {ps : List Inline} (hsep : AllSeparate ps)
    {first : Option ℕ} (hfirst : ∀ p ∈ (resetAll style ps).head?, ∀ n ∈ first, n ≤ p.text.length)
    (k : ℕ) : starts first k (glueAll (resetAll style ps)) = starts first k (resetAll style ps) := by
  induction ps generalizing first k with
  | nil => rfl
  | cons p ps ih =>
    have ih' : ∀ k, starts none k (glueAll (resetAll style ps)) =
        starts none k (resetAll style ps) := fun k => ih hsep.2.2 (by simp) k
    obtain ⟨heq, hg, -⟩ | ⟨heq, q, hq, hb, ⟨t, v, ht, -, hg⟩ | ⟨-, hg⟩⟩ :=
      glueAll_resetAll_cons style hsep
    · rw [hg, heq, starts, starts, isText_glue, text_glue, ih']
    · -- no sentence ends where the blank has joined the part in front of it
      have hlast := endsSentence_of_needsBlank hstyle (by rw [ht]; rfl) hb
      rw [ht] at hlast
      have hle : ∀ n ∈ first, n ≤ t.length := by
        have := hfirst (p.reset style) (by rw [heq]; rfl)
        rwa [ht] at this
      have hlen : k + (t ++ [' ']).length = k + t.length + 1 := by simp [Nat.add_assoc]
      rw [hg, heq, ht]
      change Text.starts first k (t ++ [' ']) ++ starts none (k + (t ++ [' ']).length) _ =
        Text.starts first k t ++ starts none (k + t.length + 1) _
      rw [starts_append_space hle hlast, hlen, ih']
    · rw [hg, heq, starts, starts, isText_glue, text_glue, starts_blank, starts_consPart_blank, ih']

/-- **Joining blanks to plain text changes no word that takes a capital**, in any style. -/
theorem mem_starts_glueAll {ps : List Inline} (hsep : AllSeparate ps) (first : Option ℕ) (k n : ℕ) :
    (n, true) ∈ starts first k (glueAll (resetAll style ps)) ↔
      (n, true) ∈ starts first k (resetAll style ps) := by
  induction ps generalizing first k with
  | nil => exact Iff.rfl
  | cons p ps ih =>
    have ih' : ∀ k, (n, true) ∈ starts none k (glueAll (resetAll style ps)) ↔
        (n, true) ∈ starts none k (resetAll style ps) := ih hsep.2.2 none
    obtain ⟨heq, hg, -⟩ | ⟨heq, q, hq, hb, ⟨t, v, ht, -, hg⟩ | ⟨-, hg⟩⟩ :=
      glueAll_resetAll_cons style hsep
    · rw [hg, heq, starts, starts, isText_glue, text_glue, List.mem_append, List.mem_append, ih']
    · have hlen : k + (t ++ [' ']).length = k + t.length + 1 := by simp [Nat.add_assoc]
      rw [hg, heq, ht]
      change (n, true) ∈ Text.starts first k (t ++ [' ']) ++
        starts none (k + (t ++ [' ']).length) _ ↔ (n, true) ∈ Text.starts first k t ++ starts none (k + t.length + 1) _
      rw [List.mem_append, List.mem_append, mem_starts_append_space, hlen, ih']
    · rw [hg, heq, starts, starts, isText_glue, text_glue, starts_blank, starts_consPart_blank,
        List.mem_append, List.mem_append, ih']

theorem Loose.glueAll {ps : List Inline} (h : Loose ps) : Loose (glueAll ps) :=
  parse_textOf h ▸ loose_parse _

/-- A part that is not plain text is still first when parts have been set. -/
theorem inert_glueAll {ps : List Inline} (hqs : Loose (resetAll style ps))
    (hps : ∀ p ∈ ps.head?, p.isText = false) : Inert (textOf (glueAll (resetAll style ps))) := by
  refine hqs.glueAll.inert fun r hr => ?_
  cases ps with
  | nil => cases hr
  | cons p ps =>
    rw [resetAll] at hqs hr
    obtain ⟨r', rs, hrs, -, hrt⟩ := front_glueAll hqs
    rw [hrs] at hr
    rw [← Option.some.inj hr, hrt, isText_reset]
    exact hps p rfl

/-- A blank behind plain text that needs one is past the lead. -/
theorem leadLength_append_space (hstyle : style.IsSoft) {l r : Neighbour} (hl : l.kind = .text)
    (h : needsBlank style l r = true) (rest : Text) :
    leadLength (l.text ++ ' ' :: rest) = leadLength l.text := by
  obtain ⟨a, ha, hblank, hclass⟩ := last_of_needsBlank hstyle hl h
  have hmem : a ∉ ['-', '+', '*', '#', '>', ')', '[', ']', '.'] :=
    not_mem_of_last hclass (by decide +kernel)
  obtain ⟨u, hu⟩ := List.getLast?_eq_some_iff.1 ha
  have hgap : WordGap (l.text.reverse ++ []) [] := by
    refine ⟨⟨a, u.reverse, by simp [hu], hblank, fun hm => hmem ?_, fun hdot => ?_, by simp⟩,
      by simp⟩
    · exact List.mem_append_left ['.'] hm
    · exact absurd (by simp [hdot]) hmem
  have hwiden : Alike (l.text.reverse ++ []) [] (' ' :: rest) := .widen hgap
  have := (Alike.prepend l.text hwiden).leadLength_eq steady_nil
  rwa [List.append_nil] at this

/-- **The lead stays as long as it is** when the parts of a line are set. -/
theorem leadLength_glueAll (hstyle : style.IsSoft) {ps : List Inline} (hsep : AllSeparate ps)
    (hps : Loose ps) (hqs : Loose (resetAll style ps)) :
    leadLength (textOf (glueAll (resetAll style ps))) = leadLength (textOf ps) := by
  cases ps with
  | nil => rfl
  | cons p ps =>
    cases hpt : p.isText with
    | false =>
      have hhead : ∀ q ∈ (p :: ps).head?, q.isText = false := fun q hq => by
        rw [← Option.some.inj hq, hpt]
      exact (leadLength_append (t := []) (inert_glueAll hqs hhead)).trans
        (leadLength_append (t := []) (hps.inert hhead)).symm
    | true =>
      obtain ⟨t, v, rfl⟩ := exists_of_isText hpt
      have hrest : leadLength (textOf (.leaf .text t v :: ps)) = leadLength t :=
        leadLength_cons hps hsep
      rw [hrest, ← leadLength_respace style t]
      obtain ⟨heq, hg, -⟩ | ⟨heq, q, hq, hb, ⟨t', v', ht, -, hg⟩ | ⟨hpt, -⟩⟩ :=
        glueAll_resetAll_cons style hsep
      · rw [heq] at hqs
        rw [hg]
        exact leadLength_append (inert_glueAll hqs.tail (hsep.2.1 rfl))
      · rw [reset, if_pos rfl] at ht hb
        obtain ⟨-, rfl, rfl⟩ := Inline.leaf.inj ht
        rw [hg, textOf, Inline.text, List.append_assoc]
        exact leadLength_append_space hstyle (l := shown (.leaf .text (style.respace t) v)) rfl hb _
      · cases hpt

/-! ### Capitals -/

/-- A part at `k` with capitals in the places `N`, if it is plain text. -/
def raise (N : List ℕ) (k : ℕ) : Inline → Inline
  | leaf kind t visible => leaf kind (if kind = .text then Text.raiseAt N k t else t) visible
  | emphasis marker inner => emphasis marker inner

/-- Parts at `k` with capitals in the places `N` that lie in plain text. -/
def raiseAt (N : List ℕ) (k : ℕ) : List Inline → List Inline
  | [] => []
  | p :: ps => p.raise N k :: raiseAt N (k + p.text.length) ps

/-- Of the places `N`, those in plain text are such that a sentence may start there, and none lies in
another part. -/
def Opening (N : List ℕ) (k : ℕ) : List Inline → Prop
  | [] => True
  | p :: ps => (p.isText = true → ∀ i, k + i ∈ N → i < p.text.length → OpensAt none i p.text) ∧
      (p.isText = false → ∀ n ∈ N, k ≤ n → k + p.text.length ≤ n) ∧ Opening N (k + p.text.length) ps

@[simp] theorem isText_raise (N : List ℕ) (k : ℕ) (p : Inline) :
    (p.raise N k).isText = p.isText := by
  cases p <;> rfl

theorem raise_of_isText {p : Inline} (hp : p.isText = true) (N : List ℕ) (k : ℕ) :
    ∃ v, p = .leaf .text p.text v ∧ p.raise N k = .leaf .text (Text.raiseAt N k p.text) v := by
  obtain ⟨t, v, rfl⟩ := exists_of_isText hp
  exact ⟨v, rfl, rfl⟩

theorem raise_of_not_isText {p : Inline} (hp : p.isText = false) (N : List ℕ) (k : ℕ) :
    p.raise N k = p := by
  cases p with
  | leaf kind t v => rw [raise, if_neg (of_decide_eq_false hp)]
  | emphasis => rfl

theorem length_text_raise (N : List ℕ) (k : ℕ) (p : Inline) :
    (p.raise N k).text.length = p.text.length := by
  cases hp : p.isText with
  | true =>
    obtain ⟨v, -, h⟩ := raise_of_isText hp N k
    rw [h]; exact length_raiseAt N k p.text
  | false => rw [raise_of_not_isText hp]

theorem allSeparate_raiseAt (N : List ℕ) (k : ℕ) {ps : List Inline} (h : AllSeparate ps) :
    AllSeparate (raiseAt N k ps) := by
  induction ps generalizing k with
  | nil => trivial
  | cons p ps ih =>
    refine ⟨?_, fun hp q hq => ?_, ih _ h.2.2⟩
    · cases hp : p.isText with
      | true =>
        obtain ⟨v, -, hr⟩ := raise_of_isText hp N k
        rw [hr]; trivial
      | false => rw [raise_of_not_isText hp]; exact h.1
    · rw [isText_raise] at hp
      cases ps with
      | nil => cases hq
      | cons r ps =>
        rw [← Option.some.inj hq, isText_raise]
        exact h.2.1 hp r rfl

theorem le_of_mem_textStarts {first : Option ℕ} {k : ℕ} {t : Text} {m : ℕ × Bool}
    (h : m ∈ t.starts first k) : k ≤ m.1 := by
  obtain ⟨n, -, rfl⟩ := List.mem_map.1 h
  exact Nat.le_add_right k n

theorem lt_of_mem_textStarts {first : Option ℕ} {k n : ℕ} {t : Text}
    (h : (n, true) ∈ t.starts first k) : n < k + t.length := by
  obtain ⟨m, -, he⟩ := List.mem_map.1 h
  obtain ⟨rfl, hsmall⟩ := Prod.mk.inj he
  have := lt_length_of_startsSmallWord hsmall
  omega

theorem le_of_mem_starts {first : Option ℕ} {k : ℕ} {ps : List Inline} {m : ℕ × Bool}
    (h : m ∈ starts first k ps) : k ≤ m.1 := by
  induction ps generalizing first k with
  | nil => cases h
  | cons p ps ih =>
    rcases List.mem_append.1 h with h | h
    · split_ifs at h
      · exact le_of_mem_textStarts h
      · cases h
    · have := ih h; omega

/-- **Capitals come only where a sentence may start.** -/
theorem opening_of_starts {N : List ℕ} (first : Option ℕ) {k : ℕ} {ps : List Inline}
    (hN : ∀ n ∈ N, k ≤ n → (n, true) ∈ starts first k ps)
    (hfirst : ∀ p ∈ ps.head?, p.isText = true → ∀ n ∈ first, OpensAt none n p.text) :
    Opening N k ps := by
  induction ps generalizing first k with
  | nil => trivial
  | cons p ps ih =>
    -- a place from here on is in the first part, which is plain text then, or behind it
    have hsplit : ∀ n ∈ N, k ≤ n → (p.isText = true ∧ n < k + p.text.length ∧
        ∃ m, n = k + m ∧ OpensAt none m p.text) ∨
          (k + p.text.length ≤ n ∧ (n, true) ∈ starts none (k + p.text.length) ps) := by
      intro n hn hkn
      rcases List.mem_append.1 (hN n hn hkn) with h | h
      · split_ifs at h with hp
        · have hlt := lt_of_mem_textStarts h
          obtain ⟨m, hm, he⟩ := List.mem_map.1 h
          obtain ⟨rfl, -⟩ := Prod.mk.inj he
          refine .inl ⟨hp, hlt, m, rfl, ?_⟩
          rcases List.mem_append.1 hm with hm | hm
          · exact hfirst p rfl hp m (Option.mem_toList.1 hm)
          · exact (opensAt_of_mem_sentenceStarts hm).2 none
        · cases h
      · exact .inr ⟨le_of_mem_starts h, h⟩
    refine ⟨fun _ i hi hlt => ?_, fun hp n hn hkn => ?_, ih none (fun n hn hkn => ?_) (by simp)⟩
    · rcases hsplit (k + i) hi (by omega) with ⟨-, -, m, he, hm⟩ | ⟨hle, -⟩
      · obtain rfl : i = m := by omega
        exact hm
      · omega
    · rcases hsplit n hn hkn with ⟨hp', -⟩ | ⟨hle, -⟩
      · rw [hp] at hp'; cases hp'
      · exact hle
    · rcases hsplit n hn (by omega) with ⟨-, hlt, -⟩ | ⟨-, h⟩
      · omega
      · exact h

theorem textOf_raiseAt {N : List ℕ} {k : ℕ} {ps : List Inline} (h : Opening N k ps) :
    textOf (raiseAt N k ps) = Text.raiseAt N k (textOf ps) := by
  induction ps generalizing k with
  | nil => rfl
  | cons p ps ih =>
    rw [raiseAt, textOf, textOf, raiseAt_append, ih h.2.2]
    cases hp : p.isText with
    | true =>
      obtain ⟨v, -, hr⟩ := raise_of_isText hp N k
      rw [hr]; rfl
    | false => rw [raise_of_not_isText hp, raiseAt_eq_self (h.2.1 hp)]

theorem raises_of_opening {N : List ℕ} {k : ℕ} {p : Inline} {ps : List Inline}
    (h : Opening N k (p :: ps)) (hp : p.isText = true) :
    Raises none p.text (Text.raiseAt N k p.text) :=
  raises_raiseAt (h.1 hp)

theorem sets_raiseAt {gap : Char → Char → Prop} {N : List ℕ} {k : ℕ} {ps : List Inline}
    (h : Opening N k ps) : Sets gap ps (raiseAt N k ps) := by
  induction ps generalizing k with
  | nil => exact .nil
  | cons p ps ih =>
    rw [raiseAt]
    cases hp : p.isText with
    | true =>
      have hr := raises_of_opening h hp
      obtain ⟨t, v, rfl⟩ := exists_of_isText hp
      exact .text hr.touches (ih h.2.2)
    | false => rw [raise_of_not_isText hp]; exact .cons p (ih h.2.2)

theorem rel_of_recased {t t' : Text} (h : Recased t t') :
    Option.Rel Recase t.head? t'.head? ∧ Option.Rel Recase t.getLast? t'.getLast? := by
  have hhead : ∀ {u u' : Text}, Recased u u' → Option.Rel Recase u.head? u'.head? := by
    intro u u' h
    cases h with
    | nil => exact .none
    | cons h _ => exact .some h
  refine ⟨hhead h, ?_⟩
  rw [← List.head?_reverse, ← List.head?_reverse]
  exact hhead (List.rel_reverse h)

/-- Capitals do not change whether blanks are needed. -/
theorem same_raise {N : List ℕ} {k : ℕ} {p : Inline} {ps : List Inline} (h : Opening N k (p :: ps)) :
    p.shown.SameFront (p.raise N k).shown ∧ p.shown.SameBack (p.raise N k).shown := by
  cases hp : p.isText with
  | true =>
    obtain ⟨h1, h2⟩ := rel_of_recased (raises_of_opening h hp).recased
    obtain ⟨t, v, rfl⟩ := exists_of_isText hp
    exact ⟨⟨rfl, h1, h1⟩, ⟨rfl, h2, h2⟩⟩
  | false => rw [raise_of_not_isText hp]; exact ⟨.refl _, .refl _⟩

theorem allSettled_raiseAt {N : List ℕ} {k : ℕ} {ps : List Inline} (h : Opening N k ps)
    (hps : AllSettled style ps) : AllSettled style (raiseAt N k ps) := by
  induction ps generalizing k with
  | nil => trivial
  | cons p ps ih =>
    refine ⟨?_, fun q hq => ?_, ih h.2.2 hps.2.2⟩
    · cases hp : p.isText with
      | true =>
        have hr := raises_of_opening h hp
        obtain ⟨t, v, rfl⟩ := exists_of_isText hp
        exact fun _ => (hps.1 rfl).raises hr
      | false => rw [raise_of_not_isText hp]; exact hps.1
    · cases ps with
      | nil => cases hq
      | cons r ps =>
        rw [← Option.some.inj hq, needsBlank_congr (same_raise h).2 (same_raise h.2.2).1]
        exact hps.2.1 r rfl

/-- **Capitals move no sentence start**, and where one has been given none is due any more. -/
theorem starts_raiseAt {N : List ℕ} {k : ℕ} {ps : List Inline} (h : Opening N k ps)
    (first : Option ℕ) : List.Forall₂
      (fun m m' => m'.1 = m.1 ∧ (m'.2 = true → m.2 = true ∧ m.1 ∉ N))
      (starts first k ps) (starts first k (raiseAt N k ps)) := by
  induction ps generalizing first k with
  | nil => exact .nil
  | cons p ps ih =>
    rw [raiseAt, starts, starts, length_text_raise, isText_raise]
    refine List.rel_append ?_ (ih h.2.2 none)
    cases hp : p.isText with
    | false => exact .nil
    | true =>
      obtain ⟨t, v, rfl⟩ := exists_of_isText hp
      have hr : Raises none t (Text.raiseAt N k t) := raises_of_opening h hp
      change List.Forall₂ _ (Text.starts first k t) (Text.starts first k (Text.raiseAt N k t))
      rw [Text.starts, Text.starts, sentenceStarts_of_recased hr.recased, List.forall₂_map_left_iff,
        List.forall₂_map_right_iff, List.forall₂_same]
      refine fun n _ => ⟨rfl, fun hsmall => ?_⟩
      obtain ⟨before, hdrop⟩ := hr.drop n
      obtain ⟨hflag, hhead⟩ := startsSmallWord_of_raises hdrop hsmall
      refine ⟨hflag, fun hn => ?_⟩
      -- a capital stands there now
      rw [List.head?_drop, List.head?_drop] at hhead
      obtain ⟨c, hc, hcs⟩ : ∃ c, t[n]? = some c ∧ isSmall c = true := by
        rw [startsSmallWord, Bool.and_eq_true, List.head?_drop] at hflag
        exact (Option.any_eq_true _ _).1 hflag.1
      change (Text.raiseAt N k t)[n]? = t[n]? at hhead
      rw [getElem?_raiseAt, hc, Option.map_some, if_pos hn] at hhead
      have := isCapital_toUpper hcs
      rw [Option.some.inj hhead] at this
      rw [isSmall_of_isCapital this] at hcs; cases hcs

end Inline

end TypingAid
