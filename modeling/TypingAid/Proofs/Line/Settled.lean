import TypingAid.Proofs.Line.Spread
import Mathlib.Data.List.Forall2

/-!
# Settled text

A text is settled if no spacing rule of the style finds anything to change in it (`Text.Settled`).
`Text.settled_respace` says that one round of all rules settles a text: what a rule has done stays
done, and the rules that come later do not bring up anything for the ones before.

A rule for gaps looks back over at most three characters, and a space among these only ever keeps
it from holding (`GapRule.Shy`).  So a text in which it holds nowhere (`GapRule.Quiet`) may get
spaces in any place.  The rule against blanks holds nowhere as long as no space comes between two
tight characters (`Text.Taut`).

A settled text also stays settled when a space comes to stand at either end
(`Text.Settled.space_cons`, `Text.Settled.append_space`), and when the first letters of sentences
become capitals (`Text.Settled.raises`).
-/

namespace TypingAid

open Text

variable {style : Style} {rule σ : GapRule} {t t' b b' : Text} {a c : Char}

/-! ### Gaps -/

/-- The rule holds in no gap of a text that stands after `before`. -/
def GapRule.Quiet (rule : GapRule) (before : Text) : Text → Prop
  | [] => True
  | c :: t => rule before c = false ∧ Quiet rule (c :: before) t

theorem gapsFrom_eq_nil_iff {offset : ℕ} : gapsFrom rule b offset t = [] ↔ rule.Quiet b t := by
  induction t generalizing b offset with
  | nil => exact ⟨fun _ => trivial, fun _ => rfl⟩
  | cons c t ih =>
    rw [gapsFrom, GapRule.Quiet, ← @ih _ (offset + 1)]
    split_ifs with h
    · simp [h]
    · simp [h]

theorem gaps_eq_nil_iff : gaps rule t = [] ↔ rule.Quiet [] t := gapsFrom_eq_nil_iff

/-- The second text is the first with more spaces. -/
inductive Text.Padded : Text → Text → Prop where
  | nil : Padded [] []
  | keep {c : Char} {t t' : Text} (h : Padded t t') : Padded (c :: t) (c :: t')
  | space {t t' : Text} (h : Padded t t') : Padded t (' ' :: t')

/-- The second text is the first with some small letters as capitals. -/
def Text.Recased : Text → Text → Prop :=
  List.Forall₂ fun c c' => c' = c ∨ (isSmall c = true ∧ c' = c.toUpper)

/-- A rule for gaps that spaces never bring up, nor capitals other than behind a full stop. -/
structure GapRule.Shy (rule : GapRule) : Prop where
  fillable {before : Text} {c : Char} (h : rule before c = true) :
    ∃ a rest, before = a :: rest ∧ FillableGap a c
  padded {b b' : Text} {c : Char} (hb : Padded b b') (h : rule b' c = true) : rule b c = true
  recased {b b' : Text} {c c' : Char} (hb : Recased b b')
    (hc : c' = c ∨ (isSmall c = true ∧ c' = c.toUpper ∧ b.head? ≠ some '.'))
    (h : rule b' c' = true) : rule b c = true

/-! ### The rules are shy -/

theorem Text.Padded.cons_of_ne (h : Padded t (a :: t')) (ha : a ≠ ' ') :
    ∃ u, t = a :: u ∧ Padded u t' := by
  cases h with
  | keep h => exact ⟨_, rfl, h⟩
  | space => exact absurd rfl ha

theorem Text.Padded.any_head? {p : Char → Bool} (h : Padded t t') (hp : p ' ' = false)
    (ht : t'.head?.any p = true) : t.head?.any p = true := by
  cases h with
  | nil => exact ht
  | keep => exact ht
  | space => rw [List.head?_cons, Option.any_some, hp] at ht; cases ht

theorem class_toUpper (h : isSmall c = true) : isCjk c.toUpper = isCjk c ∧
    isLatin c.toUpper = isLatin c ∧ isFigure c.toUpper = isFigure c := by
  have h1 := isSmall_iff.1 h
  have h2 := toNat_toUpper h
  refine ⟨?_, ?_, ?_⟩
  · rw [Bool.eq_iff_iff, isCjk_iff, isCjk_iff]; omega
  · rw [isLatin_iff.2 (.inl (isCapital_toUpper h)), isLatin_iff.2 (.inr h)]
  · rw [Bool.eq_iff_iff, isFigure_iff, isFigure_iff]; omega

theorem shy_between {p q : Char → Bool} (hp : p = isCjk ∨ p = isLatin)
    (hq : q = isLatin ∨ q = isFigure)
    (hfill : ∀ {before c}, between p q before c = true →
      ∃ a rest, before = a :: rest ∧ FillableGap a c) : (between p q).Shy where
  fillable := hfill
  padded {b b' c} hb h := by
    obtain ⟨a, rest, rfl, hgap⟩ := hfill h
    have ha : a ≠ ' ' := fun he => by
      have := hgap.isBlank_eq.1; rw [he] at this; exact absurd this (by decide)
    obtain ⟨u, rfl, -⟩ := hb.cons_of_ne ha
    exact h
  recased {b b' c c'} hb hc h := by
    -- both classes take capitals and small letters alike
    have hclass : ∀ {d d' : Char}, d' = d ∨ (isSmall d = true ∧ d' = d.toUpper) →
        p d' = p d ∧ q d' = q d := by
      rintro d d' (rfl | ⟨hd, rfl⟩)
      · exact ⟨rfl, rfl⟩
      · obtain ⟨h1, h2, h3⟩ := class_toUpper hd
        refine ⟨?_, ?_⟩
        · rcases hp with rfl | rfl <;> assumption
        · rcases hq with rfl | rfl <;> assumption
    cases hb with
    | nil => cases h
    | cons hd _ =>
      have h1 := hclass hd
      have h2 := hclass (hc.imp id fun h => ⟨h.1, h.2.1⟩)
      rw [between] at h ⊢
      rwa [h1.1, h1.2, h2.1, h2.2] at h

theorem shy_afterPunctuation (hfill : ∀ {before c}, afterPunctuation before c = true →
    ∃ a rest, before = a :: rest ∧ FillableGap a c) : GapRule.Shy afterPunctuation where
  fillable := hfill
  padded {b b' c} hb h := by
    obtain ⟨mark, a, rest, rfl⟩ := exists_of_afterPunctuation h
    have hmark : mark ≠ ' ' := by
      obtain ⟨_, _, he, hgap⟩ := hfill h
      cases he
      intro he
      have := hgap.isBlank_eq.1; rw [he] at this; exact absurd this (by decide)
    simp only [afterPunctuation, Bool.or_eq_true, Bool.and_eq_true, decide_eq_true_eq] at h
    have ha : a ≠ ' ' := by
      rintro rfl
      rcases h with h | h
      · exact absurd h.1.2 (by decide)
      · exact absurd h.1.1.2 (by decide)
    -- neither the mark nor what stands before it is one of the new spaces
    obtain ⟨u, rfl, hu⟩ := hb.cons_of_ne hmark
    obtain ⟨v, rfl, hv⟩ := hu.cons_of_ne ha
    simp only [afterPunctuation, Bool.or_eq_true, Bool.and_eq_true, decide_eq_true_eq]
    exact h.imp id fun h => ⟨⟨h.1.1, hv.any_head? (by decide) h.1.2⟩, h.2⟩
  recased {b b' c c'} hb hc h := by
    -- a mark and a small letter have not become what they are
    have hkeep : ∀ {d d' : Char}, d' = d ∨ (isSmall d = true ∧ d' = d.toUpper) →
        isCapital d' = false → d' = d := by
      rintro d d' (rfl | ⟨hd, rfl⟩) hd'
      · rfl
      · rw [isCapital_toUpper hd] at hd'; cases hd'
    have hmarks : ∀ d ∈ '.' :: pauseMarks, isCapital d = false := by decide
    obtain ⟨mark', a', rest', rfl⟩ := exists_of_afterPunctuation h
    obtain ⟨mark, u, hm, hu, rfl⟩ := List.forall₂_cons_right_iff.1 hb
    obtain ⟨a, rest, ha, hrest, rfl⟩ := List.forall₂_cons_right_iff.1 hu
    simp only [afterPunctuation, Bool.or_eq_true, Bool.and_eq_true, decide_eq_true_eq,
      Bool.not_eq_true', List.contains_iff_mem] at h ⊢
    rcases h with ⟨⟨⟨hmark, hcolon⟩, hblank⟩, hlatin⟩ | ⟨⟨⟨hmark, hsmall⟩, hhead⟩, hcapital⟩
    · left
      obtain rfl := hkeep hm (hmarks mark' (List.mem_cons_of_mem _ hmark))
      refine ⟨⟨⟨hmark, ?_⟩, ?_⟩, ?_⟩
      · rcases ha with rfl | ⟨ha, -⟩
        · exact hcolon
        · rintro rfl; exact absurd ha (by decide)
      · rcases ha with rfl | ⟨ha, -⟩
        · exact hblank
        · exact isBlank_of_isLatin (isLatin_iff.2 (.inr ha))
      · rcases hc with rfl | ⟨hc, -, -⟩
        · exact hlatin
        · exact isLatin_iff.2 (.inr hc)
    · right
      obtain rfl := hkeep hm (hmark ▸ hmarks '.' List.mem_cons_self)
      have hsmall' : ∀ {d : Char}, isSmall d = true → isCapital d = false := fun hd =>
        Bool.eq_false_iff.2 fun hc => by rw [isSmall_of_isCapital hc] at hd; cases hd
      obtain rfl := hkeep ha (hsmall' hsmall)
      refine ⟨⟨⟨hmark, hsmall⟩, ?_⟩, ?_⟩
      · cases hrest with
        | nil => exact hhead
        | cons hd _ => rw [List.head?_cons, ← hkeep hd (hsmall' hhead)]; exact hhead
      · -- no letter becomes a capital just behind a full stop
        rcases hc with rfl | ⟨-, -, hdot⟩
        · exact hcapital
        · exact absurd (congrArg some hmark) hdot

theorem mem_gapRules_cases (h : rule ∈ gapRules style) :
    (∃ p q, (p = isCjk ∨ p = isLatin) ∧ (q = isLatin ∨ q = isFigure) ∧ rule = between p q) ∨
      rule = afterPunctuation := by
  simp only [gapRules, List.mem_append, List.mem_ite_nil_right, List.mem_singleton] at h
  rcases h with ((⟨-, rfl⟩ | ⟨-, rfl⟩) | ⟨-, rfl⟩) | ⟨-, rfl⟩
  · exact .inl ⟨_, _, .inl rfl, .inl rfl, rfl⟩
  · exact .inl ⟨_, _, .inl rfl, .inr rfl, rfl⟩
  · exact .inl ⟨_, _, .inr rfl, .inr rfl, rfl⟩
  · exact .inr rfl

theorem shy_of_mem_gapRules (h : rule ∈ gapRules style) : rule.Shy := by
  have hfill : ∀ {before c}, rule before c = true → ∃ a rest, before = a :: rest ∧ FillableGap a c :=
    fun hc => fillableGap_of_mem_gapRules h hc
  obtain ⟨p, q, hp, hq, rfl⟩ | rfl := mem_gapRules_cases h
  · exact shy_between hp hq hfill
  · exact shy_afterPunctuation hfill

namespace GapRule

theorem Shy.before_space (h : rule.Shy) (b : Text) : rule b ' ' = false := by
  refine Bool.eq_false_iff.2 fun hr => ?_
  obtain ⟨_, _, -, hgap⟩ := h.fillable hr
  exact absurd hgap.isBlank_eq.2 (by decide)

theorem Shy.behind_space (h : rule.Shy) (b : Text) (c : Char) : rule (' ' :: b) c = false := by
  refine Bool.eq_false_iff.2 fun hr => ?_
  obtain ⟨_, _, he, hgap⟩ := h.fillable hr
  rw [← (List.cons.inj he).1] at hgap
  exact absurd hgap.isBlank_eq.1 (by decide)

theorem Shy.at_start (h : rule.Shy) (c : Char) : rule [] c = false := by
  refine Bool.eq_false_iff.2 fun hr => ?_
  obtain ⟨_, _, he, -⟩ := h.fillable hr
  cases he

/-! ### Quiet stays quiet -/

/-- **A rule that is carried out does its work for good**, and one that holds nowhere still holds
nowhere afterwards. -/
theorem Shy.quiet_spread (h : rule.Shy) (hq : rule = σ ∨ rule.Quiet b t) (hb : Padded b b') :
    rule.Quiet b' (spread σ b t) := by
  induction t generalizing b b' with
  | nil => trivial
  | cons c t ih =>
    have hq' : rule = σ ∨ rule.Quiet (c :: b) t := hq.imp id And.right
    rw [spread]
    split_ifs with hc
    · exact ⟨h.before_space b', h.behind_space b' c, ih hq' (.keep (.space hb))⟩
    · refine ⟨?_, ih hq' (.keep hb)⟩
      refine Bool.eq_false_iff.2 fun hr => ?_
      -- the rule would hold without the new spaces as well
      have hr' := h.padded hb hr
      rcases hq with rfl | hq
      · exact hc hr'
      · rw [hq.1] at hr'; cases hr'

theorem Shy.quiet_of_padded (h : rule.Shy) (hq : rule.Quiet b t) (hb : Padded b b') :
    rule.Quiet b' t := by
  induction t generalizing b b' with
  | nil => trivial
  | cons c t ih =>
    refine ⟨Bool.eq_false_iff.2 fun hr => ?_, ih hq.2 (.keep hb)⟩
    have hr' := h.padded hb hr
    rw [hq.1] at hr'; cases hr'

theorem Shy.quiet_append_space (h : rule.Shy) (hq : rule.Quiet b t) : rule.Quiet b (t ++ [' ']) := by
  induction t generalizing b with
  | nil => exact ⟨h.before_space b, trivial⟩
  | cons c t ih => exact ⟨hq.1, ih hq.2⟩

end GapRule

/-! ### Capitals -/

/-- What may stand just before the first letter of a sentence. -/
def opensSentence (a : Char) : Bool := isBlank a || fullStopMarks.contains a || a = '>'

/-- Some first letters of sentences become capitals, in a text that stands behind `before`. -/
inductive Text.Raises : Option Char → Text → Text → Prop where
  | nil {before : Option Char} : Raises before [] []
  | keep {before : Option Char} {c : Char} {t t' : Text} (h : Raises (some c) t t') :
      Raises before (c :: t) (c :: t')
  | raise {before : Option Char} {c : Char} {t t' : Text} (hc : isSmall c = true)
      (hbefore : before.all opensSentence = true) (h : Raises (some c) t t') :
      Raises before (c :: t) (c.toUpper :: t')

theorem GapRule.Shy.quiet_raises (h : rule.Shy) (hq : rule.Quiet b t) (hb : Recased b b')
    (hr : Raises b.head? t t') : rule.Quiet b' t' := by
  induction t generalizing b b' t' with
  | nil => cases hr; trivial
  | cons c t ih =>
    have hne : ∀ {c'}, (c' = c ∨ (isSmall c = true ∧ c' = c.toUpper ∧ b.head? ≠ some '.')) →
        rule b' c' = false := fun hc => by
      refine Bool.eq_false_iff.2 fun hr => ?_
      have := h.recased hb hc hr
      rw [hq.1] at this; cases this
    cases hr with
    | keep hr => exact ⟨hne (.inl rfl), ih hq.2 (.cons (.inl rfl) hb) hr⟩
    | raise hc hbefore hr =>
      -- a full stop on its own does not open a sentence, the blank behind it does
      refine ⟨hne (.inr ⟨hc, rfl, fun hdot => ?_⟩), ih hq.2 (.cons (.inr ⟨hc, rfl⟩) hb) hr⟩
      rw [hdot] at hbefore
      exact absurd hbefore (by decide)

/-! ### Blanks between tight characters -/

/-- No space stands between two tight characters, in a text that stands behind `before`. -/
def Text.Taut (before : Option Char) : Text → Prop
  | [] => True
  | c :: t => ¬ (c = ' ' ∧ before.any isTight = true ∧
      (t.dropWhile (· = ' ')).head?.any isTight = true) ∧ Taut (some c) t

theorem loosenedFrom_eq_nil_iff {before : Option Char} {offset : ℕ} :
    loosenedFrom before offset t = [] ↔ Taut before t := by
  induction t generalizing before offset with
  | nil => exact ⟨fun _ => trivial, fun _ => rfl⟩
  | cons c t ih =>
    rw [loosenedFrom, Taut, ← @ih _ (offset + 1)]
    split_ifs with h
    · simp only [Bool.and_eq_true, decide_eq_true_eq, and_assoc] at h
      simp [h]
    · simp only [Bool.and_eq_true, decide_eq_true_eq, and_assoc] at h
      simp only [h, not_false_eq_true, true_and]

theorem loosened_eq_nil_iff : loosened t = [] ↔ Taut none t := loosenedFrom_eq_nil_iff

theorem head?_dropWhile_tighten (before : Option Char) (t : Text) :
    ((tighten before t).dropWhile (· = ' ')).head? = (t.dropWhile (· = ' ')).head? := by
  induction t generalizing before with
  | nil => rfl
  | cons c t ih =>
    rw [tighten]
    split_ifs with h
    · simp only [Bool.and_eq_true, decide_eq_true_eq] at h
      rw [ih, h.1.1]; rfl
    · by_cases hc : c = ' '
      · simp only [hc, decide_true, List.dropWhile_cons_of_pos]; exact ih _
      · simp [hc]

theorem taut_tighten (before : Option Char) (t : Text) : Taut before (tighten before t) := by
  induction t generalizing before with
  | nil => trivial
  | cons c t ih =>
    rw [tighten]
    split_ifs with h
    · exact ih before
    · simp only [Bool.and_eq_true, decide_eq_true_eq, and_assoc] at h
      exact ⟨by rwa [head?_dropWhile_tighten], ih (some c)⟩

theorem head?_dropWhile_spread (σ : GapRule) (b t : Text) :
    ((spread σ b t).dropWhile (· = ' ')).head? = (t.dropWhile (· = ' ')).head? := by
  induction t generalizing b with
  | nil => rfl
  | cons c t ih =>
    have hcons : ((c :: spread σ (c :: b) t).dropWhile (· = ' ')).head? =
        ((c :: t).dropWhile (· = ' ')).head? := by
      by_cases hc : c = ' '
      · simp only [hc, decide_true, List.dropWhile_cons_of_pos]; exact ih _
      · simp [hc]
    rw [spread]
    split_ifs
    · rw [List.dropWhile_cons_of_pos (by simp)]; exact hcons
    · exact hcons

theorem taut_spread (h : σ.Shy) (ht : Taut b.head? t) : Taut b.head? (spread σ b t) := by
  induction t generalizing b with
  | nil => trivial
  | cons c t ih =>
    have hrest : Taut (some c) (spread σ (c :: b) t) := ih (b := c :: b) ht.2
    rw [spread]
    split_ifs with hr
    · -- the space that comes before `c` does not stand between tight characters
      obtain ⟨a, rest, rfl, hgap⟩ := h.fillable hr
      have hc : c ≠ ' ' := fun he => by
        have := hgap.isBlank_eq.2; rw [he] at this; exact absurd this (by decide)
      refine ⟨fun hcond => hgap.loose ⟨hcond.2.1, ?_⟩, fun hcond => hc hcond.1, hrest⟩
      have hnext := hcond.2.2
      rw [List.dropWhile_cons_of_neg (by simpa using hc)] at hnext
      exact hnext
    · exact ⟨by rw [head?_dropWhile_spread]; exact ht.1, hrest⟩

theorem Text.Taut.behind {before before' : Option Char} (h : Taut before t)
    (hb : before'.any isTight = true → before.any isTight = true) : Taut before' t := by
  cases t with
  | nil => trivial
  | cons c t => exact ⟨fun hc => h.1 ⟨hc.1, hb hc.2.1, hc.2.2⟩, h.2⟩

theorem Text.Taut.append_space {before : Option Char} (h : Taut before t) :
    Taut before (t ++ [' ']) := by
  have hhead : ∀ t : Text, ((t ++ [' ']).dropWhile (· = ' ')).head?.any isTight = true →
      (t.dropWhile (· = ' ')).head?.any isTight = true := by
    intro t
    induction t with
    | nil => exact fun h => absurd h (by decide)
    | cons c t ih =>
      by_cases hc : c = ' '
      · simpa [hc] using ih
      · simp [hc]
  induction t generalizing before with
  | nil => exact ⟨fun hc => absurd hc.2.2 (by decide), trivial⟩
  | cons c t ih => exact ⟨fun hc => h.1 ⟨hc.1, hc.2.1, hhead t hc.2.2⟩, ih h.2⟩

theorem isTight_toUpper (h : isSmall c = true) : isTight c.toUpper = isTight c := by
  rw [isTight_of_isLatin (isLatin_iff.2 (.inl (isCapital_toUpper h))),
    isTight_of_isLatin (isLatin_iff.2 (.inr h))]

theorem Text.Raises.head?_dropWhile {before : Option Char} (h : Raises before t t') :
    (t'.dropWhile (· = ' ')).head?.any isTight = (t.dropWhile (· = ' ')).head?.any isTight := by
  induction h with
  | nil => rfl
  | @keep _ c t t' _ ih =>
    by_cases hc : c = ' '
    · simpa [hc] using ih
    · simp [hc]
  | @raise _ c t t' hc _ _ _ =>
    have h1 : c ≠ ' ' := by rintro rfl; exact absurd hc (by decide)
    have h2 : c.toUpper ≠ ' ' := fun he => by
      have := isCapital_toUpper hc; rw [he] at this; exact absurd this (by decide)
    simp [h1, h2, isTight_toUpper hc]

theorem Text.Taut.raises {before before' : Option Char} (h : Taut before t)
    (hb : before'.any isTight = before.any isTight) (hr : Raises before t t') : Taut before' t' := by
  induction hr generalizing before' with
  | nil => trivial
  | keep hr ih =>
    refine ⟨?_, ih h.2 rfl⟩
    rw [hb, hr.head?_dropWhile]
    exact h.1
  | @raise _ c _ _ hc _ hr ih =>
    refine ⟨fun hcond => ?_, ih h.2 (isTight_toUpper hc)⟩
    have := isCapital_toUpper hc
    rw [hcond.1] at this; exact absurd this (by decide)

/-! ### Settled text -/

/-- No spacing rule of the style finds anything to change in the text. -/
def Text.Settled (style : Style) (t : Text) : Prop := ∀ rule ∈ spacingRules style, rule t = []

theorem settled_iff : Settled style t ↔
    (style.cjkNoSpace = true → Taut none t) ∧ ∀ rule ∈ gapRules style, rule.Quiet [] t := by
  simp only [Settled, spacingRules_eq, List.mem_append, List.mem_ite_nil_right, List.mem_singleton,
    List.mem_map]
  constructor
  · intro h
    exact ⟨fun hs => loosened_eq_nil_iff.1 (h _ (.inl ⟨hs, rfl⟩)),
      fun rule hr => gaps_eq_nil_iff.1 (h _ (.inr ⟨rule, hr, rfl⟩))⟩
  · rintro ⟨h1, h2⟩ rule (⟨hs, rfl⟩ | ⟨g, hg, rfl⟩)
    · exact loosened_eq_nil_iff.2 (h1 hs)
    · exact gaps_eq_nil_iff.2 (h2 g hg)

/-- What holds after some rules for gaps still holds after some more. -/
theorem settled_foldl {rules : List GapRule} (hrules : ∀ σ ∈ rules, σ ∈ gapRules style)
    (done : List GapRule) (hdone : ∀ rule ∈ done, rule ∈ gapRules style)
    (htaut : style.cjkNoSpace = true → Taut none t) (hquiet : ∀ rule ∈ done, rule.Quiet [] t) :
    (style.cjkNoSpace = true → Taut none (spreadAll rules t)) ∧
      ∀ rule ∈ done ++ rules, rule.Quiet [] (spreadAll rules t) := by
  induction rules generalizing t done with
  | nil => exact ⟨htaut, by simpa [spreadAll] using hquiet⟩
  | cons σ rules ih =>
    have hσ := hrules σ List.mem_cons_self
    have hdone' : ∀ rule ∈ done ++ [σ], rule ∈ gapRules style := by
      intro rule hr
      rcases List.mem_append.1 hr with hr | hr
      · exact hdone rule hr
      · rw [List.mem_singleton.1 hr]; exact hσ
    have := ih (t := spread σ [] t) (fun r hr => hrules r (List.mem_cons_of_mem _ hr))
      (done ++ [σ]) hdone'
      (fun hs => taut_spread (b := []) (shy_of_mem_gapRules hσ) (htaut hs)) fun rule hr => by
        refine (shy_of_mem_gapRules (hdone' rule hr)).quiet_spread ?_ .nil
        rcases List.mem_append.1 hr with hr | hr
        · exact .inr (hquiet rule hr)
        · exact .inl (List.mem_singleton.1 hr)
    simpa [spreadAll] using this

/-- **One round of all rules settles a text.** -/
theorem settled_respace (style : Style) (t : Text) : Settled style (style.respace t) := by
  rw [settled_iff, respace_eq]
  refine settled_foldl (fun _ h => h) [] (by simp) (fun hs => ?_) (by simp)
  rw [if_pos hs]
  exact taut_tighten none t

/-- The rules leave a settled text as it is. -/
theorem Text.Settled.respace_eq (h : Settled style t) : style.respace t = t := by
  have key : ∀ rules : List SpacingRule, (∀ rule ∈ rules, rule t = []) →
      rules.foldl (fun t rule => SpacingRule.run rule t) t = t := by
    intro rules
    induction rules with
    | nil => exact fun _ => rfl
    | cons rule rules ih =>
      intro hall
      rw [List.foldl_cons, SpacingRule.run, hall rule List.mem_cons_self]
      exact ih fun r hr => hall r (List.mem_cons_of_mem _ hr)
  exact key _ h

theorem Text.Settled.space_cons (h : Settled style t) : Settled style (' ' :: t) := by
  rw [settled_iff] at h ⊢
  refine ⟨fun hs => ⟨fun hc => absurd hc.2.1 (by decide), (h.1 hs).behind (by decide)⟩,
    fun rule hr => ?_⟩
  have hshy := shy_of_mem_gapRules hr
  exact ⟨hshy.at_start _, hshy.quiet_of_padded (h.2 rule hr) (.space .nil)⟩

theorem Text.Settled.append_space (h : Settled style t) : Settled style (t ++ [' ']) := by
  rw [settled_iff] at h ⊢
  exact ⟨fun hs => (h.1 hs).append_space,
    fun rule hr => (shy_of_mem_gapRules hr).quiet_append_space (h.2 rule hr)⟩

theorem Text.Settled.raises (h : Settled style t) (hr : Raises none t t') : Settled style t' := by
  rw [settled_iff] at h ⊢
  exact ⟨fun hs => (h.1 hs).raises rfl hr,
    fun rule hrule => (shy_of_mem_gapRules hrule).quiet_raises (h.2 rule hrule) .nil hr⟩

/-- Text without spaces, letters and digits, and without Chinese and Japanese characters. -/
theorem settled_of_forall (style : Style) (h : ∀ c ∈ t, c ≠ ' ' ∧
    ¬ (isCjk c = true ∨ isLatin c = true ∨ isFigure c = true)) : Settled style t := by
  have hquiet : ∀ rule ∈ gapRules style, ∀ b, rule.Quiet b t := by
    intro rule hr
    induction t with
    | nil => exact fun _ => trivial
    | cons c t ih =>
      intro b
      refine ⟨Bool.eq_false_iff.2 fun hfires => ?_,
        ih (fun d hd => h d (List.mem_cons_of_mem _ hd)) _⟩
      obtain ⟨_, _, -, hgap⟩ := fillableGap_of_mem_gapRules hr hfires
      exact (h c List.mem_cons_self).2 hgap.after
  have htaut : ∀ before, Taut before t := by
    clear hquiet
    induction t with
    | nil => exact fun _ => trivial
    | cons c t ih =>
      intro before
      exact ⟨fun hc => (h c List.mem_cons_self).1 hc.1,
        ih (fun d hd => h d (List.mem_cons_of_mem _ hd)) _⟩
  exact settled_iff.2 ⟨fun _ => htaut none, fun rule hr => hquiet rule hr []⟩

theorem settled_space (style : Style) : Settled style [' '] :=
  Settled.space_cons fun rule hr => by
    rw [spacingRules_eq, List.mem_append, List.mem_ite_nil_right, List.mem_singleton,
      List.mem_map] at hr
    rcases hr with ⟨-, rfl⟩ | ⟨g, -, rfl⟩ <;> rfl

end TypingAid
