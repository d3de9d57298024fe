import TypingAid.Line.Lead
import TypingAid.Proofs.Line.Settled
import Mathlib.Tactic.Conv

/-!
# The lead when a line is set

Setting a line leaves its lead as long as it is (`Text.Alike.leadLength_eq`).  The lead is made of
blanks, marks and numbers.  Two lines are alike if they agree, apart from small letters that have
become capitals, up to a place that no lead goes past (`Text.Alike`): behind a tight character, in a
gap between words where one of the lines has a space (`Text.WordGap`), or before an inline span
(`Text.Inert`).
-/

namespace TypingAid

open Text Unicode

variable {style : Style} {b t t' u u' : Text} {a c : Char}

/-! ### Decimal digits -/

theorem isDecimal_iff : isDecimal c = true ↔ ∃ z ∈ decimalZeros, z ≤ c.toNat ∧ c.toNat < z + 10 := by
  simp only [isDecimal, decimalValue?, Option.isSome_map, List.find?_isSome, Bool.and_eq_true,
    decide_eq_true_eq]

theorem isDecimal_of_isLatin (h : isLatin c = true) : isDecimal c = false := by
  refine Bool.eq_false_iff.2 fun hd => ?_
  obtain ⟨z, hz, h1, h2⟩ := isDecimal_iff.1 hd
  have key : ∀ z ∈ decimalZeros, z = 0x30 ∨ 0x660 ≤ z := by decide
  have := key z hz
  rcases isLatin_iff.1 h with h | h
  · have := isCapital_iff.1 h; omega
  · have := isSmall_iff.1 h; omega

theorem isDecimal_of_isTight (h : isTight c = true) : isDecimal c = false := by
  rcases isTight_iff.1 h with h | h
  · refine Bool.eq_false_iff.2 fun hd => ?_
    obtain ⟨z, hz, h1, h2⟩ := isDecimal_iff.1 hd
    have key : ∀ z ∈ decimalZeros, z < 0x3000 ∨ (0xA620 ≤ z ∧ z < 0xF800) ∨ 0xFF10 ≤ z := by decide
    have := key z hz
    have := isCjk_iff.1 h
    omega
  · have key : ∀ d ∈ fullWidthMarks, isDecimal d = false := by decide +kernel
    exact key c (by simpa [isFullWidthMark] using h)

/-! ### Where a lead stops -/

/-- The characters that an inline span may start with. -/
def spanHeads : List Char := ['\x60', '$', '!', '[', 'h', 'f', '*', '_', '~', '=']

/-- What an inline span starts with, and nothing that a lead could go on with. -/
structure Text.Inert (t : Text) : Prop where
  head : ∀ c ∈ t.head?, c ∈ spanHeads
  mark : markLength t = 0
  checkBox : checkBoxLength t = 0

/-- A gap behind a word, which ends in neither a blank nor a mark, and before a word, which does not
start with one. -/
structure Text.WordGap (before t : Text) : Prop where
  behind : ∃ a rest, before = a :: rest ∧ isBlank a = false ∧
    a ∉ ['-', '+', '*', '#', '>', ')', '[', ']'] ∧ (a = '.' → rest.head?.any isSmall = true) ∧
      (isDecimal a = true → ∀ c ∈ t.head?, isDecimal c = false)
  head : ∀ c ∈ t.head?, isBlank c = false ∧ c ∉ ['.', ')', ']', '#', '>']

/-- Two texts that stand behind `before` and agree as far as a lead may go, capitals apart. -/
inductive Text.Alike : Text → Text → Text → Prop where
  | nil {before : Text} : Alike before [] []
  | keep {before : Text} {c : Char} {t t' : Text} (h : Alike (c :: before) t t') :
      Alike before (c :: t) (c :: t')
  | raise {before : Text} {c : Char} {t t' : Text} (hc : isSmall c = true)
      (h : Alike (c :: before) t t') : Alike before (c :: t) (c.toUpper :: t')
  | tight {before t t' : Text} (h : before.head?.any isTight = true) : Alike before t t'
  | widen {before t t' : Text} (h : WordGap before t) : Alike before t (' ' :: t')
  | stop {before t t' : Text} (h : Inert t) (h' : Inert t') : Alike before t t'

theorem Text.Alike.prepend (s : Text) (h : Alike (s.reverse ++ b) t t') :
    Alike b (s ++ t) (s ++ t') := by
  induction s generalizing b with
  | nil => exact h
  | cons c s ih => exact .keep (ih (by simpa using h))

/-! ### Runs -/

/-- A run of characters that satisfy `p` goes on behind `before` in both of two texts or in none. -/
structure Text.Steady (p : Char → Bool) (before : Text) : Prop where
  tight : before.head?.any isTight = false
  gap : ∀ t, WordGap before t → t.head?.any p = false ∧ p ' ' = false

/-- The class of characters is part of leads. -/
structure LeadClass (p : Char → Bool) : Prop where
  steady : ∀ c before, p c = true → Steady p (c :: before)
  latin : ∀ c, isLatin c = true → p c = false
  inert : ∀ c ∈ spanHeads, p c = false

theorem Text.Alike.run {p : Char → Bool} (hp : LeadClass p) (hb : Steady p b) (h : Alike b t t') :
    ∃ r u u', t = r ++ u ∧ t' = r ++ u' ∧ (∀ c ∈ r, p c = true) ∧ u.head?.any p = false ∧
      u'.head?.any p = false ∧ Alike (r.reverse ++ b) u u' := by
  -- the run only goes on where the texts share a character, so each other case ends it
  have hinert : ∀ {t : Text}, Inert t → t.head?.any p = false := by
    intro t ht
    cases hh : t.head? with
    | none => rfl
    | some c => exact hp.inert c (ht.head c hh)
  induction h with
  | nil => exact ⟨[], [], [], rfl, rfl, by simp, rfl, rfl, .nil⟩
  | @keep before c t t' h ih =>
    cases hc : p c with
    | true =>
      obtain ⟨r, u, u', rfl, rfl, hr, hu, hu', ha⟩ := ih (hp.steady c before hc)
      exact ⟨c :: r, u, u', rfl, rfl, by simpa [hc] using hr, hu, hu', by simpa using ha⟩
    | false => exact ⟨[], c :: t, c :: t', rfl, rfl, by simp, by simpa, by simpa, .keep h⟩
  | @raise before c t t' hc h ih =>
    have h1 := hp.latin c (isLatin_iff.2 (.inr hc))
    have h2 := hp.latin c.toUpper (isLatin_iff.2 (.inl (isCapital_toUpper hc)))
    exact ⟨[], c :: t, c.toUpper :: t', rfl, rfl, by simp, by simpa, by simpa, .raise hc h⟩
  | tight h => rw [hb.tight] at h; cases h
  | @widen before t t' h =>
    obtain ⟨h1, h2⟩ := hb.gap t h
    exact ⟨[], t, ' ' :: t', rfl, rfl, by simp, h1, by simpa, .widen h⟩
  | stop h h' => exact ⟨[], _, _, rfl, rfl, by simp, hinert h, hinert h', .stop h h'⟩

/-- Behind a blank or a mark no gap is one between words. -/
theorem steady_of_mark {p : Char → Bool} (before : Text)
    (hc : isBlank c = true ∨ c ∈ ['-', '+', '*', '#', '>', ')', '[', ']']) :
    Steady p (c :: before) where
  tight := by
    rcases hc with hc | hc
    · refine Bool.eq_false_iff.2 fun ht => ?_
      rw [isBlank_of_isTight ht] at hc; cases hc
    · have key : ∀ d ∈ ['-', '+', '*', '#', '>', ')', '[', ']'], isTight d = false := by decide
      exact key c hc
  gap t h := by
    obtain ⟨a, rest, he, hblank, hmark, -⟩ := h.behind
    cases he
    rcases hc with hc | hc
    · rw [hblank] at hc; cases hc
    · exact absurd hc hmark

theorem steady_nil {p : Char → Bool} : Steady p [] where
  tight := rfl
  gap t h := by obtain ⟨_, _, he, -⟩ := h.behind; cases he

theorem leadClass_isBlank : LeadClass isBlank where
  steady c before hc := steady_of_mark before (.inl hc)
  latin _ hc := isBlank_of_isLatin hc
  inert := by decide

theorem leadClass_eq {m : Char} (hm : m ∈ ['#', '>']) : LeadClass (· = m) where
  steady c before hc := by
    rw [decide_eq_true_eq] at hc
    subst hc
    refine steady_of_mark before (.inr ?_)
    simp only [List.mem_cons, List.not_mem_nil, or_false] at hm
    rcases hm with rfl | rfl <;> decide
  latin c hc := by
    refine decide_eq_false fun he => ?_
    subst he
    have key : ∀ d ∈ ['#', '>'], isLatin d = false := by decide
    rw [key c hm] at hc; cases hc
  inert := by
    simp only [List.mem_cons, List.not_mem_nil, or_false] at hm
    rcases hm with rfl | rfl <;> decide

theorem leadClass_isDecimal : LeadClass isDecimal where
  steady c before hc :=
    { tight := by
        refine Bool.eq_false_iff.2 fun ht => ?_
        rw [isDecimal_of_isTight ht] at hc; cases hc
      gap := by
        intro t h
        obtain ⟨a, rest, he, -, -, -, hdec⟩ := h.behind
        cases he
        refine ⟨?_, by decide +kernel⟩
        cases ht : t.head? with
        | none => rfl
        | some d => exact hdec hc d ht }
  latin _ hc := isDecimal_of_isLatin hc
  inert := by decide +kernel

/-! ### Check boxes -/

/-- What a check box holds. -/
def boxContent : List Char := [' ', 'x', 'X']

theorem checkBoxLength_eq_zero (h : ∀ c rest, t = '[' :: c :: ']' :: rest → c ∉ boxContent) :
    checkBoxLength t = 0 := by
  unfold checkBoxLength
  split
  · next c rest =>
    have := h c rest rfl
    simp only [boxContent, List.mem_cons, List.not_mem_nil, or_false, not_or] at this
    simp [this]
  · rfl

theorem checkBoxLength_box (hc : c ∈ boxContent) (rest : Text) :
    checkBoxLength ('[' :: c :: ']' :: rest) = if 0 < blanks rest then 3 + blanks rest else 0 := by
  simp only [boxContent, List.mem_cons, List.not_mem_nil, or_false] at hc
  simp [checkBoxLength, hc, or_assoc]

theorem checkBoxLength_of_head? (h : t.head? ≠ some '[') : checkBoxLength t = 0 :=
  checkBoxLength_eq_zero fun c rest he => by rw [he] at h; exact absurd rfl h

theorem checkBoxLength_of_content (h : ∀ c ∈ t.head?, c ∉ boxContent) :
    checkBoxLength ('[' :: t) = 0 :=
  checkBoxLength_eq_zero fun c rest he => h c (by rw [(List.cons.inj he).2]; rfl)

theorem checkBoxLength_of_closing (h : t.head? ≠ some ']') : checkBoxLength ('[' :: c :: t) = 0 :=
  checkBoxLength_eq_zero fun d rest he => by cases he; exact absurd rfl h

theorem ne_of_isLatin {d : Char} (hc : isLatin c = true) (hd : isLatin d = false) :
    some c ≠ some d := fun he => by
  rw [Option.some.inj he, hd] at hc; cases hc

/-- A letter that becomes a capital may be in a box before only if it is afterwards. -/
theorem boxContent_toUpper (hc : isSmall c = true) : c.toUpper ∈ boxContent ↔ c ∈ boxContent := by
  have h1 := toNat_toUpper hc
  have h2 := isSmall_iff.1 hc
  have hiff : ∀ d : Char, d ∈ boxContent ↔ d.toNat = 32 ∨ d.toNat = 120 ∨ d.toNat = 88 := by
    intro d
    simp only [boxContent, List.mem_cons, List.not_mem_nil, or_false, ← Char.toNat_inj]
    rfl
  rw [hiff, hiff]
  omega

theorem Text.Steady.not_wordGap (h : Steady isBlank b) : ¬ WordGap b t := fun hgap =>
  absurd (h.gap t hgap).2 (by decide)

/-- Behind what a box holds, both texts close it or none does. -/
theorem Text.Alike.boxClosing (c' : Char) (hc : c ∈ boxContent) (h : Alike (c :: '[' :: b) t t') :
    (checkBoxLength ('[' :: c :: t) = 0 ∧ checkBoxLength ('[' :: c' :: t') = 0) ∨
      ∃ rest rest', t = ']' :: rest ∧ t' = ']' :: rest' ∧
        Alike (']' :: c :: '[' :: b) rest rest' := by
  cases h with
  | nil => exact .inl ⟨checkBoxLength_of_closing (by simp), checkBoxLength_of_closing (by simp)⟩
  | @keep _ d t t' h =>
    by_cases hd : d = ']'
    · subst hd; exact .inr ⟨t, t', rfl, rfl, h⟩
    · exact .inl ⟨checkBoxLength_of_closing (by simpa), checkBoxLength_of_closing (by simpa)⟩
  | raise hd h =>
    exact .inl ⟨checkBoxLength_of_closing (ne_of_isLatin (isLatin_iff.2 (.inr hd)) (by decide)),
      checkBoxLength_of_closing
        (ne_of_isLatin (isLatin_iff.2 (.inl (isCapital_toUpper hd))) (by decide))⟩
  | tight h =>
    have key : ∀ d ∈ boxContent, isTight d = false := by decide
    rw [List.head?_cons, Option.any_some, key c hc] at h; cases h
  | widen h =>
    exact .inl ⟨checkBoxLength_of_closing fun he => absurd (h.head _ he).2 (by decide),
      checkBoxLength_of_closing (by simp)⟩
  | stop h h' =>
    have key : ']' ∉ spanHeads := by decide
    exact .inl ⟨checkBoxLength_of_closing fun he => key (h.head _ he),
      checkBoxLength_of_closing fun he => key (h'.head _ he)⟩

/-- Behind the opening bracket, both texts go on like a check box or none does. -/
theorem Text.Alike.boxOpening (h : Alike ('[' :: b) t t') :
    (checkBoxLength ('[' :: t) = 0 ∧ checkBoxLength ('[' :: t') = 0) ∨
      ∃ c c' rest rest', t = c :: ']' :: rest ∧ t' = c' :: ']' :: rest' ∧
        c ∈ boxContent ∧ c' ∈ boxContent ∧
          Alike (']' :: c :: '[' :: b) rest rest' := by
  have hbox : Steady isBlank ('[' :: b) := steady_of_mark b (.inr (by decide))
  have hstep : ∀ {c c' : Char} {t t' : Text}, (c' ∈ boxContent ↔ c ∈ boxContent) →
      Alike (c :: '[' :: b) t t' →
      (checkBoxLength ('[' :: c :: t) = 0 ∧ checkBoxLength ('[' :: c' :: t') = 0) ∨
        ∃ d d' rest rest', c :: t = d :: ']' :: rest ∧ c' :: t' = d' :: ']' :: rest' ∧
          d ∈ boxContent ∧ d' ∈ boxContent ∧
            Alike (']' :: d :: '[' :: b) rest rest' := by
    intro c c' t t' hiff h
    by_cases hc : c ∈ boxContent
    · -- then all depends on whether the box is closed behind it
      rcases h.boxClosing c' hc with hz | ⟨rest, rest', rfl, rfl, hrest⟩
      · exact .inl hz
      · exact .inr ⟨c, c', rest, rest', rfl, rfl, hc, hiff.2 hc, hrest⟩
    · exact .inl ⟨checkBoxLength_of_content (by simpa using hc),
        checkBoxLength_of_content (by simpa [hiff] using hc)⟩
  cases h with
  | nil => exact .inl ⟨rfl, rfl⟩
  | keep h => exact hstep Iff.rfl h
  | raise hc h => exact hstep (boxContent_toUpper hc) h
  | tight h => rw [hbox.tight] at h; cases h
  | widen h => exact absurd h hbox.not_wordGap
  | stop h h' =>
    have key : ∀ c ∈ spanHeads, c ∉ boxContent := by decide
    exact .inl ⟨checkBoxLength_of_content fun c hc => key c (h.head c hc),
      checkBoxLength_of_content fun c hc => key c (h'.head c hc)⟩

/-- Of two texts that are alike both start like a check box, or none does. -/
theorem Text.Alike.box (hb : Steady isBlank b) (h : Alike b t t') :
    (checkBoxLength t = 0 ∧ checkBoxLength t' = 0) ∨
      ∃ c c' rest rest', t = '[' :: c :: ']' :: rest ∧ t' = '[' :: c' :: ']' :: rest' ∧
        c ∈ boxContent ∧ c' ∈ boxContent ∧
          Alike (']' :: c :: '[' :: b) rest rest' := by
  cases h with
  | nil => exact .inl ⟨rfl, rfl⟩
  | @keep _ d t t' h =>
    by_cases hd : d = '['
    · subst hd
      rcases h.boxOpening with hz | ⟨c, c', rest, rest', rfl, rfl, hc, hc', hrest⟩
      · exact .inl hz
      · exact .inr ⟨c, c', rest, rest', rfl, rfl, hc, hc', hrest⟩
    · exact .inl ⟨checkBoxLength_of_head? (by simpa), checkBoxLength_of_head? (by simpa)⟩
  | raise hd h =>
    exact .inl ⟨checkBoxLength_of_head? (ne_of_isLatin (isLatin_iff.2 (.inr hd)) (by decide)),
      checkBoxLength_of_head?
        (ne_of_isLatin (isLatin_iff.2 (.inl (isCapital_toUpper hd))) (by decide))⟩
  | tight h => rw [hb.tight] at h; cases h
  | widen h => exact absurd h hb.not_wordGap
  | stop h h' => exact .inl ⟨h.checkBox, h'.checkBox⟩

/-! ### Marks -/

theorem Text.Steady.append {p : Char → Bool} {r : Text} (hb : Steady p b)
    (hr : ∀ c ∈ r, isBlank c = true ∨ c ∈ ['-', '+', '*', '#', '>', ')', '[', ']']) :
    Steady p (r.reverse ++ b) := by
  cases hrev : r.reverse with
  | nil => exact hb
  | cons c s => exact steady_of_mark _ (hr c (by rw [← List.mem_reverse, hrev]; simp))

/-- Behind the same number of characters two texts are alike, and no space comes or goes there. -/
def Text.AlikeBehind (n : ℕ) (t t' : Text) : Prop :=
  ∃ b, Steady isBlank b ∧ Alike b (t.drop n) (t'.drop n)

theorem length_blanks {r : Text} (hr : ∀ c ∈ r, isBlank c = true)
    (hu : u.head?.any isBlank = false) : blanks (r ++ u) = r.length := by
  rw [blanks, takeWhile_append_stop hr hu]

theorem Text.Alike.blankRun (hb : Steady isBlank b) (h : Alike b t t') :
    ∃ r u u', t = r ++ u ∧ t' = r ++ u' ∧ blanks t = r.length ∧ blanks t' = r.length ∧
      Steady isBlank (r.reverse ++ b) ∧ Alike (r.reverse ++ b) u u' := by
  obtain ⟨r, u, u', rfl, rfl, hr, hu, hu', ha⟩ := h.run leadClass_isBlank hb
  exact ⟨r, u, u', rfl, rfl, length_blanks hr hu, length_blanks hr hu',
    hb.append fun c hc => .inl (hr c hc), ha⟩

theorem Text.Alike.checkBox (hb : Steady isBlank b) (h : Alike b t t') :
    checkBoxLength t' = checkBoxLength t ∧
      (0 < checkBoxLength t → AlikeBehind (checkBoxLength t) t t') := by
  rcases h.box hb with ⟨h0, h0'⟩ | ⟨c, c', rest, rest', rfl, rfl, hc, hc', hrest⟩
  · exact ⟨by rw [h0, h0'], fun hpos => by omega⟩
  obtain ⟨r, u, u', rfl, rfl, hn, hn', hb', ha⟩ :=
    hrest.blankRun (steady_of_mark _ (.inr (by decide)))
  rw [checkBoxLength_box hc, checkBoxLength_box hc', hn, hn']
  refine ⟨rfl, fun hpos => ⟨_, hb', ?_⟩⟩
  have hr : 0 < r.length := by
    by_contra h0
    rw [if_neg h0] at hpos; omega
  rw [if_pos hr, Nat.add_comm]
  simpa using ha

@[simp] theorem markLength_nil : markLength [] = 0 := by rw [markLength]

theorem markLength_bullet (hc : c ∈ ['-', '+', '*']) (t : Text) : markLength (c :: t) =
    if blanks t = 0 then 0 else 1 + blanks t + checkBoxLength (t.drop (blanks t)) := by
  have hc' : (c = '-' || c = '+' || c = '*') = true := by
    simpa [or_assoc] using hc
  simp only [markLength, hc', if_true]

theorem markLength_quote (t : Text) : markLength ('>' :: t) =
    1 + (t.takeWhile (· = '>')).length + blanks (t.drop (t.takeWhile (· = '>')).length) := by
  simp [markLength]

theorem markLength_heading (t : Text) : markLength ('#' :: t) =
    if (t.takeWhile (· = '#')).length < 6 ∧ 0 < blanks (t.drop (t.takeWhile (· = '#')).length) then
      1 + (t.takeWhile (· = '#')).length + blanks (t.drop (t.takeWhile (· = '#')).length)
    else 0 := by
  simp [markLength]

/-- Length of a number of `n + 1` digits, the full stop or parenthesis that has to come next, and
the blanks behind it, or zero. -/
def numberLength (n : ℕ) : Text → ℕ
  | [] => 0
  | mark :: after =>
    if (mark = '.' || mark = ')') && 0 < blanks after then 2 + n + blanks after else 0

theorem numberLength_eq_zero {n : ℕ} (h : ∀ m ∈ t.head?, m ∉ ['.', ')']) : numberLength n t = 0 := by
  cases t with
  | nil => rfl
  | cons m after =>
    have := h m rfl
    simp only [List.mem_cons, List.not_mem_nil, or_false, not_or] at this
    simp [numberLength, this]

theorem markLength_number (hc : isDecimal c = true) (t : Text) : markLength (c :: t) =
    numberLength (t.takeWhile isDecimal).length (t.dropWhile isDecimal) := by
  have key : ∀ d ∈ ['-', '+', '*', '>', '#'], isDecimal d = false := by decide +kernel
  have hne : ∀ d ∈ ['-', '+', '*', '>', '#'], c ≠ d := fun d hd he => by
    rw [he, key d hd] at hc; cases hc
  simp only [List.forall_mem_cons] at hne
  obtain ⟨h1, h2, h3, h4, h5, -⟩ := hne
  rw [← drop_length_takeWhile]
  simp only [markLength, h1, h2, h3, h4, h5, hc, decide_false, Bool.or_self, Bool.false_eq_true,
    if_false, if_true]
  cases t.drop (t.takeWhile isDecimal).length <;> rfl

theorem markLength_of_other (hc : c ∉ ['-', '+', '*', '>', '#']) (hd : isDecimal c = false)
    (t : Text) : markLength (c :: t) = 0 := by
  simp only [List.mem_cons, List.not_mem_nil, or_false, not_or] at hc
  simp [markLength, hc, hd]

/-- A bullet, its blanks and a check box. -/
theorem Text.Alike.bullet (hc : c ∈ ['-', '+', '*']) (h : Alike (c :: b) t t') :
    markLength (c :: t') = markLength (c :: t) ∧
      (0 < markLength (c :: t) → AlikeBehind (markLength (c :: t)) (c :: t) (c :: t')) := by
  have hmark : c ∈ ['-', '+', '*', '#', '>', ')', '[', ']'] := by
    simp only [List.mem_cons, List.not_mem_nil, or_false] at hc ⊢
    rcases hc with rfl | rfl | rfl <;> decide
  obtain ⟨r, u, u', rfl, rfl, hn, hn', hb, ha⟩ := h.blankRun (steady_of_mark b (.inr hmark))
  obtain ⟨hbox, hbehind⟩ := ha.checkBox hb
  rw [markLength_bullet hc, markLength_bullet hc, hn, hn', List.drop_left, List.drop_left, hbox]
  refine ⟨rfl, fun hpos => ?_⟩
  have hr : r.length ≠ 0 := fun h0 => by rw [if_pos h0] at hpos; omega
  rw [if_neg hr]
  have hdrop : ∀ v : Text, (c :: (r ++ v)).drop (1 + r.length + checkBoxLength u) =
      v.drop (checkBoxLength u) := fun v => by
    rw [Nat.add_comm 1, Nat.add_right_comm, List.drop_succ_cons, ← List.drop_drop, List.drop_left]
  rw [AlikeBehind, hdrop, hdrop]
  rcases Nat.eq_zero_or_pos (checkBoxLength u) with h0 | h0
  · rw [h0]; exact ⟨_, hb, ha⟩
  · exact hbehind h0

/-- A run of one mark and the blanks behind it. -/
theorem Text.Alike.markRun {m : Char} (hm : m ∈ ['#', '>']) (h : Alike (m :: b) t t') :
    ∃ r s u u', t = r ++ (s ++ u) ∧ t' = r ++ (s ++ u') ∧
      (∀ v : Text, v = u ∨ v = u' → (r ++ (s ++ v)).takeWhile (· = m) = r ∧
        blanks (s ++ v) = s.length) ∧
      ∃ b, Steady isBlank b ∧ Alike b u u' := by
  have hmark : m ∈ ['-', '+', '*', '#', '>', ')', '[', ']'] := by
    simp only [List.mem_cons, List.not_mem_nil, or_false] at hm
    rcases hm with rfl | rfl <;> decide
  obtain ⟨r, v, v', rfl, rfl, hr, hv, hv', ha⟩ :=
    h.run (leadClass_eq hm) (steady_of_mark b (.inr hmark))
  have hb : Steady isBlank (r.reverse ++ m :: b) :=
    (steady_of_mark b (.inr hmark)).append fun c hc => .inr (by
      rw [show c = m by simpa using hr c hc]; exact hmark)
  obtain ⟨s, u, u', rfl, rfl, hn, hn', hb', ha'⟩ := ha.blankRun hb
  refine ⟨r, s, u, u', rfl, rfl, ?_, _, hb', ha'⟩
  rintro w (rfl | rfl)
  · exact ⟨takeWhile_append_stop hr hv, hn⟩
  · exact ⟨takeWhile_append_stop hr hv', hn'⟩

theorem drop_run (m : Char) (r s v : Text) :
    (m :: (r ++ (s ++ v))).drop (1 + r.length + s.length) = v := by
  rw [Nat.add_assoc, Nat.add_comm 1, List.drop_succ_cons, ← List.append_assoc,
    ← List.length_append, List.drop_left]

theorem Text.Alike.quote (h : Alike ('>' :: b) t t') :
    markLength ('>' :: t') = markLength ('>' :: t) ∧
      AlikeBehind (markLength ('>' :: t)) ('>' :: t) ('>' :: t') := by
  obtain ⟨r, s, u, u', rfl, rfl, hrun, b', hb, ha⟩ := h.markRun (by decide)
  obtain ⟨h1, h2⟩ := hrun u (.inl rfl)
  obtain ⟨h1', h2'⟩ := hrun u' (.inr rfl)
  rw [markLength_quote, markLength_quote, h1, h1', List.drop_left, List.drop_left, h2, h2']
  refine ⟨rfl, b', hb, ?_⟩
  rw [drop_run, drop_run]
  exact ha

theorem Text.Alike.heading (h : Alike ('#' :: b) t t') :
    markLength ('#' :: t') = markLength ('#' :: t) ∧ (0 < markLength ('#' :: t) →
      AlikeBehind (markLength ('#' :: t)) ('#' :: t) ('#' :: t')) := by
  obtain ⟨r, s, u, u', rfl, rfl, hrun, b', hb, ha⟩ := h.markRun (by decide)
  obtain ⟨h1, h2⟩ := hrun u (.inl rfl)
  obtain ⟨h1', h2'⟩ := hrun u' (.inr rfl)
  rw [markLength_heading, markLength_heading, h1, h1', List.drop_left, List.drop_left, h2, h2']
  refine ⟨rfl, fun hpos => ⟨b', hb, ?_⟩⟩
  have hcond : r.length < 6 ∧ 0 < s.length := by
    by_contra hcond
    rw [if_neg hcond] at hpos; omega
  rw [if_pos hcond, drop_run, drop_run]
  exact ha

/-- Behind the mark of a number no space comes or goes: what stands before it is a digit. -/
theorem steady_of_numberMark {p : Char → Bool} {d m : Char} (hd : isDecimal d = true)
    (hm : m ∈ ['.', ')']) (before : Text) : Steady p (m :: d :: before) := by
  simp only [List.mem_cons, List.not_mem_nil, or_false] at hm
  rcases hm with rfl | rfl
  · refine ⟨show isTight '.' = false by decide, fun t h => ?_⟩
    obtain ⟨a, rest, he, -, -, hdot, -⟩ := h.behind
    cases he
    have hsmall : isSmall d = true := hdot rfl
    rw [isDecimal_of_isLatin (isLatin_iff.2 (.inr hsmall))] at hd; cases hd
  · exact steady_of_mark _ (.inr (by decide))

/-- A number goes on with a full stop or a parenthesis in both texts or in none. -/
theorem Text.Alike.number (hc : isDecimal c = true) (h : Alike (c :: b) t t') :
    markLength (c :: t') = markLength (c :: t) ∧
      (0 < markLength (c :: t) → AlikeBehind (markLength (c :: t)) (c :: t) (c :: t')) := by
  obtain ⟨r, v, v', rfl, rfl, hr, hv, hv', ha⟩ :=
    h.run leadClass_isDecimal (leadClass_isDecimal.steady c b hc)
  rw [markLength_number hc, markLength_number hc, dropWhile_append_stop hr hv,
    dropWhile_append_stop hr hv', takeWhile_append_stop hr hv, takeWhile_append_stop hr hv']
  have hnone : (∀ m ∈ v.head?, m ∉ ['.', ')']) → (∀ m ∈ v'.head?, m ∉ ['.', ')']) →
      numberLength r.length v' = numberLength r.length v ∧ (0 < numberLength r.length v →
        AlikeBehind (numberLength r.length v) (c :: (r ++ v)) (c :: (r ++ v'))) := fun h h' => by
    rw [numberLength_eq_zero h, numberLength_eq_zero h']
    exact ⟨rfl, fun hpos => absurd hpos (by omega)⟩
  have hlatin : ∀ {d : Char}, isLatin d = true → d ∉ ['.', ')'] := fun hd hm => by
    have key : ∀ e ∈ ['.', ')'], isLatin e = false := by decide
    rw [key _ hm] at hd; cases hd
  -- the last digit
  obtain ⟨d, ds, hds, hd⟩ : ∃ d ds, r.reverse ++ c :: b = d :: ds ∧ isDecimal d = true := by
    cases hrev : r.reverse with
    | nil => exact ⟨c, b, rfl, hc⟩
    | cons d ds => exact ⟨d, _, rfl, hr d (by rw [← List.mem_reverse, hrev]; simp)⟩
  rw [hds] at ha
  cases ha with
  | nil => exact hnone (by simp) (by simp)
  | @keep _ m w w' hm =>
    by_cases hmark : m ∈ ['.', ')']
    · obtain ⟨s, u, u', rfl, rfl, hn, hn', hb, ha⟩ := hm.blankRun (steady_of_numberMark hd hmark ds)
      have hlen : ∀ v : Text, blanks (s ++ v) = s.length →
          numberLength r.length (m :: (s ++ v)) =
            if 0 < s.length then 2 + r.length + s.length else 0 := by
        intro v hv
        simp only [List.mem_cons, List.not_mem_nil, or_false] at hmark
        simp [numberLength, hmark, hv]
      rw [hlen u hn, hlen u' hn']
      refine ⟨rfl, fun hpos => ⟨_, hb, ?_⟩⟩
      have hs : 0 < s.length := by
        by_contra h0
        rw [if_neg h0] at hpos; omega
      have hdrop : ∀ v : Text, (c :: (r ++ m :: (s ++ v))).drop (2 + r.length + s.length) = v := by
        intro v
        have := drop_run c (r ++ [m]) s v
        simpa [show 1 + (r.length + 1) + s.length = 2 + r.length + s.length by omega] using this
      rw [if_pos hs, hdrop, hdrop]
      exact ha
    · exact hnone (by simpa using hmark) (by simpa using hmark)
  | raise hsmall =>
    exact hnone (by simpa using hlatin (isLatin_iff.2 (.inr hsmall)))
      (by simpa using hlatin (isLatin_iff.2 (.inl (isCapital_toUpper hsmall))))
  | tight htight =>
    rw [List.head?_cons, Option.any_some] at htight
    rw [isDecimal_of_isTight htight] at hd; cases hd
  | widen hgap =>
    refine hnone (fun m hm hmark => (hgap.head m hm).2 ?_) (by simp)
    exact List.mem_of_mem_take (i := 2) hmark
  | stop hstop hstop' =>
    have key : ∀ m ∈ spanHeads, m ∉ ['.', ')'] := by decide
    exact hnone (fun m hm => key m (hstop.head m hm)) fun m hm => key m (hstop'.head m hm)

theorem markLength_of_isLatin (hc : isLatin c = true) (t : Text) : markLength (c :: t) = 0 := by
  have key : ∀ d ∈ ['-', '+', '*', '>', '#'], isLatin d = false := by decide
  exact markLength_of_other (fun hm => by rw [key c hm] at hc; cases hc) (isDecimal_of_isLatin hc) t

/-- What a mark may start with. -/
theorem mark_cases (c : Char) : c ∈ ['-', '+', '*'] ∨ c = '>' ∨ c = '#' ∨ isDecimal c = true ∨
    (c ∉ ['-', '+', '*', '>', '#'] ∧ isDecimal c = false) := by
  cases hd : isDecimal c with
  | true => exact .inr (.inr (.inr (.inl rfl)))
  | false =>
    simp only [List.mem_cons, List.not_mem_nil, or_false]
    tauto

/-- **A mark stays as long as it is**, and behind it the texts are alike. -/
theorem Text.Alike.mark (hb : Steady isBlank b) (h : Alike b t t') :
    markLength t' = markLength t ∧ (0 < markLength t → AlikeBehind (markLength t) t t') := by
  cases h with
  | nil => exact ⟨rfl, fun hpos => absurd hpos (by simp)⟩
  | @keep _ c t t' h =>
    obtain hc | rfl | rfl | hc | ⟨hc, hd⟩ := mark_cases c
    · exact h.bullet hc
    · exact ⟨h.quote.1, fun _ => h.quote.2⟩
    · exact h.heading
    · exact h.number hc
    · rw [markLength_of_other hc hd, markLength_of_other hc hd]
      exact ⟨rfl, fun hpos => absurd hpos (by decide)⟩
  | raise hc =>
    rw [markLength_of_isLatin (isLatin_iff.2 (.inr hc)),
      markLength_of_isLatin (isLatin_iff.2 (.inl (isCapital_toUpper hc)))]
    exact ⟨rfl, fun hpos => absurd hpos (by decide)⟩
  | tight h => rw [hb.tight] at h; cases h
  | widen h => exact absurd h hb.not_wordGap
  | stop h h' => exact ⟨h'.mark.trans h.mark.symm, fun hpos => by rw [h.mark] at hpos; omega⟩

/-! ### The lead -/

theorem leadLength_eq (t : Text) : leadLength t = blanks t +
    if markLength (t.drop (blanks t)) = 0 then 0
    else markLength (t.drop (blanks t)) +
      leadLength (t.drop (blanks t + markLength (t.drop (blanks t)))) := by
  cases t with
  | nil => simp [leadLength, blanks]
  | cons c t =>
    conv_lhs => rw [leadLength]
    split_ifs with h
    · rfl
    · -- the recursion drops the first character and then the rest of the mark
      set k := blanks (c :: t) + markLength ((c :: t).drop (blanks (c :: t))) with hk
      obtain ⟨j, hj⟩ : ∃ j, k = j + 1 := ⟨k - 1, by omega⟩
      rw [hj, List.drop_succ_cons]
      simp only [Nat.add_sub_cancel]
      omega

/-- **The lead stays as long as it is.** -/
theorem Text.Alike.leadLength_eq (hb : Steady isBlank b) (h : Alike b t t') :
    leadLength t' = leadLength t := by
  induction hn : t.length using Nat.strong_induction_on generalizing b t t' with
  | h n ih =>
    -- the blanks in front, then a mark, then what is shorter
    obtain ⟨r, u, u', rfl, rfl, hr, hr', hb', ha⟩ := h.blankRun hb
    obtain ⟨hmark, hbehind⟩ := ha.mark hb'
    rw [TypingAid.leadLength_eq, TypingAid.leadLength_eq (r ++ u), hr, hr', List.drop_left,
      List.drop_left, hmark]
    split_ifs with h0
    · rfl
    · obtain ⟨b', hb', ha'⟩ := hbehind (by omega)
      rw [← List.drop_drop, ← List.drop_drop, List.drop_left, List.drop_left]
      have hu : u ≠ [] := by rintro rfl; exact h0 markLength_nil
      have := List.length_pos_iff.2 hu
      rw [ih _ ?_ hb' ha' rfl]
      simp only [List.length_append, List.length_drop] at hn ⊢
      omega

/-- The first `n` characters of the text end with a blank or a quote mark. -/
def Text.EndsOpen (n : ℕ) (t : Text) : Prop :=
  ∃ u a v, t = u ++ a :: v ∧ u.length + 1 = n ∧ (isBlank a = true ∨ a = '>')

theorem Text.EndsOpen.of_drop {n k : ℕ} (h : EndsOpen n (t.drop k)) : EndsOpen (k + n) t := by
  obtain ⟨u, a, v, he, hlen, ha⟩ := h
  have hk : (t.take k).length = k := by
    have := congrArg List.length he
    simp only [List.length_drop, List.length_append, List.length_cons] at this
    rw [List.length_take]; omega
  refine ⟨t.take k ++ u, a, v, ?_, by rw [List.length_append, hk]; omega, ha⟩
  rw [List.append_assoc, ← he, List.take_append_drop]

theorem endsOpen_blanks (h : 0 < blanks t) : EndsOpen (blanks t) t := by
  have hne : t.takeWhile isBlank ≠ [] := List.length_pos_iff.1 h
  obtain ⟨u, a, hu⟩ := List.eq_nil_or_concat' (t.takeWhile isBlank) |>.resolve_left hne
  refine ⟨u, a, t.dropWhile isBlank, ?_, by rw [blanks, hu]; simp, .inl ?_⟩
  · have := List.takeWhile_append_dropWhile (p := isBlank) (l := t)
    rw [hu] at this
    simpa using this.symm
  · exact List.mem_takeWhile_imp (l := t) (by rw [hu]; simp)

theorem endsOpen_checkBox (h : 0 < checkBoxLength t) : EndsOpen (checkBoxLength t) t := by
  by_cases hbox : ∃ c rest, t = '[' :: c :: ']' :: rest ∧ c ∈ boxContent
  · obtain ⟨c, rest, rfl, hc⟩ := hbox
    rw [checkBoxLength_box hc] at h ⊢
    split_ifs at h ⊢ with hpos
    · exact (endsOpen_blanks hpos).of_drop (k := 3)
    · omega
  · rw [checkBoxLength_eq_zero fun c rest he hc => hbox ⟨c, rest, he, hc⟩] at h
    omega

theorem endsOpen_quote (t : Text) : EndsOpen (markLength ('>' :: t)) ('>' :: t) := by
  rw [markLength_quote, Nat.add_assoc]
  set r := t.takeWhile (· = '>') with hr
  rcases Nat.eq_zero_or_pos (blanks (t.drop r.length)) with hb | hb
  · -- the last of the quote marks
    obtain ⟨u, a, hu⟩ : ∃ u a, '>' :: r = u ++ [a] :=
      (List.eq_nil_or_concat' ('>' :: r)).resolve_left (by simp)
    have htake : r ++ t.drop r.length = t := by
      rw [hr, drop_length_takeWhile, List.takeWhile_append_dropWhile]
    have hlen := congrArg List.length hu
    simp only [List.length_cons, List.length_append, List.length_nil] at hlen
    refine ⟨u, a, t.drop r.length, ?_, by rw [hb]; omega, .inr ?_⟩
    · have := congrArg (· ++ t.drop r.length) hu
      simpa [htake] using this
    · have hmem : a ∈ '>' :: r := by rw [hu]; simp
      rcases List.mem_cons.1 hmem with ha | ha
      · exact ha
      · exact of_decide_eq_true (List.mem_takeWhile_imp (p := (· = '>')) (hr ▸ ha))
  · exact ((endsOpen_blanks hb).of_drop).of_drop (k := 1)

theorem endsOpen_number (hc : isDecimal c = true) (h : 0 < markLength (c :: t)) :
    EndsOpen (markLength (c :: t)) (c :: t) := by
  rw [markLength_number hc] at h ⊢
  cases hafter : t.dropWhile isDecimal with
  | nil => rw [hafter] at h; exact absurd h (by simp [numberLength])
  | cons m after =>
    rw [hafter, numberLength] at h
    rw [numberLength]
    split_ifs at h ⊢ with hcond
    · simp only [Bool.and_eq_true, decide_eq_true_eq] at hcond
      have hdrop : t.drop ((t.takeWhile isDecimal).length + 1) = after := by
        rw [← List.drop_drop, drop_length_takeWhile, hafter]; rfl
      have hends : EndsOpen (blanks after) (t.drop ((t.takeWhile isDecimal).length + 1)) :=
        hdrop.symm ▸ endsOpen_blanks hcond.2
      have := hends.of_drop.of_drop (k := 1) (t := c :: t)
      rwa [show 1 + ((t.takeWhile isDecimal).length + 1 + blanks after) =
        2 + (t.takeWhile isDecimal).length + blanks after by omega] at this
    · omega

theorem endsOpen_mark (h : 0 < markLength t) : EndsOpen (markLength t) t := by
  cases t with
  | nil => simp at h
  | cons c t =>
    obtain hc | rfl | rfl | hc | ⟨hc, hd⟩ := mark_cases c
    · rw [markLength_bullet hc] at h ⊢
      split_ifs at h ⊢ with h0
      · omega
      · rcases Nat.eq_zero_or_pos (checkBoxLength (t.drop (blanks t))) with hb | hb
        · rw [hb]; exact (endsOpen_blanks (Nat.pos_of_ne_zero h0)).of_drop (k := 1)
        · rw [Nat.add_assoc]
          exact ((endsOpen_checkBox hb).of_drop).of_drop (k := 1)
    · exact endsOpen_quote t
    · rw [markLength_heading] at h ⊢
      split_ifs at h ⊢ with hcond
      · rw [Nat.add_assoc]
        exact ((endsOpen_blanks hcond.2).of_drop).of_drop (k := 1)
      · omega
    · exact endsOpen_number hc h
    · rw [markLength_of_other hc hd] at h
      omega

/-- **A lead ends with a blank or a quote mark.** -/
theorem endsOpen_lead (h : 0 < leadLength t) : EndsOpen (leadLength t) t := by
  induction hn : t.length using Nat.strong_induction_on generalizing t with
  | h n ih =>
    rw [TypingAid.leadLength_eq] at h ⊢
    split_ifs at h ⊢ with h0
    · exact endsOpen_blanks h
    · set k := blanks t + markLength (t.drop (blanks t)) with hk
      rw [← Nat.add_assoc, ← hk]
      -- the lead ends with its last mark
      rcases Nat.eq_zero_or_pos (leadLength (t.drop k)) with hl | hl
      · rw [hl, hk]; exact (endsOpen_mark (by omega)).of_drop
      · refine (ih _ ?_ hl rfl).of_drop
        have hne : t ≠ [] := by rintro rfl; exact h0 (by simp [blanks])
        have := List.length_pos_iff.2 hne
        rw [List.length_drop]
        omega

theorem leadLength_le (t : Text) : leadLength t ≤ t.length := by
  rcases Nat.eq_zero_or_pos (leadLength t) with h | h
  · omega
  · obtain ⟨u, a, v, rfl, hlen, -⟩ := endsOpen_lead h
    simp only [List.length_append, List.length_cons]
    omega

/-! ### A space at the end -/

/-- A length that a space at the end of the text leaves as it is, or makes that of the whole text. -/
def Text.Reaches (f : Text → ℕ) (t : Text) : Prop :=
  f (t ++ [' ']) = f t ∨ f (t ++ [' ']) = t.length + 1

theorem reaches_blanks (t : Text) : Reaches blanks t := by
  rcases takeWhile_concat isBlank t ' ' with h | ⟨-, h⟩
  · exact .inl (congrArg List.length h)
  · refine .inr ?_
    rw [blanks, h, List.length_append]
    rfl

theorem blanks_le (t : Text) : blanks t ≤ t.length := (List.takeWhile_sublist isBlank).length_le

theorem reaches_checkBox (t : Text) : Reaches checkBoxLength t := by
  match t with
  | [] => exact .inl rfl
  | [a] => exact .inl (by rw [checkBoxLength_eq_zero, checkBoxLength_eq_zero] <;> simp)
  | [a, d] => exact .inl (by rw [checkBoxLength_eq_zero, checkBoxLength_eq_zero] <;> simp)
  | a :: d :: e :: rest =>
    by_cases hbox : a = '[' ∧ e = ']' ∧ d ∈ boxContent
    · obtain ⟨rfl, rfl, hd⟩ := hbox
      rw [Reaches, List.cons_append, List.cons_append, List.cons_append, checkBoxLength_box hd,
        checkBoxLength_box hd]
      rcases reaches_blanks rest with h | h
      · exact .inl (by rw [h])
      · exact .inr (by rw [h, if_pos (Nat.succ_pos _)]; simp only [List.length_cons]; omega)
    · have hzero : ∀ u, checkBoxLength (a :: d :: e :: u) = 0 := fun u => by
        refine checkBoxLength_eq_zero fun c w he hc => hbox ?_
        simp only [List.cons.injEq] at he
        obtain ⟨rfl, rfl, rfl, -⟩ := he
        exact ⟨rfl, rfl, hc⟩
      exact .inl ((hzero _).trans (hzero _).symm)

theorem takeWhile_append_space {p : Char → Bool} (hp : p ' ' = false) (t : Text) :
    (t ++ [' ']).takeWhile p = t.takeWhile p := by
  rcases takeWhile_concat p t ' ' with h | ⟨-, h⟩
  · exact h
  · rw [List.takeWhile_eq_self_iff.1 h ' ' (by simp)] at hp
    cases hp

/-- What is measured behind the first `n` characters. -/
theorem Text.Reaches.drop {f : Text → ℕ} {n : ℕ} (h : ∀ t, Reaches f t) (hn : n ≤ t.length) :
    f ((t ++ [' ']).drop n) = f (t.drop n) ∨ n + f ((t ++ [' ']).drop n) = t.length + 1 := by
  rw [List.drop_append_of_le_length hn]
  refine (h (t.drop n)).imp id fun hall => ?_
  rw [hall, List.length_drop]
  omega

theorem reaches_bullet (hc : c ∈ ['-', '+', '*']) (t : Text) : Reaches markLength (c :: t) := by
  rw [Reaches, List.cons_append, markLength_bullet hc, markLength_bullet hc, List.length_cons]
  rcases reaches_blanks t with hb | hb
  · rw [hb]
    split_ifs
    · exact .inl rfl
    · rcases Reaches.drop reaches_checkBox (blanks_le t) with hbox | hbox
      · exact .inl (by rw [hbox])
      · exact .inr (by omega)
  · -- only blanks follow the bullet
    rw [hb, if_neg (Nat.succ_ne_zero _), List.drop_of_length_le (by rw [List.length_append]; rfl),
      checkBoxLength_of_head? (by simp)]
    exact .inr (by omega)

theorem reaches_quote (t : Text) : Reaches markLength ('>' :: t) := by
  rw [Reaches, List.cons_append, markLength_quote, markLength_quote, List.length_cons,
    takeWhile_append_space (by decide)]
  have hle : (t.takeWhile (· = '>')).length ≤ t.length := (List.takeWhile_sublist _).length_le
  rcases Reaches.drop reaches_blanks hle with hb | hb
  · exact .inl (by rw [hb])
  · exact .inr (by omega)

theorem reaches_heading (t : Text) : Reaches markLength ('#' :: t) := by
  rw [Reaches, List.cons_append, markLength_heading, markLength_heading, List.length_cons,
    takeWhile_append_space (by decide)]
  have hle : (t.takeWhile (· = '#')).length ≤ t.length := (List.takeWhile_sublist _).length_le
  rcases Reaches.drop reaches_blanks hle with hb | hb
  · exact .inl (by rw [hb])
  · by_cases hmany : (t.takeWhile (· = '#')).length < 6
    · exact .inr (by rw [if_pos ⟨hmany, by omega⟩]; omega)
    · exact .inl (by rw [if_neg fun h => hmany h.1, if_neg fun h => hmany h.1])

theorem reaches_number (hc : isDecimal c = true) (t : Text) : Reaches markLength (c :: t) := by
  have hspace : isDecimal ' ' = false := by decide +kernel
  rw [Reaches, List.cons_append, markLength_number hc, markLength_number hc, List.length_cons,
    takeWhile_append_space hspace, ← drop_length_takeWhile, ← drop_length_takeWhile,
    takeWhile_append_space hspace]
  set n := (t.takeWhile isDecimal).length
  have hle : n ≤ t.length := (List.takeWhile_sublist _).length_le
  rw [List.drop_append_of_le_length hle]
  have hlength : (t.drop n).length = t.length - n := List.length_drop
  cases hafter : t.drop n with
  | nil => exact .inl rfl
  | cons mark after =>
    rw [hafter, List.length_cons] at hlength
    rw [List.cons_append, numberLength, numberLength]
    rcases reaches_blanks after with hb | hb
    · exact .inl (by rw [hb])
    · rw [hb, decide_eq_true (Nat.succ_pos _), Bool.and_true]
      cases hmark : (mark = '.' || mark = ')') with
      | false => exact .inl (by simp only [Bool.false_and, Bool.false_eq_true, if_false])
      | true =>
        rw [if_pos rfl]
        exact .inr (by omega)

theorem reaches_mark (t : Text) : Reaches markLength t := by
  cases t with
  | nil =>
    refine .inl ?_
    rw [List.nil_append, markLength_of_other (by decide) (by decide +kernel), markLength_nil]
  | cons c t =>
    obtain hc | rfl | rfl | hc | ⟨hc, hd⟩ := mark_cases c
    · exact reaches_bullet hc t
    · exact reaches_quote t
    · exact reaches_heading t
    · exact reaches_number hc t
    · exact .inl (by rw [List.cons_append, markLength_of_other hc hd, markLength_of_other hc hd])

theorem markLength_le (t : Text) : markLength t ≤ t.length := by
  rcases Nat.eq_zero_or_pos (markLength t) with h | h
  · omega
  · obtain ⟨u, a, v, he, hlen, -⟩ := endsOpen_mark h
    have := congrArg List.length he
    simp only [List.length_append, List.length_cons] at this
    omega

/-- **A space at the end leaves the lead as it is**, unless the lead comes to reach to the end. -/
theorem reaches_lead (t : Text) : Reaches leadLength t := by
  induction hn : t.length using Nat.strong_induction_on generalizing t with
  | h n ih =>
    have hnil : ∀ k, t.length + 1 ≤ k → (t ++ [' ']).drop k = [] := fun k hk =>
      List.drop_of_length_le (by rw [List.length_append]; exact hk)
    have hblanks := blanks_le t
    have hmark := markLength_le (t.drop (blanks t))
    rw [List.length_drop] at hmark
    rw [Reaches, TypingAid.leadLength_eq, TypingAid.leadLength_eq t]
    rcases reaches_blanks t with hb | hb
    · rw [hb]
      rcases Reaches.drop reaches_mark hblanks with hm | hm
      · rw [hm]
        split_ifs with h0
        · exact .inl rfl
        · -- behind the first mark the rest is shorter
          rw [List.drop_append_of_le_length (by omega)]
          rcases ih _ (by rw [List.length_drop]; omega)
            (t.drop (blanks t + markLength (t.drop (blanks t)))) rfl with hl | hl
          · exact .inl (by rw [hl])
          · refine .inr ?_
            rw [hl, List.length_drop]
            omega
      · -- the first mark reaches to the end
        refine .inr ?_
        rw [if_neg (by omega), hnil (_ + _) hm.ge, leadLength]
        exact hm
    · refine .inr ?_
      rw [hb, hnil _ le_rfl, markLength_nil, if_pos rfl]

/-! ### Setting keeps the lead -/

/-- Only the rule about punctuation looks at a full stop, behind two small letters. -/
theorem isSmall_of_mem_gapRules {rest : Text} (hrule : rule ∈ gapRules style)
    (hc : rule ('.' :: rest) c = true) : rest.head?.any isSmall = true := by
  obtain ⟨p, q, hp, hq, rfl⟩ | rfl := mem_gapRules_cases hrule
  · have h1 : p '.' = false := by rcases hp with rfl | rfl <;> decide
    have h2 : q '.' = false := by rcases hq with rfl | rfl <;> decide
    simp [between, h1, h2] at hc
  · cases rest with
    | nil => cases hc
    | cons a rest =>
      simp only [afterPunctuation, Bool.or_eq_true, Bool.and_eq_true, decide_eq_true_eq] at hc
      rcases hc with hc | hc
      · exact absurd hc.1.1.1 (by decide)
      · exact hc.1.1.2

/-- No rule parts two digits. -/
theorem isDecimal_of_mem_gapRules {rest : Text} (hrule : rule ∈ gapRules style)
    (hc : rule (a :: rest) c = true) (ha : isDecimal a = true) : isDecimal c = false := by
  obtain ⟨p, q, hp, hq, rfl⟩ | rfl := mem_gapRules_cases hrule
  · have hword : ∀ d, p d = true → isDecimal d = false := by
      intro d hd
      rcases hp with rfl | rfl
      · exact isDecimal_of_isTight (isTight_iff.2 (.inl hd))
      · exact isDecimal_of_isLatin hd
    simp only [between, Bool.or_eq_true, Bool.and_eq_true] at hc
    rcases hc with hc | hc
    · rw [hword a hc.1] at ha; cases ha
    · exact hword c hc.2
  · cases rest with
    | nil => cases hc
    | cons d rest =>
      simp only [afterPunctuation, Bool.or_eq_true, Bool.and_eq_true] at hc
      rcases hc with hc | hc
      · exact isDecimal_of_isLatin hc.2
      · exact isDecimal_of_isLatin (isLatin_iff.2 (.inl hc.2))

theorem not_mem_marks_of_class (h : isCjk c = true ∨ isLatin c = true ∨ isFigure c = true) :
    c ∉ ['-', '+', '*', '#', '>', ')', '[', ']', '.'] := by
  have key : ∀ d ∈ ['-', '+', '*', '#', '>', ')', '[', ']', '.'],
      ¬ (isCjk d = true ∨ isLatin d = true ∨ isFigure d = true) := by decide
  exact fun hm => key c hm h

/-- A gap that a rule fills is one between words. -/
theorem wordGap_of_mem_gapRules (hrule : rule ∈ gapRules style) (hc : rule b c = true) :
    WordGap b (c :: t) := by
  obtain ⟨a, rest, rfl, hgap⟩ := fillableGap_of_mem_gapRules hrule hc
  obtain ⟨hab, hcb⟩ := hgap.isBlank_eq
  refine ⟨⟨a, rest, rfl, hab, ?_, ?_, ?_⟩, ?_⟩
  · have hmark : ∀ d ∈ '.' :: pauseMarks, d ∉ ['-', '+', '*', '#', '>', ')', '[', ']'] := by decide
    have hclass : ∀ {d : Char}, isCjk d = true ∨ isLatin d = true ∨ isFigure d = true →
        d ∉ ['-', '+', '*', '#', '>', ')', '[', ']'] := fun hd hm =>
      not_mem_marks_of_class hd (List.mem_append_left ['.'] hm)
    rcases hgap.before with ha | ha | ha | ha
    · exact hclass (.inl ha)
    · exact hclass (.inr (.inl ha))
    · exact hclass (.inr (.inr ha))
    · exact hmark a ha
  · rintro rfl
    exact isSmall_of_mem_gapRules hrule hc
  · intro ha d hd
    obtain rfl := Option.some.inj hd
    exact isDecimal_of_mem_gapRules hrule hc ha
  · intro d hd
    obtain rfl := Option.some.inj hd
    refine ⟨hcb, fun hm => not_mem_marks_of_class hgap.after ?_⟩
    simp only [List.mem_cons, List.not_mem_nil, or_false] at hm ⊢
    tauto

theorem alike_spread (hrule : rule ∈ gapRules style) (b t : Text) :
    Alike b t (spread rule b t) := by
  induction t generalizing b with
  | nil => exact .nil
  | cons c t ih =>
    rw [spread]
    split_ifs with hc
    · exact .widen (wordGap_of_mem_gapRules hrule hc)
    · exact .keep (ih (c :: b))

theorem alike_tighten (b t : Text) : Alike b t (tighten b.head? t) := by
  induction t generalizing b with
  | nil => exact .nil
  | cons c t ih =>
    rw [tighten]
    split_ifs with h
    · simp only [Bool.and_eq_true] at h
      exact .tight h.1.2
    · exact .keep (ih (c :: b))

theorem leadLength_respace (style : Style) (t : Text) :
    leadLength (style.respace t) = leadLength t := by
  have hrun : ∀ rule ∈ spacingRules style, ∀ t,
      leadLength (SpacingRule.run rule t) = leadLength t := by
    intro rule hrule t
    rw [spacingRules_eq, List.mem_append, List.mem_ite_nil_right, List.mem_singleton,
      List.mem_map] at hrule
    rcases hrule with ⟨-, rfl⟩ | ⟨g, hg, rfl⟩
    · rw [run_loosened]; exact (alike_tighten [] t).leadLength_eq steady_nil
    · rw [run_gaps]; exact (alike_spread hg [] t).leadLength_eq steady_nil
  have key : ∀ rules : List SpacingRule, (∀ rule ∈ rules, rule ∈ spacingRules style) → ∀ t,
      leadLength (rules.foldl (fun t rule => SpacingRule.run rule t) t) = leadLength t := by
    intro rules
    induction rules with
    | nil => exact fun _ _ => rfl
    | cons rule rules ih =>
      intro hmem t
      rw [List.foldl_cons, ih (fun r hr => hmem r (List.mem_cons_of_mem _ hr)),
        hrun rule (hmem rule List.mem_cons_self)]
  exact key _ (fun _ h => h) t

theorem alike_of_recased (h : Recased t t') (b : Text) : Alike b t t' := by
  induction h generalizing b with
  | nil => exact .nil
  | cons hc _ ih =>
    rcases hc with rfl | ⟨hc, rfl⟩
    · exact .keep (ih _)
    · exact .raise hc (ih _)

end TypingAid
