import TypingAid.Proofs.Inline.Span
import TypingAid.Proofs.Line.Touch

/-!
# Spans under a touch

A touch never makes a span out of text that is none (`spanAt?_of_touch`), as long as spaces come
only into gaps that a line in normal form may have (`SoftGap`).  Each recogniser is followed
through the touched text from left to right: its literal characters are neither spaces nor
capitals nor set without blanks, so that the touch is always still ahead (`Near.literal`), or it
happens within the content, which holds as much after it as before (`Near.content`).

The spans that are there stay (`spanAt?_append`), and so does emphasis when its content is touched
(`endsAt_of_touch`).
-/

namespace TypingAid

open Text Recognised

/-- A gap between two characters that a space may fill without making or breaking a span. -/
structure SoftGap (a c : Char) : Prop where
  before : isBlank a = false
  after : isBlank c = false
  ticks : ¬ (a = '\x60' ∧ c = '\x60')
  dollars : ¬ (a = '$' ∧ c = '$')
  brackets : ¬ (a = '[' ∧ c = ']')

/-- The texts behind `a` are equal, or one comes from the other by a touch. -/
def Near (a : Char) (t t' : Text) : Prop := t = t' ∨ Touch SoftGap (a :: t) (a :: t')

/-- The character is written as it is: it is no space, no capital, and not set without blanks. -/
structure IsLiteral (c : Char) : Prop where
  space : c ≠ ' '
  capital : isCapital c = false
  tight : isTight c = false

instance (c : Char) : Decidable (IsLiteral c) :=
  decidable_of_iff (c ≠ ' ' ∧ isCapital c = false ∧ isTight c = false)
    ⟨fun h => ⟨h.1, h.2.1, h.2.2⟩, fun h => ⟨h.space, h.capital, h.tight⟩⟩

variable {a c d : Char} {t t' : Text}

theorem Text.Touch.literal (h : Touch SoftGap t (d :: t')) (hd : isCapital d = false) :
    ∃ u, t = d :: u ∧ Near d u t' := by
  rcases h.cons_cases' with ⟨u, rfl⟩ | ⟨b, hb, rfl, -⟩
  · exact ⟨u, rfl, .inr h⟩
  · rw [isCapital_toUpper hb] at hd; cases hd

/-- The next character is a literal one: it was there before, and the touch is still ahead. -/
theorem Near.literal (h : Near a t (d :: t')) (ha : isTight a = false) (hd : IsLiteral d) :
    ∃ u, t = d :: u ∧ Near d u t' := by
  rcases h with rfl | h
  · exact ⟨t', rfl, .inl rfl⟩
  obtain ⟨c, v, -, -, hy⟩ | ⟨c, v, -, htight, -⟩ | ⟨-, hy⟩ | ⟨v, hv, hy⟩ := h.cons_cases
  · exact absurd (List.cons.inj (List.cons.inj hy).2).1 hd.space
  · rw [ha] at htight; cases htight
  · exact ⟨t', (List.cons.inj hy).2.symm, .inl rfl⟩
  · obtain rfl := (List.cons.inj hy).2
    exact hv.literal hd.capital

/-- A touch within content, or behind it: the content is of the same kind before, and it was empty
only if a space has filled the gap between what encloses it. -/
theorem Near.content {p : Char → Bool} {body' rest' : Text} (hspace : p ' ' = true)
    (hp : ∀ c, isSmall c = true → p c = true) (hd : IsLiteral d)
    (hbody' : ∀ c ∈ body', p c = true) (h : Near a t (body' ++ d :: rest')) :
    ∃ body rest, t = body ++ d :: rest ∧ (∀ c ∈ body, p c = true) ∧ Near d rest rest' ∧
      (body = [] → body' = [] ∨ SoftGap a d) := by
  rcases h with rfl | h
  · exact ⟨body', rest', rfl, hbody', .inl rfl, .inl⟩
  induction body' generalizing a t with
  | nil =>
    obtain ⟨c, v, -, -, hy⟩ | ⟨c, v, -, -, hc, hy⟩ | ⟨-, hy⟩ | ⟨v, hv, hy⟩ := h.cons_cases
    · exact absurd (List.cons.inj (List.cons.inj hy).2).1 hd.space
    · obtain rfl := (List.cons.inj (List.cons.inj hy).2).1
      rcases hc with hc | hc
      · rw [hd.tight] at hc; cases hc
      · exact absurd hc hd.space
    · exact ⟨[], rest', (List.cons.inj hy).2.symm, by simp, .inl rfl, fun _ => .inl rfl⟩
    · obtain rfl := (List.cons.inj hy).2
      obtain ⟨u, rfl, hu⟩ := hv.literal hd.capital
      exact ⟨[], u, rfl, by simp, hu, fun _ => .inl rfl⟩
  | cons b bs ih =>
    have hbs : ∀ c ∈ bs, p c = true := fun c hc => hbody' c (List.mem_cons_of_mem _ hc)
    obtain ⟨c, v, rfl, hgap, hy⟩ | ⟨c, v, rfl, -, -, hy⟩ | ⟨-, hy⟩ | ⟨v, hv, hy⟩ := h.cons_cases
    · -- the first character of the content is the space that has come
      have hv := (List.cons.inj (List.cons.inj hy).2).2
      refine ⟨bs, rest', hv.symm, hbs, .inl rfl, fun he => .inr ?_⟩
      subst he
      obtain rfl := (List.cons.inj hv).1
      exact hgap
    · -- a space has gone from the front of the content
      have hv := (List.cons.inj hy).2
      refine ⟨' ' :: b :: bs, rest', congrArg (' ' :: ·) hv.symm, ?_, .inl rfl, by simp⟩
      intro e he
      rcases List.mem_cons.1 he with rfl | he
      · exact hspace
      · exact hbody' e he
    · exact ⟨b :: bs, rest', (List.cons.inj hy).2.symm, hbody', .inl rfl, by simp⟩
    · obtain rfl := (List.cons.inj hy).2
      rcases hv.cons_cases' with ⟨u, rfl⟩ | ⟨e, he, -, rfl⟩
      · obtain ⟨body, rest, rfl, hbody, hnear, -⟩ := ih hbs hv
        refine ⟨b :: body, rest, rfl, fun c hc => ?_, hnear, by simp⟩
        rcases List.mem_cons.1 hc with rfl | hc
        · exact hbody' c List.mem_cons_self
        · exact hbody c hc
      · refine ⟨e :: bs, rest', rfl, fun c hc => ?_, .inl rfl, by simp⟩
        rcases List.mem_cons.1 hc with rfl | hc
        · exact hp c he
        · exact hbs c hc

theorem Text.Touch.literals {s : Text} (hne : s ≠ []) (hs : ∀ c ∈ s, IsLiteral c)
    (h : Touch SoftGap t (s ++ t')) : ∃ u, ∃ b ∈ s, t = s ++ u ∧ Near b u t' := by
  induction s generalizing t with
  | nil => exact absurd rfl hne
  | cons c s ih =>
    obtain ⟨u, rfl, hu⟩ := Touch.literal h (hs c List.mem_cons_self).capital
    cases s with
    | nil => exact ⟨u, c, List.mem_cons_self, rfl, hu⟩
    | cons d s =>
      have hs' : ∀ e ∈ d :: s, IsLiteral e := fun e he => hs e (List.mem_cons_of_mem _ he)
      rcases hu with rfl | hu
      · exact ⟨t', d, by simp, rfl, .inl rfl⟩
      · obtain ⟨v, hv, hv'⟩ := Near.literal (.inr hu) (hs c List.mem_cons_self).tight
          (hs' d List.mem_cons_self)
        subst hv
        rcases hv' with rfl | hv'
        · exact ⟨t', d, by simp, rfl, .inl rfl⟩
        · obtain ⟨w, b, hb, hw, hnear⟩ := ih (by simp) hs' hv'
          exact ⟨w, b, List.mem_cons_of_mem _ hb, congrArg (c :: ·) hw, hnear⟩

/-! ### Formulas and links -/

theorem isLiteral_of_isPunctuation (h : c ∈ ['$', '[', ']', '(', ')', '!', ':', '/']) :
    IsLiteral c := by
  have key : ∀ d ∈ ['$', '[', ']', '(', ')', '!', ':', '/'], IsLiteral d := by decide
  exact key c h

theorem isLiteral_of_mem_opening {bang : Text} (hbang : bang = [] ∨ bang = ['!'])
    (hc : c ∈ bang ++ ['[']) : IsLiteral c := by
  have : c = '!' ∨ c = '[' := by rcases hbang with rfl | rfl <;> simp at hc <;> simp [hc]
  rcases this with rfl | rfl <;> exact isLiteral_of_isPunctuation (by decide)

theorem isLiteral_of_mem_markerChars (h : c ∈ markerChars) : IsLiteral c := by
  have key : ∀ d ∈ markerChars, IsLiteral d := by decide
  exact key c h

theorem within_of_isSmall {stop : Char} (hstop : isSmall stop = false) (h : isSmall c = true) :
    within stop c = true := by
  simp only [within, Bool.and_eq_true, decide_eq_true_eq]
  refine ⟨fun he => ?_, fun he => ?_⟩
  · rw [he, hstop] at h; cases h
  · subst he; revert h; decide

theorem exists_formula?_of_touch (h : Touch SoftGap t t') {r' : Recognised}
    (hr : formula? t' = some r') : ∃ r, formula? t = some r := by
  obtain ⟨k, body', rest', hk, rfl, hne, hall, -⟩ := formula?_eq_some_iff.1 hr
  have hmark : ∀ c ∈ List.replicate k '$', IsLiteral c := fun c hc => by
    rw [List.eq_of_mem_replicate hc]; exact isLiteral_of_isPunctuation (by decide)
  have hk0 : List.replicate k '$' ≠ [] := by rcases hk with rfl | rfl <;> simp
  obtain ⟨u, b, hb, rfl, hu⟩ := h.literals hk0 hmark
  obtain rfl := List.eq_of_mem_replicate hb
  obtain ⟨j, rfl⟩ : ∃ j, k = j + 1 := ⟨k - 1, by omega⟩
  rw [List.replicate_succ, List.cons_append] at hu
  obtain ⟨body, rest, rfl, hbody, hnear, hempty⟩ := hu.content (p := within '$') (by decide)
    (fun c hc => within_of_isSmall (by decide) hc) (isLiteral_of_isPunctuation (by decide)) hall
  have hne' : body ≠ [] := fun he => (hempty he).elim hne fun hg => hg.dollars ⟨rfl, rfl⟩
  -- behind the content comes as much of the mark as before it
  obtain ⟨rest'', rfl⟩ : ∃ v, rest = List.replicate j '$' ++ v := by
    rcases hk with hk | hk
    · obtain rfl : j = 0 := by omega
      exact ⟨rest, rfl⟩
    · obtain rfl : j = 1 := by omega
      obtain ⟨v, hv, -⟩ := hnear.literal (by decide) (isLiteral_of_isPunctuation (by decide))
      exact ⟨v, hv⟩
  exact ⟨_, formula?_eq_some_iff.2 ⟨j + 1, body, rest'', hk, by simp [List.replicate_succ], hne',
    hbody, rfl⟩⟩

theorem exists_wikilink?_of_touch (h : Touch SoftGap t t') {r' : Recognised}
    (hr : wikilink? t' = some r') : ∃ r, wikilink? t = some r := by
  obtain ⟨bang, body', rest', hbang, rfl, hne, hall, -⟩ := wikilink?_eq_some_iff.1 hr
  have hsplit : bang ++ '[' :: '[' :: (body' ++ ']' :: ']' :: rest') =
      (bang ++ ['[']) ++ ('[' :: (body' ++ ']' :: ']' :: rest')) := by simp
  rw [hsplit] at h
  obtain ⟨u, b, hb, rfl, hu⟩ := h.literals (by simp) fun c => isLiteral_of_mem_opening hbang
  have hbt : isTight b = false := (isLiteral_of_mem_opening hbang hb).tight
  obtain ⟨v, rfl, hv⟩ := hu.literal hbt (isLiteral_of_isPunctuation (by decide))
  obtain ⟨body, rest, rfl, hbody, hnear, hempty⟩ := hv.content (p := within ']') (by decide)
    (fun c hc => within_of_isSmall (by decide) hc) (isLiteral_of_isPunctuation (by decide)) hall
  have hne' : body ≠ [] := fun he => (hempty he).elim hne fun hg => hg.brackets ⟨rfl, rfl⟩
  obtain ⟨rest, rfl, -⟩ := hnear.literal (by decide) (isLiteral_of_isPunctuation (by decide))
  exact ⟨_, wikilink?_eq_some_iff.2 ⟨bang, body, rest, hbang, by simp, hne', hbody, rfl⟩⟩

theorem exists_link?_of_touch (h : Touch SoftGap t t') {r' : Recognised}
    (hr : link? t' = some r') : ∃ r, link? t = some r := by
  obtain ⟨bang, shown', target', rest', hbang, rfl, hshown, htarget, -⟩ := link?_eq_some_iff.1 hr
  have hsplit : bang ++ '[' :: (shown' ++ ']' :: '(' :: (target' ++ ')' :: rest')) =
      (bang ++ ['[']) ++ (shown' ++ ']' :: '(' :: (target' ++ ')' :: rest')) := by simp
  rw [hsplit] at h
  obtain ⟨u, b, hb, rfl, hu⟩ := h.literals (by simp) fun c => isLiteral_of_mem_opening hbang
  obtain ⟨shown, v, rfl, hshown, hv, -⟩ := hu.content (p := within ']') (by decide)
    (fun c hc => within_of_isSmall (by decide) hc) (isLiteral_of_isPunctuation (by decide)) hshown
  obtain ⟨w, rfl, hw⟩ := hv.literal (by decide) (isLiteral_of_isPunctuation (by decide))
  obtain ⟨target, rest, rfl, htarget, -, -⟩ := hw.content (p := within ')') (by decide)
    (fun c hc => within_of_isSmall (by decide) hc) (isLiteral_of_isPunctuation (by decide)) htarget
  exact ⟨_, link?_eq_some_iff.2 ⟨bang, shown, target, rest, hbang, by simp, hshown, htarget, rfl⟩⟩

/-! ### Addresses -/

theorem isAddress_of_isSmall (h : isSmall c = true) : isAddress c = true := by
  have hlist : ∀ d ∈ ['<', '>', '(', ')', '[', ']', '\x60'], isSmall d = false := by decide
  have hmem : ['<', '>', '(', ')', '[', ']', '\x60'].contains c = false := by
    refine Bool.eq_false_iff.2 fun hc => ?_
    rw [hlist c (by simpa using hc)] at h; cases h
  have htight := isTight_of_isLatin (isLatin_iff.2 (.inr h))
  have hblank := isBlank_of_isLatin (isLatin_iff.2 (.inr h))
  simp only [isTight, Bool.or_eq_false_iff] at htight
  rw [isAddress, hblank, hmem, htight.1, htight.2]
  rfl

theorem isLiteral_of_mem_scheme {s : Text} (hs : s ∈ schemes) (hc : c ∈ s) : IsLiteral c := by
  have key : ∀ s ∈ schemes, ∀ d ∈ s, IsLiteral d := by decide
  exact key s hs c hc

theorem exists_url?_of_touch (h : Touch SoftGap t t') {r' : Recognised}
    (hr : url? t' = some r') : ∃ r, url? t = some r := by
  obtain ⟨scheme, hs, body', rest', rfl, hne, hall, -⟩ := url?_eq_some_iff.1 hr
  have hs0 : scheme ≠ [] := fun he => by subst he; revert hs; decide
  obtain ⟨u, b, hb, rfl, hu⟩ := h.literals hs0 fun c hc => isLiteral_of_mem_scheme hs hc
  obtain ⟨d, body', rfl⟩ := List.exists_cons_of_ne_nil hne
  have hd : isAddress d = true := hall d List.mem_cons_self
  -- the rest of the address may have got shorter, but not its first character
  have hhead : u.head?.any isAddress = true := by
    rcases hu with rfl | hu
    · exact hd
    obtain ⟨_, _, -, -, hy⟩ | ⟨_, _, -, htight, -⟩ | ⟨-, hy⟩ | ⟨v, hv, hy⟩ := hu.cons_cases
    · obtain rfl := (List.cons.inj (List.cons.inj hy).2).1
      exact absurd hd (by decide)
    · rw [(isLiteral_of_mem_scheme hs hb).tight] at htight; cases htight
    · rw [← (List.cons.inj hy).2]; exact hd
    · obtain rfl := (List.cons.inj hy).2
      rcases hv.cons_cases' with ⟨w, rfl⟩ | ⟨e, he, -, rfl⟩
      · exact hd
      · exact isAddress_of_isSmall he
  obtain ⟨rest, hrest, hbody, hstop⟩ := exists_takeWhile isAddress u
  refine ⟨_, url?_eq_some_iff.2 ⟨scheme, hs, u.takeWhile isAddress, rest, by rw [← hrest], ?_, hbody,
    hstop, rfl⟩⟩
  cases u with
  | nil => cases hhead
  | cons e u => rw [List.takeWhile_cons_of_pos (by simpa using hhead)]; simp

/-! ### Code -/

/-- A touch neither makes nor drops a line break. -/
theorem newline_iff_of_touch {e e' : Char} {v v' : Text} (h : Touch SoftGap (e :: v) (e' :: v')) :
    e' = '\n' ↔ e = '\n' := by
  rcases h.cons_cases' with ⟨w, he⟩ | ⟨b, hb, hb', he⟩
  · rw [(List.cons.inj he).1]
  · have h1 : b ≠ '\n' := by rintro rfl; revert hb; decide
    have h2 : b.toUpper ≠ '\n' := fun hn => by
      have := isCapital_toUpper hb; rw [hn] at this; revert this; decide
    rw [(List.cons.inj he).1, hb']
    exact iff_of_false h2 h1

/-- A touch keeps the run of backticks that a text starts with. -/
theorem length_ticks_of_touch (h : Touch SoftGap t t') :
    (t'.takeWhile (· = '\x60')).length = (t.takeWhile (· = '\x60')).length := by
  induction h with
  | @widen a c t hgap =>
    by_cases ha : a = '\x60'
    · have hc : c ≠ '\x60' := fun hc => hgap.ticks ⟨ha, hc⟩
      simp [ha, hc]
    · simp [ha]
  | @narrow a c t ha hc =>
    have ha' : a ≠ '\x60' := by rintro rfl; revert ha; decide
    simp [ha']
  | @raise c t hc =>
    have h1 : c ≠ '\x60' := by rintro rfl; revert hc; decide
    have h2 : c.toUpper ≠ '\x60' := fun he => by
      have := isCapital_toUpper hc; rw [he] at this; revert this; decide
    simp [h1, h2]
  | @later c t t' h ih =>
    by_cases hc : c = '\x60'
    · simp [hc, ih]
    · simp [hc]

theorem isSome_closingTicks_cons (width : ℕ) (flag : Bool) (c : Char) (t : Text) :
    (closingTicks width flag (c :: t)).isSome = true ↔
      (flag = false ∧ ((c :: t).takeWhile (· = '\x60')).length = width) ∨
        (c ≠ '\n' ∧ (closingTicks width (c = '\x60') t).isSome = true) := by
  rw [closingTicks]
  split_ifs with hclose hnl
  · simp only [Bool.and_eq_true, Bool.not_eq_true', beq_iff_eq] at hclose
    simp [hclose]
  · simp only [Bool.and_eq_true, Bool.not_eq_true', beq_iff_eq] at hclose
    rw [or_iff_right hclose]; simp [hnl]
  · simp only [Bool.and_eq_true, Bool.not_eq_true', beq_iff_eq] at hclose
    rw [or_iff_right hclose]; simp [hnl]

/-- A character that is no backtick neither closes nor depends on what comes before it. -/
theorem isSome_closingTicks_of_ne {width : ℕ} (hw : 0 < width) (hc : c ≠ '\x60') (flag : Bool)
    (t : Text) : (closingTicks width flag (c :: t)).isSome = true ↔
      c ≠ '\n' ∧ (closingTicks width false t).isSome = true := by
  have hrun : ((c :: t).takeWhile (· = '\x60')).length = 0 := by simp [hc]
  rw [isSome_closingTicks_cons, hrun]
  simp [hc, hw.ne]

theorem isSome_closingTicks_of_touch {width : ℕ} (hw : 0 < width) {x x' : Text}
    (h : Touch SoftGap x x') {c' : Char} (hx : x = c :: t) (hx' : x' = c' :: t')
    (hs : (closingTicks width (c' = '\x60') t').isSome = true) :
    (closingTicks width (c = '\x60') t).isSome = true := by
  -- on where the touch is; a run that it does not reach is as long as before
  induction h generalizing c c' t t' with
  | @widen a d u hgap =>
    obtain ⟨rfl, rfl⟩ := List.cons.inj hx
    obtain ⟨rfl, rfl⟩ := List.cons.inj hx'
    rw [isSome_closingTicks_of_ne hw (by decide)] at hs
    by_cases ha : a = '\x60'
    · have hd : d ≠ '\x60' := fun hd => hgap.ticks ⟨ha, hd⟩
      rw [isSome_closingTicks_of_ne hw hd] at hs ⊢
      exact hs.2
    · simpa [ha] using hs.2
  | @narrow a d u ha hd =>
    obtain ⟨rfl, rfl⟩ := List.cons.inj hx
    obtain ⟨rfl, rfl⟩ := List.cons.inj hx'
    have ha' : a ≠ '\x60' := by rintro rfl; revert ha; decide
    rw [isSome_closingTicks_of_ne hw (by decide)]
    exact ⟨by decide, by simpa [ha'] using hs⟩
  | @raise d u hd =>
    obtain ⟨rfl, rfl⟩ := List.cons.inj hx
    obtain ⟨rfl, rfl⟩ := List.cons.inj hx'
    have h1 : d ≠ '\x60' := by rintro rfl; revert hd; decide
    have h2 : d.toUpper ≠ '\x60' := fun he => by
      have := isCapital_toUpper hd; rw [he] at this; revert this; decide
    simpa [h1, h2] using hs
  | @later d u u' h ih =>
    obtain ⟨rfl, rfl⟩ := List.cons.inj hx
    obtain ⟨rfl, rfl⟩ := List.cons.inj hx'
    have hrun := length_ticks_of_touch h
    obtain ⟨e', v', rfl⟩ := List.exists_cons_of_ne_nil h.ne_nil'
    obtain ⟨e, v, rfl⟩ := List.exists_cons_of_ne_nil h.ne_nil
    rw [isSome_closingTicks_cons] at hs ⊢
    rcases hs with ⟨hflag, hclose⟩ | ⟨hnl, hs⟩
    · exact .inl ⟨hflag, hrun ▸ hclose⟩
    · exact .inr ⟨fun hn => hnl ((newline_iff_of_touch h).2 hn), ih rfl rfl hs⟩

/-- Behind a run of backticks that a text starts with, the same is closed before the touch, or more
if a space has come right behind the run. -/
theorem exists_ticks_of_touch {width : ℕ} (hw : 0 < width) (k : ℕ) {x' : Char} (hx' : x' ≠ '\x60')
    {u' : Text} (h : Touch SoftGap t (List.replicate k '\x60' ++ x' :: u'))
    (hs : (closingTicks width (x' = '\x60') u').isSome = true) :
    ∃ x u, t = List.replicate k '\x60' ++ x :: u ∧ x ≠ '\x60' ∧
      (closingTicks width false u).isSome = true := by
  induction k generalizing t u' with
  | zero =>
    obtain ⟨x, u, rfl⟩ := List.exists_cons_of_ne_nil h.ne_nil
    have hx : x ≠ '\x60' := by
      rcases h.cons_cases' with ⟨_, he⟩ | ⟨b, hb, -, he⟩
      · rw [(List.cons.inj he).1]; exact hx'
      · rw [(List.cons.inj he).1]; rintro rfl; revert hb; decide
    have := isSome_closingTicks_of_touch hw h rfl rfl hs
    exact ⟨x, u, rfl, hx, by simpa [hx] using this⟩
  | succ k ih =>
    rw [List.replicate_succ, List.cons_append] at h
    rcases h.cons_cases' with ⟨v, rfl⟩ | ⟨b, hb, hb', -⟩
    · obtain ⟨c, v', rfl, hgap, hy⟩ | ⟨_, _, _, htight, -⟩ | ⟨hb, -⟩ | ⟨v', hv, hy⟩ := h.cons_cases
      · have hc : c ≠ '\x60' := fun hc => hgap.ticks ⟨rfl, hc⟩
        cases k with
        | zero =>
          -- a space has come behind the last backtick
          obtain ⟨-, hy⟩ := List.cons.inj hy
          obtain ⟨hx, rfl⟩ := List.cons.inj hy
          refine ⟨c, v', rfl, hc, ?_⟩
          rw [isSome_closingTicks_of_ne hw hc] at hs
          exact hs.2
        | succ k =>
          have := (List.cons.inj (List.cons.inj hy).2).1
          exact absurd this (by decide)
      · exact absurd htight (by decide)
      · exact absurd hb (by decide)
      · obtain rfl := (List.cons.inj hy).2
        obtain ⟨x, u, rfl, hx, hu⟩ := ih hv hs
        exact ⟨x, u, rfl, hx, hu⟩
    · have := isCapital_toUpper hb
      rw [← hb'] at this; exact absurd this (by decide)

theorem exists_code?_of_touch (h : Touch SoftGap t t') {r' : Recognised}
    (hr : code? t' = some r') : ∃ r, code? t = some r := by
  obtain ⟨width, x', body', rest', rfl, hw, hx', hclose, -⟩ := code?_eq_some_iff.1 hr
  have hsome : (closingTicks width (x' = '\x60') (body' ++ rest')).isSome = true := by
    simp [hx', hclose]
  obtain ⟨x, u, rfl, hx, hu⟩ := exists_ticks_of_touch hw width hx' (by simpa using h) hsome
  obtain ⟨n, hn⟩ := Option.isSome_iff_exists.1 hu
  exact exists_code? hw hx hn

/-! ### Emphasis -/

theorem isBlank_toUpper (h : isSmall c = true) : isBlank c.toUpper = isBlank c := by
  rw [isBlank_of_isLatin (isLatin_iff.2 (.inl (isCapital_toUpper h))),
    isBlank_of_isLatin (isLatin_iff.2 (.inr h))]

theorem isSome_closingMarker_cons (m p c : Char) (t : Text) :
    (closingMarker m p (c :: t)).isSome = true ↔
      (isBlank p = false ∧ c = m ∧ t.head? = some m) ∨
        (c ≠ '\n' ∧ (closingMarker m c t).isSome = true) := by
  rw [closingMarker]
  split_ifs with hclose hnl
  · simp only [Bool.and_eq_true, Bool.not_eq_true', decide_eq_true_eq, and_assoc] at hclose
    simp [hclose]
  · simp only [Bool.and_eq_true, Bool.not_eq_true', decide_eq_true_eq, and_assoc] at hclose
    rw [or_iff_right hclose]; simp [hnl]
  · simp only [Bool.and_eq_true, Bool.not_eq_true', decide_eq_true_eq, and_assoc] at hclose
    rw [or_iff_right hclose]; simp [hnl]

theorem isSome_closingMarker_of_touch {m : Char} (hm : m ∈ markerChars) {x x' : Text}
    (h : Touch SoftGap x x') {c' : Char} (hx : x = c :: t) (hx' : x' = c' :: t')
    (hs : (closingMarker m c' t').isSome = true) : (closingMarker m c t).isSome = true := by
  -- (only that the marker is found: a space in front of it moves the place where it is)
  have hlit := isLiteral_of_mem_markerChars hm
  induction h generalizing c c' t t' with
  | @widen a d u hgap =>
    obtain ⟨rfl, rfl⟩ := List.cons.inj hx
    obtain ⟨rfl, rfl⟩ := List.cons.inj hx'
    -- behind the space the same is closed, and what follows a character closes no less
    rw [isSome_closingMarker_cons] at hs
    obtain ⟨-, hs⟩ := hs.resolve_left fun h => hlit.space h.2.1.symm
    rw [isSome_closingMarker_cons] at hs ⊢
    exact hs.imp (fun h => absurd h.1 (by decide)) id
  | @narrow a d u ha hd =>
    obtain ⟨rfl, rfl⟩ := List.cons.inj hx
    obtain ⟨rfl, rfl⟩ := List.cons.inj hx'
    rw [isSome_closingMarker_cons] at hs
    obtain ⟨hnl, hs⟩ := hs.resolve_left fun h => by
      rcases hd with hd | hd
      · rw [h.2.1, hlit.tight] at hd; cases hd
      · exact hlit.space (h.2.1.symm.trans hd)
    rw [isSome_closingMarker_cons]
    refine .inr ⟨by decide, ?_⟩
    rw [isSome_closingMarker_cons]
    exact .inr ⟨hnl, hs⟩
  | @raise d u hd =>
    obtain ⟨rfl, rfl⟩ := List.cons.inj hx
    obtain ⟨rfl, rfl⟩ := List.cons.inj hx'
    cases u with
    | nil => cases hs
    | cons e u =>
      rw [isSome_closingMarker_cons, isBlank_toUpper hd] at hs
      rw [isSome_closingMarker_cons]
      exact hs
  | @later d u u' h ih =>
    obtain ⟨rfl, rfl⟩ := List.cons.inj hx
    obtain ⟨rfl, rfl⟩ := List.cons.inj hx'
    obtain ⟨e', v', rfl⟩ := List.exists_cons_of_ne_nil h.ne_nil'
    obtain ⟨e, v, rfl⟩ := List.exists_cons_of_ne_nil h.ne_nil
    rw [isSome_closingMarker_cons] at hs ⊢
    rcases hs with ⟨hp, rfl, hnext⟩ | ⟨hnl, hs⟩
    · obtain ⟨w, hw, hnear⟩ := Touch.literal h hlit.capital
      obtain ⟨rfl, rfl⟩ := List.cons.inj hw
      obtain ⟨w', rfl⟩ := List.head?_eq_some_iff.1 hnext
      obtain ⟨w, rfl, -⟩ := hnear.literal hlit.tight hlit
      exact .inl ⟨hp, rfl, rfl⟩
    · exact .inr ⟨fun hn => hnl ((newline_iff_of_touch h).2 hn), ih rfl rfl hs⟩

theorem exists_emphasis?_of_touch (h : Touch SoftGap t t') {r' : Recognised}
    (hr : emphasis? t' = some r') : ∃ r, emphasis? t = some r := by
  obtain ⟨m, c', body', rest', rfl, hm, hc', hends, -⟩ := emphasis?_eq_some_iff.1 hr
  have hlit := isLiteral_of_mem_markerChars hm
  have hsome : (closingMarker m c' (body' ++ m :: m :: rest')).isSome = true := by
    rw [closingMarker_eq_iff.2 hends]; rfl
  obtain ⟨u, rfl, hu⟩ := Touch.literal h hlit.capital
  obtain ⟨v, rfl, hv⟩ := hu.literal hlit.tight hlit
  obtain ⟨c, w, rfl, hc, hclose⟩ : ∃ c w, v = c :: w ∧ isBlank c = false ∧
      (closingMarker m c w).isSome = true := by
    rcases hv with rfl | hv
    · exact ⟨c', _, rfl, hc', hsome⟩
    obtain ⟨_, _, -, -, hy⟩ | ⟨_, _, -, htight, -⟩ | ⟨-, hy⟩ | ⟨w', hw', hy⟩ := hv.cons_cases
    · obtain rfl := (List.cons.inj (List.cons.inj hy).2).1
      exact absurd hc' (by decide)
    · rw [hlit.tight] at htight; cases htight
    · exact ⟨c', _, (List.cons.inj hy).2.symm, hc', hsome⟩
    · obtain rfl := (List.cons.inj hy).2
      obtain ⟨c, w, rfl⟩ := List.exists_cons_of_ne_nil hw'.ne_nil
      refine ⟨c, w, rfl, ?_, isSome_closingMarker_of_touch hm hw' rfl rfl hsome⟩
      rcases hw'.cons_cases' with ⟨_, he⟩ | ⟨b, hb, hb', he⟩
      · rw [(List.cons.inj he).1]; exact hc'
      · rw [(List.cons.inj he).1]; exact isBlank_of_isLatin (isLatin_iff.2 (.inr hb))
  obtain ⟨n, hn⟩ := Option.isSome_iff_exists.1 hclose
  exact exists_emphasis? hm hc hn

/-- **A touch makes no span**: where none starts, none starts afterwards. -/
theorem spanAt?_of_touch (h : Touch SoftGap t t') (hn : spanAt? t = none) : spanAt? t' = none := by
  refine Option.eq_none_iff_forall_ne_some.2 fun r' hr' => ?_
  have key : ∃ r, spanAt? t = some r := by
    rcases spanAt?_eq_some_iff.1 hr' with hr | hr | hr | hr | hr | hr
    · obtain ⟨r, hr⟩ := exists_code?_of_touch h hr
      exact ⟨r, spanAt?_of_ofKind? .code hr⟩
    · obtain ⟨r, hr⟩ := exists_formula?_of_touch h hr
      exact ⟨r, spanAt?_of_ofKind? .formula hr⟩
    · obtain ⟨r, hr⟩ := exists_wikilink?_of_touch h hr
      exact ⟨r, spanAt?_of_ofKind? .wikilink hr⟩
    · obtain ⟨r, hr⟩ := exists_link?_of_touch h hr
      exact ⟨r, spanAt?_of_ofKind? .link hr⟩
    · obtain ⟨r, hr⟩ := exists_url?_of_touch h hr
      exact ⟨r, spanAt?_of_ofKind? .url hr⟩
    · obtain ⟨r, hr⟩ := exists_emphasis?_of_touch h hr
      exact ⟨r, spanAt?_of_ofKind? .emphasis hr⟩
  obtain ⟨r, hr⟩ := key
  rw [hn] at hr; cases hr

/-! ### Spans that stay -/

theorem endsAt_of_touch {m : Char} (hm : m ∈ markerChars) {x x' : Text} (h : Touch SoftGap x x')
    {c' : Char} (hx : x = c :: t) (hx' : x' = c' :: t') (he : EndsAt m c t) : EndsAt m c' t' := by
  have hlit := isLiteral_of_mem_markerChars hm
  induction h generalizing c c' t t' with
  | @widen a d u hgap =>
    obtain ⟨rfl, rfl⟩ := List.cons.inj hx
    obtain ⟨rfl, rfl⟩ := List.cons.inj hx'
    obtain ⟨-, hnl, he⟩ := he
    exact ⟨fun h => hlit.space h.2.1.symm, by decide, fun h => absurd h.1 (by decide), hnl, he⟩
  | @narrow a d u ha hd =>
    obtain ⟨rfl, rfl⟩ := List.cons.inj hx
    obtain ⟨rfl, rfl⟩ := List.cons.inj hx'
    obtain ⟨-, -, -, hnl, he⟩ := he
    refine ⟨fun h => ?_, hnl, he⟩
    rcases hd with hd | hd
    · rw [h.2.1, hlit.tight] at hd; cases hd
    · exact hlit.space (h.2.1.symm.trans hd)
  | @raise d u hd =>
    obtain ⟨rfl, rfl⟩ := List.cons.inj hx
    obtain ⟨rfl, rfl⟩ := List.cons.inj hx'
    cases u with
    | nil => exact (isBlank_toUpper hd).trans he
    | cons e u => rw [EndsAt, isBlank_toUpper hd]; exact he
  | @later d u u' h ih =>
    obtain ⟨rfl, rfl⟩ := List.cons.inj hx
    obtain ⟨rfl, rfl⟩ := List.cons.inj hx'
    obtain ⟨e', v', rfl⟩ := List.exists_cons_of_ne_nil h.ne_nil'
    obtain ⟨e, v, rfl⟩ := List.exists_cons_of_ne_nil h.ne_nil
    obtain ⟨hopen, hnl, he⟩ := he
    refine ⟨?_, fun hn => hnl ((newline_iff_of_touch h).1 hn), ih rfl rfl he⟩
    rintro ⟨hp, rfl, hnext⟩
    obtain ⟨w, hw, hnear⟩ := Touch.literal h hlit.capital
    obtain ⟨rfl, rfl⟩ := List.cons.inj hw
    refine hopen ⟨hp, rfl, ?_⟩
    cases v' with
    | nil =>
      cases v with
      | nil => rfl
      | cons b v =>
        -- a touch leaves nothing behind a character only if there was nothing
        obtain ⟨_, _, -, -, hy⟩ | ⟨_, _, -, -, -, hy⟩ | ⟨-, hy⟩ | ⟨w, hw, hy⟩ := h.cons_cases
        · exact absurd (List.cons.inj hy).2 (by simp)
        · exact absurd (List.cons.inj hy).2 (by simp)
        · exact absurd (List.cons.inj hy).2 (by simp)
        · exact absurd (List.cons.inj hy).2.symm hw.ne_nil'
    | cons b' v' =>
      obtain rfl := Option.some.inj hnext
      obtain ⟨w, rfl, -⟩ := hnear.literal hlit.tight hlit
      rfl

/-- `inner` is what an emphasis with the marker `marker` encloses, whatever follows it. -/
def Emphasises (marker inner : Text) : Prop :=
  ∃ (m c : Char) (body : Text), m ∈ markerChars ∧ marker = [m, m] ∧ inner = c :: body ∧
    isBlank c = false ∧ EndsAt m c body

theorem Emphasises.spanAt?_eq {marker inner : Text} (h : Emphasises marker inner) (rest : Text) :
    spanAt? (marker ++ inner ++ marker ++ rest) =
      some { kind := .emphasis, length := inner.length + 4, marker, visible := inner } := by
  obtain ⟨m, c, body, hm, rfl, rfl, hc, hends⟩ := h
  refine spanAt?_of_ofKind? .emphasis ?_
  rw [ofKind?, emphasis?_eq_some_iff]
  exact ⟨m, c, body, rest, by simp, hm, hc, hends, by simp⟩

theorem emphasises_of_spanAt? {marker inner rest : Text} {r : Recognised}
    (h : spanAt? (marker ++ inner ++ marker ++ rest) = some r) (hmarker : r.marker = marker)
    (hinner : r.visible = inner) (hne : marker ≠ []) : Emphasises marker inner := by
  -- only emphasis has a marker
  have hkind : r.kind = .emphasis := by
    obtain ⟨_, _, -, -, -, -, ⟨hnone, -⟩ | ⟨-, hkind, -⟩⟩ := exists_of_spanAt? h
    · exact absurd (hmarker.symm.trans hnone) hne
    · exact hkind
  replace h := ofKind?_of_spanAt? h
  rw [hkind] at h
  obtain ⟨m, c, body, _, -, hm, hc, hends, rfl⟩ := emphasis?_eq_some_iff.1 h
  exact ⟨m, c, body, hm, hmarker.symm, hinner.symm, hc, hends⟩

theorem Emphasises.touch {marker inner inner' : Text} (h : Emphasises marker inner)
    (ht : Touch SoftGap inner inner') : Emphasises marker inner' := by
  obtain ⟨m, c, body, hm, rfl, rfl, hc, hends⟩ := h
  obtain ⟨c', body', rfl⟩ := List.exists_cons_of_ne_nil ht.ne_nil'
  refine ⟨m, c', body', hm, rfl, rfl, ?_, endsAt_of_touch hm ht rfl rfl hends⟩
  rcases ht.head? with hh | ⟨b, hb, hs, hh⟩
  · rw [Option.some.inj hh]; exact hc
  · rw [Option.some.inj hh, isBlank_toUpper hs, ← Option.some.inj hb]; exact hc

/-- A span that is copied stays a span of the same kind when what follows it changes, as long as no
backtick and no character of an address comes to stand right behind it. -/
theorem spanAt?_append {s rest rest' : Text} {r : Recognised}
    (h : spanAt? (s ++ rest) = some r) (hlen : r.length = s.length) (hmarker : r.marker = [])
    (htick : rest'.head? = some '\x60' → rest.head? = some '\x60')
    (haddress : rest'.head?.any isAddress = true → rest.head?.any isAddress = true) :
    spanAt? (s ++ rest') = some r := by
  -- the description of each kind tells what is the span and what is the rest
  have cut : ∀ {a b : Text}, s ++ rest = a ++ b → s.length = a.length → s = a ∧ rest = b :=
    fun h hl => List.append_inj h hl
  rcases spanAt?_eq_some_iff.1 h with h | h | h | h | h | h
  · obtain ⟨width, x, body, v, he, hw, hx, hclose, rfl⟩ := code?_eq_some_iff.1 h
    rw [← List.append_assoc] at he
    obtain ⟨rfl, rfl⟩ := cut he (by simp at hlen ⊢; omega)
    exact spanAt?_of_ofKind? .code (code?_eq_some_iff.2 ⟨width, x, body, rest', by simp, hw, hx,
      closingTicks_append hw htick hclose, rfl⟩)
  · obtain ⟨k, body, v, hk, he, hne, hall, rfl⟩ := formula?_eq_some_iff.1 h
    rw [← List.append_assoc, ← List.append_assoc] at he
    obtain ⟨rfl, rfl⟩ := cut he (by simp at hlen ⊢; omega)
    exact spanAt?_of_ofKind? .formula (formula?_eq_some_iff.2 ⟨k, body, rest', hk, by simp, hne,
      hall, rfl⟩)
  · obtain ⟨bang, body, v, hbang, he, hne, hall, rfl⟩ := wikilink?_eq_some_iff.1 h
    have he' : s ++ rest = (bang ++ '[' :: '[' :: (body ++ [']', ']'])) ++ v := by simp [he]
    obtain ⟨rfl, rfl⟩ := cut he' (by simp at hlen ⊢; omega)
    exact spanAt?_of_ofKind? .wikilink (wikilink?_eq_some_iff.2 ⟨bang, body, rest', hbang, by simp,
      hne, hall, rfl⟩)
  · obtain ⟨bang, shown, target, v, hbang, he, hshown, htarget, rfl⟩ := link?_eq_some_iff.1 h
    have he' : s ++ rest = (bang ++ '[' :: (shown ++ ']' :: '(' :: (target ++ [')']))) ++ v := by
      simp [he]
    obtain ⟨rfl, rfl⟩ := cut he' (by simp at hlen ⊢; omega)
    exact spanAt?_of_ofKind? .link (link?_eq_some_iff.2 ⟨bang, shown, target, rest', hbang, by simp,
      hshown, htarget, rfl⟩)
  · obtain ⟨scheme, hs, body, v, he, hne, hall, hstop, rfl⟩ := url?_eq_some_iff.1 h
    rw [← List.append_assoc] at he
    obtain ⟨rfl, rfl⟩ := cut he (by simp at hlen ⊢; omega)
    have hstop' : rest'.head?.any isAddress = false := by
      refine Bool.eq_false_iff.2 fun ha => ?_
      rw [haddress ha] at hstop; cases hstop
    exact spanAt?_of_ofKind? .url (url?_eq_some_iff.2 ⟨scheme, hs, body, rest', by simp, hne, hall,
      hstop', rfl⟩)
  · obtain ⟨m, c, body, v, he, -, -, -, rfl⟩ := emphasis?_eq_some_iff.1 h
    cases hmarker

end TypingAid
