import TypingAid.Proofs.Inline.Stay

/-!
# Parts that are kept apart

A strict style puts a space between code or a formula and whatever stands next to it.  That makes a
span only where a backtick stands on both sides of the space, or a dollar: a stray backtick before
code takes the first one of the code for its own.  If no two neighbours among the parts meet like
that (`Inline.AllApart`), then every style puts its spaces where they do no harm
(`Inline.allPermit_softGap`).
-/

namespace TypingAid

open Text Recognised

variable {style : Style}

/-- A span is neither made nor broken by a blank that is needed between two neighbours, unless they
meet with a backtick or a dollar on both sides. -/
theorem softGap_of_needsBlank {l r : Neighbour} (hl : l.Fits) (hr : r.Fits)
    (h : needsBlank style l r = true) {a c : Char} (ha : l.text.getLast? = some a)
    (hc : r.text.head? = some c) (hticks : ¬ (a = '\x60' ∧ c = '\x60'))
    (hdollars : ¬ (a = '$' ∧ c = '$')) : SoftGap a c := by
  obtain ⟨a', c', ha', hc', hab, hcb⟩ := Inline.needsBlank_edges h
  obtain rfl : a = a' := Option.some.inj (ha.symm.trans ha')
  obtain rfl : c = c' := Option.some.inj (hc.symm.trans hc')
  refine ⟨hab, hcb, hticks, hdollars, ?_⟩
  rintro ⟨rfl, rfl⟩
  -- neither bracket belongs to code or a formula, and elsewhere only words are kept apart
  have hls : l.kind.isSpaced = false := by
    refine Bool.eq_false_iff.2 fun hs => ?_
    rcases hl.ends hs with ⟨-, hlast⟩ | ⟨-, hlast⟩
    · rw [ha] at hlast; exact absurd (Option.some.inj hlast) (by decide)
    · rw [ha] at hlast; exact absurd (Option.some.inj hlast) (by decide)
  have hrs : r.kind.isSpaced = false := by
    refine Bool.eq_false_iff.2 fun hs => ?_
    rcases hr.ends hs with ⟨hfirst, -⟩ | ⟨hfirst, -⟩
    · rw [hc] at hfirst; exact absurd (Option.some.inj hfirst) (by decide)
    · rw [hc] at hfirst; exact absurd (Option.some.inj hfirst) (by decide)
  simp only [needsBlank, ha, hc, hab, hcb, hls, hrs, Bool.or_false, Bool.false_eq_true,
    if_false] at h
  split at h
  · next b d hface _ =>
    rcases hl.last hls ha with heq | hmem
    · rw [heq, ha] at hface
      obtain rfl := Option.some.inj hface
      exact not_mem_of_class (class_of_separates h).1 (by decide)
    · exact absurd hmem (by decide)
  · cases h

namespace Inline

variable {ps : List Inline}

/-- Where the two parts meet, there is a backtick on both sides, or a dollar. -/
def Meets (p q : Inline) : Prop :=
  ∃ m ∈ ['\x60', '$'], p.text.getLast? = some m ∧ q.text.head? = some m

-- only the marks are tried, and not all characters
instance (p q : Inline) : Decidable (p.Meets q) := List.decidableBEx _ ['\x60', '$']

mutual

/-- Inside the part, no two neighbours meet with a backtick or a dollar on both sides. -/
def Apart : Inline → Prop
  | leaf _ _ _ => True
  | emphasis _ inner => AllApart inner

/-- No two neighbours among the parts, also inside emphasis, meet with a backtick or a dollar on
both sides. -/
def AllApart : List Inline → Prop
  | [] => True
  | p :: ps => p.Apart ∧ (∀ q ∈ ps.head?, ¬ p.Meets q) ∧ AllApart ps

end

mutual

private def decidableApart : (p : Inline) → Decidable p.Apart
  | leaf _ _ _ => isTrue trivial
  | emphasis _ inner => decidableAllApart inner

private def decidableAllApart : (ps : List Inline) → Decidable (AllApart ps)
  | [] => isTrue trivial
  | p :: ps =>
    have := decidableApart p
    have := decidableAllApart ps
    instDecidableAnd

end

instance (ps : List Inline) : Decidable (AllApart ps) := decidableAllApart ps

/-! ### Setting a part keeps the marks at its ends -/

/-- What is neither a space nor a letter comes to neither end of a text. -/
theorem ends_of_touches {gap : Char → Char → Prop} {t t' : Text} (h : Touches gap t t') {m : Char}
    (hm : isCapital m = false) :
    (t'.head? = some m → t.head? = some m) ∧ (t'.getLast? = some m → t.getLast? = some m) := by
  have hraised : ∀ {c : Char}, isSmall c = true → some c.toUpper ≠ some m := by
    intro c hc heq
    rw [← Option.some.inj heq, isCapital_toUpper hc] at hm
    cases hm
  refine h.preserve (P := fun u => (u.head? = some m → t.head? = some m) ∧
    (u.getLast? = some m → t.getLast? = some m)) ?_ ⟨id, id⟩
  rintro u u' ht ⟨hfirst, hlast⟩
  refine ⟨fun hu => ?_, fun hu => ?_⟩
  · rcases ht.head? with heq | ⟨c, -, hc, heq⟩
    · exact hfirst (heq ▸ hu)
    · exact absurd (heq.symm.trans hu) (hraised hc)
  · rcases ht.getLast? with heq | ⟨c, -, hc, heq⟩
    · exact hlast (heq ▸ hu)
    · exact absurd (heq.symm.trans hu) (hraised hc)

mutual

theorem permits_true (style : Style) : (p : Inline) → p.Permits (fun _ _ => True) style
  | leaf _ _ _ => trivial
  | emphasis _ inner => allPermit_true style inner

theorem allPermit_true (style : Style) : (ps : List Inline) → AllPermit (fun _ _ => True) style ps
  | [] => trivial
  | p :: ps => ⟨permits_true style p, fun _ _ _ _ _ _ _ => trivial, allPermit_true style ps⟩

end

theorem touches_reset (style : Style) (p : Inline) :
    Touches (fun _ _ => True) p.text (p.reset style).text := by
  have h := (sets_reset_cons (fun _ _ _ => trivial) p (permits_true style p) .nil).touches
  simpa only [textOf, List.append_nil] using h

theorem not_meets_reset {p q : Inline} (h : ¬ p.Meets q) :
    ¬ (p.reset style).Meets (q.reset style) := by
  rintro ⟨m, hm, hlast, hfirst⟩
  have hcapital : ∀ m ∈ ['\x60', '$'], isCapital m = false := by decide
  exact h ⟨m, hm, (ends_of_touches (touches_reset style p) (hcapital m hm)).2 hlast,
    (ends_of_touches (touches_reset style q) (hcapital m hm)).1 hfirst⟩

/-- **Where parts are kept apart, every style puts its blanks where they do no harm.** -/
theorem allPermit_softGap (style : Style) (h : Loose ps) (hapart : AllApart ps) :
    AllPermit SoftGap style ps := by
  have hnext : ∀ {p : Inline} {ps : List Inline}, (p.reset style).shown.Fits → Loose ps →
      (∀ q ∈ ps.head?, ¬ p.Meets q) →
      ∀ q ∈ (resetAll style ps).head?, needsBlank style (p.reset style).shown q.shown = true →
        ∀ a c, (p.reset style).text.getLast? = some a → q.text.head? = some c → SoftGap a c := by
    intro p ps hp hps hmeets q hq hb a c ha hc
    have hmeets' : ¬ (p.reset style).Meets q := by
      cases ps with
      | nil => cases hq
      | cons r ps =>
        rw [← Option.some.inj hq]
        exact not_meets_reset (hmeets r rfl)
    obtain ⟨qs, hqs⟩ := List.head?_eq_some_iff.1 hq
    have hne : ∀ m ∈ ['\x60', '$'], ¬ (a = m ∧ c = m) := by
      rintro m hm ⟨rfl, rfl⟩
      exact hmeets' ⟨_, hm, ha, hc⟩
    rw [← text_shown] at ha hc
    exact softGap_of_needsBlank hp (fits_head_resetAll hps hqs) hb ha hc (hne _ (by decide))
      (hne _ (by decide))
  induction h with
  | nil => trivial
  | text hne ht hps ih =>
    refine ⟨trivial, hnext ?_ hps hapart.2.1, ih hapart.2.2⟩
    rw [reset, if_pos rfl]
    exact .inl rfl
  | copy hkind hs hps ih =>
    refine ⟨trivial, hnext ?_ hps hapart.2.1, ih hapart.2.2⟩
    rw [reset, if_neg hkind]
    exact fits_of_copy hs
  | emphasis he hi hps ihi ih =>
    exact ⟨ihi hapart.1, hnext (fits_of_emphasises he _) hps hapart.2.1, ih hapart.2.2⟩

/-- So setting the parts keeps them parts. -/
theorem loose_resetAll_of_apart (style : Style) {line : Text} (h : AllApart (parse line)) :
    Loose (resetAll style (parse line)) :=
  (loose_parse line).sets (sets_resetAll_of_permits (fun _ _ => softGap_of_fillableGap) _
    (allPermit_softGap style (loose_parse line) h))

end Inline

end TypingAid
