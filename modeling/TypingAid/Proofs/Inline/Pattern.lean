import TypingAid.Proofs.Inline.Span
import TypingAid.Proofs.Text.Pieces

/-!
# The pattern of spans

What a span looks like can be said without saying which one is found: `Recognised.Spans` gives for
each kind the texts that have its form, and what may come behind them.  In one place there may be
many such texts, longer and shorter ones.  The recognisers and this pattern agree:

* a span that is found has the form of its kind (`spans_of_spanAt?`);
* where any text has the form of a span, one is found (`isSome_spanAt?_iff`).

Of the texts between backticks, and of those between two equal markers, the first end that fits is
taken, so that the content holds no earlier one (`exists_of_code?`, `exists_of_emphasis?`).
-/

namespace TypingAid

open Text

namespace Recognised

variable {t u rest : Text} {m : Char} {width n : ℕ}

/-- A text that stands in front of `rest` has the form of a span. -/
inductive Spans : PartKind → Text → Text → Prop where
  | code {width : ℕ} {content rest : Text} (hwidth : 0 < width) (hne : content ≠ [])
      (hfirst : content.head? ≠ some '\x60') (hlast : content.getLast? ≠ some '\x60')
      (hline : '\n' ∉ content.tail) (hrest : rest.head? ≠ some '\x60') :
      Spans .code (List.replicate width '\x60' ++ (content ++ List.replicate width '\x60')) rest
  | formula {k : ℕ} {content rest : Text} (hk : k = 1 ∨ k = 2) (hne : content ≠ [])
      (hcontent : ∀ c ∈ content, within '$' c = true) :
      Spans .formula (List.replicate k '$' ++ (content ++ List.replicate k '$')) rest
  | wikilink {bang content rest : Text} (hbang : bang = [] ∨ bang = ['!']) (hne : content ≠ [])
      (hcontent : ∀ c ∈ content, within ']' c = true) :
      Spans .wikilink (bang ++ '[' :: '[' :: (content ++ [']', ']'])) rest
  | link {bang shown target rest : Text} (hbang : bang = [] ∨ bang = ['!'])
      (hshown : ∀ c ∈ shown, within ']' c = true) (htarget : ∀ c ∈ target, within ')' c = true) :
      Spans .link (bang ++ '[' :: (shown ++ ']' :: '(' :: (target ++ [')']))) rest
  | url {scheme content rest : Text} (hscheme : scheme ∈ schemes) (hne : content ≠ [])
      (hcontent : ∀ c ∈ content, isAddress c = true) : Spans .url (scheme ++ content) rest
  | emphasis {m : Char} {content rest : Text} (hm : m ∈ markerChars) (hne : content ≠ [])
      (hcontent : Stripped content) (hline : '\n' ∉ content) :
      Spans .emphasis ([m, m] ++ content ++ [m, m]) rest

theorem Spans.ne_text {kind : PartKind} (h : Spans kind t rest) : kind ≠ .text := by
  rintro rfl
  cases h

/-! ### Code -/

theorem getLast?_cons_ne_iff {x c : Char} :
    (x :: u).getLast? ≠ some c ↔ (u = [] → x ≠ c) ∧ u.getLast? ≠ some c := by
  cases u with
  | nil => simp
  | cons d u => rw [List.getLast?_cons_cons, and_iff_right fun h => absurd h (List.cons_ne_nil d u)]

/-- A run of backticks of the right width, which neither begins nor goes on outside, closes, unless
an earlier one does. -/
theorem exists_closingTicks_le (hw : 0 < width) {flag : Bool} (hflag : u = [] → flag = false)
    (hlast : u.getLast? ≠ some '\x60') (hline : '\n' ∉ u) (hrest : rest.head? ≠ some '\x60') :
    ∃ n ≤ u.length + width,
      closingTicks width flag (u ++ (List.replicate width '\x60' ++ rest)) = some n := by
  induction u generalizing flag with
  | nil =>
    obtain ⟨k, rfl⟩ : ∃ k, width = k + 1 := ⟨width - 1, by omega⟩
    refine ⟨k + 1, by simp, ?_⟩
    have hticks : ∀ c ∈ '\x60' :: List.replicate k '\x60', c = '\x60' := by simp
    have hlength : ('\x60' :: List.replicate k '\x60').length = k + 1 := by simp
    have hclose := (closingTicks_ticks_iff hticks).2 ⟨hflag rfl, hlength, hrest⟩
    rwa [hlength] at hclose
  | cons c u ih =>
    rw [List.cons_append, closingTicks]
    split_ifs with hcond hc
    · exact ⟨width, by omega, rfl⟩
    · exact absurd (hc ▸ List.mem_cons_self) hline
    · obtain ⟨hnext, hbehind⟩ := getLast?_cons_ne_iff.1 hlast
      obtain ⟨n, hn, hclose⟩ := ih (fun hu => decide_eq_false (hnext hu)) hbehind
        (mt (List.mem_cons_of_mem c) hline)
      rw [hclose]
      exact ⟨n + 1, by rw [List.length_cons]; omega, rfl⟩

/-- Where code is closed, a run of the right width ends that neither begins nor goes on outside. -/
theorem exists_of_closingTicks {flag : Bool}
    (h : closingTicks width flag t = some n) :
    ∃ u rest : Text, t = u ++ (List.replicate width '\x60' ++ rest) ∧ n = u.length + width ∧
      (u = [] → flag = false) ∧ u.getLast? ≠ some '\x60' ∧ '\n' ∉ u ∧
        rest.head? ≠ some '\x60' := by
  induction t generalizing flag n with
  | nil => cases h
  | cons c t ih =>
    rw [closingTicks] at h
    split_ifs at h with hcond hc
    · simp only [Bool.and_eq_true, beq_iff_eq, Bool.not_eq_true'] at hcond
      obtain ⟨rest, ht, hall, hstop⟩ := exists_takeWhile (· = '\x60') (c :: t)
      have hrun : (c :: t).takeWhile (· = '\x60') = List.replicate width '\x60' :=
        List.eq_replicate_iff.2 ⟨hcond.2, by simpa using hall⟩
      rw [hrun] at ht
      exact ⟨[], rest, ht, by rw [← Option.some.inj h]; simp, fun _ => hcond.1, by simp,
        List.not_mem_nil, any_tick_eq_false_iff.1 hstop⟩
    · obtain ⟨k, hk, rfl⟩ := Option.map_eq_some_iff.1 h
      obtain ⟨u, rest, rfl, rfl, hflag, hlast, hline, hrest⟩ := ih hk
      refine ⟨c :: u, rest, rfl, by rw [List.length_cons]; omega,
        fun h => absurd h (List.cons_ne_nil c u), ?_, ?_, hrest⟩
      · exact getLast?_cons_ne_iff.2 ⟨fun hu => of_decide_eq_false (hflag hu), hlast⟩
      · rw [List.mem_cons, not_or]
        exact ⟨Ne.symm hc, hline⟩

/-- A run of exactly `width` backticks stands in the text. -/
def HoldsRun (width : ℕ) (t : Text) : Prop :=
  ∃ u rest : Text, t = u ++ (List.replicate width '\x60' ++ rest) ∧ u.getLast? ≠ some '\x60' ∧
    rest.head? ≠ some '\x60'

/-- What is closed by a run holds no earlier one: that would have closed it. -/
theorem not_holdsRun (hw : 0 < width) {x : Char} (hx : x ≠ '\x60')
    (hlast : u.getLast? ≠ some '\x60') (hline : '\n' ∉ u)
    (hclose : closingTicks width false (u ++ (List.replicate width '\x60' ++ rest)) =
      some (u.length + width)) : ¬HoldsRun width (x :: u) := by
  rintro ⟨a, b, hu, hfront, hbehind⟩
  cases a with
  | nil =>
    -- the first character is no backtick
    obtain ⟨k, rfl⟩ : ∃ k, width = k + 1 := ⟨width - 1, by omega⟩
    exact hx (List.cons.inj hu).1
  | cons c a =>
    rw [List.cons_append] at hu
    obtain ⟨rfl, rfl⟩ := List.cons.inj hu
    cases b with
    | nil =>
      -- the last one is none either
      rw [List.append_nil, List.getLast?_append, List.getLast?_replicate, if_neg hw.ne'] at hlast
      exact hlast rfl
    | cons d b =>
      obtain ⟨n, hn, hearly⟩ := exists_closingTicks_le hw (fun _ => rfl)
        (getLast?_cons_ne_iff.1 hfront).2 (mt (List.mem_append_left _) hline)
        (show (d :: (b ++ (List.replicate width '\x60' ++ rest))).head? ≠ _ from hbehind)
      simp only [List.append_assoc, List.cons_append] at hclose
      rw [hclose] at hearly
      have hle := Option.some.inj hearly
      simp only [List.length_append, List.length_cons] at hle
      omega

/-- **Code** is enclosed by two runs of as many backticks, of which the second is the first such run
behind the opening one. -/
theorem exists_of_code? {s : Text} {r : Recognised} (h : code? (s ++ rest) = some r)
    (hlength : r.length = s.length) : ∃ (width : ℕ) (content : Text), 0 < width ∧
      s = List.replicate width '\x60' ++ (content ++ List.replicate width '\x60') ∧
      content ≠ [] ∧ content.head? ≠ some '\x60' ∧ content.getLast? ≠ some '\x60' ∧
      '\n' ∉ content.tail ∧ rest.head? ≠ some '\x60' ∧ ¬HoldsRun width content := by
  obtain ⟨width, x, body, behind, hs, hw, hx, hclose, rfl⟩ := code?_eq_some_iff.1 h
  rw [← List.append_assoc] at hs
  obtain ⟨rfl, rfl⟩ := List.append_inj hs (by simp at hlength ⊢; omega)
  obtain ⟨u, behind, hbody, hlen, -, hlast, hline, hrest⟩ := exists_of_closingTicks hclose
  rw [← List.append_assoc] at hbody
  obtain ⟨rfl, rfl⟩ := List.append_inj hbody (by simpa using hlen)
  rw [List.append_assoc, hlen] at hclose
  exact ⟨width, x :: u, hw, rfl, List.cons_ne_nil _ _, by simpa using hx,
    getLast?_cons_ne_iff.2 ⟨fun _ => hx, hlast⟩, hline, hrest,
    not_holdsRun hw hx hlast hline hclose⟩

theorem code?_of_spans (h : Spans .code t rest) : ∃ r, code? (t ++ rest) = some r := by
  cases h with
  | @code width content _ hw hne hfirst hlast hline hrest =>
    obtain ⟨x, u, rfl⟩ := List.exists_cons_of_ne_nil hne
    obtain ⟨n, -, hclose⟩ := exists_closingTicks_le hw (fun _ => rfl)
      (getLast?_cons_ne_iff.1 hlast).2 hline hrest
    simpa only [List.append_assoc, List.cons_append] using
      exists_code? hw (by simpa using hfirst) hclose

/-! ### Emphasis -/

/-- A marker behind a character that is no blank closes, unless an earlier one does. -/
theorem exists_closingMarker_le {previous : Char} (hline : '\n' ∉ u)
    (hlast : ∀ d, (previous :: u).getLast? = some d → isBlank d = false) :
    ∃ n ≤ u.length, closingMarker m previous (u ++ m :: m :: rest) = some n := by
  induction u generalizing previous with
  | nil =>
    refine ⟨0, Nat.le_refl _, ?_⟩
    rw [List.nil_append, closingMarker, if_pos (by simp [hlast previous rfl])]
  | cons c u ih =>
    rw [List.cons_append, closingMarker]
    split_ifs with hcond hc
    · exact ⟨0, Nat.zero_le _, rfl⟩
    · exact absurd (hc ▸ List.mem_cons_self) hline
    · rw [List.getLast?_cons_cons] at hlast
      obtain ⟨n, hn, hclose⟩ := ih (mt (List.mem_cons_of_mem c) hline) hlast
      rw [hclose]
      exact ⟨n + 1, Nat.succ_le_succ hn, rfl⟩

/-- What a marker closes holds no earlier one behind a character that is no blank. -/
theorem isBlank_of_closingMarker {c d : Char} {a b : Text} (hline : '\n' ∉ u)
    (hclose : closingMarker m c (u ++ m :: m :: rest) = some u.length)
    (h : c :: u = a ++ d :: m :: m :: b) : isBlank d = true := by
  rw [← Bool.not_eq_false]
  intro hd
  obtain ⟨v, hv, rfl⟩ : ∃ v, a ++ [d] = c :: v ∧ u = v ++ m :: m :: b := by
    have hcut : c :: u = (a ++ [d]) ++ m :: m :: b := by rw [h, List.append_assoc]; rfl
    cases a with
    | nil => exact ⟨[], by rw [(List.cons.inj hcut).1]; rfl, (List.cons.inj hcut).2⟩
    | cons e a => exact ⟨a ++ [d], by rw [(List.cons.inj hcut).1]; rfl, (List.cons.inj hcut).2⟩
  have hlast : ∀ e, (c :: v).getLast? = some e → isBlank e = false := by
    intro e he
    rw [← hv, List.getLast?_concat] at he
    exact Option.some.inj he ▸ hd
  obtain ⟨n, hn, hearly⟩ : ∃ n ≤ v.length,
      closingMarker m c (v ++ m :: m :: (b ++ m :: m :: rest)) = some n :=
    exists_closingMarker_le (mt (List.mem_append_left _) hline) hlast
  simp only [List.append_assoc, List.cons_append] at hclose
  rw [hclose, Option.some.injEq, List.length_append, List.length_cons] at hearly
  omega

/-- **Emphasis** is enclosed by two equal markers, of which the second is the first one behind the
opening one that stands behind a character which is no blank. -/
theorem exists_of_emphasis? {s : Text} {r : Recognised} (h : emphasis? (s ++ rest) = some r)
    (hlength : r.length = s.length) : ∃ m ∈ markerChars, r.marker = [m, m] ∧
      s = r.marker ++ r.visible ++ r.marker ∧ r.visible ≠ [] ∧ Stripped r.visible ∧
      '\n' ∉ r.visible ∧
      ∀ a d b, r.visible = a ++ d :: (r.marker ++ b) → isBlank d = true := by
  obtain ⟨m, c, body, behind, hs, hm, hc, hends, rfl⟩ := emphasis?_eq_some_iff.1 h
  have hcut : s ++ rest = ([m, m] ++ c :: body ++ [m, m]) ++ behind := by
    rw [hs]; simp
  obtain ⟨rfl, rfl⟩ := List.append_inj hcut (by simp at hlength ⊢; omega)
  have hclose : closingMarker m c (body ++ m :: m :: rest) = some body.length :=
    closingMarker_eq_iff.2 hends
  obtain ⟨u, _, hbody, hlen, hline, hlast⟩ := exists_of_closingMarker hclose
  obtain ⟨rfl, -⟩ := List.append_inj hbody hlen.symm
  refine ⟨m, hm, rfl, rfl, List.cons_ne_nil _ _, ⟨?_, hlast⟩, ?_, fun a d b h => ?_⟩
  · rintro d hd
    exact Option.some.inj hd ▸ hc
  · rw [List.mem_cons, not_or]
    exact ⟨fun hnl => absurd hc (hnl ▸ by decide), hline⟩
  · exact isBlank_of_closingMarker hline hclose h

theorem emphasis?_of_spans (h : Spans .emphasis t rest) : ∃ r, emphasis? (t ++ rest) = some r := by
  cases h with
  | @emphasis m content _ hm hne hcontent hline =>
    obtain ⟨c, body, rfl⟩ := List.exists_cons_of_ne_nil hne
    obtain ⟨n, -, hclose⟩ : ∃ n ≤ body.length,
        closingMarker m c (body ++ m :: m :: rest) = some n :=
      exists_closingMarker_le (mt (List.mem_cons_of_mem c) hline) hcontent.last
    obtain ⟨r, hr⟩ := exists_emphasis? hm (hcontent.head c rfl) hclose
    exact ⟨r, by simpa using hr⟩

/-! ### All kinds -/

/-- What is found has the form of its kind. -/
theorem spans_of_spanAt? {s : Text} {r : Recognised} (h : spanAt? (s ++ rest) = some r)
    (hlength : r.length = s.length) : Spans r.kind s rest := by
  -- the recognised text is as long as `s`, so it is `s`
  have hcut : ∀ {u behind : Text}, s ++ rest = u ++ behind → r.length = u.length → s = u :=
    fun he hu => (List.append_inj he (hlength.symm.trans hu)).1
  replace h := ofKind?_of_spanAt? h
  generalize r.kind = kind at h ⊢
  cases kind with
  | text => cases h
  | code =>
    obtain ⟨width, content, hw, rfl, hne, hfirst, hlast, hline, hrest, -⟩ :=
      exists_of_code? h hlength
    exact .code hw hne hfirst hlast hline hrest
  | formula =>
    obtain ⟨k, content, behind, hk, he, hne, hcontent, rfl⟩ := formula?_eq_some_iff.1 h
    obtain rfl := hcut (u := List.replicate k '$' ++ (content ++ List.replicate k '$'))
      (by simpa using he) (by simp; omega)
    exact .formula hk hne hcontent
  | wikilink =>
    obtain ⟨bang, content, behind, hbang, he, hne, hcontent, rfl⟩ := wikilink?_eq_some_iff.1 h
    obtain rfl := hcut (u := bang ++ '[' :: '[' :: (content ++ [']', ']']))
      (by simpa using he) (by simp; omega)
    exact .wikilink hbang hne hcontent
  | link =>
    obtain ⟨bang, shown, target, behind, hbang, he, hshown, htarget, rfl⟩ := link?_eq_some_iff.1 h
    obtain rfl := hcut (u := bang ++ '[' :: (shown ++ ']' :: '(' :: (target ++ [')'])))
      (by simpa using he) (by simp; omega)
    exact .link hbang hshown htarget
  | url =>
    obtain ⟨scheme, hscheme, content, behind, he, hne, hcontent, -, rfl⟩ := url?_eq_some_iff.1 h
    obtain rfl := hcut (u := scheme ++ content) (by simpa using he) (by simp)
    exact .url hscheme hne hcontent
  | emphasis =>
    obtain ⟨m, hm, hmarker, rfl, hne, hstripped, hline, -⟩ := exists_of_emphasis? h hlength
    rw [hmarker]
    exact .emphasis hm hne hstripped hline

/-- Where a text has the form of a span, one is found. -/
theorem spanAt?_of_spans {kind : PartKind} (h : Spans kind t rest) :
    ∃ r, spanAt? (t ++ rest) = some r := by
  cases h with
  | code hw hne hfirst hlast hline hrest =>
    obtain ⟨r, hr⟩ := code?_of_spans (.code hw hne hfirst hlast hline hrest)
    exact ⟨r, spanAt?_of_ofKind? .code hr⟩
  | @formula k content _ hk hne hcontent =>
    refine ⟨_, spanAt?_of_ofKind? .formula (formula?_eq_some_iff.2
      ⟨k, content, rest, hk, ?_, hne, hcontent, rfl⟩)⟩
    simp only [List.append_assoc]
  | @wikilink bang content _ hbang hne hcontent =>
    refine ⟨_, spanAt?_of_ofKind? .wikilink (wikilink?_eq_some_iff.2
      ⟨bang, content, rest, hbang, ?_, hne, hcontent, rfl⟩)⟩
    simp
  | @link bang shown target _ hbang hshown htarget =>
    refine ⟨_, spanAt?_of_ofKind? .link (link?_eq_some_iff.2
      ⟨bang, shown, target, rest, hbang, ?_, hshown, htarget, rfl⟩)⟩
    simp
  | @url scheme content _ hscheme hne hcontent =>
    -- an address goes on as long as it can
    obtain ⟨behind, hlong, hall, hstop⟩ := exists_takeWhile isAddress (content ++ rest)
    refine ⟨_, spanAt?_of_ofKind? .url (url?_eq_some_iff.2
      ⟨scheme, hscheme, (content ++ rest).takeWhile isAddress, behind, ?_, ?_, hall, hstop, rfl⟩)⟩
    · rw [List.append_assoc, ← hlong]
    · rw [List.takeWhile_append_of_pos hcontent]
      exact List.append_ne_nil_of_left_ne_nil hne _
  | emphasis hm hne hcontent hline =>
    obtain ⟨r, hr⟩ := emphasis?_of_spans (.emphasis hm hne hcontent hline)
    exact ⟨r, spanAt?_of_ofKind? .emphasis hr⟩

/-- **A span is found exactly where a text has the form of one.** -/
theorem isSome_spanAt?_iff : (spanAt? t).isSome ↔
    ∃ (kind : PartKind) (s rest : Text), t = s ++ rest ∧ Spans kind s rest := by
  constructor
  · intro h
    obtain ⟨r, hr⟩ := Option.isSome_iff_exists.1 h
    obtain ⟨s, rest, rfl, hlen, -⟩ := exists_of_spanAt? hr
    exact ⟨r.kind, s, rest, rfl, spans_of_spanAt? hr hlen.symm⟩
  · rintro ⟨kind, s, rest, rfl, h⟩
    exact Option.isSome_iff_exists.2 (spanAt?_of_spans h)

end Recognised

end TypingAid
