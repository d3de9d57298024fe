import TypingAid.Proofs.Inline.Recogniser
import Mathlib.Tactic.Tauto

/-!
# Spans

No text is accepted by two recognisers, so the order in which they are tried does not matter
(`spanAt?_eq_some_iff`): a kind of span is known by its first character, links and wikilinks by what
follows the first closing bracket.  A span is found exactly by the recogniser of its kind
(`ofKind?_of_spanAt?`, `spanAt?_of_ofKind?`).

`Recognised.Shaped` says which characters a span of each kind starts and ends with.
-/

namespace TypingAid

open Text Recognised

namespace Recognised

/-! ### What a span starts with -/

theorem head?_of_code? {t : Text} {r : Recognised} (h : code? t = some r) :
    t.head? = some '\x60' := by
  obtain ⟨width, x, body, rest, rfl, hw, -⟩ := code?_eq_some_iff.1 h
  obtain ⟨k, rfl⟩ : ∃ k, width = k + 1 := ⟨width - 1, by omega⟩
  rfl

theorem head?_of_formula? {t : Text} {r : Recognised} (h : formula? t = some r) :
    t.head? = some '$' := by
  obtain ⟨k, body, rest, rfl | rfl, rfl, -⟩ := formula?_eq_some_iff.1 h <;> rfl

theorem head?_of_wikilink? {t : Text} {r : Recognised} (h : wikilink? t = some r) :
    t.head? = some '!' ∨ t.head? = some '[' := by
  obtain ⟨bang, body, rest, rfl | rfl, rfl, -⟩ := wikilink?_eq_some_iff.1 h
  · exact .inr rfl
  · exact .inl rfl

theorem head?_of_link? {t : Text} {r : Recognised} (h : link? t = some r) :
    t.head? = some '!' ∨ t.head? = some '[' := by
  obtain ⟨bang, shown, target, rest, rfl | rfl, rfl, -⟩ := link?_eq_some_iff.1 h
  · exact .inr rfl
  · exact .inl rfl

theorem head?_of_url? {t : Text} {r : Recognised} (h : url? t = some r) :
    t.head? = some 'h' ∨ t.head? = some 'f' := by
  obtain ⟨scheme, hs, body, rest, rfl, -⟩ := url?_eq_some_iff.1 h
  simp only [schemes, List.mem_cons, List.not_mem_nil, or_false] at hs
  rcases hs with rfl | rfl | rfl
  · exact .inl rfl
  · exact .inl rfl
  · exact .inr rfl

theorem head?_of_emphasis? {t : Text} {r : Recognised} (h : emphasis? t = some r) :
    ∃ m ∈ markerChars, t.head? = some m := by
  obtain ⟨m, c, body, rest, rfl, hm, -⟩ := emphasis?_eq_some_iff.1 h
  exact ⟨m, hm, rfl⟩

/-- Content up to the first `stop` is cut off in one way only. -/
theorem within_unique {stop : Char} {u u' v v' : Text}
    (h : u ++ stop :: v = u' ++ stop :: v') (hu : ∀ c ∈ u, within stop c = true)
    (hu' : ∀ c ∈ u', within stop c = true) : u = u' ∧ v = v' := by
  have hstop : ∀ w : Text, (stop :: w).head?.any (within stop) = false := fun w => by simp [within]
  have ht := congrArg (List.takeWhile (within stop)) h
  have hd := congrArg (List.dropWhile (within stop)) h
  rw [takeWhile_append_stop hu (hstop v), takeWhile_append_stop hu' (hstop v')] at ht
  rw [dropWhile_append_stop hu (hstop v), dropWhile_append_stop hu' (hstop v')] at hd
  exact ⟨ht, (List.cons.inj hd).2⟩

/-- Behind the first closing bracket a link goes on with a parenthesis, a wikilink does not. -/
theorem wikilink?_of_link? {t : Text} {r : Recognised} (h : link? t = some r) :
    wikilink? t = none := by
  refine Option.eq_none_iff_forall_ne_some.2 fun r' hr' => ?_
  obtain ⟨bang, shown, target, rest, hb, rfl, hshown, -⟩ := link?_eq_some_iff.1 h
  obtain ⟨bang', body, rest', hb', ht, -, hbody, -⟩ := wikilink?_eq_some_iff.1 hr'
  have hbody' : ∀ c ∈ '[' :: body, within ']' c = true := by
    intro c hc
    rcases List.mem_cons.1 hc with rfl | hc
    · decide
    · exact hbody c hc
  have hcut : shown ++ ']' :: '(' :: (target ++ ')' :: rest) =
      ('[' :: body) ++ ']' :: ']' :: rest' := by
    rcases hb with rfl | rfl <;> rcases hb' with rfl | rfl
    · exact (List.cons.inj ht).2
    · exact absurd (List.cons.inj ht).1 (by decide)
    · exact absurd (List.cons.inj ht).1 (by decide)
    · exact (List.cons.inj (List.cons.inj ht).2).2
  have := (within_unique hcut hshown hbody').2
  exact absurd (List.cons.inj this).1 (by decide)

end Recognised

/-- A span is what one of the recognisers accepts. -/
theorem spanAt?_eq_some_iff {t : Text} {r : Recognised} :
    spanAt? t = some r ↔ code? t = some r ∨ formula? t = some r ∨ wikilink? t = some r ∨
      link? t = some r ∨ url? t = some r ∨ emphasis? t = some r := by
  -- the recognisers tried before do not accept the text: they want another first character
  have hcode : ∀ {r'}, t.head? ≠ some '\x60' → code? t ≠ some r' := fun h hc =>
    h (head?_of_code? hc)
  have hformula : ∀ {r'}, t.head? ≠ some '$' → formula? t ≠ some r' := fun h hc =>
    h (head?_of_formula? hc)
  have hwiki : ∀ {r'}, t.head? ≠ some '!' → t.head? ≠ some '[' → wikilink? t ≠ some r' :=
    fun h h' hc => (head?_of_wikilink? hc).elim h h'
  have hlink : ∀ {r'}, t.head? ≠ some '!' → t.head? ≠ some '[' → link? t ≠ some r' :=
    fun h h' hc => (head?_of_link? hc).elim h h'
  have hurl : ∀ {r'}, t.head? ≠ some 'h' → t.head? ≠ some 'f' → url? t ≠ some r' :=
    fun h h' hc => (head?_of_url? hc).elim h h'
  have none_of : ∀ {o : Option Recognised}, (∀ {r'}, o ≠ some r') → o = none := fun h =>
    Option.eq_none_iff_forall_ne_some.2 fun _ => h
  simp only [spanAt?, Option.or_eq_some_iff]
  constructor
  · tauto
  · rintro (h | h | h | h | h | h)
    · exact .inl h
    · have hh := head?_of_formula? h
      exact .inr ⟨none_of (hcode (by simp [hh])), .inl h⟩
    · have hh := head?_of_wikilink? h
      refine .inr ⟨none_of (hcode ?_), .inr ⟨none_of (hformula ?_), .inl h⟩⟩
      · rcases hh with hh | hh <;> simp [hh]
      · rcases hh with hh | hh <;> simp [hh]
    · -- a wikilink starts like a link
      have hh := head?_of_link? h
      refine .inr ⟨none_of (hcode ?_), .inr ⟨none_of (hformula ?_), .inr
        ⟨wikilink?_of_link? h, .inl h⟩⟩⟩
      · rcases hh with hh | hh <;> simp [hh]
      · rcases hh with hh | hh <;> simp [hh]
    · have hh := head?_of_url? h
      refine .inr ⟨none_of (hcode ?_), .inr ⟨none_of (hformula ?_), .inr
        ⟨none_of (hwiki ?_ ?_), .inr ⟨none_of (hlink ?_ ?_), .inl h⟩⟩⟩⟩
      all_goals rcases hh with hh | hh <;> simp [hh]
    · obtain ⟨m, hm, hh⟩ := head?_of_emphasis? h
      have hm' : ∀ c : Char, c ∉ markerChars → t.head? ≠ some c := fun c hc he => by
        rw [hh] at he
        exact hc (Option.some.inj he ▸ hm)
      exact .inr ⟨none_of (hcode (hm' _ (by decide))), .inr ⟨none_of (hformula (hm' _ (by decide))),
        .inr ⟨none_of (hwiki (hm' _ (by decide)) (hm' _ (by decide))),
          .inr ⟨none_of (hlink (hm' _ (by decide)) (hm' _ (by decide))),
            .inr ⟨none_of (hurl (hm' _ (by decide)) (hm' _ (by decide))), h⟩⟩⟩⟩⟩

namespace Recognised

/-- The recogniser of each kind. -/
def ofKind? : PartKind → Text → Option Recognised
  | .text => fun _ => none
  | .code => code?
  | .formula => formula?
  | .wikilink => wikilink?
  | .link => link?
  | .url => url?
  | .emphasis => emphasis?

/-- What is found is found by the recogniser of its kind. -/
theorem ofKind?_of_spanAt? {t : Text} {r : Recognised} (h : spanAt? t = some r) :
    ofKind? r.kind t = some r := by
  rcases spanAt?_eq_some_iff.1 h with h | h | h | h | h | h
  · obtain ⟨_, _, _, _, -, -, -, -, rfl⟩ := code?_eq_some_iff.1 h
    exact h
  · obtain ⟨_, _, _, -, -, -, -, rfl⟩ := formula?_eq_some_iff.1 h
    exact h
  · obtain ⟨_, _, _, -, -, -, -, rfl⟩ := wikilink?_eq_some_iff.1 h
    exact h
  · obtain ⟨_, _, _, _, -, -, -, -, rfl⟩ := link?_eq_some_iff.1 h
    exact h
  · obtain ⟨_, -, _, _, -, -, -, -, rfl⟩ := url?_eq_some_iff.1 h
    exact h
  · obtain ⟨_, _, _, _, -, -, -, -, rfl⟩ := emphasis?_eq_some_iff.1 h
    exact h

/-- What the recogniser of one kind accepts is found: no other one is in its way. -/
theorem spanAt?_of_ofKind? (kind : PartKind) {t : Text} {r : Recognised}
    (h : ofKind? kind t = some r) : spanAt? t = some r := by
  refine spanAt?_eq_some_iff.2 ?_
  cases kind with
  | text => cases h
  | code => exact .inl h
  | formula => exact .inr (.inl h)
  | wikilink => exact .inr (.inr (.inl h))
  | link => exact .inr (.inr (.inr (.inl h)))
  | url => exact .inr (.inr (.inr (.inr (.inl h))))
  | emphasis => exact .inr (.inr (.inr (.inr (.inr h))))

end Recognised

theorem spanAt?_eq_none_of_head? {c : Char} (hc : c ∉ ['\x60', '$', '!', '[', 'h', 'f'])
    (hm : c ∉ markerChars) (t : Text) : spanAt? (c :: t) = none := by
  simp only [List.mem_cons, List.not_mem_nil, or_false, not_or] at hc
  refine Option.eq_none_iff_forall_ne_some.2 fun r hr => ?_
  rcases spanAt?_eq_some_iff.1 hr with h | h | h | h | h | h
  · simpa [hc] using head?_of_code? h
  · simpa [hc] using head?_of_formula? h
  · simpa [hc] using head?_of_wikilink? h
  · simpa [hc] using head?_of_link? h
  · simpa [hc] using head?_of_url? h
  · obtain ⟨m, hm', hh⟩ := head?_of_emphasis? h
    exact hm (by rw [Option.some.inj hh]; exact hm')

/-! ### Shapes -/

/-- What a span of each kind starts and ends with, and what of it shows if that is all of it. -/
inductive Recognised.Shaped : PartKind → Text → Text → Prop where
  | code {s : Text} (first : s.head? = some '\x60') (last : s.getLast? = some '\x60') :
      Shaped .code s s
  | formula {s : Text} (first : s.head? = some '$') (last : s.getLast? = some '$') :
      Shaped .formula s s
  | wikilink {s visible : Text} (first : s.head? = some '!' ∨ s.head? = some '[')
      (last : s.getLast? = some ']') : Shaped .wikilink s visible
  | link {s visible : Text} (first : s.head? = some '!' ∨ s.head? = some '[')
      (last : s.getLast? = some ')') : Shaped .link s visible
  | url {s : Text} (first : s.head? = some 'h' ∨ s.head? = some 'f') : Shaped .url s s
  | emphasis {s visible : Text} {m : Char} (hm : m ∈ markerChars) (first : s.head? = some m)
      (last : s.getLast? = some m) : Shaped .emphasis s visible

/-- A span is the beginning of the text, it has the shape of its kind, and it is an emphasis if it
has a marker, which then encloses what shows. -/
theorem exists_of_spanAt? {t : Text} {r : Recognised} (h : spanAt? t = some r) :
    ∃ s rest : Text, t = s ++ rest ∧ s.length = r.length ∧ s ≠ [] ∧ Shaped r.kind s r.visible ∧
      (r.marker = [] ∧ r.kind ≠ .emphasis ∨
        r.marker ≠ [] ∧ r.kind = .emphasis ∧ s = r.marker ++ r.visible ++ r.marker) := by
  rcases spanAt?_eq_some_iff.1 h with h | h | h | h | h | h
  · obtain ⟨width, x, body, rest, rfl, hw, -, hclose, rfl⟩ := code?_eq_some_iff.1 h
    obtain ⟨k, rfl⟩ : ∃ k, width = k + 1 := ⟨width - 1, by omega⟩
    refine ⟨List.replicate (k + 1) '\x60' ++ x :: body, rest, by simp, by simp; omega, by simp,
      .code rfl ?_, .inl ⟨rfl, by simp⟩⟩
    have := getLast?_of_closingTicks hw hclose
    cases body with
    | nil => simp at this
    | cons d body => simpa [List.getLast?_append, List.getLast?_cons] using this
  · obtain ⟨k, body, rest, hk, rfl, hne, -, rfl⟩ := formula?_eq_some_iff.1 h
    obtain ⟨j, rfl⟩ : ∃ j, k = j + 1 := ⟨k - 1, by omega⟩
    refine ⟨List.replicate (j + 1) '$' ++ (body ++ List.replicate (j + 1) '$'), rest, by simp,
      by simp; omega, by simp, .formula rfl ?_, .inl ⟨rfl, by simp⟩⟩
    simp [List.getLast?_append, List.getLast?_replicate]
  · obtain ⟨bang, body, rest, hb, rfl, hne, -, rfl⟩ := wikilink?_eq_some_iff.1 h
    refine ⟨bang ++ '[' :: '[' :: (body ++ [']', ']']), rest, by simp, by simp; omega, by simp,
      .wikilink ?_ ?_, .inl ⟨rfl, by simp⟩⟩
    · rcases hb with rfl | rfl <;> simp
    · simp [List.getLast?_append, List.getLast?_cons]
  · obtain ⟨bang, shown, target, rest, hb, rfl, -, -, rfl⟩ := link?_eq_some_iff.1 h
    refine ⟨bang ++ '[' :: (shown ++ ']' :: '(' :: (target ++ [')'])), rest, by simp,
      by simp; omega, by simp, .link ?_ ?_, .inl ⟨rfl, by simp⟩⟩
    · rcases hb with rfl | rfl <;> simp
    · simp [List.getLast?_append, List.getLast?_cons]
  · have hhead := head?_of_url? h
    obtain ⟨scheme, hs, body, rest, rfl, hne, -, -, rfl⟩ := url?_eq_some_iff.1 h
    refine ⟨scheme ++ body, rest, by simp, by simp, by simp [hne], .url ?_, .inl ⟨rfl, by simp⟩⟩
    have hne' : scheme ≠ [] := fun he => by subst he; revert hs; decide
    obtain ⟨c, scheme, rfl⟩ := List.exists_cons_of_ne_nil hne'
    exact hhead
  · obtain ⟨m, c, body, rest, rfl, hm, -, -, rfl⟩ := emphasis?_eq_some_iff.1 h
    refine ⟨m :: m :: c :: (body ++ [m, m]), rest, by simp, by simp, by simp,
      .emphasis hm rfl ?_, .inr ⟨by simp, rfl, by simp⟩⟩
    simp [List.getLast?_append, List.getLast?_cons]

end TypingAid
