import TypingAid.Inline.Recogniser
import TypingAid.Proofs.Text.Runs
import Mathlib.Tactic.ByContra
import Mathlib.Tactic.Conv

/-!
# What the recognisers accept

Each recogniser of inline spans walks through a text with offsets.  Here each is described by the
texts that it accepts, cut into what makes up the span and the rest of the line
(`code?_eq_some_iff`, `formula?_eq_some_iff` and so on).  Such a description shows how far a
recogniser looks: links and formulas depend on the span alone, code and addresses on the character
behind it as well, emphasis on its content and its marker.

`Recognised.Shaped` is what is left of the descriptions when the content is forgotten: the kind of
a span and the characters it starts and ends with.
-/

namespace TypingAid

open Text

namespace Recognised

/-! ### Code -/

theorem closingTicks_le {width : ℕ} {flag : Bool} {t : Text} {n : ℕ}
    (h : closingTicks width flag t = some n) : n ≤ t.length := by
  induction t generalizing flag n with
  | nil => cases h
  | cons c t ih =>
    rw [closingTicks] at h
    split_ifs at h with hrun hc
    · simp only [Bool.and_eq_true, beq_iff_eq] at hrun
      have := (List.takeWhile_sublist (· = '\x60') (l := c :: t)).length_le
      cases h; omega
    · cases hn : closingTicks width (c = '\x60') t with
      | none => simp [hn] at h
      | some k =>
        have := ih hn
        simp only [hn, Option.map_some, Option.some.injEq] at h
        simp only [List.length_cons]; omega

theorem pos_of_closingTicks {width : ℕ} (hw : 0 < width) {flag : Bool} {t : Text} {n : ℕ}
    (h : closingTicks width flag t = some n) : 0 < n := by
  cases t with
  | nil => cases h
  | cons c t =>
    rw [closingTicks] at h
    split_ifs at h
    · exact Option.some.inj h ▸ hw
    · obtain ⟨k, -, rfl⟩ := Option.map_eq_some_iff.1 h
      omega

/-- Behind a backtick, backticks alone do not close. -/
theorem lt_of_closingTicks {width : ℕ} {t rest : Text} {n : ℕ}
    (ht : ∀ c ∈ t, c = '\x60') (h : closingTicks width true (t ++ rest) = some n) :
    t.length < n := by
  induction t generalizing n with
  | nil =>
    cases rest with
    | nil => cases h
    | cons c rest =>
      rw [List.nil_append, closingTicks] at h
      split_ifs at h
      · simp_all
      · obtain ⟨k, -, rfl⟩ := Option.map_eq_some_iff.1 h
        simp
  | cons c t ih =>
    obtain rfl := ht c List.mem_cons_self
    rw [List.cons_append, closingTicks, if_neg (by simp), if_neg (by decide)] at h
    obtain ⟨k, hk, rfl⟩ := Option.map_eq_some_iff.1 h
    have := ih (fun c hc => ht c (List.mem_cons_of_mem _ hc)) hk
    simp only [List.length_cons]; omega

theorem any_tick_eq_false_iff {rest : Text} :
    rest.head?.any (· = '\x60') = false ↔ rest.head? ≠ some '\x60' := by
  cases rest <;> simp

/-- A run of backticks closes if it has the right width and is the whole run, from where it starts
to where it ends. -/
theorem closingTicks_ticks_iff {width : ℕ} {flag : Bool} {c : Char} {t rest : Text}
    (ht : ∀ d ∈ c :: t, d = '\x60') :
    closingTicks width flag (c :: (t ++ rest)) = some (c :: t).length ↔
      flag = false ∧ (c :: t).length = width ∧ rest.head? ≠ some '\x60' := by
  have hrest : ∀ d ∈ t, d = '\x60' := fun d hd => ht d (List.mem_cons_of_mem _ hd)
  obtain rfl : c = '\x60' := ht c List.mem_cons_self
  have hrun : rest.head? ≠ some '\x60' →
      ('\x60' :: (t ++ rest)).takeWhile (· = '\x60') = '\x60' :: t := fun h =>
    takeWhile_append_stop (u := '\x60' :: t) (by simpa using ht) (any_tick_eq_false_iff.2 h)
  rw [closingTicks]
  constructor
  · intro h
    split_ifs at h with hcond hnl
    · simp only [Bool.and_eq_true, beq_iff_eq, Bool.not_eq_true'] at hcond
      refine ⟨hcond.1, (Option.some.inj h).symm, fun hhead => ?_⟩
      -- one more backtick makes the run longer than the span
      obtain ⟨r, rfl⟩ := List.head?_eq_some_iff.1 hhead
      have hlong : ('\x60' :: (t ++ '\x60' :: r)).takeWhile (· = '\x60') =
          '\x60' :: t ++ '\x60' :: r.takeWhile (· = '\x60') := by
        rw [← List.cons_append, List.takeWhile_append_of_pos (by simpa using ht)]
        simp
      have hwidth := hcond.2
      rw [hlong, List.length_append, ← Option.some.inj h] at hwidth
      simp at hwidth
    · -- behind a backtick, the rest of the run does not close
      obtain ⟨k, hk, hlen⟩ := Option.map_eq_some_iff.1 h
      have := lt_of_closingTicks hrest (by simpa using hk)
      simp only [List.length_cons] at hlen; omega
  · rintro ⟨rfl, rfl, hhead⟩
    rw [hrun hhead, if_pos (by simp)]

/-- The end of a code span depends on the span and on whether another backtick follows. -/
theorem closingTicks_append {width : ℕ} (hw : 0 < width) {flag : Bool} {t rest rest' : Text}
    (hrest : rest'.head? = some '\x60' → rest.head? = some '\x60')
    (h : closingTicks width flag (t ++ rest) = some t.length) :
    closingTicks width flag (t ++ rest') = some t.length := by
  induction t generalizing flag with
  | nil => exact absurd (pos_of_closingTicks hw h) (by simp)
  | cons c t ih =>
    rw [List.cons_append] at h ⊢
    by_cases hall : ∀ d ∈ c :: t, d = '\x60'
    · rw [closingTicks_ticks_iff hall] at h ⊢
      exact ⟨h.1, h.2.1, fun hhead => h.2.2 (hrest hhead)⟩
    · obtain ⟨d, hd, hne⟩ : ∃ d ∈ c :: t, d ≠ '\x60' := by
        by_contra hex
        exact hall fun d hd => by_contra fun hd' => hex ⟨d, hd, hd'⟩
      -- the run at the front ends inside the span
      have hrun : ∀ r : Text, (c :: (t ++ r)).takeWhile (· = '\x60') =
          (c :: t).takeWhile (· = '\x60') := fun r =>
        takeWhile_append_of_exists ⟨d, hd, by simpa using hne⟩ r
      rw [closingTicks, hrun] at h ⊢
      split_ifs at h ⊢ with hcond hnl
      · exact h
      · obtain ⟨k, hk, hlen⟩ := Option.map_eq_some_iff.1 h
        obtain rfl : k = t.length := by simpa using hlen
        rw [ih hk]; rfl

/-- A code span ends with a backtick. -/
theorem getLast?_of_closingTicks {width : ℕ} (hw : 0 < width) {flag : Bool} {t rest : Text}
    (h : closingTicks width flag (t ++ rest) = some t.length) : t.getLast? = some '\x60' := by
  induction t generalizing flag with
  | nil => exact absurd (pos_of_closingTicks hw h) (by simp)
  | cons c t ih =>
    rw [List.cons_append, closingTicks] at h
    split_ifs at h with hcond hnl
    · simp only [Bool.and_eq_true, beq_iff_eq] at hcond
      have hall : ∀ d ∈ c :: t, d = '\x60' := by
        have hle : (c :: t).length ≤ ((c :: t ++ rest).takeWhile (· = '\x60')).length :=
          le_of_eq (by rw [← Option.some.inj h]; exact hcond.2.symm)
        simpa using all_of_length_takeWhile hle
      rw [List.eq_replicate_iff.2 ⟨rfl, hall⟩, List.getLast?_replicate]
      simp
    · obtain ⟨k, hk, hlen⟩ := Option.map_eq_some_iff.1 h
      obtain rfl : k = t.length := by simpa using hlen
      obtain ⟨d, t, rfl⟩ := List.exists_cons_of_ne_nil
        (List.ne_nil_of_length_pos (pos_of_closingTicks hw hk))
      rw [List.getLast?_cons_cons]
      exact ih hk

theorem code?_eq_some_iff {t : Text} {r : Recognised} :
    code? t = some r ↔ ∃ (width : ℕ) (x : Char) (body rest : Text),
      t = List.replicate width '\x60' ++ (x :: body ++ rest) ∧ 0 < width ∧ x ≠ '\x60' ∧
        closingTicks width false (body ++ rest) = some body.length ∧
        r = { kind := .code, length := width + 1 + body.length
              visible := List.replicate width '\x60' ++ x :: body } := by
  have hprefix : ∀ (width : ℕ) (x : Char) (u : Text), x ≠ '\x60' →
      ((List.replicate width '\x60' ++ x :: u).takeWhile (· = '\x60')).length = width := by
    intro width x u hx
    rw [takeWhile_append_stop (by simp) (by simpa using hx), List.length_replicate]
  have hdrop : ∀ (width : ℕ) (u : Text), (List.replicate width '\x60' ++ u).drop width = u :=
    fun width u => List.drop_left' List.length_replicate
  have htake : ∀ (width : ℕ) (x : Char) (body rest : Text),
      (List.replicate width '\x60' ++ (x :: body ++ rest)).take (width + 1 + body.length) =
        List.replicate width '\x60' ++ x :: body := by
    intro width x body rest
    rw [← List.append_assoc]
    exact List.take_left' (by simp; omega)
  constructor
  · intro h
    -- the backticks at the front, and what the closing run is looked for in
    obtain ⟨rest, ht, hall, hstop⟩ := exists_takeWhile (· = '\x60') t
    have hrep : t.takeWhile (· = '\x60') =
        List.replicate (t.takeWhile (· = '\x60')).length '\x60' :=
      List.eq_replicate_iff.2 ⟨rfl, by simpa using hall⟩
    rw [code?] at h
    set width := (t.takeWhile (· = '\x60')).length with hwidth
    rw [hrep] at ht
    rw [ht, hdrop] at h
    cases rest with
    | nil => cases h
    | cons x u =>
      have hx : x ≠ '\x60' := by simpa using hstop
      simp only at h
      split_ifs at h with hw
      obtain ⟨n, hn, rfl⟩ := Option.map_eq_some_iff.1 h
      have hlen : (u.take n).length = n := by
        rw [List.length_take]; exact Nat.min_eq_left (closingTicks_le hn)
      refine ⟨width, x, u.take n, u.drop n, ?_, Nat.pos_of_ne_zero hw, hx, ?_, ?_⟩
      · rw [ht, List.cons_append, List.take_append_drop]
      · rw [List.take_append_drop, hlen, hn]
      · have := htake width x (u.take n) (u.drop n)
        rw [List.cons_append, List.take_append_drop, hlen] at this
        rw [this, hlen]
  · rintro ⟨width, x, body, rest, rfl, hw, hx, hclose, rfl⟩
    have hw' := hprefix width x (body ++ rest) hx
    rw [← List.cons_append] at hw'
    rw [code?, hw', hdrop, List.cons_append]
    simp only [hw.ne', if_false, hclose, Option.map_some, ← List.cons_append, htake]

/-- Code is found where its opening run of backticks is closed. -/
theorem exists_code? {width n : ℕ} (hw : 0 < width) {x : Char} (hx : x ≠ '\x60') {t : Text}
    (h : closingTicks width false t = some n) :
    ∃ r, code? (List.replicate width '\x60' ++ x :: t) = some r := by
  have hlen : (t.take n).length = n := by
    rw [List.length_take]
    exact Nat.min_eq_left (closingTicks_le h)
  refine ⟨_, code?_eq_some_iff.2 ⟨width, x, t.take n, t.drop n, ?_, hw, hx, ?_, rfl⟩⟩
  · rw [List.cons_append, List.take_append_drop]
  · rw [List.take_append_drop, h, hlen]

/-! ### Formulas -/

/-- The characters of content that ends at `stop`. -/
def within (stop c : Char) : Bool := c ≠ stop && c ≠ '\n'

theorem enclosedFormula?_append (mark u : Text) :
    enclosedFormula? mark (mark ++ u) =
      if u.takeWhile (within '$') ≠ [] ∧ mark.isPrefixOf (u.dropWhile (within '$')) then
        some
          { kind := .formula
            length := mark.length + (u.takeWhile (within '$')).length + mark.length
            visible :=
              (mark ++ u).take (mark.length + (u.takeWhile (within '$')).length + mark.length) }
      else none := by
  have hpre : mark.isPrefixOf (mark ++ u) = true := List.isPrefixOf_iff_prefix.2 ⟨u, rfl⟩
  have hdrop : ∀ n, (mark ++ u).drop (mark.length + n) = u.drop n := by simp
  rw [enclosedFormula?, if_pos hpre, List.drop_left, ← drop_length_takeWhile]
  simp only [hdrop]
  rfl

theorem enclosedFormula?_eq_some_iff {k : ℕ} (hk : 0 < k) {t : Text} {r : Recognised} :
    enclosedFormula? (List.replicate k '$') t = some r ↔ ∃ body rest : Text,
      t = List.replicate k '$' ++ (body ++ (List.replicate k '$' ++ rest)) ∧ body ≠ [] ∧
        (∀ c ∈ body, within '$' c = true) ∧
        r = { kind := .formula, length := k + body.length + k
              visible := List.replicate k '$' ++ (body ++ List.replicate k '$') } := by
  obtain ⟨j, rfl⟩ : ∃ j, k = j + 1 := ⟨k - 1, by omega⟩
  set mark : Text := List.replicate (j + 1) '$' with hmark
  have hlen : mark.length = j + 1 := List.length_replicate
  have hstop : ∀ rest : Text, (mark ++ rest).head?.any (within '$') = false := fun rest => by
    simp [hmark, List.replicate_succ, within]
  have htake : ∀ body rest : Text,
      (mark ++ (body ++ (mark ++ rest))).take (mark.length + body.length + mark.length) =
        mark ++ (body ++ mark) := fun body rest => by
    rw [← List.append_assoc body, ← List.append_assoc mark]
    exact List.take_left' (by simp only [List.length_append]; omega)
  constructor
  · intro h
    obtain ⟨u, rfl⟩ : ∃ u, t = mark ++ u := by
      rw [enclosedFormula?] at h
      split_ifs at h with hpre
      obtain ⟨u, hu⟩ := List.isPrefixOf_iff_prefix.1 hpre
      exact ⟨u, hu.symm⟩
    rw [enclosedFormula?_append] at h
    split_ifs at h with hbody
    obtain ⟨hne, hclose⟩ := hbody
    obtain ⟨rest, hrest⟩ := List.isPrefixOf_iff_prefix.1 hclose
    have hall : ∀ c ∈ u.takeWhile (within '$'), within '$' c = true :=
      fun c hc => List.mem_takeWhile_imp hc
    have hu : u = u.takeWhile (within '$') ++ (mark ++ rest) := by
      rw [hrest, List.takeWhile_append_dropWhile]
    set body := u.takeWhile (within '$')
    refine ⟨body, rest, congrArg (mark ++ ·) hu, hne, hall, ?_⟩
    rw [← Option.some.inj h, hu, htake, hlen]
  · rintro ⟨body, rest, rfl, hne, hall, rfl⟩
    rw [enclosedFormula?_append, takeWhile_append_stop hall (hstop rest),
      dropWhile_append_stop hall (hstop rest),
      if_pos ⟨hne, List.isPrefixOf_iff_prefix.2 ⟨rest, rfl⟩⟩, htake, hlen]

theorem formula?_eq_some_iff {t : Text} {r : Recognised} :
    formula? t = some r ↔ ∃ (k : ℕ) (body rest : Text), (k = 1 ∨ k = 2) ∧
      t = List.replicate k '$' ++ (body ++ (List.replicate k '$' ++ rest)) ∧ body ≠ [] ∧
        (∀ c ∈ body, within '$' c = true) ∧
        r = { kind := .formula, length := k + body.length + k
              visible := List.replicate k '$' ++ (body ++ List.replicate k '$') } := by
  have htwo := @enclosedFormula?_eq_some_iff 2 (by omega) t
  have hone := @enclosedFormula?_eq_some_iff 1 (by omega) t
  rw [formula?, Option.or_eq_some_iff]
  constructor
  · rintro (h | ⟨-, h⟩)
    · obtain ⟨body, rest, h⟩ := htwo.1 h
      exact ⟨2, body, rest, .inr rfl, h⟩
    · obtain ⟨body, rest, h⟩ := hone.1 h
      exact ⟨1, body, rest, .inl rfl, h⟩
  · rintro ⟨k, body, rest, rfl | rfl, h⟩
    · refine .inr ⟨?_, hone.2 ⟨body, rest, h⟩⟩
      -- the character behind a single dollar is no dollar
      obtain ⟨ht, hne, hall, -⟩ := h
      obtain ⟨c, body, rfl⟩ := List.exists_cons_of_ne_nil hne
      have hc : c ≠ '$' := by
        have := hall c List.mem_cons_self
        simp only [within, Bool.and_eq_true, decide_eq_true_eq] at this
        exact this.1
      refine Option.eq_none_iff_forall_ne_some.2 fun r' hr' => ?_
      obtain ⟨body', rest', ht', -⟩ := htwo.1 hr'
      rw [ht'] at ht
      simp only [List.replicate_succ, List.replicate_zero, List.cons_append, List.nil_append,
        List.cons.injEq, true_and] at ht
      exact hc ht.1.symm
    · exact .inl (htwo.2 ⟨body, rest, h⟩)

/-! ### Links -/

/-- An exclamation mark that a link may take along, and what follows. -/
theorem exists_bangs (t : Text) :
    ∃ bang u : Text, (bang = [] ∨ bang = ['!']) ∧ t = bang ++ u ∧ bangs t = bang.length := by
  by_cases h : t.head? = some '!'
  · obtain ⟨u, rfl⟩ := List.head?_eq_some_iff.1 h
    exact ⟨['!'], u, .inr rfl, rfl, by simp [bangs]⟩
  · exact ⟨[], t, .inl rfl, rfl, by simp [bangs, h]⟩

theorem bangs_append {bang : Text} (h : bang = [] ∨ bang = ['!']) (u : Text) :
    bangs (bang ++ '[' :: u) = bang.length := by
  rcases h with rfl | rfl <;> simp [bangs]

theorem wikilink?_append {bang : Text} (h : bang = [] ∨ bang = ['!']) (u : Text) :
    wikilink? (bang ++ '[' :: '[' :: u) =
      if u.takeWhile (within ']') ≠ [] ∧ [']', ']'].isPrefixOf (u.dropWhile (within ']')) then
        some
          { kind := .wikilink, length := bang.length + 2 + (u.takeWhile (within ']')).length + 2
            visible := afterLastBar (u.takeWhile (within ']')) }
      else none := by
  have hdrop : ∀ n, (bang ++ '[' :: '[' :: u).drop (bang.length + 2 + n) = u.drop n := fun n => by
    rw [Nat.add_assoc, ← List.drop_drop, List.drop_left, Nat.add_comm 2]; rfl
  have hstart : (bang ++ '[' :: '[' :: u).drop (bang.length + 2) = u := hdrop 0
  rw [wikilink?, bangs_append h, List.drop_left, if_pos (by simp), ← drop_length_takeWhile]
  simp only [hdrop, hstart]
  rfl

theorem wikilink?_eq_some_iff {t : Text} {r : Recognised} :
    wikilink? t = some r ↔ ∃ bang body rest : Text, (bang = [] ∨ bang = ['!']) ∧
      t = bang ++ '[' :: '[' :: (body ++ ']' :: ']' :: rest) ∧ body ≠ [] ∧
        (∀ c ∈ body, within ']' c = true) ∧
        r = { kind := .wikilink, length := bang.length + 2 + body.length + 2
              visible := afterLastBar body } := by
  constructor
  · intro h
    obtain ⟨bang, u, hbang, rfl, hb⟩ := exists_bangs t
    obtain ⟨v, rfl⟩ : ∃ v, u = '[' :: '[' :: v := by
      rw [wikilink?, hb, List.drop_left] at h
      split_ifs at h with hpre
      obtain ⟨v, hv⟩ := List.isPrefixOf_iff_prefix.1 hpre
      exact ⟨v, hv.symm⟩
    rw [wikilink?_append hbang] at h
    split_ifs at h with hbody
    obtain ⟨hne, hclose⟩ := hbody
    obtain ⟨rest, hrest⟩ := List.isPrefixOf_iff_prefix.1 hclose
    refine ⟨bang, v.takeWhile (within ']'), rest, hbang, ?_, hne,
      fun c hc => List.mem_takeWhile_imp hc, (Option.some.inj h).symm⟩
    have hv : v = v.takeWhile (within ']') ++ ']' :: ']' :: rest := by
      conv_lhs => rw [← List.takeWhile_append_dropWhile (p := within ']') (l := v), ← hrest]
      rfl
    rw [← hv]
  · rintro ⟨bang, body, rest, hbang, rfl, hne, hall, rfl⟩
    have hstop : (']' :: ']' :: rest).head?.any (within ']') = false := by simp [within]
    rw [wikilink?_append hbang, takeWhile_append_stop hall hstop,
      dropWhile_append_stop hall hstop, if_pos ⟨hne, by simp⟩]

theorem link?_append {bang : Text} (h : bang = [] ∨ bang = ['!']) {shown : Text}
    (hshown : ∀ c ∈ shown, within ']' c = true) (u : Text) :
    link? (bang ++ '[' :: (shown ++ ']' :: '(' :: u)) =
      if [')'].isPrefixOf (u.dropWhile (within ')')) then
        some
          { kind := .link
            length := bang.length + 1 + shown.length + 2 + (u.takeWhile (within ')')).length + 1
            visible := shown }
      else none := by
  have hstop : (']' :: '(' :: u).head?.any (within ']') = false := by simp [within]
  have hstart : (bang ++ '[' :: (shown ++ ']' :: '(' :: u)).drop (bang.length + 1) =
      shown ++ ']' :: '(' :: u := by
    rw [← List.drop_drop, List.drop_left]; rfl
  have hbody : ((bang ++ '[' :: (shown ++ ']' :: '(' :: u)).drop (bang.length + 1)).takeWhile
      (fun c => c ≠ ']' && c ≠ '\n') = shown := by
    rw [hstart]; exact takeWhile_append_stop hshown hstop
  have hmiddle : (bang ++ '[' :: (shown ++ ']' :: '(' :: u)).drop (bang.length + 1 + shown.length) =
      ']' :: '(' :: u := by
    rw [← List.drop_drop, hstart, List.drop_left]
  have htarget : ∀ n, (bang ++ '[' :: (shown ++ ']' :: '(' :: u)).drop
      (bang.length + 1 + shown.length + 2 + n) = u.drop n := fun n => by
    rw [Nat.add_assoc _ 2, ← List.drop_drop, hmiddle, Nat.add_comm 2]; rfl
  have htarget' := htarget 0
  rw [link?, bangs_append h, List.drop_left, if_pos (by simp), ← drop_length_takeWhile]
  simp only [Nat.add_zero, List.drop_zero] at htarget'
  simp only [hbody, hmiddle, htarget, htarget']
  rw [if_pos (by simp)]
  rfl

theorem link?_eq_some_iff {t : Text} {r : Recognised} :
    link? t = some r ↔ ∃ bang shown target rest : Text, (bang = [] ∨ bang = ['!']) ∧
      t = bang ++ '[' :: (shown ++ ']' :: '(' :: (target ++ ')' :: rest)) ∧
        (∀ c ∈ shown, within ']' c = true) ∧ (∀ c ∈ target, within ')' c = true) ∧
        r = { kind := .link, length := bang.length + 1 + shown.length + 2 + target.length + 1
              visible := shown } := by
  constructor
  · intro h
    obtain ⟨bang, u, hbang, rfl, hb⟩ := exists_bangs t
    obtain ⟨v, rfl⟩ : ∃ v, u = '[' :: v := by
      rw [link?, hb, List.drop_left] at h
      split_ifs at h with hpre
      obtain ⟨v, hv⟩ := List.isPrefixOf_iff_prefix.1 hpre
      exact ⟨v, hv.symm⟩
    -- what is shown ends at the first closing bracket, and the target has to follow there
    obtain ⟨w, hw⟩ : ∃ w, v = v.takeWhile (within ']') ++ ']' :: '(' :: w := by
      have hstart : (bang ++ '[' :: v).drop (bang.length + 1) = v := by
        rw [← List.drop_drop, List.drop_left]; rfl
      have hmiddle : ∀ n, (bang ++ '[' :: v).drop (bang.length + 1 + n) = v.drop n := fun n => by
        rw [← List.drop_drop, hstart]
      rw [link?, hb, List.drop_left] at h
      simp only [hstart, hmiddle] at h
      split_ifs at h with _ hpre
      obtain ⟨w, hw⟩ := List.isPrefixOf_iff_prefix.1 hpre
      refine ⟨w, ?_⟩
      conv_lhs => rw [← List.takeWhile_append_dropWhile (p := within ']') (l := v),
        ← drop_length_takeWhile]
      exact congrArg _ hw.symm
    have hshown : ∀ c ∈ v.takeWhile (within ']'), within ']' c = true :=
      fun c hc => List.mem_takeWhile_imp hc
    set shown := v.takeWhile (within ']')
    rw [hw, link?_append hbang hshown] at h
    split_ifs at h with hclose
    obtain ⟨rest, hrest⟩ := List.isPrefixOf_iff_prefix.1 hclose
    refine ⟨bang, shown, w.takeWhile (within ')'), rest, hbang, ?_, hshown,
      fun c hc => List.mem_takeWhile_imp hc, (Option.some.inj h).symm⟩
    have hw' : w = w.takeWhile (within ')') ++ ')' :: rest := by
      conv_lhs => rw [← List.takeWhile_append_dropWhile (p := within ')') (l := w), ← hrest]
      rfl
    rw [← hw', ← hw]
  · rintro ⟨bang, shown, target, rest, hbang, rfl, hshown, htarget, rfl⟩
    have hstop : (')' :: rest).head?.any (within ')') = false := by simp [within]
    rw [link?_append hbang hshown, takeWhile_append_stop htarget hstop,
      dropWhile_append_stop htarget hstop, if_pos (by simp)]

/-! ### Addresses -/

/-- No scheme is the beginning of another one. -/
theorem scheme_unique {s s' t : Text} (hs : s ∈ schemes) (hs' : s' ∈ schemes)
    (h : s <+: t) (h' : s' <+: t) : s = s' := by
  have key : ∀ a ∈ schemes, ∀ b ∈ schemes, a.isPrefixOf b = true → a = b := by decide
  rcases List.prefix_or_prefix_of_prefix h h' with hp | hp
  · exact key s hs s' hs' (List.isPrefixOf_iff_prefix.2 hp)
  · exact (key s' hs' s hs (List.isPrefixOf_iff_prefix.2 hp)).symm

theorem url?_eq_some_iff {t : Text} {r : Recognised} :
    url? t = some r ↔ ∃ scheme ∈ schemes, ∃ body rest : Text,
      t = scheme ++ (body ++ rest) ∧ body ≠ [] ∧ (∀ c ∈ body, isAddress c = true) ∧
        rest.head?.any isAddress = false ∧
        r = { kind := .url, length := scheme.length + body.length, visible := scheme ++ body } := by
  have htake : ∀ scheme body rest : Text,
      (scheme ++ (body ++ rest)).take (scheme.length + body.length) = scheme ++ body :=
    fun scheme body rest => by
      rw [← List.append_assoc]; exact List.take_left' List.length_append
  constructor
  · intro h
    rw [url?] at h
    cases hfind : schemes.find? (·.isPrefixOf t) with
    | none => simp [hfind] at h
    | some scheme =>
      have hmem := List.mem_of_find?_eq_some hfind
      have hpre := List.find?_some hfind
      obtain ⟨u, rfl⟩ := List.isPrefixOf_iff_prefix.1 hpre
      obtain ⟨rest, hu, hall, hstop⟩ := exists_takeWhile isAddress u
      simp only [hfind, List.drop_left] at h
      split_ifs at h with hne
      refine ⟨scheme, hmem, u.takeWhile isAddress, rest, ?_, hne, hall, hstop, ?_⟩
      · rw [← hu]
      · rw [← Option.some.inj h]
        set body := u.takeWhile isAddress
        rw [hu, htake]
  · rintro ⟨scheme, hmem, body, rest, rfl, hne, hall, hstop, rfl⟩
    -- the scheme that is found first is the only one there
    have hfind : schemes.find? (·.isPrefixOf (scheme ++ (body ++ rest))) = some scheme := by
      cases hf : schemes.find? (·.isPrefixOf (scheme ++ (body ++ rest))) with
      | none =>
        have := List.find?_eq_none.1 hf scheme hmem
        simp at this
      | some s =>
        have hp := List.find?_some hf
        rw [scheme_unique (List.mem_of_find?_eq_some hf) hmem
          (List.isPrefixOf_iff_prefix.1 hp) ⟨_, rfl⟩]
    rw [url?, hfind]
    simp only [List.drop_left, takeWhile_append_stop hall hstop, htake]
    rw [if_neg hne]

/-! ### Emphasis -/

/-- Content that is closed by two `m` right behind it, and by no earlier ones.  The character
before it is `previous`. -/
def EndsAt (m : Char) : Char → Text → Prop
  | previous, [] => isBlank previous = false
  | previous, c :: u =>
    ¬ (isBlank previous = false ∧ c = m ∧ (u ++ [m]).head? = some m) ∧ c ≠ '\n' ∧ EndsAt m c u

theorem closingMarker_eq_iff {m previous : Char} {u rest : Text} :
    closingMarker m previous (u ++ m :: m :: rest) = some u.length ↔ EndsAt m previous u := by
  induction u generalizing previous with
  | nil =>
    rw [List.nil_append, closingMarker, EndsAt]
    cases isBlank previous with
    | false => simp
    | true =>
      -- a marker behind a blank is content, so the end is further on
      simp only [Bool.not_true, Bool.false_and, Bool.false_eq_true, if_false]
      split_ifs <;> simp
  | cons c u ih =>
    have hhead : (u ++ m :: m :: rest).head? = (u ++ [m]).head? := by cases u <;> rfl
    rw [List.cons_append, closingMarker, EndsAt, hhead]
    split_ifs with hcond hnl
    · have hclose : isBlank previous = false ∧ c = m ∧ (u ++ [m]).head? = some m := by
        simpa [and_assoc] using hcond
      simp [hclose]
    · simp [hnl]
    · have hopen : ¬ (isBlank previous = false ∧ c = m ∧ (u ++ [m]).head? = some m) := by
        simpa [and_assoc] using hcond
      rw [← ih, and_iff_right hopen, and_iff_right hnl]
      simp [Option.map_eq_some_iff]

/-- Where emphasis is closed, a marker stands behind a character that is no blank. -/
theorem exists_of_closingMarker {m previous : Char} {t : Text} {n : ℕ}
    (h : closingMarker m previous t = some n) :
    ∃ u rest : Text, t = u ++ m :: m :: rest ∧ u.length = n ∧ '\n' ∉ u ∧
      ∀ d, (previous :: u).getLast? = some d → isBlank d = false := by
  induction t generalizing previous n with
  | nil => cases h
  | cons c t ih =>
    rw [closingMarker] at h
    split_ifs at h with hcond hnl
    · simp only [Bool.and_eq_true, decide_eq_true_eq, Bool.not_eq_true'] at hcond
      obtain ⟨⟨hblank, rfl⟩, hhead⟩ := hcond
      obtain ⟨t, rfl⟩ := List.head?_eq_some_iff.1 hhead
      exact ⟨[], t, rfl, Option.some.inj h, List.not_mem_nil,
        fun d hd => Option.some.inj hd ▸ hblank⟩
    · obtain ⟨k, hk, rfl⟩ := Option.map_eq_some_iff.1 h
      obtain ⟨u, rest, rfl, rfl, hline, hlast⟩ := ih hk
      refine ⟨c :: u, rest, rfl, rfl, ?_, ?_⟩
      · rw [List.mem_cons, not_or]
        exact ⟨Ne.symm hnl, hline⟩
      · rwa [List.getLast?_cons_cons]

theorem emphasis?_eq_some_iff {t : Text} {r : Recognised} :
    emphasis? t = some r ↔ ∃ (m c : Char) (body rest : Text),
      t = m :: m :: c :: (body ++ m :: m :: rest) ∧ m ∈ markerChars ∧ isBlank c = false ∧
        EndsAt m c body ∧
        r = { kind := .emphasis, length := body.length + 5, marker := [m, m]
              visible := c :: body } := by
  constructor
  · intro h
    match t, h with
    | a :: b :: c :: u, h =>
      simp only [emphasis?] at h
      split_ifs at h with hcond
      simp only [Bool.and_eq_true, decide_eq_true_eq, List.contains_iff_mem,
        Bool.not_eq_true'] at hcond
      obtain ⟨⟨rfl, hm⟩, hc⟩ := hcond
      obtain ⟨n, hn, rfl⟩ := Option.map_eq_some_iff.1 h
      obtain ⟨body, rest, rfl, rfl, -⟩ := exists_of_closingMarker hn
      exact ⟨a, c, body, rest, rfl, hm, hc, closingMarker_eq_iff.1 hn, by simp⟩
  · rintro ⟨m, c, body, rest, rfl, hm, hc, hends, rfl⟩
    simp only [emphasis?, closingMarker_eq_iff.2 hends, Option.map_some]
    rw [if_pos (by simp [hm, hc])]
    simp

/-- Emphasis is found where its marker is closed. -/
theorem exists_emphasis? {m c : Char} (hm : m ∈ markerChars) (hc : isBlank c = false) {t : Text}
    {n : ℕ} (h : closingMarker m c t = some n) : ∃ r, emphasis? (m :: m :: c :: t) = some r := by
  obtain ⟨body, rest, rfl, rfl, -⟩ := exists_of_closingMarker h
  exact ⟨_, emphasis?_eq_some_iff.2 ⟨m, c, body, rest, rfl, hm, hc, closingMarker_eq_iff.1 h, rfl⟩⟩

end Recognised

end TypingAid
