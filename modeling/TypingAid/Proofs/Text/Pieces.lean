import TypingAid.Proofs.Text.Lines
import TypingAid.Text.Blank

/-!
# Pieces of a text

A text is cut at a separator and put together again (`Text.splitAt_intercalate`), and blanks are
trimmed from its ends.  A text that neither starts nor ends with a blank is the one that trimming
leaves (`Text.Trimmed`).  The pieces of a text, without the blanks around them, do not depend on the
blanks around the text (`Text.map_trim_splitAt_trim`).

The elements are characters here and code points in `Proofs.Text.Str`, so what is a blank is a
parameter.
-/

namespace TypingAid.Text

variable {α : Type} {c sep : α} {t : List α} {ps : List (List α)} {blank : α → Bool}

theorem mem_or_of_mem_intercalate {s : List α} (h : c ∈ s.intercalate ps) :
    c ∈ s ∨ ∃ p ∈ ps, c ∈ p := by
  induction ps with
  | nil => cases h
  | cons p ps ih =>
    cases ps with
    | nil =>
      rw [List.intercalate_singleton] at h
      exact .inr ⟨p, List.mem_cons_self, h⟩
    | cons q ps =>
      rw [List.intercalate_cons_cons, List.mem_append, List.mem_append] at h
      rcases h with (h | h) | h
      · exact .inr ⟨p, List.mem_cons_self, h⟩
      · exact .inl h
      · exact (ih h).imp_right fun ⟨r, hr, hc⟩ => ⟨r, List.mem_cons_of_mem _ hr, hc⟩

theorem mem_intercalate_of_mem {s p : List α} (hp : p ∈ ps) (hc : c ∈ p) :
    c ∈ s.intercalate ps := by
  induction ps with
  | nil => cases hp
  | cons q ps ih =>
    cases ps with
    | nil =>
      rw [List.intercalate_singleton, ← List.mem_singleton.1 hp]
      exact hc
    | cons r ps =>
      rw [List.intercalate_cons_cons, List.mem_append, List.mem_append]
      rcases List.mem_cons.1 hp with rfl | hp
      · exact .inl (.inl hc)
      · exact .inr (ih hp)

theorem intercalate_concat (h : ps ≠ []) (s p : List α) :
    s.intercalate (ps ++ [p]) = s.intercalate ps ++ s ++ p := by
  induction ps with
  | nil => exact absurd rfl h
  | cons q ps ih =>
    cases ps with
    | nil => rw [List.singleton_append, List.intercalate_cons_cons, List.intercalate_singleton,
        List.intercalate_singleton]
    | cons r ps =>
      rw [List.cons_append, List.cons_append, List.intercalate_cons_cons, ← List.cons_append,
        ih (List.cons_ne_nil _ _), List.intercalate_cons_cons]
      simp only [List.append_assoc]

theorem splitAt_intercalate [DecidableEq α] (hne : ps ≠ []) (h : ∀ p ∈ ps, sep ∉ p) :
    splitAt sep ([sep].intercalate ps) = ps := by
  rw [splitAt_eq_splitOn, List.splitOn_intercalate sep h hne]

theorem splitAt_of_not_mem [DecidableEq α] (h : sep ∉ t) : splitAt sep t = [t] := by
  rw [splitAt_eq_splitOn, List.splitOn_eq_singleton h]

/-- No piece holds the separator. -/
theorem not_mem_of_mem_splitAt [DecidableEq α] {p : List α} (h : p ∈ splitAt sep t) :
    sep ∉ p := by
  induction t generalizing p with
  | nil =>
    rw [splitAt, List.mem_singleton] at h
    rw [h]; exact List.not_mem_nil
  | cons c t ih =>
    rw [splitAt] at h
    split_ifs at h with hc
    · rcases List.mem_cons.1 h with rfl | h
      · exact List.not_mem_nil
      · exact ih h
    · split at h
      · rw [List.mem_singleton.1 h, List.mem_singleton]
        exact Ne.symm hc
      · rename_i piece rest hsplit
        rw [hsplit] at ih
        rcases List.mem_cons.1 h with rfl | h
        · rw [List.mem_cons, not_or]
          exact ⟨Ne.symm hc, ih List.mem_cons_self⟩
        · exact ih (List.mem_cons_of_mem _ h)

/-- What a piece holds stands in the text. -/
theorem mem_of_mem_splitAt [DecidableEq α] {p : List α} (h : p ∈ splitAt sep t) (hc : c ∈ p) :
    c ∈ t := by
  have hmem : c ∈ [sep].intercalate (splitAt sep t) := mem_intercalate_of_mem h hc
  rwa [splitAt_eq_splitOn, List.intercalate_splitOn] at hmem

/-! ### Blanks at the ends -/

theorem mem_or_of_mem_dropTail {p : α → Bool} (hc : c ∈ t) : p c = true ∨ c ∈ dropTail p t := by
  rw [← List.mem_reverse, ← List.takeWhile_append_dropWhile (p := p) (l := t.reverse),
    List.mem_append] at hc
  exact hc.imp (fun h => List.mem_takeWhile_imp h) fun h => List.mem_reverse.2 h

theorem exists_dropTail_append (blank : α → Bool) (t : List α) :
    ∃ rest, dropTail blank t ++ rest = t := by
  have h := List.dropWhile_suffix blank (l := t.reverse)
  rwa [← List.reverse_prefix, List.reverse_reverse] at h

theorem mem_of_mem_dropTail (hc : c ∈ dropTail blank t) : c ∈ t := by
  obtain ⟨rest, hrest⟩ := exists_dropTail_append blank t
  exact hrest ▸ List.mem_append_left rest hc

theorem mem_of_mem_trim (h : c ∈ trim blank t) : c ∈ t :=
  (List.dropWhile_sublist blank).subset (mem_of_mem_dropTail h)

/-- It neither starts nor ends with a blank. -/
structure Trimmed (blank : α → Bool) (t : List α) : Prop where
  head : ∀ c, t.head? = some c → blank c = false
  last : ∀ c, t.getLast? = some c → blank c = false

/-- The text neither starts nor ends with a blank. -/
abbrev Stripped (t : Text) : Prop := Trimmed isBlank t

theorem Trimmed.trim_eq (h : Trimmed blank t) : trim blank t = t := by
  have hleft : t.dropWhile blank = t := by
    cases t with
    | nil => rfl
    | cons c t => rw [List.dropWhile_cons_of_neg (by simp [h.head c rfl])]
  rw [trim, hleft, dropTail]
  rcases List.eq_nil_or_concat t with rfl | ⟨u, c, rfl⟩
  · rfl
  · have hc := h.last c (by simp)
    rw [List.concat_eq_append, List.reverse_append, List.reverse_singleton, List.singleton_append,
      List.dropWhile_cons_of_neg (by simp [hc]), List.reverse_cons, List.reverse_reverse]

theorem trimmed_of_forall (h : ∀ c ∈ t, blank c = false) : Trimmed blank t :=
  ⟨fun c hc => h c (List.mem_of_mem_head? hc), fun c hc => h c (List.mem_of_mem_getLast? hc)⟩

/-- Only the ends count. -/
theorem Trimmed.append {s : List α} (hs : Trimmed blank s) (ht : Trimmed blank t) (hs₀ : s ≠ [])
    (ht₀ : t ≠ []) (mid : List α) : Trimmed blank (s ++ mid ++ t) := by
  refine ⟨fun c hc => hs.head c ?_, fun c hc => ht.last c ?_⟩
  · obtain ⟨a, s, rfl⟩ := List.exists_cons_of_ne_nil hs₀
    exact hc
  · rwa [List.getLast?_append, List.getLast?_eq_some_getLast ht₀, Option.some_or,
      ← List.getLast?_eq_some_getLast] at hc

theorem trimmed_intercalate (s : List α) (hne : ps ≠ [])
    (h : ∀ p ∈ ps, Trimmed blank p ∧ p ≠ []) :
    Trimmed blank (s.intercalate ps) ∧ s.intercalate ps ≠ [] := by
  induction ps with
  | nil => exact absurd rfl hne
  | cons p ps ih =>
    obtain ⟨⟨hp, hp₀⟩, hps⟩ := List.forall_mem_cons.1 h
    cases ps with
    | nil =>
      rw [List.intercalate_singleton]
      exact ⟨hp, hp₀⟩
    | cons q ps =>
      obtain ⟨hrest, hrest₀⟩ := ih (List.cons_ne_nil _ _) hps
      rw [List.intercalate_cons_cons]
      exact ⟨hp.append hrest hp₀ hrest₀ s, List.append_ne_nil_of_right_ne_nil _ hrest₀⟩

theorem trimmed_trim (blank : α → Bool) (t : List α) : Trimmed blank (trim blank t) := by
  have hdrop : ∀ (u : List α) (c : α), (u.dropWhile blank).head? = some c →
      blank c = false := fun u c hc => by
    have := List.head?_dropWhile_not blank u
    rw [hc] at this
    simpa using this
  refine ⟨fun c hc => ?_, fun c hc => ?_⟩
  · -- what is left at the end begins like what is left at the start
    obtain ⟨rest, hrest⟩ := exists_dropTail_append blank (t.dropWhile blank)
    refine hdrop t c ?_
    rw [← hrest, List.head?_append, ← trim, hc, Option.some_or]
  · rw [trim, dropTail, List.getLast?_reverse] at hc
    exact hdrop _ c hc

theorem trim_trim (blank : α → Bool) (t : List α) : trim blank (trim blank t) = trim blank t :=
  (trimmed_trim blank t).trim_eq

/-! ### Blanks around pieces -/

/-- Blanks in front do not count. -/
theorem trim_append_left {x : List α} (hx : ∀ c ∈ x, blank c = true) (t : List α) :
    trim blank (x ++ t) = trim blank t := by
  rw [trim, trim, List.dropWhile_append_of_pos hx]

/-- Blanks behind do not count. -/
theorem trim_append_right {y : List α} (hy : ∀ c ∈ y, blank c = true) (t : List α) :
    trim blank (t ++ y) = trim blank t := by
  have hy' : y.dropWhile blank = [] := List.dropWhile_eq_nil_iff.2 hy
  rw [trim, trim, List.dropWhile_append, hy']
  split_ifs with hempty
  · rw [List.isEmpty_iff.1 hempty]
  · rw [dropTail, List.reverse_append,
      List.dropWhile_append_of_pos fun c hc => hy c (List.mem_reverse.1 hc), ← dropTail]

/-- What is trimmed off are blanks. -/
theorem exists_append_trim_append (blank : α → Bool) (t : List α) :
    ∃ x y : List α, (∀ c ∈ x, blank c = true) ∧ (∀ c ∈ y, blank c = true) ∧
      x ++ (trim blank t ++ y) = t := by
  refine ⟨t.takeWhile blank, ((t.dropWhile blank).reverse.takeWhile blank).reverse,
    fun c hc => List.mem_takeWhile_imp hc,
    fun c hc => List.mem_takeWhile_imp (List.mem_reverse.1 hc), ?_⟩
  rw [trim, dropTail, ← List.reverse_append, List.takeWhile_append_dropWhile, List.reverse_reverse,
    List.takeWhile_append_dropWhile]

theorem mem_trim_of_mem (h : c ∈ t) (hc : blank c = false) : c ∈ trim blank t := by
  obtain ⟨x, y, hx, hy, ht⟩ := exists_append_trim_append blank t
  rw [← ht, List.mem_append, List.mem_append] at h
  rcases h with h | h | h
  · exact absurd (hx c h) (by simp [hc])
  · exact h
  · exact absurd (hy c h) (by simp [hc])

variable [DecidableEq α]

theorem splitAt_ne_nil (sep : α) (t : List α) : splitAt sep t ≠ [] := by
  rw [splitAt_eq_splitOn]
  exact List.splitOn_ne_nil _ _

theorem intercalate_splitAt (sep : α) (t : List α) : [sep].intercalate (splitAt sep t) = t := by
  rw [splitAt_eq_splitOn, List.intercalate_splitOn]

/-- What is put in front of a text is put in front of its first piece. -/
theorem splitAt_append_left {x : List α} (hx : sep ∉ x) (t : List α) : ∃ p ps,
    splitAt sep t = p :: ps ∧ splitAt sep (x ++ t) = (x ++ p) :: ps := by
  obtain ⟨p, ps, hsplit⟩ := List.exists_cons_of_ne_nil (splitAt_ne_nil sep t)
  have hpieces : ∀ q ∈ p :: ps, sep ∉ q := fun q hq => not_mem_of_mem_splitAt (hsplit ▸ hq)
  have hfront : x ++ t = [sep].intercalate ((x ++ p) :: ps) := by
    rw [← intercalate_splitAt sep t, hsplit]
    cases ps with
    | nil => simp only [List.intercalate_singleton]
    | cons q ps => simp only [List.intercalate_cons_cons, List.append_assoc]
  refine ⟨p, ps, hsplit, ?_⟩
  rw [hfront, splitAt_intercalate (List.cons_ne_nil _ _)]
  rw [List.forall_mem_cons] at hpieces ⊢
  exact ⟨fun hmem => (List.mem_append.1 hmem).elim hx hpieces.1, hpieces.2⟩

/-- What is put behind a text is put behind its last piece. -/
theorem splitAt_append_right {y : List α} (hy : sep ∉ y) (t : List α) : ∃ ps p,
    splitAt sep t = ps ++ [p] ∧ splitAt sep (t ++ y) = ps ++ [p ++ y] := by
  obtain ⟨ps, p, hsplit⟩ := (List.eq_nil_or_concat (splitAt sep t)).resolve_left (splitAt_ne_nil _ _)
  rw [List.concat_eq_append] at hsplit
  have hpieces : ∀ q ∈ ps ++ [p], sep ∉ q := fun q hq => not_mem_of_mem_splitAt (hsplit ▸ hq)
  have hback : t ++ y = [sep].intercalate (ps ++ [p ++ y]) := by
    rw [← intercalate_splitAt sep t, hsplit]
    rcases eq_or_ne ps [] with rfl | hps
    · simp only [List.nil_append, List.intercalate_singleton]
    · rw [intercalate_concat hps, intercalate_concat hps, List.append_assoc]
  refine ⟨ps, p, hsplit, ?_⟩
  rw [hback, splitAt_intercalate (List.append_ne_nil_of_right_ne_nil _ (List.cons_ne_nil _ _))]
  rw [List.forall_mem_append, List.forall_mem_singleton] at hpieces ⊢
  exact ⟨hpieces.1, fun hmem => (List.mem_append.1 hmem).elim hpieces.2 hy⟩

/-- Blanks around a text do not count in its pieces, if the separator is no blank. -/
theorem map_trim_splitAt_trim (hsep : blank sep = false) (t : List α) :
    (splitAt sep (trim blank t)).map (trim blank) = (splitAt sep t).map (trim blank) := by
  have hnot : ∀ {u : List α}, (∀ c ∈ u, blank c = true) → sep ∉ u := fun hu hmem =>
    absurd (hu sep hmem) (by simp [hsep])
  obtain ⟨x, y, hx, hy, ht⟩ := exists_append_trim_append blank t
  obtain ⟨p, ps, hfront, hleft⟩ := splitAt_append_left (hnot hx) (trim blank t ++ y)
  obtain ⟨qs, q, hsplit, hright⟩ := splitAt_append_right (hnot hy) (trim blank t)
  calc (splitAt sep (trim blank t)).map (trim blank)
      = (qs ++ [q ++ y]).map (trim blank) := by
        rw [hsplit, List.map_append, List.map_append, List.map_singleton, List.map_singleton,
          trim_append_right hy]
    _ = (p :: ps).map (trim blank) := by rw [← hright, hfront]
    _ = ((x ++ p) :: ps).map (trim blank) := by
        rw [List.map_cons, List.map_cons, trim_append_left hx]
    _ = (splitAt sep t).map (trim blank) := by rw [← hleft, ht]

end TypingAid.Text
