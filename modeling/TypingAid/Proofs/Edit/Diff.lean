import TypingAid.Edit.Diff
import TypingAid.Proofs.Rule.Intervention

/-!
# The smallest span between two texts

The span that `Text.diff?` finds lies in the text before and gives the text after
(`Text.diff?_spec`).  So a change that nobody has announced can be told to a session as an edit that
fits.

No other span that does so takes away less or puts in less (`Text.diff?_smallest`).  In front of it
another span can only keep less.  Behind it another one may keep more: of `a`, on the way to `aa`,
one may keep the letter as the beginning or as the end.  What cannot be more is the two together
(`Span.Turns.kept_le`).
-/

namespace TypingAid

open Text

/-- The span lies in `before`, and with what it inserts in its place `before` becomes `after`. -/
structure Span.Turns (span : Span) (before after : Text) : Prop where
  nonneg : 0 ≤ span.start
  inOrder : span.start ≤ span.stop
  inRange : span.stop ≤ before.length
  text : before.take span.start.toNat ++ (span.insert ++ before.drop span.stop.toNat) = after

namespace Span.Turns

variable {span : Span} {before after : Text}

/-- An edit with this span alone gives the text after. -/
theorem apply (h : span.Turns before after) {e : Edit} (he : e.spans = [span]) :
    e.apply before = after := by
  have hsplice : e.apply before = splice before span.start span.stop span.insert := by
    rw [Edit.apply, he]; rfl
  rw [hsplice, splice_eq h.inOrder h.inRange, List.append_assoc, h.text]

/-- What is kept in front of the span, what it inserts, and what is kept behind it. -/
theorem length_eq (h : span.Turns before after) :
    span.start.toNat + span.insert.length + (before.length - span.stop.toNat) = after.length := by
  obtain ⟨hnonneg, hle, hrange, rfl⟩ := h
  simp only [List.length_append, List.length_take, List.length_drop]
  omega

end Span.Turns

namespace Text

theorem commonLength_le_left (s t : Text) : commonLength s t ≤ s.length := by
  fun_induction commonLength s t with
  | case1 a s t ih => simpa using ih
  | case2 => exact Nat.zero_le _
  | case3 => exact Nat.zero_le _

theorem take_commonLength (s t : Text) :
    s.take (commonLength s t) = t.take (commonLength s t) := by
  fun_induction commonLength s t with
  | case1 a s t ih => rw [List.take_succ_cons, List.take_succ_cons, ih]
  | case2 => rfl
  | case3 => rfl

/-- Two texts have their longest common end in common. -/
theorem drop_commonLength (s t : Text) :
    s.drop (s.length - commonLength s.reverse t.reverse) =
      t.drop (t.length - commonLength s.reverse t.reverse) := by
  have h := congrArg List.reverse (take_commonLength s.reverse t.reverse)
  rwa [List.take_reverse, List.take_reverse, List.reverse_reverse, List.reverse_reverse] at h

theorem diff?_eq_none_iff {before after : Text} : diff? before after = none ↔ before = after := by
  rw [diff?]
  split_ifs with h
  · exact ⟨fun _ => h, fun _ => rfl⟩
  · exact ⟨nofun, fun he => absurd he h⟩

/-- The span that is found keeps the longest common beginning, and the longest common end of what
is left. -/
theorem turns_of_diff? {before after : Text} {span : Span} (h : diff? before after = some span) :
    let first := commonLength before after
    let last := commonLength (before.drop first).reverse (after.drop first).reverse
    span.Turns before after ∧ span.start.toNat = first ∧
      before.length - span.stop.toNat = last := by
  intro first last
  rw [diff?] at h
  obtain ⟨-, h⟩ := Option.ite_none_left_eq_some.1 h
  have hfirst : first ≤ before.length := commonLength_le_left _ _
  have hlast : last ≤ before.length - first := by
    have := commonLength_le_left (before.drop first).reverse (after.drop first).reverse
    rwa [List.length_reverse, List.length_drop] at this
  have hend : before.drop (before.length - last) =
      (after.drop first).drop ((after.drop first).length - last) := by
    rw [← drop_commonLength, List.drop_drop, List.length_drop]
    congr 1
    omega
  have htake : before.take first = after.take first := take_commonLength before after
  have hstop : (before.length - last : Int).toNat = before.length - last := by omega
  obtain rfl : Span.mk first (before.length - last)
      ((after.drop first).take ((after.drop first).length - last)) = span := Option.some.inj h
  refine ⟨⟨?_, ?_, ?_, ?_⟩, Int.toNat_natCast _, ?_⟩ <;> dsimp only
  · omega
  · omega
  · omega
  · rw [Int.toNat_natCast, htake, hstop, hend, List.take_append_drop, List.take_append_drop]
  · omega

/-- **The smallest span between two texts** fits the first and gives the second. -/
theorem diff?_spec {before after : Text} {span : Span} (h : diff? before after = some span)
    (origin : Origin) :
    let e : Edit := { spans := [span], origin }
    e.Fits before ∧ e.apply before = after := by
  obtain ⟨hturns, -⟩ := turns_of_diff? h
  exact ⟨Edit.fits_single hturns.nonneg hturns.inOrder hturns.inRange _ _ _ _, hturns.apply rfl⟩

/-! ### No other span is smaller -/

/-- A common beginning is no longer than the longest one. -/
theorem length_le_commonLength {u s t : Text} (hs : u <+: s) (ht : u <+: t) :
    u.length ≤ commonLength s t := by
  induction u generalizing s t with
  | nil => exact Nat.zero_le _
  | cons c u ih =>
    cases s with
    | nil => exact absurd (List.prefix_nil.1 hs) (List.cons_ne_nil _ _)
    | cons a s =>
      cases t with
      | nil => exact absurd (List.prefix_nil.1 ht) (List.cons_ne_nil _ _)
      | cons b t =>
        obtain ⟨rfl, hs'⟩ := List.cons_prefix_cons.1 hs
        obtain ⟨rfl, ht'⟩ := List.cons_prefix_cons.1 ht
        rw [commonLength, if_pos rfl]
        exact Nat.succ_le_succ (ih hs' ht')

/-- A common end is no longer than the longest one. -/
theorem length_le_commonLength_reverse {u s t : Text} (hs : u <:+ s) (ht : u <:+ t) :
    u.length ≤ commonLength s.reverse t.reverse := by
  have h := length_le_commonLength (List.reverse_prefix.2 hs) (List.reverse_prefix.2 ht)
  rwa [List.length_reverse] at h

end Text

/-- **What a span keeps** of the text before, in front of it and behind it, is no more than the
longest common beginning and the longest common end of what is left. -/
theorem Span.Turns.kept_le {span : Span} {before after : Text} (h : span.Turns before after) :
    let first := commonLength before after
    span.start.toNat + (before.length - span.stop.toNat) ≤
      first + commonLength (before.drop first).reverse (after.drop first).reverse := by
  intro first
  have hlength := h.length_eq
  obtain ⟨hnonneg, hle, hrange, htext⟩ := h
  set behind := before.drop span.stop.toNat
  have hbehind : behind.length = before.length - span.stop.toNat := List.length_drop
  have hfirst : first ≤ before.length := commonLength_le_left before after
  have hfront : span.start.toNat ≤ first := by
    have h := length_le_commonLength (List.take_prefix _ _) ⟨_, htext⟩
    rwa [List.length_take, Nat.min_eq_left (by omega)] at h
  -- as much of what is kept behind the span as lies behind the longest common beginning, in both
  -- texts: either that is all of it, or one of the two texts is kept entirely
  set n := min behind.length (min (before.length - first) (after.length - first))
  have hn : (before.drop (before.length - n)).length = n := by rw [List.length_drop]; omega
  have hbefore : before.drop (before.length - n) <:+ before.drop first :=
    List.drop_suffix_drop_left before (by omega)
  have hafter : before.drop (before.length - n) <:+ after.drop first := by
    have hsuffix : before.drop (before.length - n) <:+ behind :=
      List.drop_suffix_drop_left before (by omega)
    refine List.suffix_of_suffix_length_le ?_ (List.drop_suffix first after) ?_
    · rw [← htext]
      exact List.suffix_append_of_suffix (List.suffix_append_of_suffix hsuffix)
    · rw [hn, List.length_drop]
      omega
  have hend := length_le_commonLength_reverse hbefore hafter
  rw [hn] at hend
  omega

namespace Text

/-- **The smallest span between two texts.**  There is one if and only if the texts are different.
It turns the first into the second, and every span that does so takes away at least as much and puts
in at least as much. -/
theorem diff?_smallest (before after : Text) :
    (diff? before after = none ↔ before = after) ∧
      ∀ span, diff? before after = some span → span.Turns before after ∧
        (∀ e : Edit, e.spans = [span] → e.apply before = after) ∧
          ∀ other : Span, other.Turns before after →
            span.removedLength ≤ other.removedLength ∧
              span.insert.length ≤ other.insert.length := by
  refine ⟨diff?_eq_none_iff, fun span hspan => ?_⟩
  obtain ⟨hturns, hstart, hstop⟩ := turns_of_diff? hspan
  refine ⟨hturns, fun e he => hturns.apply he, fun other hother => ?_⟩
  have hkept := hother.kept_le
  have hlength := hturns.length_eq
  have hlength' := hother.length_eq
  have := hturns.nonneg
  have := hturns.inOrder
  have := hturns.inRange
  obtain ⟨hnonneg, hle, hrange, -⟩ := hother
  dsimp only at hkept
  rw [← hstop, ← hstart] at hkept
  simp only [Span.removedLength]
  omega

/-- In a run of one letter there are many places where one more can come from.  A span that starts
at the front of the run takes a letter away that need not go. -/
theorem diff?_smallest_repeated :
    let before : Text := "xaay".toList
    let after : Text := "xaaay".toList
    let span : Span := ⟨3, 3, ['a']⟩
    let other : Span := ⟨1, 2, ['a', 'a']⟩
    diff? before after = some span ∧ span.Turns before after ∧ other.Turns before after ∧
      span.removedLength ≤ other.removedLength ∧ span.insert.length ≤ other.insert.length := by
  intro before after span other
  have hspan : diff? before after = some span := by decide
  have hother : other.Turns before after := ⟨by decide, by decide, by decide, by decide⟩
  obtain ⟨-, hsmallest⟩ := diff?_smallest before after
  obtain ⟨hturns, -, hle⟩ := hsmallest span hspan
  exact ⟨hspan, hturns, hother, hle other hother⟩

end Text

end TypingAid
