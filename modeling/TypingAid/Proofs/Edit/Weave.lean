import TypingAid.Edit.Basic
import TypingAid.Proofs.Text.Slice
import Mathlib.Data.List.Sort
import Mathlib.Tactic.Conv

/-!
# Edits as weaving

`Edit.apply` carries out the spans from the last to the first.  For an edit that fits its text the
result is also what one reads from left to right: the text up to the first span, what that span
inserts, the text up to the second span, and so on (`Edit.apply_eq_weave`).  Everything that goes
through the spans in ascending order, as `Edit.views` does, is proved against this form.

* `Edit.Fits`: the spans lie in the text, no two start at one place, and of any two one stops
  before the other starts.
* `Span.Ordered` is the same for spans in ascending order, as a recursion that a proof about them
  can follow (`Edit.Fits.ordered`).
-/

namespace TypingAid

/-- The spans of the edit lie in the text, start at different places and do not overlap. -/
structure Edit.Fits (e : Edit) (t : Text) : Prop where
  /-- Every span lies in the text. -/
  inRange : ∀ s ∈ e.spans, 0 ≤ s.start ∧ s.start ≤ s.stop ∧ s.stop ≤ t.length
  /-- Of any two spans, one stops before the other starts. -/
  apart : e.spans.Pairwise fun a b => a.start ≠ b.start ∧ (a.stop ≤ b.start ∨ b.stop ≤ a.start)

namespace Span

/-- Ascending spans that lie between two offsets and do not overlap. -/
def Ordered (first last : Int) : List Span → Prop
  | [] => first ≤ last
  | s :: rest => first ≤ s.start ∧ s.start ≤ s.stop ∧ Ordered s.stop last rest

/-- All of `t` from `offset` on, with ascending spans carried out from left to right. -/
def weave (t : Text) (offset : Int) : List Span → Text
  | [] => t.drop offset.toNat
  | s :: rest => Text.slice t offset s.start ++ (s.insert ++ weave t s.stop rest)

instance decidableOrdered (first last : Int) : (ss : List Span) → Decidable (Ordered first last ss)
  | [] => inferInstanceAs (Decidable (first ≤ last))
  | s :: rest =>
    have := decidableOrdered s.stop last rest
    inferInstanceAs (Decidable (first ≤ s.start ∧ s.start ≤ s.stop ∧ Ordered s.stop last rest))

theorem Ordered.le {first last : Int} {ss : List Span} (h : Ordered first last ss) :
    first ≤ last := by
  induction ss generalizing first with
  | nil => exact h
  | cons s rest ih =>
    obtain ⟨h1, h2, h3⟩ := h
    have := ih h3
    omega

/-! ### Sorting -/

theorem insertBy_eq_orderedInsert (le : Span → Span → Bool) (s : Span) (ss : List Span) :
    insertBy le s ss = ss.orderedInsert (fun a b => le a b = true) s := by
  induction ss with
  | nil => rfl
  | cons x xs ih => simp only [insertBy, List.orderedInsert, ih]

theorem sortBy_eq_insertionSort (le : Span → Span → Bool) (ss : List Span) :
    sortBy le ss = ss.insertionSort fun a b => le a b = true := by
  induction ss with
  | nil => rfl
  | cons s ss ih =>
    rw [List.insertionSort_cons, ← ih, ← insertBy_eq_orderedInsert]; rfl

theorem ascending_perm (ss : List Span) : (ascending ss).Perm ss := by
  rw [ascending, sortBy_eq_insertionSort]; exact List.perm_insertionSort _ ss

theorem descending_perm (ss : List Span) : (descending ss).Perm ss := by
  rw [descending, sortBy_eq_insertionSort]; exact List.perm_insertionSort _ ss

theorem ascending_pairwise (ss : List Span) :
    (ascending ss).Pairwise fun a b => a.start ≤ b.start := by
  have : Std.Total fun a b : Span => decide (a.start ≤ b.start) = true :=
    ⟨fun a b => by simpa using le_total a.start b.start⟩
  have : IsTrans Span fun a b : Span => decide (a.start ≤ b.start) = true :=
    ⟨fun a b c hab hbc => by simpa using le_trans (by simpa using hab) (by simpa using hbc)⟩
  rw [ascending, sortBy_eq_insertionSort]
  exact (List.pairwise_insertionSort _ ss).imp fun h => by simpa using h

theorem descending_pairwise (ss : List Span) :
    (descending ss).Pairwise fun a b => b.start ≤ a.start := by
  have : Std.Total fun a b : Span => decide (b.start ≤ a.start) = true :=
    ⟨fun a b => by simpa using le_total b.start a.start⟩
  have : IsTrans Span fun a b : Span => decide (b.start ≤ a.start) = true :=
    ⟨fun a b c hab hbc => by simpa using le_trans (by simpa using hbc) (by simpa using hab)⟩
  rw [descending, sortBy_eq_insertionSort]
  exact (List.pairwise_insertionSort _ ss).imp fun h => by simpa using h

/-- Spans that start at different places are in one order only. -/
theorem descending_eq_reverse {ss : List Span} (h : ss.Pairwise fun a b => a.start ≠ b.start) :
    descending ss = (ascending ss).reverse := by
  have hsymm : ∀ {a b : Span}, a.start ≠ b.start → b.start ≠ a.start := fun h => h.symm
  have ha := (List.Perm.pairwise_iff hsymm (ascending_perm ss)).2 h
  have hd := (List.Perm.pairwise_iff hsymm (descending_perm ss)).2 h
  have hperm : (descending ss).Perm (ascending ss).reverse :=
    (descending_perm ss).trans ((ascending_perm ss).symm.trans (List.reverse_perm _).symm)
  have hd' : (descending ss).Pairwise fun a b => b.start < a.start :=
    ((descending_pairwise ss).and hd).imp fun h => lt_of_le_of_ne h.1 h.2.symm
  have ha' : (ascending ss).reverse.Pairwise fun a b => b.start < a.start :=
    List.pairwise_reverse.2
      (((ascending_pairwise ss).and ha).imp fun h => lt_of_le_of_ne h.1 h.2)
  exact hperm.eq_of_pairwise (fun a b _ _ hab hba => absurd hab hba.asymm) hd' ha'

end Span

namespace Edit

open TypingAid.Span

/-- The spans of an edit that fits, first span first, lie one behind the other. -/
theorem Fits.ordered {e : Edit} {t : Text} (h : e.Fits t) :
    Ordered 0 t.length (ascending e.spans) := by
  have hr : ∀ s ∈ ascending e.spans, 0 ≤ s.start ∧ s.start ≤ s.stop ∧ s.stop ≤ t.length :=
    fun s hs => h.inRange s ((ascending_perm e.spans).mem_iff.1 hs)
  have hp : (ascending e.spans).Pairwise fun a b => a.start < b.start ∧ a.stop ≤ b.start := by
    have hsymm : ∀ {a b : Span}, (a.start ≠ b.start ∧ (a.stop ≤ b.start ∨ b.stop ≤ a.start)) →
        b.start ≠ a.start ∧ (b.stop ≤ a.start ∨ a.stop ≤ b.start) := fun h => ⟨h.1.symm, h.2.symm⟩
    have ha := (List.Perm.pairwise_iff hsymm (ascending_perm e.spans)).2 h.apart
    refine ((ascending_pairwise e.spans).and ha).imp_of_mem ?_
    rintro a b _ hb ⟨hle, hne, hd⟩
    have := hr b hb
    omega
  have key : ∀ (ss : List Span) (first : Int), first ≤ t.length → (∀ s ∈ ss, first ≤ s.start) →
      (∀ s ∈ ss, 0 ≤ s.start ∧ s.start ≤ s.stop ∧ s.stop ≤ t.length) →
      ss.Pairwise (fun a b => a.start < b.start ∧ a.stop ≤ b.start) →
      Ordered first t.length ss := by
    intro ss
    induction ss with
    | nil => intro first hf _ _ _; exact hf
    | cons s rest ih =>
      intro first _ hfirst hin hpw
      obtain ⟨hs, hrest⟩ := List.pairwise_cons.1 hpw
      obtain ⟨-, h2, h3⟩ := hin s List.mem_cons_self
      refine ⟨hfirst s List.mem_cons_self, h2, ih s.stop h3 (fun x hx => (hs x hx).2) ?_ hrest⟩
      exact fun x hx => hin x (List.mem_cons_of_mem s hx)
  exact key _ 0 (by omega) (fun s hs => (hr s hs).1) hr hp

theorem foldr_splice {t : Text} {ss : List Span} {offset : Int} (h0 : 0 ≤ offset)
    (h : Ordered offset t.length ss) :
    ss.foldr (fun s out => Text.splice out s.start s.stop s.insert) t =
      t.take offset.toNat ++ weave t offset ss := by
  induction ss generalizing offset with
  | nil => exact (List.take_append_drop _ _).symm
  | cons s rest ih =>
    obtain ⟨h1, h2, h3⟩ := h
    have hlast := h3.le
    rw [List.foldr_cons, ih (by omega) h3, weave, ← List.append_assoc,
      Text.take_append_slice h1]
    set w := weave t s.stop rest
    have hlen : (t.take s.stop.toNat).length = s.stop.toNat := by
      rw [List.length_take]; omega
    rw [Text.splice_eq h2 (by rw [List.length_append, hlen]; omega),
      List.take_append_of_le_length (by omega), List.take_take, Nat.min_eq_left (by omega),
      List.drop_left' hlen, List.append_assoc]

/-- **An edit that fits weaves its text**: what it keeps and what it inserts, from left to right. -/
theorem apply_eq_weave {e : Edit} {t : Text} (h : e.Fits t) :
    e.apply t = weave t 0 (ascending e.spans) := by
  rw [apply, descending_eq_reverse (h.apart.imp And.left), List.foldl_reverse,
    foldr_splice le_rfl h.ordered]
  rfl

/-! ### Views -/

/-- The text woven so far goes on with what stands in front of a span, and with what it inserts. -/
theorem append_weave_cons (kept before : Text) (offset : Int) (s : Span) (rest : List Span) :
    kept ++ weave before offset (s :: rest) =
      kept ++ (Text.slice before offset s.start ++ s.insert) ++ weave before s.stop rest := by
  simp only [weave, List.append_assoc]

/-- What a span inserts stands behind the text woven so far and what it keeps in front of it. -/
theorem viewsFrom_cons {before kept : Text} {offset : Int} {s : Span} (h0 : 0 ≤ offset)
    (h1 : offset ≤ s.start) (h2 : s.start ≤ s.stop) (h3 : s.stop ≤ before.length)
    (rest : List Span) :
    let gap := Text.slice before offset s.start
    viewsFrom before (kept.length - offset) (s :: rest) =
      ⟨s.start, s.stop, (kept ++ gap).length, (kept ++ (gap ++ s.insert)).length, s.insert,
        Text.slice before s.start s.stop⟩ ::
        viewsFrom before ((kept ++ (gap ++ s.insert)).length - s.stop) rest := by
  intro gap
  have hgap := Text.length_slice h0 h1 (h2.trans h3)
  rw [viewsFrom, Text.sliceRel_eq_slice (h0.trans h1) (h0.trans (h1.trans h2))]
  simp only [Span.growth, Span.removedLength, List.length_append, gap]
  push_cast
  congr 2 <;> omega

/-- What the spans still to come insert starts behind the text woven so far, and in the new text. -/
theorem newStart_of_mem_viewsFrom {before : Text} {ss : List Span} {offset : Int} {kept : Text}
    (h0 : 0 ≤ offset) (hss : Ordered offset before.length ss) {view : View}
    (h : view ∈ viewsFrom before (kept.length - offset) ss) :
    kept.length ≤ view.newStart ∧ view.newStart ≤ (kept ++ weave before offset ss).length := by
  induction ss generalizing offset kept with
  | nil => exact absurd h List.not_mem_nil
  | cons s rest ih =>
    obtain ⟨h1, h2, h3⟩ := hss
    rw [viewsFrom_cons h0 h1 h2 h3.le] at h
    rw [append_weave_cons]
    rcases List.mem_cons.1 h with rfl | h
    · simp only [List.length_append]
      push_cast
      omega
    · obtain ⟨hfirst, hlast⟩ := ih (by omega) h3 h
      refine ⟨?_, hlast⟩
      rw [List.length_append] at hfirst
      push_cast at hfirst
      omega

/-- What the spans of an edit that fits insert starts at places of the new text. -/
theorem Fits.newStart {e : Edit} {t : Text} (h : e.Fits t) {view : View} (hview : view ∈ e.views t) :
    0 ≤ view.newStart ∧ view.newStart ≤ (e.apply t).length := by
  have hstart := @newStart_of_mem_viewsFrom t (ascending e.spans) 0 [] le_rfl h.ordered view hview
  rwa [List.nil_append, ← apply_eq_weave h] at hstart

/-- A span whose view takes nothing away is empty. -/
theorem stop_eq_start_of_removed {before : Text} {ss : List Span} {shift : Int}
    (hss : ∀ s ∈ ss, 0 ≤ s.start ∧ s.start ≤ s.stop ∧ s.stop ≤ before.length)
    (h : ∀ view ∈ viewsFrom before shift ss, view.removed = []) : ∀ s ∈ ss, s.stop = s.start := by
  induction ss generalizing shift with
  | nil => exact fun s hs => absurd hs List.not_mem_nil
  | cons s rest ih =>
    obtain ⟨h0, h1, h2⟩ := hss s List.mem_cons_self
    have hremoved : Text.sliceRel before s.start s.stop = [] := h _ List.mem_cons_self
    have hlen := Text.length_slice h0 h1 h2
    rw [Text.sliceRel_eq_slice h0 (h0.trans h1)] at hremoved
    rw [hremoved] at hlen
    have hs : s.stop = s.start := by
      rw [List.length_nil] at hlen; omega
    have hrest := ih (fun x hx => hss x (List.mem_cons_of_mem s hx))
      fun view hview => h view (List.mem_cons_of_mem _ hview)
    exact fun x hx => (List.mem_cons.1 hx).elim (fun he => he ▸ hs) (hrest x)

end Edit

end TypingAid
