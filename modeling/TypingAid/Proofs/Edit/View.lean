import TypingAid.Proofs.Edit.Weave
import Mathlib.Algebra.BigOperators.Group.List.Basic
import Mathlib.Algebra.Ring.Int.Defs

/-!
# Both sides of an edit

`Edit.views` says of every span where it is in the text before and where what it inserts is in the
text after.  It goes through the spans from the first to the last and only counts, while
`Edit.apply` carries them out from the last to the first, on a text that changes under it.  The two
agree (`Edit.views_apply`):

* the views show what each span takes away, they say by how much the text grows, and the caret comes
  to stand where the last one stops, for all spans that lie one behind the other;
* if no two spans start at one place, what each one inserts is in the text after where its view
  shows it, and what stands between two spans stands between their views.

Spans that start at one place are sorted the same way for both, as they are listed, although one of
the two walks goes backwards.  So what they insert comes out in the wrong order, and a removal
behind an insertion takes away what has just been inserted (`Edit.apply_insertion_removal`).
-/

namespace TypingAid

open Text

namespace Span

variable {first last : Int} {ss : List Span}

theorem Ordered.inRange (h : Ordered first last ss) :
    ∀ s ∈ ss, first ≤ s.start ∧ s.start ≤ s.stop ∧ s.stop ≤ last := by
  induction ss generalizing first with
  | nil => exact nofun
  | cons s rest ih =>
    obtain ⟨h1, h2, h3⟩ := h
    refine List.forall_mem_cons.2 ⟨⟨h1, h2, h3.le⟩, fun x hx => ?_⟩
    have := ih h3 x hx
    omega

theorem Ordered.pairwise (h : Ordered first last ss) :
    ss.Pairwise fun a b => a.stop ≤ b.start := by
  induction ss generalizing first with
  | nil => exact .nil
  | cons s rest ih =>
    obtain ⟨-, -, h3⟩ := h
    exact List.pairwise_cons.2 ⟨fun x hx => (h3.inRange x hx).1, ih h3⟩

/-- In any order, no two of the spans overlap. -/
theorem Ordered.apart (h : Ordered first last ss) {ss' : List Span} (hperm : ss.Perm ss') :
    ss'.Pairwise fun a b => a.stop ≤ b.start ∨ b.stop ≤ a.start :=
  (List.Perm.pairwise_iff Or.symm hperm).1 (h.pairwise.imp .inl)

end Span

namespace Edit

open TypingAid.Span

/-- What stands between the spans is the same before and after, and so is what stands behind the
last one.  The spans shown lie behind `offset` before and behind `newOffset` after. -/
def KeptBetween (before after : Text) : Int → Int → List View → Prop
  | offset, newOffset, [] => after.drop newOffset.toNat = before.drop offset.toNat
  | offset, newOffset, view :: rest =>
    slice after newOffset view.newStart = slice before offset view.start ∧
      KeptBetween before after view.stop view.newStop rest

variable {e : Edit} {t : Text}

/-! ### What the text after holds -/

/-- What a span inserts is in the text after, where its view shows it. -/
theorem inserted_of_mem_viewsFrom {ss : List Span} {offset : Int} {kept : Text} (h0 : 0 ≤ offset)
    (hss : Ordered offset t.length ss) {view : View}
    (h : view ∈ viewsFrom t (kept.length - offset) ss) :
    slice (kept ++ weave t offset ss) view.newStart view.newStop = view.inserted := by
  induction ss generalizing offset kept with
  | nil => exact absurd h List.not_mem_nil
  | cons s rest ih =>
    obtain ⟨h1, h2, h3⟩ := hss
    rw [viewsFrom_cons h0 h1 h2 h3.le] at h
    rw [append_weave_cons]
    rcases List.mem_cons.1 h with rfl | h
    · have hbetween := slice_between (kept ++ slice t offset s.start) s.insert (weave t s.stop rest)
      rw [← List.length_append] at hbetween
      simpa only [List.append_assoc] using hbetween
    · exact ih (by omega) h3 h

/-- What stands between the spans is kept. -/
theorem keptBetween_viewsFrom {ss : List Span} {offset : Int} {kept : Text} (h0 : 0 ≤ offset)
    (hss : Ordered offset t.length ss) :
    KeptBetween t (kept ++ weave t offset ss) offset kept.length
      (viewsFrom t (kept.length - offset) ss) := by
  induction ss generalizing offset kept with
  | nil => exact List.drop_left
  | cons s rest ih =>
    obtain ⟨h1, h2, h3⟩ := hss
    rw [viewsFrom_cons h0 h1 h2 h3.le, append_weave_cons]
    refine ⟨?_, ih (by omega) h3⟩
    have hbetween := slice_between kept (slice t offset s.start) (s.insert ++ weave t s.stop rest)
    rw [← List.length_append] at hbetween
    simpa only [List.append_assoc] using hbetween

/-! ### What holds in any order -/

theorem lastStop_eq (before : Text) (shift : Int) (ss : List Span) :
    lastStop shift ss = (viewsFrom before shift ss).getLast?.map View.newStop := by
  induction ss generalizing shift with
  | nil => rfl
  | cons s rest ih =>
    rw [lastStop, ih, viewsFrom, List.getLast?_cons]
    cases (viewsFrom before (shift + s.growth) rest).getLast? <;> rfl

/-- The caret comes to stand by itself where the last view stops. -/
theorem naturalCaret_eq (e : Edit) (t : Text) :
    e.naturalCaret = (e.views t).getLast?.map View.newStop := lastStop_eq t 0 _

theorem length_splice {a b : Int} (h0 : 0 ≤ a) (hab : a ≤ b) (hb : b ≤ t.length) (insert : Text) :
    ((splice t a b insert).length : Int) = t.length + (insert.length - (b - a)) := by
  rw [splice_eq hab hb]
  simp only [List.length_append, List.length_take, List.length_drop]
  omega

/-- A text grows by what its spans make it grow, one after the other, as long as a span that has
been carried out takes nothing away from those that come later. -/
theorem length_foldl_splice {ss : List Span}
    (hin : ∀ s ∈ ss, 0 ≤ s.start ∧ s.start ≤ s.stop ∧ s.stop ≤ t.length)
    (hapart : ss.Pairwise fun a b => b.stop ≤ a.start ∨ a.stop = a.start) :
    ((ss.foldl (fun out s => splice out s.start s.stop s.insert) t).length : Int) =
      t.length + (ss.map Span.growth).sum := by
  induction ss generalizing t with
  | nil => simp
  | cons s rest ih =>
    obtain ⟨h0, hle, hlt⟩ := hin s List.mem_cons_self
    obtain ⟨hs, hrest⟩ := List.pairwise_cons.1 hapart
    have hlength := length_splice h0 hle hlt s.insert
    rw [List.foldl_cons, ih ?_ hrest, hlength, List.map_cons, List.sum_cons, Span.growth,
      Span.removedLength]
    · omega
    · intro x hx
      have := hin x (List.mem_cons_of_mem _ hx)
      have := hs x hx
      omega

/-- A span carried out takes nothing away from those before it; one that starts at the same place
may be carried out first, but only if it is an insertion. -/
theorem descending_apart (h : Ordered 0 t.length (ascending e.spans)) :
    (descending e.spans).Pairwise fun a b => b.stop ≤ a.start ∨ a.stop = a.start := by
  have hperm : (ascending e.spans).Perm (descending e.spans) :=
    (ascending_perm e.spans).trans (descending_perm e.spans).symm
  refine ((descending_pairwise e.spans).and (h.apart hperm)).imp_of_mem ?_
  rintro a b ha - ⟨hle, hdisjoint⟩
  have := h.inRange a (hperm.mem_iff.2 ha)
  omega

/-- A view shows what its span takes away and puts in. -/
theorem map_growth_viewsFrom {ss : List Span} {first : Int} (h0 : 0 ≤ first)
    (h : Ordered first t.length ss) (shift : Int) :
    (viewsFrom t shift ss).map (fun v => (v.inserted.length - v.removed.length : Int)) =
      ss.map Span.growth := by
  induction ss generalizing first shift with
  | nil => rfl
  | cons s rest ih =>
    obtain ⟨h1, h2, h3⟩ := h
    have hlength := length_slice (h0.trans h1) h2 h3.le
    rw [viewsFrom, List.map_cons, List.map_cons, ih (by omega) h3, Span.growth, Span.removedLength,
      sliceRel_eq_slice (by omega) (by omega), hlength]

theorem length_apply (h : Ordered 0 t.length (ascending e.spans)) :
    ((e.apply t).length : Int) = t.length +
      ((e.views t).map fun v => (v.inserted.length - v.removed.length : Int)).sum := by
  have hperm : (descending e.spans).Perm (ascending e.spans) :=
    (descending_perm e.spans).trans (ascending_perm e.spans).symm
  have hin : ∀ s ∈ descending e.spans, 0 ≤ s.start ∧ s.start ≤ s.stop ∧ s.stop ≤ t.length :=
    fun s hs => h.inRange s (hperm.mem_iff.1 hs)
  rw [apply, length_foldl_splice hin (descending_apart h), views, map_growth_viewsFrom le_rfl h,
    List.Perm.sum_eq (hperm.map Span.growth)]

theorem removed_of_mem_viewsFrom {ss : List Span} {first : Int} (h0 : 0 ≤ first)
    (h : Ordered first t.length ss) {shift : Int} {view : View}
    (hview : view ∈ viewsFrom t shift ss) : slice t view.start view.stop = view.removed := by
  induction ss generalizing first shift with
  | nil => exact absurd hview List.not_mem_nil
  | cons s rest ih =>
    obtain ⟨h1, h2, h3⟩ := h
    rcases List.mem_cons.1 hview with rfl | hview
    · exact (sliceRel_eq_slice (h0.trans h1) (h0.trans (h1.trans h2))).symm
    · exact ih (by omega) h3 hview

theorem fits_of_ordered (h : Ordered 0 t.length (ascending e.spans))
    (hstart : e.spans.Pairwise fun a b => a.start ≠ b.start) : e.Fits t := by
  have hperm := ascending_perm e.spans
  exact ⟨fun s hs => h.inRange s (hperm.mem_iff.2 hs), hstart.and (h.apart hperm)⟩

/-- **Both sides of an edit.**  The spans lie in the text, and each stops before the next one starts
or where it starts.  Then the views show what is taken away, the text grows by what they show, and
the caret by itself comes to stand where the last one stops.  If no two spans start at one place,
the views show as well where the text after holds what is inserted, and all else in it is what was
there before. -/
theorem views_apply (h : Ordered 0 t.length (ascending e.spans)) :
    (∀ v ∈ e.views t, slice t v.start v.stop = v.removed) ∧
      ((e.apply t).length : Int) = t.length +
        ((e.views t).map fun v => (v.inserted.length - v.removed.length : Int)).sum ∧
      e.naturalCaret = (e.views t).getLast?.map View.newStop ∧
      ((e.spans.Pairwise fun a b => a.start ≠ b.start) →
        (∀ v ∈ e.views t, slice (e.apply t) v.newStart v.newStop = v.inserted) ∧
          KeptBetween t (e.apply t) 0 0 (e.views t)) := by
  refine ⟨fun v hv => removed_of_mem_viewsFrom le_rfl h hv, length_apply h, naturalCaret_eq e t,
    fun hstart => ?_⟩
  rw [apply_eq_weave (fits_of_ordered h hstart)]
  exact ⟨fun v hv => @inserted_of_mem_viewsFrom t _ 0 [] le_rfl h v hv,
    @keptBetween_viewsFrom t _ 0 [] le_rfl h⟩

/-- A replacement at the end, an insertion at the front and a removal in between, listed in another
order. -/
theorem views_apply_three :
    let t : Text := "abcdef".toList
    let e : Edit := { spans := [⟨4, 6, ['y']⟩, ⟨0, 0, ['x', 'x']⟩, ⟨1, 3, []⟩] }
    Ordered 0 t.length (ascending e.spans) ∧ (e.spans.Pairwise fun a b => a.start ≠ b.start) ∧
      e.apply t = "xxady".toList ∧ e.naturalCaret = some 5 ∧
        (∀ v ∈ e.views t, slice (e.apply t) v.newStart v.newStop = v.inserted) ∧
          KeptBetween t (e.apply t) 0 0 (e.views t) := by
  intro t e
  have hordered : Ordered 0 t.length (ascending e.spans) := by decide
  have hstart : e.spans.Pairwise fun a b => a.start ≠ b.start := by decide
  obtain ⟨-, -, hcaret, hviews⟩ := views_apply hordered
  obtain ⟨hinserted, hkept⟩ := hviews hstart
  exact ⟨hordered, hstart, by decide, hcaret.trans (by decide), hinserted, hkept⟩

/-- The first of two spans puts a letter in front of the text, and the second one takes the first
letter of the text away.  The insertion is carried out first, so that the letter taken away is the
one that has just been put in. -/
theorem apply_insertion_removal :
    let t : Text := "ab".toList
    let e : Edit := { spans := [⟨0, 0, ['x']⟩, ⟨0, 1, []⟩] }
    Ordered 0 t.length (ascending e.spans) ∧ e.apply t = "ab".toList ∧
      e.views t = [⟨0, 0, 0, 1, ['x'], []⟩, ⟨0, 1, 1, 1, [], ['a']⟩] ∧
        ¬ ∀ v ∈ e.views t, slice (e.apply t) v.newStart v.newStop = v.inserted := by
  decide

/-- Of two insertions at one place, the one listed first comes out behind the other one. -/
example : ({ spans := [⟨0, 0, ['x']⟩, ⟨0, 0, ['y']⟩] } : Edit).apply [] = ['y', 'x'] := by decide

end Edit

end TypingAid
