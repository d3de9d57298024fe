import TypingAid.Proofs.Line.Fix

/-!
# What fixes leave alone

`Text.Framed a b t t'` says that `t` goes over to `t'` without a change in its first `a` characters
and in its last `b`.  Changes within a frame may follow each other (`Text.Framed.trans`) or stand
next to each other (`Text.Framed.append`).

Fixes within a frame keep a text in it (`Fix.Spaces.framed`), and offsets as well: what stands
behind the first `a` characters stays there (`Fix.Spaces.le_shiftAll`), and what stands before the
last `b` too (`Fix.Spaces.shiftAll_le`).  So a scope that keeps off both ends does so after every
spacing rule, and a style only works between them (`Tracked.framed_respace`).
-/

namespace TypingAid

namespace Text

/-- `t` goes over to `t'`, and the first `a` characters and the last `b` are none of those that
change. -/
def Framed (a b : Int) (t t' : Text) : Prop :=
  t' = t ∨ ∃ u x y v, t = u ++ (x ++ v) ∧ t' = u ++ (y ++ v) ∧ a ≤ u.length ∧ b ≤ v.length

namespace Framed

variable {a b : Int} {t t' t'' : Text}

theorem refl (a b : Int) (t : Text) : Framed a b t t := .inl rfl

/-- Where there is no frame, anything goes. -/
theorem of_nonpos (ha : a ≤ 0) (hb : b ≤ 0) (t t' : Text) : Framed a b t t' :=
  .inr ⟨[], t, t', [], (List.append_nil t).symm, (List.append_nil t').symm, ha, hb⟩

theorem le_length (h : Framed a b t t') (hb : b ≤ t.length) : b ≤ t'.length := by
  rcases h with rfl | ⟨u, x, y, v, rfl, rfl, -, hv⟩
  · exact hb
  · simp only [List.length_append]; omega

/-- A text that is all frame stays. -/
theorem eq_of_lt (h : Framed a b t t') (hlt : t.length < a ∨ t.length < b) : t' = t := by
  rcases h with h | ⟨u, x, y, v, rfl, -, hu, hv⟩
  · exact h
  · simp only [List.length_append] at hlt; omega

/-- Of two texts that start the same text, one is the start of the other. -/
theorem exists_common_start {u u' v v' : Text} (h : u ++ v = u' ++ v') (hu : a ≤ u.length)
    (hu' : a ≤ u'.length) : ∃ w x x', u = w ++ x ∧ u' = w ++ x' ∧ a ≤ w.length := by
  rcases List.append_eq_append_iff.1 h with ⟨x, hx, -⟩ | ⟨x, hx, -⟩
  · exact ⟨u, [], x, (List.append_nil u).symm, hx, hu⟩
  · exact ⟨u', x, [], hx, (List.append_nil u').symm, hu'⟩

/-- Of two texts that end the same text, one is the end of the other. -/
theorem exists_common_end {u u' v v' : Text} (h : u ++ v = u' ++ v') (hv : b ≤ v.length)
    (hv' : b ≤ v'.length) : ∃ w x x', v = x ++ w ∧ v' = x' ++ w ∧ b ≤ w.length := by
  rcases List.append_eq_append_iff.1 h with ⟨x, -, hx⟩ | ⟨x, -, hx⟩
  · exact ⟨v', x, [], hx, rfl, hv'⟩
  · exact ⟨v, [], x, rfl, hx, hv⟩

/-- Changes within a frame may follow each other. -/
theorem trans (h : Framed a b t t') (h' : Framed a b t' t'') : Framed a b t t'' := by
  rcases h with rfl | ⟨u, x, y, v, rfl, rfl, hu, hv⟩
  · exact h'
  rcases h' with rfl | ⟨u', x', y', v', he, rfl, hu', hv'⟩
  · exact .inr ⟨u, x, y, v, rfl, rfl, hu, hv⟩
  -- the shorter of the two starts is left alone by both, and so is the shorter of the two ends
  obtain ⟨w, p, p', rfl, rfl, hw⟩ := exists_common_start he hu hu'
  rw [← List.append_assoc, ← List.append_assoc _ x' v'] at he
  obtain ⟨z, q, q', rfl, rfl, hz⟩ := exists_common_end he hv hv'
  refine .inr ⟨w, p ++ (x ++ q), p' ++ (y' ++ q'), z, ?_, ?_, hw, hz⟩ <;>
    simp only [List.append_assoc]

/-- Changes within a frame may stand next to each other. -/
theorem append {s s' : Text} (h : Framed a (b - s.length) t t')
    (h' : Framed (a - t.length) b s s') : Framed a b (t ++ s) (t' ++ s') := by
  rcases h with rfl | ⟨u, x, y, v, rfl, rfl, hu, hv⟩ <;>
    rcases h' with rfl | ⟨u', x', y', v', rfl, rfl, hu', hv'⟩
  · exact .refl a b _
  · refine .inr ⟨t' ++ u', x', y', v', ?_, ?_, ?_, hv'⟩
    · rw [List.append_assoc]
    · rw [List.append_assoc]
    · rw [List.length_append]; omega
  · refine .inr ⟨u, x, y, v ++ s', ?_, ?_, hu, ?_⟩
    · simp only [List.append_assoc]
    · simp only [List.append_assoc]
    · rw [List.length_append]; omega
  · refine .inr ⟨u, x ++ (v ++ (u' ++ x')), y ++ (v ++ (u' ++ y')), v', ?_, ?_, hu, hv'⟩ <;>
      simp only [List.append_assoc]

/-- Something in front of the text changes nothing in it. -/
theorem behind (h : Framed a b t t') (ha : a ≤ 0) (hb : b ≤ t.length) (w : Text) :
    Framed a b t (w ++ t') :=
  h.trans (.inr ⟨[], [], w, t', rfl, rfl, ha, h.le_length hb⟩)

/-- What is left alone before `i` and from `j` on. -/
theorem outside {i j : ℕ} (h : Framed i (t.length - j) t t') (hij : i ≤ j) (hi : i ≤ t.length) :
    t.take i <+: t' ∧ t.drop j <:+ t' ∧ i + (t.length - j) ≤ t'.length := by
  rcases h with rfl | ⟨u, x, y, v, rfl, rfl, hu, hv⟩
  · exact ⟨List.take_prefix i t', List.drop_suffix j t', by omega⟩
  · simp only [List.length_append] at hv ⊢
    refine ⟨?_, ?_, by omega⟩
    · rw [List.take_append_of_le_length (by omega)]
      exact (List.take_prefix i u).trans (List.prefix_append u _)
    · have hj : (u ++ x).length ≤ j := by rw [List.length_append]; omega
      rw [← List.append_assoc, List.drop_append, List.drop_of_length_le hj, List.nil_append,
        ← List.append_assoc]
      exact (List.drop_suffix _ v).trans (List.suffix_append (u ++ y) v)

end Framed

end Text

open Text

namespace Fix

variable {offset : ℕ} {t : Text} {fixes : List Fix} {a b x : Int}

/-- **Fixes within a frame leave it alone.** -/
theorem Spaces.framed (h : Spaces offset t fixes)
    (hfix : ∀ f ∈ fixes, a ≤ f.start ∧ f.stop + b ≤ offset + t.length) :
    Framed (a - offset) b t (applyFrom offset t fixes) := by
  induction h with
  | nil => exact .refl ..
  | @cons offset f rest u s v hstart hstop _ _ _ ih =>
    simp only [List.length_append] at hfix
    have hf := hfix f List.mem_cons_self
    have hrest := ih fun g hg => by have := hfix g (List.mem_cons_of_mem f hg); omega
    have hfirst : Framed (a - offset) (b - v.length) (u ++ s) (u ++ f.insert) :=
      .inr ⟨u, s, f.insert, [], by rw [List.append_nil], by rw [List.append_nil], by omega,
        by rw [List.length_nil]; omega⟩
    have hlast : Framed (a - offset - (u ++ s).length) b v (applyFrom f.stop v rest) := by
      convert hrest using 1
      rw [List.length_append]; omega
    have := hfirst.append hlast
    rwa [List.append_assoc, List.append_assoc, ← applyFrom_append hstart hstop] at this

/-- Fixes behind the first `a` characters leave an offset behind them there. -/
theorem Spaces.le_shiftAll (h : Spaces offset t fixes) (hfix : ∀ f ∈ fixes, a ≤ f.start)
    (hx : a ≤ x) : a ≤ shiftAll fixes x := by
  induction h generalizing a with
  | nil => rw [shiftAll, drift]; omega
  | @cons offset f rest u s v hstart hstop _ _ hrest ih =>
    have hf := hfix f List.mem_cons_self
    rw [shiftAll, drift, shift]
    rcases Int.lt_or_le x f.stop with hlt | hle
    · rw [hrest.drift_eq_zero hlt, if_neg (by omega)]
      split_ifs <;> omega
    · -- the rest of the fixes leaves the offset behind this one
      have := ih (fun g hg => Int.ofNat_le.2 (hrest.le_start hg)) hle
      rw [shiftAll] at this
      rw [if_pos hle]; omega

/-- Fixes before the last `b` characters leave an offset before them there. -/
theorem Spaces.shiftAll_le (h : Spaces offset t fixes)
    (hfix : ∀ f ∈ fixes, f.stop + b ≤ offset + t.length) (hx : x + b ≤ offset + t.length) :
    shiftAll fixes x + b ≤ offset + (applyFrom offset t fixes).length := by
  induction h generalizing x with
  | nil => rw [shiftAll, drift, applyFrom]; omega
  | @cons offset f rest u s v hstart hstop _ _ hrest ih =>
    simp only [List.length_append] at hfix hx
    have hf := hfix f List.mem_cons_self
    have hbehind : ∀ g ∈ rest, g.stop + b ≤ f.stop + v.length := fun g hg => by
      have := hfix g (List.mem_cons_of_mem f hg); omega
    rw [applyFrom_append hstart hstop, shiftAll, drift, shift]
    simp only [List.length_append]
    rcases Int.lt_or_le x f.stop with hlt | hle
    · have hframed := hrest.framed (a := f.stop) fun g hg =>
        ⟨Int.ofNat_le.2 (hrest.le_start hg), hbehind g hg⟩
      have := hframed.le_length (by omega)
      rw [hrest.drift_eq_zero hlt, if_neg (by omega)]
      split_ifs <;> omega
    · have := ih hbehind (x := x) (by omega)
      rw [shiftAll] at this
      rw [if_pos hle]; omega

end Fix

/-! ### The rules of a style -/

@[simp] theorem Scope.start_relativeTo (s : Scope) (offset : Int) :
    (s.relativeTo offset).start = s.start - offset := rfl

@[simp] theorem Scope.stop_relativeTo (s : Scope) (offset : Int) :
    (s.relativeTo offset).stop = s.stop - offset := rfl

theorem Scope.touches_some {s : Scope} {start stop : Int} :
    touches (some s) start stop = true ↔ s.start ≤ stop ∧ start ≤ s.stop := by
  rw [touches, Bool.and_eq_true, decide_eq_true_eq, decide_eq_true_eq]

namespace Tracked

variable {style : Style} {a b : Int} {t : Tracked}

/-- The scope of a text keeps off its first `a` characters and its last `b`. -/
def Within (a b : Int) (t : Tracked) : Prop :=
  ∃ s, t.scope = some s ∧ a ≤ s.start ∧ s.stop + b ≤ t.text.length

/-- Fixes are carried out within a frame if those that touch the scope are, and then the scope stays
in it too. -/
theorem framed_adjust {fixes : List Fix} (ht : t.Within a b) (h : Fix.Spaces 0 t.text fixes)
    (hfix : ∀ f ∈ fixes, Scope.touches t.scope f.start f.stop = true →
      a ≤ f.start ∧ f.stop + b ≤ t.text.length) :
    Framed a b t.text (t.adjust fixes).text ∧ (t.adjust fixes).Within a b := by
  obtain ⟨s, hs, ha, hb⟩ := ht
  have hspaces := h.filter fun f => Scope.touches t.scope f.start f.stop
  have hin : ∀ f ∈ fixes.filter fun f => Scope.touches t.scope f.start f.stop,
      a ≤ f.start ∧ f.stop + b ≤ ((0 : ℕ) : Int) + t.text.length := fun f hf => by
    obtain ⟨hmem, htouch⟩ := List.mem_filter.1 hf
    have := hfix f hmem htouch
    omega
  refine ⟨?_, _, by rw [adjust, hs, Option.map_some], ?_, ?_⟩
  · have := hspaces.framed hin
    rwa [Int.natCast_zero, Int.sub_zero] at this
  · rw [← hs]
    exact hspaces.le_shiftAll (fun f hf => (hin f hf).1) ha
  · have := hspaces.shiftAll_le (x := s.stop) (fun f hf => (hin f hf).2) (by omega)
    rw [Int.natCast_zero, Int.zero_add] at this
    rw [← hs]
    exact this

/-- **A style changes nothing outside** what its scope and the spaces that touch it take up. -/
theorem framed_respace (style : Style) (ht : t.Within a b)
    (hspaces : ∀ l m r, t.text = l ++ (m ++ r) → bare m = [] →
      Scope.touches t.scope l.length (l.length + m.length) = true → a ≤ l.length ∧ b ≤ r.length) :
    Framed a b t.text (t.respace style).text := by
  rw [respace, spacingRules_eq, List.foldl_append]
  -- spaces go away first, before anything has moved; then there are only gaps
  have hfirst : Framed a b t.text ((if style.cjkNoSpace then [loosened] else []).foldl
        (fun t rule => t.adjust (rule t.text)) t).text ∧
      ((if style.cjkNoSpace then [loosened] else []).foldl
        (fun t rule => t.adjust (rule t.text)) t).Within a b := by
    split_ifs
    · have hloosened := spaces_loosenedFrom none 0 t.text
      refine framed_adjust ht hloosened fun f hf htouch => ?_
      obtain ⟨l, m, r, hlmr, hm, hl, hlm⟩ := hloosened.exists_stretch hf
      have hlr := hspaces l m r hlmr hm (by
        convert htouch using 2
        · omega
        · omega)
      rw [hlmr]
      simp only [List.length_append]
      omega
    · exact ⟨.refl .., ht⟩
  refine (List.foldlRecOn (motive := fun t' : Tracked => Framed a b t.text t'.text ∧ t'.Within a b)
    ((gapRules style).map gaps) _ hfirst ?_).1
  rintro t' ⟨hframed, hwithin⟩ rule hrule
  obtain ⟨g, -, rfl⟩ := List.mem_map.1 hrule
  have hstep := framed_adjust hwithin (spaces_gapsFrom g [] 0 t'.text) fun f hf htouch => by
    obtain ⟨s, hs, ha, hb⟩ := hwithin
    have := start_of_mem_gapsFrom hf
    rw [hs, Scope.touches_some] at htouch
    omega
  exact ⟨hframed.trans hstep.1, hstep.2⟩

end Tracked

end TypingAid
