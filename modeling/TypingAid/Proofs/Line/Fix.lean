import TypingAid.Line.Spacing
import TypingAid.Proofs.Text.Bare
import TypingAid.Proofs.Line.Spread

/-!
# Fixes and the caret

The fixes that a spacing rule gives are in order and only take away and put in spaces
(`Fix.Spaces`), whichever of them a scope lets through.  Carrying them out leaves the text as it is
apart from spaces (`Fix.Spaces.bare_applyFrom`), and the caret at its place
(`Fix.Spaces.samePlace`).  So does a style as a whole (`Tracked.samePlace_respace`).
-/

namespace TypingAid

open Text

namespace Fix

/-- The fixes, in a text that stands at `offset`, are in order and do nothing but take away and put
in spaces. -/
inductive Spaces : ℕ → Text → List Fix → Prop where
  | nil {offset : ℕ} {t : Text} : Spaces offset t []
  | cons {offset : ℕ} {f : Fix} {rest : List Fix} (u s v : Text)
      (hstart : f.start = offset + u.length) (hstop : f.stop = f.start + s.length)
      (hs : bare s = []) (hinsert : bare f.insert = []) (hrest : Spaces f.stop v rest) :
      Spaces offset (u ++ (s ++ v)) (f :: rest)

variable {offset : ℕ} {t : Text} {fixes : List Fix}

/-- The fixes are as good with more text in front. -/
theorem Spaces.prepend {k : ℕ} (h : Spaces k t fixes) (w : Text) (hk : k = offset + w.length) :
    Spaces offset (w ++ t) fixes := by
  cases h with
  | nil => exact .nil
  | cons u s v hstart hstop hs hinsert hrest =>
    rw [← List.append_assoc]
    refine .cons (w ++ u) s v ?_ hstop hs hinsert hrest
    rw [List.length_append]; omega

theorem Spaces.filter (h : Spaces offset t fixes) (p : Fix → Bool) :
    Spaces offset t (fixes.filter p) := by
  induction h with
  | nil => exact .nil
  | @cons offset f rest u s v hstart hstop hs hinsert _ ih =>
    rw [List.filter_cons]
    split_ifs
    · exact .cons u s v hstart hstop hs hinsert ih
    · rw [← List.append_assoc]
      exact ih.prepend (u ++ s) (by rw [List.length_append]; omega)

/-- A fix stands at a stretch of spaces. -/
theorem Spaces.exists_stretch (h : Spaces offset t fixes) {f : Fix} (hf : f ∈ fixes) :
    ∃ l m r, t = l ++ (m ++ r) ∧ bare m = [] ∧ f.start = offset + l.length ∧
      f.stop = f.start + m.length := by
  induction h with
  | nil => cases hf
  | @cons offset g rest u s v hstart hstop hs hinsert _ ih =>
    rcases List.mem_cons.1 hf with rfl | hf
    · exact ⟨u, s, v, rfl, hs, hstart, hstop⟩
    · obtain ⟨l, m, r, rfl, hm, hl, hlm⟩ := ih hf
      refine ⟨u ++ (s ++ l), m, r, ?_, hm, ?_, hlm⟩
      · simp only [List.append_assoc]
      · simp only [List.length_append]; omega

theorem Spaces.le_start (h : Spaces offset t fixes) {f : Fix} (hf : f ∈ fixes) :
    offset ≤ f.start := by
  obtain ⟨l, -, -, -, -, hl, -⟩ := h.exists_stretch hf
  omega

theorem Spaces.stop_le (h : Spaces offset t fixes) {f : Fix} (hf : f ∈ fixes) :
    f.start ≤ f.stop ∧ f.stop ≤ offset + t.length := by
  obtain ⟨l, m, r, rfl, -, hl, hm⟩ := h.exists_stretch hf
  simp only [List.length_append]
  omega

/-! ### The text -/

theorem applyFrom_append {f : Fix} {u s : Text} (hstart : f.start = offset + u.length)
    (hstop : f.stop = f.start + s.length) (v : Text) (rest : List Fix) :
    applyFrom offset (u ++ (s ++ v)) (f :: rest) = u ++ (f.insert ++ applyFrom f.stop v rest) := by
  have hu : f.start - offset = u.length := by omega
  have hv : f.stop - offset = (u ++ s).length := by rw [List.length_append]; omega
  rw [applyFrom, hu, hv, List.take_left, ← List.append_assoc u s v, List.drop_left,
    List.append_assoc]

/-- **Fixes leave the text as it is**, apart from spaces. -/
theorem Spaces.bare_applyFrom (h : Spaces offset t fixes) :
    bare (applyFrom offset t fixes) = bare t := by
  induction h with
  | nil => rfl
  | cons u s v hstart hstop hs hinsert _ ih =>
    rw [applyFrom_append hstart hstop]
    simp only [bare_append, hs, hinsert, ih]

/-! ### The caret -/

/-- Fixes behind an offset do not move it. -/
theorem drift_of_forall_lt {x : Int} (h : ∀ f ∈ fixes, x < f.start ∧ f.start ≤ f.stop) :
    drift x fixes = 0 := by
  induction fixes with
  | nil => rfl
  | cons f fixes ih =>
    have hf := h f List.mem_cons_self
    have hshift : f.shift x = x := by
      rw [shift, if_neg (by omega), if_neg (by omega)]
    rw [drift, ih fun g hg => h g (List.mem_cons_of_mem _ hg), hshift]; omega

theorem Spaces.drift_eq_zero (h : Spaces offset t fixes) {x : Int} (hx : x < offset) :
    drift x fixes = 0 :=
  drift_of_forall_lt fun f hf => by
    have h1 := h.le_start hf
    have h2 := h.stop_le hf
    omega

/-- **Fixes leave the caret at its place.** -/
theorem Spaces.samePlace (h : Spaces offset t fixes) {n : ℕ} (hn : n ≤ t.length) :
    SamePlace t n (applyFrom offset t fixes) (shiftAll fixes (offset + n) - offset) := by
  induction h generalizing n with
  | nil =>
    rw [shiftAll, drift, applyFrom, show (_ + n + 0 - _ : Int) = n by omega]
    exact .refl (by omega) (by omega)
  | @cons offset f rest u s v hstart hstop hs hinsert hrest ih =>
    rw [applyFrom_append hstart hstop]
    simp only [List.length_append] at hn
    have hbare := hrest.bare_applyFrom
    rcases Nat.lt_or_ge (offset + n) f.stop with hlt | hge
    · have hdrift : drift (offset + n) rest = 0 := hrest.drift_eq_zero (by omega)
      rcases Nat.lt_or_ge f.start (offset + n) with hin | hout
      · -- among the spaces that go away
        obtain ⟨j, hj⟩ : ∃ j, n = u.length + j := ⟨n - u.length, by omega⟩
        have hy : shiftAll (f :: rest) (offset + n) - offset =
            (u ++ f.insert.take j).length := by
          rw [shiftAll, drift, hdrift, shift, if_neg (by omega), if_pos (by omega),
            List.length_append, List.length_take]
          omega
        rw [hy]
        refine ⟨u ++ s.take j, s.drop j ++ v, u ++ f.insert.take j,
          f.insert.drop j ++ applyFrom f.stop v rest, ?_, ?_, ?_, rfl, ?_, ?_⟩
        · rw [List.append_assoc, ← List.append_assoc (s.take j), List.take_append_drop]
        · rw [List.length_append, List.length_take]; omega
        · rw [List.append_assoc, ← List.append_assoc (f.insert.take j), List.take_append_drop]
        · rw [bare_append, bare_append, Text.bare_take hs, Text.bare_take hinsert]
        · rw [bare_append, bare_append, bare_drop hs, bare_drop hinsert, hbare]
      · -- before the fix
        have hy : shiftAll (f :: rest) (offset + n) - offset = n := by
          rw [shiftAll, drift, hdrift, shift, if_neg (by omega), if_neg (by omega)]; omega
        rw [hy]
        refine (SamePlace.refl (by omega) (by omega)).append ?_
        rw [bare_append, bare_append, hs, hinsert, hbare]
    · -- behind the fix, where the rest of the fixes counts
      obtain ⟨m, hm⟩ : ∃ m, n = u.length + (s.length + m) := ⟨n - u.length - s.length, by omega⟩
      have hx : (offset + n : Int) = f.stop + m := by omega
      have hy : shiftAll (f :: rest) (offset + n) - offset =
          u.length + (f.insert.length + (shiftAll rest (f.stop + m) - f.stop)) := by
        rw [shiftAll, shiftAll, drift, shift, if_pos (by omega), hx]; omega
      rw [hy, hm]
      push_cast
      exact ((ih (by omega)).prepend (hinsert.trans hs.symm)).prepend rfl

end Fix

/-! ### The rules of a style -/

theorem spaces_gapsFrom (rule : GapRule) (before : Text) (offset : ℕ) (t : Text) :
    Fix.Spaces offset t (gapsFrom rule before offset t) := by
  induction t generalizing before offset with
  | nil => exact .nil
  | cons c t ih =>
    have hrest : Fix.Spaces offset (c :: t) (gapsFrom rule (c :: before) (offset + 1) t) :=
      (ih (c :: before) (offset + 1)).prepend [c] rfl
    rw [gapsFrom]
    split_ifs
    · exact .cons [] [] (c :: t) rfl rfl rfl rfl hrest
    · exact hrest

theorem spaces_loosenedFrom (before : Option Char) (offset : ℕ) (t : Text) :
    Fix.Spaces offset t (loosenedFrom before offset t) := by
  induction hn : t.length using Nat.strong_induction_on generalizing before offset t with
  | h n ih =>
    cases t with
    | nil => exact .nil
    | cons c t =>
      subst hn
      rw [loosenedFrom]
      split_ifs with hcond
      · -- one fix takes away the whole run
        simp only [Bool.and_eq_true, decide_eq_true_eq] at hcond
        obtain ⟨⟨rfl, -⟩, -⟩ := hcond
        have hrun : bare (' ' :: t.takeWhile (· = ' ')) = [] := bare_eq_nil_iff.2 fun c hc => by
          rcases List.mem_cons.1 hc with rfl | hc
          · rfl
          · have := List.mem_takeWhile_imp hc
            exact of_decide_eq_true this
        have hrest := ih (t.dropWhile (· = ' ')).length
          (Nat.lt_succ_of_le (List.length_dropWhile_le _ t)) none
          (offset + 1 + (t.takeWhile (· = ' ')).length) _ rfl
        have hsplit : ' ' :: t = [] ++ (' ' :: t.takeWhile (· = ' ') ++ t.dropWhile (· = ' ')) := by
          rw [List.nil_append, List.cons_append, List.takeWhile_append_dropWhile]
        rw [loosenedFrom_spaces (by decide), hsplit]
        refine .cons [] _ _ rfl ?_ hrun rfl ?_
        · rw [List.length_cons]; dsimp only; omega
        · convert hrest using 1
          dsimp only; omega
      · exact (ih t.length (by simp) (some c) (offset + 1) t rfl).prepend [c] rfl

theorem spaces_of_mem_spacingRules {style : Style} {rule : SpacingRule}
    (h : rule ∈ spacingRules style) (t : Text) : Fix.Spaces 0 t (rule t) := by
  rw [spacingRules_eq, List.mem_append, List.mem_ite_nil_right, List.mem_singleton,
    List.mem_map] at h
  rcases h with ⟨-, rfl⟩ | ⟨g, -, rfl⟩
  · exact spaces_loosenedFrom none 0 t
  · exact spaces_gapsFrom g [] 0 t

namespace Tracked

variable {style : Style}

theorem bare_adjust {t : Tracked} {fixes : List Fix} (h : Fix.Spaces 0 t.text fixes) :
    bare (t.adjust fixes).text = bare t.text :=
  (h.filter _).bare_applyFrom

theorem samePlace_adjust {t : Tracked} {fixes : List Fix} (h : Fix.Spaces 0 t.text fixes) {c : Int}
    (hc : t.caret = some c) (h0 : 0 ≤ c) (hle : c ≤ t.text.length) :
    ∃ c', (t.adjust fixes).caret = some c' ∧ SamePlace t.text c (t.adjust fixes).text c' := by
  obtain ⟨n, rfl⟩ := Int.eq_ofNat_of_zero_le h0
  have := (h.filter fun f => Scope.touches t.scope f.start f.stop).samePlace (n := n) (by omega)
  refine ⟨_, by rw [adjust, hc]; rfl, ?_⟩
  simpa only [adjust, Int.natCast_zero, Int.zero_add, Int.sub_zero] using this

/-- **A style keeps a text as it is**, apart from spaces. -/
theorem bare_respace (style : Style) (t : Tracked) : bare (t.respace style).text = bare t.text :=
  List.foldlRecOn (motive := fun t' : Tracked => bare t'.text = bare t.text) (spacingRules style) _
    rfl fun t' ht _ hrule => (bare_adjust (spaces_of_mem_spacingRules hrule t'.text)).trans ht

/-- **A style keeps the caret at its place.** -/
theorem samePlace_respace (style : Style) {t : Tracked} {c : Int} (hc : t.caret = some c)
    (h0 : 0 ≤ c) (hle : c ≤ t.text.length) :
    ∃ c', (t.respace style).caret = some c' ∧ SamePlace t.text c (t.respace style).text c' := by
  refine List.foldlRecOn (motive := fun t' : Tracked => ∃ c', t'.caret = some c' ∧
    SamePlace t.text c t'.text c') (spacingRules style) _ ⟨c, hc, .refl h0 hle⟩ ?_
  rintro t' ⟨d, hd, hsame⟩ rule hrule
  obtain ⟨e, he, hstep⟩ := samePlace_adjust (spaces_of_mem_spacingRules hrule t'.text) hd
    hsame.inside.1 hsame.inside.2
  exact ⟨e, he, hsame.trans hstep⟩

/-- The caret does not matter for the text, and where there is none, none comes. -/
theorem respace_withoutCaret (style : Style) (t : Text) (caret : Option Int) (scope : Option Scope) :
    (respace style ⟨t, caret, scope⟩).text = (respace style ⟨t, none, scope⟩).text ∧
      (respace style ⟨t, none, scope⟩).caret = none := by
  have := List.foldl_rel (l := spacingRules style)
    (f := fun (t : Tracked) rule => t.adjust (rule t.text))
    (g := fun (t : Tracked) rule => t.adjust (rule t.text)) (a := ⟨t, caret, scope⟩)
    (b := ⟨t, none, scope⟩)
    (r := fun t t' => t.text = t'.text ∧ t.scope = t'.scope ∧ t'.caret = none) ⟨rfl, rfl, rfl⟩ ?_
  · exact ⟨this.1, this.2.2⟩
  · rintro rule - t t' ⟨h1, h2, h3⟩
    exact ⟨by simp only [adjust, h1, h2], by simp only [adjust, h1, h2],
      by simp only [adjust, h3, Option.map_none]⟩

end Tracked

end TypingAid
