import TypingAid.Proofs.Line.Capital
import TypingAid.Proofs.Line.Frame

/-!
# The reach of a scope

Under a scope a line only changes where the scope reaches: from the spaces that end where it starts
to the spaces that start where it ends, and over every span that it touches (`reachStart`,
`reachStop`).

A frame is out of reach of a scope (`Inline.OutOfReach`) if the scope, the spaces and the spans that
it touches are all between the first `a` characters and the last `b`.  This goes over to the first
part and to the rest, which see both the frame and the scope from where they start
(`OutOfReach.head`, `OutOfReach.tail`).  By recursion over the parts, formatting leaves such a frame
alone (`Inline.framed_formatAll`), and so do lines outside of the reach (`formatLine_outside`).
-/

namespace TypingAid

open Text

/-! ### The reach -/

/-- The spans of a line that the stretch from `start` to `stop` touches, at their edges too. -/
def touchedSpans (line : Text) (start stop : ℕ) : List Part :=
  (Inline.split line).filter fun p => !p.isText && decide (start ≤ p.stop ∧ p.start ≤ stop)

/-- Where the reach of a scope starts: with the spaces before it, or with a span that it touches. -/
def reachStart (line : Text) (start stop : ℕ) : ℕ :=
  ((touchedSpans line start stop).map Part.start).foldr min
    (start - ((line.take start).reverse.takeWhile (· = ' ')).length)

/-- Where the reach of a scope stops: with the spaces behind it, or with a span that it touches. -/
def reachStop (line : Text) (start stop : ℕ) : ℕ :=
  ((touchedSpans line start stop).map Part.stop).foldr max
    (stop + ((line.drop stop).takeWhile (· = ' ')).length)

section Reach

variable {line l m r : Text} {p : Part}

theorem foldr_min_le (ns : List ℕ) (n : ℕ) : ns.foldr min n ≤ n ∧ ∀ k ∈ ns, ns.foldr min n ≤ k := by
  induction ns with
  | nil => simp
  | cons k ns ih =>
    rw [List.foldr_cons]
    refine ⟨(Nat.min_le_right ..).trans ih.1, fun j hj => ?_⟩
    rcases List.mem_cons.1 hj with rfl | hj
    · exact Nat.min_le_left ..
    · exact (Nat.min_le_right ..).trans (ih.2 j hj)

theorem le_foldr_max (ns : List ℕ) (n : ℕ) : n ≤ ns.foldr max n ∧ ∀ k ∈ ns, k ≤ ns.foldr max n := by
  induction ns with
  | nil => simp
  | cons k ns ih =>
    rw [List.foldr_cons]
    refine ⟨ih.1.trans (Nat.le_max_right ..), fun j hj => ?_⟩
    rcases List.mem_cons.1 hj with rfl | hj
    · exact Nat.le_max_left ..
    · exact (ih.2 j hj).trans (Nat.le_max_right ..)

theorem mem_touchedSpans {start stop : ℕ} : p ∈ touchedSpans line start stop ↔
    p ∈ Inline.split line ∧ p.isText = false ∧ start ≤ p.stop ∧ p.start ≤ stop := by
  simp [touchedSpans]

theorem reachStart_le (line : Text) (start stop : ℕ) : reachStart line start stop ≤ start :=
  (foldr_min_le ..).1.trans (Nat.sub_le ..)

theorem le_reachStop (line : Text) (start stop : ℕ) : stop ≤ reachStop line start stop :=
  (Nat.le_add_right ..).trans (le_foldr_max ..).1

/-- A span that the scope touches is in its reach. -/
theorem span_in_reach {start stop : ℕ} (h : p ∈ touchedSpans line start stop) :
    reachStart line start stop ≤ p.start ∧ p.stop ≤ reachStop line start stop :=
  ⟨(foldr_min_le ..).2 _ (List.mem_map_of_mem h), (le_foldr_max ..).2 _ (List.mem_map_of_mem h)⟩

theorem length_le_takeWhile {w : Text} (hw : bare w = []) (rest : Text) :
    w.length ≤ ((w ++ rest).takeWhile (· = ' ')).length := by
  rw [List.takeWhile_append_of_pos fun c hc => decide_eq_true (bare_eq_nil_iff.1 hw c hc),
    List.length_append]
  exact Nat.le_add_right ..

/-- Spaces that the scope touches are in its reach. -/
theorem spaces_in_reach {start stop : ℕ} (hm : bare m = []) (hstart : start ≤ l.length + m.length)
    (hstop : l.length ≤ stop) : reachStart (l ++ (m ++ r)) start stop ≤ l.length ∧
      l.length + m.length ≤ reachStop (l ++ (m ++ r)) start stop := by
  constructor
  · -- the part of them before the start belongs to the run that ends there
    have htake : (l ++ (m ++ r)).take start =
        l.take start ++ m.take (start - l.length) := by
      rw [List.take_append, List.take_append_of_le_length (by omega)]
    have hrun := length_le_takeWhile (w := (m.take (start - l.length)).reverse)
      (by rw [bare, List.filter_reverse, ← bare, bare_take hm, List.reverse_nil])
      (l.take start).reverse
    rw [← List.reverse_append, ← htake, List.length_reverse, List.length_take] at hrun
    have := (foldr_min_le ((touchedSpans (l ++ (m ++ r)) start stop).map Part.start)
      (start - (((l ++ (m ++ r)).take start).reverse.takeWhile (· = ' ')).length)).1
    rw [reachStart]; omega
  · -- the part of them behind the stop belongs to the run that starts there
    have hdrop : (l ++ (m ++ r)).drop stop =
        m.drop (stop - l.length) ++ r.drop (stop - l.length - m.length) := by
      rw [List.drop_append, List.drop_of_length_le hstop, List.nil_append, List.drop_append]
    have hrun := length_le_takeWhile (bare_drop hm (stop - l.length))
      (r.drop (stop - l.length - m.length))
    rw [← hdrop, List.length_drop] at hrun
    have := (le_foldr_max ((touchedSpans (l ++ (m ++ r)) start stop).map Part.stop)
      (stop + (((l ++ (m ++ r)).drop stop).takeWhile (· = ' ')).length)).1
    rw [reachStop]; omega

end Reach

/-! ### Where the parts of a line stand -/

namespace Inline

/-- The parts follow each other, from `offset` on. -/
def Placed : ℕ → List Part → Prop
  | _, [] => True
  | offset, p :: ps => p.start = offset ∧ Placed p.stop ps

theorem Placed.consText {offset : ℕ} {ps : List Part} (h : Placed (offset + 1) ps) (c : Char) :
    Placed offset (consText offset c ps) := by
  cases ps with
  | nil => exact ⟨rfl, trivial⟩
  | cons p ps =>
    obtain ⟨hstart, hps⟩ := h
    rw [Inline.consText]
    split_ifs
    · refine ⟨rfl, ?_⟩
      convert hps using 1
      simp only [Part.stop, List.length_cons, hstart]; omega
    · exact ⟨rfl, hstart, hps⟩

theorem placed_splitFrom (offset : ℕ) (t : Text) : Placed offset (splitFrom offset t) := by
  fun_induction splitFrom offset t with
  | case1 => trivial
  | case2 offset c t _ ih => exact ih.consText c
  | case3 offset c t r hr n ih =>
    refine ⟨rfl, ?_⟩
    have hle : n ≤ t.length := by
      obtain ⟨s, rest, he, hlen, hne, -⟩ := exists_of_spanAt? hr
      have := congrArg List.length he
      simp only [List.length_cons, List.length_append] at this
      omega
    convert ih using 1
    rw [Part.stop, List.length_cons, List.length_take, Nat.min_eq_left hle]

theorem mem_of_mem_consText {offset : ℕ} {c : Char} {ps : List Part} {p : Part}
    (h : p ∈ consText offset c ps) (hkind : p.kind ≠ .text) : p ∈ ps := by
  unfold consText at h
  split at h
  · rw [List.mem_singleton.1 h] at hkind; exact absurd rfl hkind
  · next q rest =>
    split_ifs at h with hq
    · rcases List.mem_cons.1 h with rfl | h
      · exact absurd (by simpa [Part.isText] using hq) hkind
      · exact List.mem_cons_of_mem q h
    · rcases List.mem_cons.1 h with rfl | h
      · exact absurd rfl hkind
      · exact h

/-- A span with a marker is what the marker encloses, between the marker and the marker again. -/
theorem text_of_mem_splitFrom (offset : ℕ) (t : Text) :
    ∀ p ∈ splitFrom offset t, p.kind ≠ .text →
      p.marker = [] ∨ p.text = p.marker ++ p.inner ++ p.marker := by
  fun_induction splitFrom offset t with
  | case1 => simp
  | case2 offset c t _ ih =>
    intro p hp hkind
    exact ih p (mem_of_mem_consText hp hkind) hkind
  | case3 offset c t r hr n ih =>
    intro p hp hkind
    rcases List.mem_cons.1 hp with rfl | hp
    · obtain ⟨s, rest, he, hlen, hne, -, ⟨hm, -⟩ | ⟨-, -, rfl⟩⟩ := exists_of_spanAt? hr
      · exact .inl hm
      · have hpos := List.length_pos_iff.2 hne
        have htext : c :: t.take n = r.marker ++ r.visible ++ r.marker := by
          rw [← List.take_succ_cons, he, show n + 1 = r.length by omega, ← hlen, List.take_left]
        refine .inr ?_
        rw [htext, inner_emphasis]
    · exact ih p hp hkind

theorem text_ofPart {offset : ℕ} {t : Text} {p : Part} (h : p ∈ splitFrom offset t) :
    (ofPart p).text = p.text ∧ (ofPart p).isText = p.isText := by
  by_cases hm : p.marker = []
  · rw [ofPart, if_pos hm]
    exact ⟨rfl, rfl⟩
  · have hkind : p.kind ≠ .text := fun h' => hm (plain_of_mem_splitFrom offset t p h h').1
    have htext := (text_of_mem_splitFrom offset t p h hkind).resolve_left hm
    rw [ofPart, if_neg hm, text, textOf_parse]
    refine ⟨htext.symm, ?_⟩
    simp [isText, Part.isText, hkind]

theorem textOf_append (ps qs : List Inline) : textOf (ps ++ qs) = textOf ps ++ textOf qs := by
  induction ps with
  | nil => rfl
  | cons p ps ih => rw [List.cons_append, textOf, textOf, ih, List.append_assoc]

/-- Where a part stands among parts that follow each other. -/
theorem Placed.start_eq {offset : ℕ} {ps : List Part} (h : Placed offset ps) {l r : List Part}
    {p : Part} (hps : ps = l ++ p :: r) (htext : ∀ q ∈ ps, (ofPart q).text = q.text) :
    p.start = offset + (textOf (l.map ofPart)).length := by
  subst hps
  induction l generalizing offset with
  | nil => exact h.1
  | cons q l ih =>
    obtain ⟨hstart, hl⟩ := h
    have := ih hl fun p hp => htext p (List.mem_cons_of_mem q hp)
    rw [this, List.map_cons, textOf, List.length_append, htext q List.mem_cons_self, Part.stop,
      hstart]
    omega

/-- A part of the line as it is read is a stretch of the line. -/
theorem exists_stretch_of_parse {line : Text} {l r : List Inline} {p : Inline}
    (h : parse line = l ++ p :: r) : ∃ q ∈ split line, q.isText = p.isText ∧
      q.start = (textOf l).length ∧ q.stop = (textOf l).length + p.text.length := by
  rw [parse_eq_map, List.map_eq_append_iff] at h
  obtain ⟨l, ps, hsplit, rfl, h⟩ := h
  obtain ⟨q, r, rfl, rfl, rfl⟩ := List.map_eq_cons_iff.1 h
  have hmem : q ∈ split line := by rw [hsplit]; simp
  have hstart := (placed_splitFrom 0 line).start_eq hsplit fun q hq => (text_ofPart hq).1
  obtain ⟨htext, hkind⟩ := text_ofPart hmem
  refine ⟨q, hmem, hkind.symm, by rw [hstart, Nat.zero_add], ?_⟩
  rw [Part.stop, hstart, htext, Nat.zero_add]

/-! ### Frames out of reach -/

/-- The scope, the spaces that it touches and the spans that it touches are behind the first `a`
characters of the parts and before the last `b`. -/
structure OutOfReach (a b : Int) (s : Scope) (ps : List Inline) : Prop where
  start : a ≤ s.start
  stop : s.stop + b ≤ (textOf ps).length
  spaces : ∀ l m r, textOf ps = l ++ (m ++ r) → bare m = [] →
    s.start ≤ l.length + m.length → l.length ≤ s.stop → a ≤ l.length ∧ b ≤ r.length
  spans : ∀ l p r, ps = l ++ p :: r → p.isText = false →
    s.start ≤ (textOf l).length + p.text.length → (textOf l).length ≤ s.stop →
    a ≤ (textOf l).length ∧ b ≤ (textOf r).length

namespace OutOfReach

variable {a b : Int} {s : Scope} {p : Inline} {ps : List Inline}

/-- If the scope touches a span in front, there is no frame before it. -/
theorem span (h : OutOfReach a b s (p :: ps)) (hp : p.isText = false)
    (hstart : s.start ≤ p.text.length) (hstop : 0 ≤ s.stop) : a ≤ 0 ∧ b ≤ (textOf ps).length :=
  h.spans [] p ps rfl hp (by rw [textOf, List.length_nil]; omega) hstop

theorem span_of_touches {start : ℕ} (h : OutOfReach a b (s.relativeTo start) (p :: ps))
    (hp : p.isText = false)
    (htouch : Scope.touches (some s) start (start + p.text.length : ℕ) = true) :
    a ≤ 0 ∧ b ≤ (textOf ps).length := by
  rw [Scope.touches_some] at htouch
  push_cast at htouch
  refine h.span hp ?_ ?_
  · rw [Scope.start_relativeTo]; omega
  · rw [Scope.stop_relativeTo]; omega

theorem head (h : OutOfReach a b s (p :: ps)) : OutOfReach a (b - (textOf ps).length) s [p] where
  start := h.start
  stop := by
    have := h.stop
    rw [textOf, List.length_append] at this
    rw [textOf, textOf, List.append_nil]; omega
  spaces l m r hlmr hm hstart hstop := by
    rw [textOf, textOf, List.append_nil] at hlmr
    have := h.spaces l m (r ++ textOf ps) (by rw [textOf, hlmr]; simp only [List.append_assoc]) hm
      hstart hstop
    rw [List.length_append] at this; omega
  spans l q r hps hq hstart hstop := by
    obtain ⟨rfl, rfl, rfl⟩ : l = [] ∧ p = q ∧ r = [] := by
      cases l with
      | nil => simpa using hps
      | cons => simp at hps
    rw [textOf, List.length_nil] at hstart hstop ⊢
    have := h.span hq (by omega) hstop
    omega

theorem tail (h : OutOfReach a b s (p :: ps)) :
    OutOfReach (a - p.text.length) b (s.relativeTo p.text.length) ps where
  start := by
    have := h.start
    rw [Scope.start_relativeTo]; omega
  stop := by
    have := h.stop
    rw [textOf, List.length_append] at this
    rw [Scope.stop_relativeTo]; omega
  spaces l m r hlmr hm hstart hstop := by
    rw [Scope.start_relativeTo] at hstart
    rw [Scope.stop_relativeTo] at hstop
    have := h.spaces (p.text ++ l) m r (by rw [textOf, hlmr, List.append_assoc]) hm
    rw [List.length_append] at this; omega
  spans l q r hps hq hstart hstop := by
    rw [Scope.start_relativeTo] at hstart
    rw [Scope.stop_relativeTo] at hstop
    have := h.spans (p :: l) q r (by rw [hps, List.cons_append]) hq
    rw [textOf, List.length_append] at this; omega

/-- A scope that is not in the parts reaches nothing of them. -/
theorem of_untouched (h : (textOf ps).length < s.start ∨ s.stop < 0) :
    OutOfReach s.start ((textOf ps).length - s.stop) s ps where
  start := Int.le_refl _
  stop := by omega
  spaces l m r hlmr _ hstart hstop := by
    rw [hlmr] at h
    simp only [List.length_append] at h
    omega
  spans l p r hps _ hstart hstop := by
    rw [hps, textOf_append, textOf] at h
    simp only [List.length_append] at h
    omega

end OutOfReach

/-! ### Formatting -/

/-- A blank between parts comes where the scope touches the gap, or the span on one of its sides. -/
theorem nonpos_of_blankBetween {a b : Int} (style : Style) {s : Scope} (caret : Option Int)
    {start : ℕ} {p : Inline} {ps : List Inline} {previous : Option Neighbour}
    (h : OutOfReach a b (s.relativeTo start) (p :: ps))
    (hprevious : ∀ left ∈ previous, left.kind ≠ .text →
      Scope.touches (some s) left.start left.stop = true → a ≤ 0 ∧ b ≤ (textOf (p :: ps)).length)
    (hblank : blankBetween style (some s) previous (p.format style caret (some s) start).1 ≠ []) :
    a ≤ 0 ∧ b ≤ (textOf (p :: ps)).length := by
  cases previous with
  | none => exact absurd rfl hblank
  | some left =>
    rw [blankBetween] at hblank
    split_ifs at hblank with hb
    · have htouches := (Bool.and_eq_true_iff.1 hb).1
      simp only [Neighbour.boundaryTouches, Bool.or_eq_true, Bool.and_eq_true, decide_eq_true_eq,
        start_format, stop_format, Scope.touches_some] at htouches
      rcases htouches with (hgap | ⟨hkind, htouch⟩) | ⟨hkind, htouch⟩
      · have hstart := h.start
        have hstop := h.stop
        rw [Scope.start_relativeTo] at hstart
        rw [Scope.stop_relativeTo] at hstop
        omega
      · exact hprevious left rfl hkind (Scope.touches_some.2 htouch)
      · rw [ne_eq, kind_format, Bool.not_eq_true] at hkind
        have := h.span_of_touches hkind (Scope.touches_some.2 htouch)
        rw [textOf, List.length_append]; omega
    · exact absurd rfl hblank

mutual

theorem framed_format (style : Style) (caret : Option Int) (s : Scope) (start : ℕ) {a b : Int} :
    (p : Inline) → OutOfReach a b (s.relativeTo start) [p] →
    Framed a b p.text (p.format style caret (some s) start).1.text
  | leaf kind t visible, h => by
    have htext : textOf [leaf kind t visible] = t := by rw [textOf, textOf, List.append_nil, text]
    rw [format]
    split_ifs
    · refine Tracked.framed_respace style (t := ⟨t, _, some (s.relativeTo start)⟩)
        ⟨s.relativeTo start, rfl, h.start, ?_⟩ fun l m r hlmr hm htouch => ?_
      · have := h.stop
        rwa [htext] at this
      · rw [Scope.touches_some] at htouch
        exact h.spaces l m r (htext.trans hlmr) hm htouch.1 htouch.2
    · exact .refl ..
  | emphasis marker inner, h => by
    by_cases htouch : (s.relativeTo start).start ≤ (emphasis marker inner).text.length ∧
        0 ≤ (s.relativeTo start).stop
    · -- nothing of a span that the scope touches is out of its reach
      obtain ⟨ha, hb⟩ := h.span rfl htouch.1 htouch.2
      exact .of_nonpos ha (by rw [textOf, List.length_nil] at hb; omega) _ _
    · have hout : (textOf inner).length <
            (((s.relativeTo start).relativeTo marker.length).relativeTo (0 : ℕ)).start ∨
          (((s.relativeTo start).relativeTo marker.length).relativeTo (0 : ℕ)).stop < 0 := by
        rw [text, List.length_append, List.length_append] at htouch
        simp only [Scope.start_relativeTo, Scope.stop_relativeTo] at htouch ⊢
        omega
      have hinner := framed_formatAll style ((localCaret caret start
        (start + (marker.length + (textOf inner).length + marker.length))).bind
        (localCaret · marker.length (marker.length + (textOf inner).length)))
        ((s.relativeTo start).relativeTo marker.length) none 0 none 0 inner (by simp)
        (.of_untouched hout)
      have hsame := hinner.eq_of_lt (hout.imp_right fun h => by omega)
      rw [format]
      simp only [Option.map_some, hsame, text]
      exact .refl ..

/-- **Formatting leaves alone what is out of reach of the scope.** -/
theorem framed_formatAll (style : Style) (caret : Option Int) (s : Scope) (first : Option ℕ)
    (start : ℕ) (previous : Option Neighbour) (length : ℕ) {a b : Int} :
    (ps : List Inline) →
    (∀ left ∈ previous, left.kind ≠ .text → Scope.touches (some s) left.start left.stop = true →
      a ≤ 0 ∧ b ≤ (textOf ps).length) →
    OutOfReach a b (s.relativeTo start) ps →
    Framed a b (textOf ps)
      (formatAll style caret (some s) first start previous length ps).text
  | [], _, _ => .refl ..
  | p :: ps, hprevious, h => by
    have hp := framed_format style caret s start p h.head
    have hblank := nonpos_of_blankBetween style caret h hprevious
    have hkind := kind_format style caret (some s) start p
    have hstart := start_format style caret (some s) start p
    have hstop := stop_format style caret (some s) start p
    rcases hnow : p.format style caret (some s) start with ⟨now, local?⟩
    rw [hnow] at hp hblank hkind hstart hstop
    have htail : OutOfReach (a - p.text.length) b
        (s.relativeTo (start + p.text.length : ℕ)) ps := by
      convert h.tail using 1
      simp only [Scope.relativeTo, Int.natCast_add, Int.sub_sub]
    have hps := framed_formatAll style caret s first (start + p.text.length) (some now)
      (length + (blankBetween style (some s) previous now).length + now.text.length) ps
      (fun left hleft hne htouch => by
        obtain rfl := Option.some.inj hleft
        rw [ne_eq, hkind, Bool.not_eq_true] at hne
        rw [hstart, hstop] at htouch
        have := h.span_of_touches hne htouch
        omega) htail
    have hboth : Framed a b (textOf (p :: ps)) (now.text ++ _) := hp.append hps
    rw [text_formatAll_cons hnow]
    by_cases hnil : blankBetween style (some s) previous now = []
    · rw [hnil, List.nil_append]
      rw [hnil] at hboth
      exact hboth
    · obtain ⟨ha, hb⟩ := hblank hnil
      exact hboth.behind ha hb _

end

end Inline

/-! ### The line -/

/-- What a line has before and behind the reach of a scope is out of its reach. -/
theorem outOfReach_parse {line : Text} (start : ℕ) {stop : ℕ} (h : stop ≤ line.length) :
    Inline.OutOfReach (reachStart line start stop) (line.length - reachStop line start stop)
      ⟨start, stop⟩ (Inline.parse line) where
  start := Int.ofNat_le.2 (reachStart_le line start stop)
  stop := by
    have := le_reachStop line start stop
    rw [Inline.textOf_parse]
    dsimp only; omega
  spaces l m r hlmr hm hstart hstop := by
    dsimp only at hstart hstop
    obtain rfl : line = l ++ (m ++ r) := (Inline.textOf_parse line).symm.trans hlmr
    have hfirst : start ≤ l.length + m.length := by omega
    have hlast : l.length ≤ stop := by omega
    have := spaces_in_reach (r := r) hm hfirst hlast
    simp only [List.length_append]
    omega
  spans l p r hps hp hstart hstop := by
    dsimp only at hstart hstop
    obtain ⟨q, hq, hkind, hqstart, hqstop⟩ := Inline.exists_stretch_of_parse hps
    have := span_in_reach (mem_touchedSpans.2 ⟨hq, hkind.trans hp, by omega, by omega⟩ :
      q ∈ touchedSpans line start stop)
    have hlength := congrArg List.length (Inline.textOf_parse line)
    rw [hps, Inline.textOf_append, Inline.textOf] at hlength
    simp only [List.length_append] at hlength
    omega

/-- **Nothing outside the reach of the scope changes**, in a style without capitals: the new line
starts with what the line has before the reach, ends with what it has behind it, and these do not
overlap. -/
theorem formatLine_outside {style : Style} (hstyle : style.autoCapital = false) {line : Text}
    {start stop : ℕ} (hle : start ≤ stop) (h : stop ≤ line.length) (caret : Option Int) :
    let newLine := (formatLine style line caret (some ⟨start, stop⟩)).1
    line.take (reachStart line start stop) <+: newLine ∧
      line.drop (reachStop line start stop) <:+ newLine ∧
      reachStart line start stop + (line.length - reachStop line start stop) ≤ newLine.length := by
  intro newLine
  have hnew : newLine = (formatParts style line caret (some ⟨start, stop⟩)).text := by
    by_cases hline : line = []
    · subst hline
      rw [formatParts, Inline.parse_nil]
      rfl
    · change (formatLine style line caret _).1 = _
      rw [formatLine_eq hline, Formatted.capitalize, if_neg (by simp [hstyle])]
  have hreach := outOfReach_parse start h
  have hframed := Inline.framed_formatAll style (caret.map fun c => (clamp line c : Int))
    ⟨start, stop⟩ (some (leadLength line)) 0 none 0 (Inline.parse line) (by simp)
    (by simpa [Scope.relativeTo] using hreach)
  rw [Inline.textOf_parse] at hframed
  have hstart := reachStart_le line start stop
  have hstop := le_reachStop line start stop
  rw [hnew]
  exact hframed.outside (by omega) (by omega)

/-- The scope goes from the end of the code span to the spaces; both gaps that are out of its reach
stay as they are. -/
theorem formatLine_outside_code :
    let style : Style := { autoCapital := false }
    let line : Text := "中b`x`中  中a".toList
    let newLine : Text := "中b `x` 中中a".toList
    style.autoCapital = false ∧ 6 ≤ line.length ∧ reachStart line 5 6 = 2 ∧ reachStop line 5 6 = 8 ∧
      formatLine style line none (some ⟨5, 6⟩) = (newLine, 10) ∧
      line.take 2 <+: newLine ∧ line.drop 8 <:+ newLine ∧
      2 + (line.length - 8) ≤ newLine.length := by
  intro style line newLine
  have hline : formatLine style line none (some ⟨5, 6⟩) = (newLine, 10) := by decide +kernel
  have hstart : reachStart line 5 6 = 2 := by decide +kernel
  have hstop : reachStop line 5 6 = 8 := by decide +kernel
  have houtside := @formatLine_outside style rfl line 5 6 (by decide) (by decide) none
  rw [hstart, hstop] at houtside
  have hnew : (formatLine style line none (some ⟨(5 : ℕ), (6 : ℕ)⟩)).1 = newLine :=
    congrArg Prod.fst hline
  rw [hnew] at houtside
  exact ⟨rfl, by decide, hstart, hstop, hline, houtside⟩

end TypingAid
