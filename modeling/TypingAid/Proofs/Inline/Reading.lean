import TypingAid.Inline.Split
import TypingAid.Proofs.Inline.Touch

/-!
# Reading parts back

`Inline.parse` cuts a line into parts.  This file says when parts that have been put together are
found again:

* `Inline.Loose` : in no plain part does a span start, every other part is a span where it stands,
  and the same holds inside emphasis.  Plain parts may stand next to each other.
* `Inline.glueAll` puts neighbouring plain parts together.
* `Inline.parse_textOf` : reading the text of loose parts gives the parts, glued.
* `Inline.loose_parse`, `Inline.textOf_parse` : what reading gives is loose, and it is the line.
-/

namespace TypingAid

open Text Recognised

/-- No span starts in a text that stands before `rest`. -/
def Text.Plain : Text → Text → Prop
  | [], _ => True
  | c :: t, rest => spanAt? (c :: t ++ rest) = none ∧ Plain t rest

namespace Inline

/-- Parts that reading finds again, apart from plain parts that stand next to each other. -/
inductive Loose : List Inline → Prop where
  | nil : Loose []
  | text {t : Text} {ps : List Inline} (hne : t ≠ []) (h : Plain t (textOf ps)) (hps : Loose ps) :
      Loose (.leaf .text t [] :: ps)
  | copy {kind : PartKind} {s visible : Text} {ps : List Inline} (hkind : kind ≠ .text)
      (h : spanAt? (s ++ textOf ps) = some { kind, length := s.length, visible }) (hps : Loose ps) :
      Loose (.leaf kind s visible :: ps)
  | emphasis {marker : Text} {inner ps : List Inline} (h : Emphasises marker (textOf inner))
      (hinner : Loose inner) (hps : Loose ps) : Loose (.emphasis marker inner :: ps)

/-- A part in front of parts; two plain parts become one. -/
def consPart : Inline → List Inline → List Inline
  | .leaf .text t _, .leaf .text u _ :: ps => .leaf .text (t ++ u) [] :: ps
  | p, ps => p :: ps

mutual

/-- A part in which neighbouring plain parts are put together. -/
def glue : Inline → Inline
  | leaf kind t visible => leaf kind t visible
  | emphasis marker inner => emphasis marker (glueAll inner)

/-- Parts of which neighbouring plain ones are put together. -/
def glueAll : List Inline → List Inline
  | [] => []
  | p :: ps => consPart p.glue (glueAll ps)

end

/-! ### The text of parts -/

theorem textOf_consPart (p : Inline) (ps : List Inline) :
    textOf (consPart p ps) = p.text ++ textOf ps := by
  unfold consPart
  split
  · simp [textOf, text]
  · rfl

mutual

theorem text_glue : (p : Inline) → p.glue.text = p.text
  | leaf _ _ _ => rfl
  | emphasis marker inner => by rw [glue, text, text, textOf_glueAll inner]

theorem textOf_glueAll : (ps : List Inline) → textOf (glueAll ps) = textOf ps
  | [] => rfl
  | p :: ps => by rw [glueAll, textOf_consPart, text_glue p, textOf_glueAll ps, textOf]

end

theorem consPart_consPart (t u : Text) (ps : List Inline) :
    consPart (.leaf .text t []) (consPart (.leaf .text u []) ps) =
      consPart (.leaf .text (t ++ u) []) ps := by
  match ps with
  | [] => rfl
  | .leaf .text v w :: ps => simp [consPart]
  | .leaf .code v w :: ps => rfl
  | .leaf .formula v w :: ps => rfl
  | .leaf .wikilink v w :: ps => rfl
  | .leaf .link v w :: ps => rfl
  | .leaf .url v w :: ps => rfl
  | .leaf .emphasis v w :: ps => rfl
  | .emphasis m inner :: ps => rfl

/-! ### One step of reading -/

/-- The part that a stretch of the line becomes. -/
def ofPart (p : Part) : Inline :=
  if p.marker = [] then .leaf p.kind p.text p.visible else .emphasis p.marker (parse p.inner)

theorem parse_eq_map (line : Text) : parse line = (split line).map ofPart := by
  rw [parse, ← List.attach_map_val (l := split line) (f := ofPart)]
  refine List.map_congr_left fun ⟨p, h⟩ _ => ?_
  simp only [ofPart]
  split_ifs <;> rfl

theorem parse_nil : parse [] = [] := by rw [parse_eq_map, split, splitFrom]; rfl

/-- A plain part has no marker, and nothing of it is set apart. -/
theorem plain_of_mem_splitFrom (offset : ℕ) (t : Text) :
    ∀ p ∈ splitFrom offset t, p.kind = .text → p.marker = [] ∧ p.visible = [] := by
  fun_induction splitFrom offset t with
  | case1 => simp
  | case2 offset c t _ ih =>
    intro p hp hkind
    unfold consText at hp
    split at hp
    · rw [List.mem_singleton.1 hp]; exact ⟨rfl, rfl⟩
    · next q rest heq =>
      split_ifs at hp with hq
      · have hq : q.kind = .text := by simpa [Part.isText] using hq
        rcases List.mem_cons.1 hp with rfl | hp
        · exact ih q (by rw [heq]; simp) hq
        · exact ih p (by rw [heq]; simp [hp]) hkind
      · rcases List.mem_cons.1 hp with rfl | hp
        · exact ⟨rfl, rfl⟩
        · exact ih p (by rw [heq]; exact hp) hkind
  | case3 offset c t r hr n ih =>
    intro p hp hkind
    rcases List.mem_cons.1 hp with rfl | hp
    · obtain ⟨_, _, -, -, -, hshape, -⟩ := exists_of_spanAt? hr
      simp only at hkind
      rw [hkind] at hshape; cases hshape
    · exact ih p hp hkind

theorem map_ofPart_consText {offset k : ℕ} {c : Char} {t : Text} :
    (consText k c (splitFrom offset t)).map ofPart =
      consPart (.leaf .text [c] []) ((splitFrom offset t).map ofPart) := by
  have hplain := plain_of_mem_splitFrom offset t
  cases hs : splitFrom offset t with
  | nil => rfl
  | cons p rest =>
    by_cases hp : p.kind = .text
    · obtain ⟨hm, hv⟩ := hplain p (by rw [hs]; simp) hp
      simp [consText, Part.isText, hp, ofPart, hm, hv, consPart]
    · have hne : ∀ ps, consPart (.leaf .text [c] []) (ofPart p :: ps) =
          .leaf .text [c] [] :: ofPart p :: ps := by
        intro ps
        unfold ofPart
        split_ifs
        · cases hk : p.kind <;> first | exact absurd hk hp | rfl
        · rfl
      simp only [List.map_cons, hne]
      simp [consText, Part.isText, hp, ofPart]

/-- Where a stretch stands in its line does not matter. -/
theorem map_ofPart_splitFrom (offset : ℕ) (t : Text) :
    (splitFrom offset t).map ofPart = parse t := by
  -- by the length of the text, since a span is skipped as a whole
  have key : ∀ (n : ℕ) (t : Text), t.length = n → ∀ i j : ℕ,
      (splitFrom i t).map ofPart = (splitFrom j t).map ofPart := by
    intro n
    induction n using Nat.strong_induction_on with
    | h n ih =>
      intro t hn i j
      cases t with
      | nil => rw [splitFrom, splitFrom]
      | cons c t =>
        subst hn
        rw [splitFrom, splitFrom]
        cases hs : spanAt? (c :: t) with
        | none =>
          simp only [map_ofPart_consText]
          rw [ih t.length (by simp) t rfl (i + 1) (j + 1)]
        | some r =>
          simp only [List.map_cons]
          rw [ih _ (by simp only [List.length_cons, List.length_drop]; omega)
            (t.drop (r.length - 1)) rfl _ (j + (r.length - 1 + 1))]
          rfl
  rw [parse_eq_map, split]
  exact key _ t rfl offset 0

theorem parse_cons_of_none {c : Char} {t : Text} (h : spanAt? (c :: t) = none) :
    parse (c :: t) = consPart (.leaf .text [c] []) (parse t) := by
  rw [parse_eq_map, split, splitFrom, h]
  simp only [map_ofPart_consText, map_ofPart_splitFrom]

theorem parse_append_of_some {s rest : Text} {r : Recognised} (h : spanAt? (s ++ rest) = some r)
    (hlen : r.length = s.length) (hne : s ≠ []) :
    parse (s ++ rest) = ofPart ⟨r.kind, s, 0, r.marker, r.visible⟩ :: parse rest := by
  obtain ⟨c, s, rfl⟩ := List.exists_cons_of_ne_nil hne
  have hn : r.length - 1 = s.length := by simp [hlen]
  rw [List.cons_append] at h ⊢
  rw [parse_eq_map, split, splitFrom, h]
  simp only [List.map_cons, map_ofPart_splitFrom, hn, List.take_left, List.drop_left]

/-- A plain text in front is read as one plain part. -/
theorem parse_append_of_plain {t rest : Text} (hne : t ≠ []) (h : Plain t rest) :
    parse (t ++ rest) = consPart (.leaf .text t []) (parse rest) := by
  induction t with
  | nil => exact absurd rfl hne
  | cons c t ih =>
    obtain ⟨hc, ht⟩ := h
    rw [List.cons_append, parse_cons_of_none (c := c) (t := t ++ rest) hc]
    by_cases hnil : t = []
    · rw [hnil]; rfl
    · rw [ih hnil ht, consPart_consPart]; rfl

/-! ### Reading back -/

theorem inner_emphasis (marker inner : Text) (kind : PartKind) (n : ℕ) (visible : Text) :
    Part.inner ⟨kind, marker ++ inner ++ marker, n, marker, visible⟩ = inner := by
  have hlen : (marker ++ inner ++ marker).length - marker.length = (marker ++ inner).length := by
    simp only [List.length_append]; omega
  rw [Part.inner]
  simp only
  rw [hlen, List.take_left, List.drop_left]

theorem Emphasises.ne_nil {marker inner : Text} (h : Emphasises marker inner) : marker ≠ [] := by
  obtain ⟨m, c, body, hm, rfl, -⟩ := h
  simp

/-- **Loose parts are found again**, up to plain parts that stand next to each other. -/
theorem parse_textOf {ps : List Inline} (h : Loose ps) : parse (textOf ps) = glueAll ps := by
  induction h with
  | nil => exact parse_nil
  | text hne h _ ih => rw [textOf, text, parse_append_of_plain hne h, ih]; rfl
  | @copy kind s visible ps hkind h hps ih =>
    have hne : s ≠ [] := by
      obtain ⟨s', rest, _, hl, hne', -⟩ := exists_of_spanAt? h
      rintro rfl
      exact hne' (List.length_eq_zero_iff.1 hl)
    rw [textOf, text, parse_append_of_some h rfl hne, ih, glueAll, glue]
    cases kind <;> first | exact absurd rfl hkind | rfl
  | @emphasis marker inner ps h hinner hps ihi ih =>
    have hspan := h.spanAt?_eq (textOf ps)
    have hmarker := Emphasises.ne_nil h
    have hlen : (textOf inner).length + 4 = (marker ++ textOf inner ++ marker).length := by
      obtain ⟨m, c, body, hm, rfl, -⟩ := h
      simp
    rw [textOf, text, parse_append_of_some hspan hlen (by simp [hmarker]), ih, ofPart,
      if_neg hmarker, inner_emphasis, ihi]
    rfl

theorem Loose.consText {c : Char} {ps : List Inline} (h : Loose ps)
    (hc : spanAt? (c :: textOf ps) = none) : Loose (consPart (.leaf .text [c] []) ps) := by
  cases h with
  | nil => exact .text (by simp) ⟨hc, trivial⟩ .nil
  | text hne ht hps => exact .text (by simp) ⟨hc, ht⟩ hps
  | @copy kind s visible ps hkind hs hps =>
    have hcons : consPart (.leaf .text [c] []) (.leaf kind s visible :: ps) =
        .leaf .text [c] [] :: .leaf kind s visible :: ps := by
      cases kind <;> first | exact absurd rfl hkind | rfl
    rw [hcons]
    exact .text (by simp) ⟨hc, trivial⟩ (.copy hkind hs hps)
  | emphasis he hi hps => exact .text (by simp) ⟨hc, trivial⟩ (.emphasis he hi hps)

theorem loose_and_textOf_parse (line : Text) : Loose (parse line) ∧ textOf (parse line) = line := by
  -- both at once: that a span stays one depends on the text of the parts behind it
  induction hn : line.length using Nat.strong_induction_on generalizing line with
  | h n ih =>
    subst hn
    cases line with
    | nil => rw [parse_nil]; exact ⟨.nil, rfl⟩
    | cons c t =>
      cases hs : spanAt? (c :: t) with
      | none =>
        obtain ⟨hl, ht⟩ := ih t.length (by simp) t rfl
        rw [parse_cons_of_none hs]
        refine ⟨hl.consText (by rw [ht]; exact hs), ?_⟩
        rw [textOf_consPart, ht]; rfl
      | some r =>
        obtain ⟨s, rest, he, hlen, hne, hshape, hmarker⟩ := exists_of_spanAt? hs
        have hpos := List.length_pos_iff.2 hne
        have hlt : rest.length < (c :: t).length := by rw [he, List.length_append]; omega
        obtain ⟨hl, ht⟩ := ih rest.length hlt rest rfl
        rw [he] at hs ⊢
        rw [parse_append_of_some hs hlen.symm hne, ofPart]
        rcases hmarker with ⟨hm, -⟩ | ⟨hm, hkind, hsplit⟩
        · have hr : r = { kind := r.kind, length := s.length, visible := r.visible } := by
            cases r; simp_all
          have hcopy : Loose (.leaf r.kind s r.visible :: parse rest) := by
            refine .copy (fun hk => by rw [hk] at hshape; cases hshape) ?_ hl
            rw [ht, hs]; exact congrArg some hr
          rw [if_pos hm]
          exact ⟨hcopy, by rw [textOf, ht]; rfl⟩
        · -- what an emphasis encloses is shorter than the line, and is read by itself
          have hinner : Part.inner ⟨r.kind, s, 0, r.marker, r.visible⟩ = r.visible := by
            rw [hsplit]; exact inner_emphasis _ _ _ _ _
          have hlt' : r.visible.length < (c :: t).length := by
            have := List.length_pos_iff.2 hm
            rw [he, hsplit]; simp only [List.length_append]; omega
          obtain ⟨hli, hti⟩ := ih r.visible.length hlt' r.visible rfl
          rw [if_neg hm, hinner]
          refine ⟨.emphasis ?_ hli hl, ?_⟩
          · rw [hsplit] at hs
            exact hti.symm ▸ emphasises_of_spanAt? hs rfl rfl hm
          · rw [textOf, text, ht, hti, hsplit]

/-- Reading finds loose parts. -/
theorem loose_parse (line : Text) : Loose (parse line) := (loose_and_textOf_parse line).1

/-- The parts of a line, put together, are the line. -/
theorem textOf_parse (line : Text) : textOf (parse line) = line := (loose_and_textOf_parse line).2

/-- No two plain parts of a line stand next to each other. -/
theorem glueAll_parse (line : Text) : glueAll (parse line) = parse line := by
  rw [← parse_textOf (loose_parse line), textOf_parse]

end Inline

end TypingAid
