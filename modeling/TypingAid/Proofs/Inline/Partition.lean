import TypingAid.Proofs.Inline.Pattern
import TypingAid.Proofs.Inline.Reading
import TypingAid.Proofs.Text.Slice
import Mathlib.Data.List.Chain

/-!
# The parts of a line make it up

`Inline.split` cuts a line at offsets, and all later work on a line goes by these offsets.

* `Inline.Cuts` : parts cut a text if each of them is what is found in the place where it stands,
  with all of the text behind it, and plain parts are as long as they can be.
* `Inline.cuts_splitFrom` : the parts that a line is split into cut it.
* `Inline.split_partition` : what follows for the line: its parts stand one behind the other and
  leave nothing out, no span goes unseen, and code and emphasis end as early as they can.
-/

namespace TypingAid

open Text Recognised

/-- In no place of a plain text does a span start. -/
theorem Text.Plain.spanAt?_drop {t rest : Text} (h : Plain t rest) {i : ℕ} (hi : i < t.length) :
    spanAt? ((t ++ rest).drop i) = none := by
  induction t generalizing i with
  | nil => cases hi
  | cons c t ih =>
    cases i with
    | zero => exact h.1
    | succ i => exact ih h.2 (Nat.lt_of_succ_lt_succ hi)

namespace Inline

variable {n : ℕ} {c : Char} {t rest : Text} {p : Part} {ps : List Part}

/-! ### Parts that stand where they were found -/

/-- A part is what is found where it stands, in front of `rest`. -/
structure Fits (p : Part) (rest : Text) : Prop where
  plain : p.kind = .text → Plain p.text rest
  span : p.kind ≠ .text → spanAt? (p.text ++ rest) =
    some { kind := p.kind, length := p.text.length, marker := p.marker, visible := p.visible }

/-- Parts cut a text that stands at `n` in its line: each is found where it stands, and a plain part
ends only where a span starts or the text ends. -/
inductive Cuts : ℕ → Text → List Part → Prop where
  | nil {n : ℕ} : Cuts n [] []
  | cons {n : ℕ} {p : Part} {rest : Text} {ps : List Part} (hstart : p.start = n)
      (hne : p.text ≠ []) (h : Fits p rest)
      (hnext : p.kind = .text → ∀ q ∈ ps.head?, q.kind ≠ .text) (hps : Cuts p.stop rest ps) :
      Cuts n (p.text ++ rest) (p :: ps)

/-- Plain text of one character in front of parts that begin with a span, if they begin at all. -/
theorem Cuts.cons_text (h : Cuts (n + 1) t ps) (hc : spanAt? (c :: t) = none)
    (hnext : ∀ q ∈ ps.head?, q.kind ≠ .text) :
    Cuts n (c :: t) ({ kind := .text, text := [c], start := n } :: ps) :=
  .cons (p := { kind := .text, text := [c], start := n }) rfl (List.cons_ne_nil _ _)
    ⟨fun _ => ⟨hc, trivial⟩, fun hkind => absurd rfl hkind⟩ (fun _ => hnext) h

theorem Cuts.consText (h : Cuts (n + 1) t ps) (hc : spanAt? (c :: t) = none) :
    Cuts n (c :: t) (consText n c ps) := by
  cases h with
  | nil => exact .cons_text .nil hc (by simp)
  | @cons _ p rest ps hstart hne hfits hnext hps =>
    rw [Inline.consText]
    split_ifs with htext
    · -- the character goes in front of the plain text that is there
      have hkind : p.kind = .text := by simpa [Part.isText] using htext
      refine .cons (p := { p with text := c :: p.text, start := n }) rfl (List.cons_ne_nil _ _)
        ⟨fun _ => ⟨hc, hfits.plain hkind⟩, fun hne => absurd hkind hne⟩ hnext ?_
      have hstop : n + (c :: p.text).length = p.stop := by
        rw [Part.stop, hstart, List.length_cons]; omega
      rw [Part.stop, hstop]
      exact hps
    · have hkind : p.kind ≠ .text := by simpa [Part.isText] using htext
      exact .cons_text (.cons hstart hne hfits hnext hps) hc
        fun q hq => Option.some.inj hq ▸ hkind

/-- **Each part is found where it stands.** -/
theorem cuts_splitFrom (n : ℕ) (t : Text) : Cuts n t (splitFrom n t) := by
  fun_induction splitFrom n t with
  | case1 => exact .nil
  | case2 n c t hnone ih => exact ih.consText hnone
  | case3 n c t r hr k ih =>
    obtain ⟨s, rest, ht, hlen, hne, -⟩ := exists_of_spanAt? hr
    obtain ⟨d, s, rfl⟩ := List.exists_cons_of_ne_nil hne
    rw [List.cons_append] at ht
    obtain ⟨rfl, rfl⟩ := List.cons.inj ht
    have hk : k = s.length := by rw [show k = r.length - 1 from rfl, ← hlen]; rfl
    rw [hk, List.drop_left] at ih
    rw [hk, List.take_left, List.drop_left]
    rw [← List.cons_append] at hr ⊢
    have hkind : r.kind ≠ .text := (spans_of_spanAt? hr hlen.symm).ne_text
    refine .cons (p := ⟨r.kind, c :: s, n, r.marker, r.visible⟩) rfl hne
      ⟨fun htext => absurd htext hkind, fun _ => ?_⟩ (fun htext => absurd htext hkind) ih
    rw [hr, hlen]

/-! ### What parts that cut a text have in common -/

/-- Parts that stand one behind the other, from `a` to `b`. -/
def Tiles : ℕ → List Part → ℕ → Prop
  | a, [], b => a = b
  | a, p :: ps, b => p.start = a ∧ Tiles p.stop ps b

theorem Cuts.tiles (h : Cuts n t ps) : Tiles n ps (n + t.length) := by
  induction h with
  | nil => rfl
  | @cons n p rest ps hstart _ _ _ _ ih =>
    have hlen : n + (p.text ++ rest).length = p.stop + rest.length := by
      rw [Part.stop, hstart, List.length_append, Nat.add_assoc]
    exact ⟨hstart, hlen ▸ ih⟩

theorem Cuts.flatMap_text (h : Cuts n t ps) : ps.flatMap Part.text = t := by
  induction h with
  | nil => rfl
  | cons _ _ _ _ _ ih => rw [List.flatMap_cons, ih]

theorem Cuts.isChain (h : Cuts n t ps) :
    ps.IsChain fun p q => p.kind = .text → q.kind ≠ .text := by
  induction h with
  | nil => exact .nil
  | cons _ _ _ hnext _ ih => exact List.isChain_cons.2 ⟨fun q hq hp => hnext hp q hq, ih⟩

/-- Where a part stands, and what stands behind it. -/
theorem Cuts.exists_of_mem (h : Cuts n t ps) (hp : p ∈ ps) : ∃ x rest : Text,
    t = x ++ (p.text ++ rest) ∧ p.start = n + x.length ∧ p.text ≠ [] ∧ Fits p rest := by
  induction h with
  | nil => cases hp
  | @cons n q rest ps hstart hne hfits _ _ ih =>
    rcases List.mem_cons.1 hp with rfl | hp
    · exact ⟨[], rest, rfl, hstart, hne, hfits⟩
    · obtain ⟨x, behind, rfl, hx, hp⟩ := ih hp
      refine ⟨q.text ++ x, behind, (List.append_assoc _ _ _).symm, ?_, hp⟩
      rw [hx, Part.stop, hstart, List.length_append, Nat.add_assoc]

/-! ### The parts of a line -/

/-- Parts that make up a line and are set apart as its spans are. -/
structure Partitions (line : Text) (ps : List Part) : Prop where
  /-- No part is empty. -/
  text_ne_nil : ∀ p ∈ ps, p.text ≠ []
  /-- The parts stand one behind the other, from the start of the line to its end. -/
  tiles : Tiles 0 ps line.length
  /-- A part is what stands between its offsets. -/
  text_eq_slice : ∀ p ∈ ps, p.text = slice line p.start p.stop
  /-- Put together the parts are the line. -/
  flatMap_text : ps.flatMap Part.text = line
  /-- Of two neighbours at most one is plain text. -/
  isChain : ps.IsChain fun p q => p.kind = .text → q.kind ≠ .text
  /-- In no place of plain text does the line go on with the form of a span. -/
  not_spans : ∀ p ∈ ps, p.kind = .text → ∀ i, p.start ≤ i → i < p.stop →
    ∀ (kind : PartKind) (s rest : Text), line.drop i = s ++ rest → ¬Spans kind s rest
  /-- What is no plain text has the form of its kind. -/
  spans : ∀ p ∈ ps, p.kind ≠ .text → Spans p.kind p.text (line.drop p.stop)
  /-- Code is enclosed by runs of as many backticks; the one at the end is a whole run, and the
  first such run behind the one at the start. -/
  code : ∀ p ∈ ps, p.kind = .code → ∃ (width : ℕ) (content : Text), 0 < width ∧
    p.text = List.replicate width '\x60' ++ (content ++ List.replicate width '\x60') ∧
    content ≠ [] ∧ content.head? ≠ some '\x60' ∧ content.getLast? ≠ some '\x60' ∧
    (line.drop p.stop).head? ≠ some '\x60' ∧ ¬HoldsRun width content
  /-- Emphasis is enclosed by its marker; the one at the end is the first one that stands behind a
  character of the content which is no blank. -/
  emphasis : ∀ p ∈ ps, p.kind = .emphasis → ∃ m ∈ markerChars, p.marker = [m, m] ∧
    p.text = p.marker ++ p.visible ++ p.marker ∧ p.visible ≠ [] ∧ Stripped p.visible ∧
    ∀ (a : Text) (d : Char) (b : Text), p.visible = a ++ d :: (p.marker ++ b) → isBlank d = true

/-- A part of a line is what is found in the place where it stands. -/
theorem fits_of_mem_split {line : Text} (hp : p ∈ split line) :
    p.text ≠ [] ∧ p.text = slice line p.start p.stop ∧
      line.drop p.start = p.text ++ line.drop p.stop ∧ Fits p (line.drop p.stop) := by
  obtain ⟨x, rest, hline, hstart, hne, hfits⟩ := (cuts_splitFrom 0 line).exists_of_mem hp
  rw [Nat.zero_add] at hstart
  have hdrop : line.drop p.start = p.text ++ rest := by rw [hline, hstart, List.drop_left]
  have hrest : line.drop p.stop = rest := by
    rw [Part.stop, ← List.drop_drop, hdrop, List.drop_left]
  refine ⟨hne, ?_, by rw [hrest, hdrop], by rwa [hrest]⟩
  rw [Part.stop, hline, hstart, slice_between]

/-- **The parts of a line partition it**: they leave nothing of it out, their offsets are where they
stand, and each is as much of the line as a span of its kind takes. -/
theorem split_partitions (line : Text) : Partitions line (split line) := by
  have hcuts : Cuts 0 line (split line) := cuts_splitFrom 0 line
  refine ⟨fun p hp => (fits_of_mem_split hp).1, ?_, fun p hp => (fits_of_mem_split hp).2.1,
    hcuts.flatMap_text, hcuts.isChain, ?_, ?_, ?_, ?_⟩
  · have htiles := hcuts.tiles
    rwa [Nat.zero_add] at htiles
  · intro p hp hkind i hle hlt kind s rest hdrop hspans
    obtain ⟨-, -, hstart, hfits⟩ := fits_of_mem_split hp
    obtain ⟨j, rfl⟩ := Nat.exists_eq_add_of_le hle
    have hnone := (hfits.plain hkind).spanAt?_drop (i := j) (by rw [Part.stop] at hlt; omega)
    rw [← hstart, List.drop_drop] at hnone
    have hsome := isSome_spanAt?_iff.2 ⟨kind, s, rest, hdrop, hspans⟩
    rw [hnone] at hsome
    cases hsome
  · intro p hp hkind
    obtain ⟨-, -, -, hfits⟩ := fits_of_mem_split hp
    exact spans_of_spanAt? (hfits.span hkind) rfl
  · intro p hp hkind
    obtain ⟨-, -, -, hfits⟩ := fits_of_mem_split hp
    have hspan := ofKind?_of_spanAt? (hfits.span (by rw [hkind]; decide))
    rw [hkind] at hspan
    obtain ⟨width, content, hw, htext, hne, hfirst, hlast, -, hrest, hruns⟩ :=
      exists_of_code? hspan rfl
    exact ⟨width, content, hw, htext, hne, hfirst, hlast, hrest, hruns⟩
  · intro p hp hkind
    obtain ⟨-, -, -, hfits⟩ := fits_of_mem_split hp
    have hspan := ofKind?_of_spanAt? (hfits.span (by rw [hkind]; decide))
    rw [hkind] at hspan
    obtain ⟨m, hm, hmarker, htext, hne, hstripped, -, hfirst⟩ := exists_of_emphasis? hspan rfl
    exact ⟨m, hm, hmarker, htext, hne, hstripped, hfirst⟩

-- Two backticks that nothing closes are not one: the second of them opens code.
example : split "a \x60\x60b\x60 **c d**".toList =
    [⟨.text, "a \x60".toList, 0, [], []⟩,
      ⟨.code, "\x60b\x60".toList, 3, [], "\x60b\x60".toList⟩,
      ⟨.text, " ".toList, 6, [], []⟩,
      ⟨.emphasis, "**c d**".toList, 7, "**".toList, "c d".toList⟩] := by
  decide +kernel

end Inline

end TypingAid
