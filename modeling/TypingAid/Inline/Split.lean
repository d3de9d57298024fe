import TypingAid.Inline.Recogniser

/-!
# Splitting a line into inline parts

`Inline.split` cuts a line into its parts, from left to right: at each place the span that starts
there, if there is one, and plain text in between. `Inline.parse` looks into emphasis as well and
gives the tree of parts that formatting works on.

* The parts of a line are not empty and put together they are the line.
* What emphasis encloses is shorter than the line (`Part.inner_length_lt`), so looking into it ends.
-/

namespace TypingAid

namespace Inline

/-- Adds a character of plain text, which stands at `offset`, in front of parts. -/
def consText (offset : Nat) (c : Char) (parts : List Part) : List Part :=
  match parts with
  | [] => [{ kind := .text, text := [c], start := offset }]
  | p :: rest =>
    if p.isText then { p with text := c :: p.text, start := offset } :: rest
    else { kind := .text, text := [c], start := offset } :: p :: rest

/-- The parts of a text that stands at `offset` in its line. -/
def splitFrom (offset : Nat) : Text → List Part
  | [] => []
  | c :: t =>
    match spanAt? (c :: t) with
    | none => consText offset c (splitFrom (offset + 1) t)
    | some r =>
      let n := r.length - 1
      { kind := r.kind, text := c :: t.take n, start := offset
        marker := r.marker, visible := r.visible } :: splitFrom (offset + (n + 1)) (t.drop n)
termination_by t => t.length
decreasing_by
  all_goals simp only [List.length_cons, List.length_drop]
  all_goals omega

/-- The parts of a line. -/
def split (line : Text) : List Part := splitFrom 0 line

/-! ### Parts are no longer than their line -/

theorem length_le_of_mem_consText {offset n : Nat} {c : Char} {parts : List Part}
    (h : ∀ p ∈ parts, p.text.length ≤ n) :
    ∀ p ∈ consText offset c parts, p.text.length ≤ n + 1 := by
  intro p hp
  unfold consText at hp
  split at hp
  · simp at hp; subst hp; simp
  · next q rest =>
    have hq := h q (by simp)
    split at hp
    · rcases List.mem_cons.1 hp with rfl | hp
      · simpa using hq
      · exact Nat.le_succ_of_le (h p (by simp [hp]))
    · rcases List.mem_cons.1 hp with rfl | hp
      · simp
      · exact Nat.le_succ_of_le (h p hp)

theorem length_le_of_mem_splitFrom {offset : Nat} {t : Text} :
    ∀ p ∈ splitFrom offset t, p.text.length ≤ t.length := by
  fun_induction splitFrom offset t with
  | case1 => simp
  | case2 _ _ _ _ ih => simpa using length_le_of_mem_consText ih
  | case3 _ _ _ _ _ n ih =>
    intro p hp
    rcases List.mem_cons.1 hp with rfl | hp
    · simp only [List.length_cons, List.length_take]
      omega
    · have := ih p hp
      simp at this ⊢
      omega

theorem length_pos_of_mem_splitFrom {offset : Nat} {t : Text} {p : Part}
    (h : p ∈ splitFrom offset t) : 0 < t.length := by
  cases t with
  | nil => simp [splitFrom] at h
  | cons => simp

/-- What a part with a marker encloses is shorter than the line. -/
theorem inner_length_lt {line : Text} {p : Part} (h : p ∈ split line) (hm : p.marker ≠ []) :
    p.inner.length < line.length := by
  have h1 := length_le_of_mem_splitFrom p h
  have h2 := length_pos_of_mem_splitFrom h
  have h3 := List.length_pos_iff.2 hm
  simp only [Part.inner, List.length_drop, List.length_take]
  omega

end Inline

/-- A part of a line with what it encloses. -/
inductive Inline where
  /-- Plain text, or a span that is copied as it is; of a span, what shows of it. -/
  | leaf (kind : PartKind) (text : Text) (visible : Text)
  /-- A marker, what is emphasised, and the marker again. -/
  | emphasis (marker : Text) (inner : List Inline)

namespace Inline

/-- The parts of a line, with the parts inside emphasis. -/
def parse (line : Text) : List Inline :=
  (split line).attach.map fun ⟨p, h⟩ =>
    if hm : p.marker = [] then .leaf p.kind p.text p.visible
    else
      have := inner_length_lt h hm
      .emphasis p.marker (parse p.inner)
termination_by line.length

mutual

/-- The text of a part. -/
def text : Inline → Text
  | leaf _ t _ => t
  | emphasis marker inner => marker ++ textOf inner ++ marker

/-- The text of parts that follow each other. -/
def textOf : List Inline → Text
  | [] => []
  | p :: rest => p.text ++ textOf rest

end

end Inline

end TypingAid
