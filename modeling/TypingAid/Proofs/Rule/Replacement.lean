import TypingAid.Proofs.Assoc
import TypingAid.Proofs.Rule.FirstMatch

/-!
# What an edit is replaced with

An edit of one span in the text may be replaced with another.  `intervene_wellFormed` says what can
be relied on then.

* The new edit is well formed (`Edit.Replaces`): tagged, of the same origin, its spans in order
  inside the text, its caret inside the text that it brings.  No rule table or text makes the typing
  aid replace it once more.
* If text was selected, the new edit encloses it (`Encloses`).
* A deletion takes along the closing symbol of a pair (`DeletesPair`), or else the window of the
  first deletion rule that surrounds the place of the deletion (`DeletesWindow`).

The windows are found by going back and forth from the caret by the lengths of the sides of a rule,
with slices that would read a negative start from the end of the text.  They are in the text because
what was found in them has the full length (`Edit.Fits.intervene`).
-/

namespace TypingAid

/-- The new edit can be committed to `doc` in place of `e`. -/
structure Edit.Replaces (new e : Edit) (doc : Text) : Prop where
  event : new.event = Edit.changeEvent
  origin : new.origin = e.origin
  inRange : ∀ s ∈ new.spans, 0 ≤ s.start ∧ s.start ≤ s.stop ∧ s.stop ≤ doc.length
  ordered : new.spans.Pairwise fun a b => a.start < b.start ∧ a.stop ≤ b.start
  caret : ∃ c, new.targetCaret = some c ∧ 0 ≤ c ∧ c ≤ (new.apply doc).length

/-- A rule is met by what stands before and behind the place of a deletion. -/
def Rule.Surrounds (r : Rule) (before after : Text) : Prop :=
  r.before.left <:+ before ∧ r.before.right <+: after

instance (r : Rule) (before after : Text) : Decidable (r.Surrounds before after) :=
  inferInstanceAs (Decidable (_ ∧ _))

variable (rules : RuleTable) (doc : Text) (span : Span) (new : Edit)

/-- What was selected stands between the two sides of the pair of what was typed. -/
def Encloses : Prop :=
  ∃ pair, Assoc.get? span.insert rules.enclosing = some pair ∧
    new.apply doc = doc.take span.start.toNat ++ pair.left ++
      Text.slice doc span.start span.stop ++ pair.right ++ doc.drop span.stop.toNat

/-- An opening symbol goes, and the closing one that stands behind it. -/
def DeletesPair : Prop :=
  ∃ x opening closing y, doc = x ++ opening :: closing :: y ∧
    span = ⟨x.length, x.length + 1, []⟩ ∧ Assoc.get? opening rules.symbols = some closing ∧
    new.apply doc = x ++ y ∧ new.targetCaret = some (x.length : Int)

/-- The window of the first deletion rule that surrounds the place of the deletion is replaced, and
nothing else. -/
def DeletesWindow : Prop :=
  ∃ earlier rule later x y, rules.deletion = earlier ++ rule :: later ∧
    doc = x ++ rule.before.text ++ y ∧ span.stop = (x ++ rule.before.left).length ∧
    (∀ r ∈ earlier, ¬ r.Surrounds (x ++ rule.before.left) (rule.before.right ++ y)) ∧
    new.spans = [⟨x.length, (x ++ rule.before.text).length, rule.after.text⟩] ∧
    new.apply doc = x ++ rule.after.text ++ y ∧
    new.targetCaret = some ((x ++ rule.after.left).length : Int)

variable {rules doc span new}

/-! ### Edits of one span -/

namespace Edit

/-- An edit with one span in the text. -/
theorem apply_single {a b : Int} (hab : a ≤ b) (hb : b ≤ doc.length) (insert : Text)
    (origin : Origin) (caret : Option Int) (event : String) :
    (Edit.single a b insert origin caret event).apply doc =
      doc.take a.toNat ++ insert ++ doc.drop b.toNat :=
  Text.splice_eq hab hb insert

/-- What stands between two parts of a text is replaced. -/
theorem apply_single_between (x mid y insert : Text) (origin : Origin) (caret : Option Int)
    (event : String) :
    (Edit.single x.length (x ++ mid).length insert origin caret event).apply (x ++ mid ++ y) =
      x ++ insert ++ y := by
  have h := Text.splice_between x mid y insert
  rw [← List.append_assoc, ← List.append_assoc] at h
  exact h

/-- After a deletion that says nothing else, the caret is where the deletion was. -/
theorem targetCaret_deletion (a b : Int) (origin : Origin) (event : String) :
    (Edit.single a b [] origin none event).targetCaret = some a := by
  simp [targetCaret, Edit.single, naturalCaret, Span.ascending, Span.sortBy, Span.insertBy, lastStop]

/-- An edit with one span in the text, and the caret by what it inserts. -/
theorem replaces_single {e : Edit} {a b c : Int} {insert : Text}
    (h : (Edit.single a b insert e.origin (some c) Edit.changeEvent).Fits doc)
    (hfirst : a ≤ c) (hlast : c ≤ a + insert.length) :
    (Edit.single a b insert e.origin (some c) Edit.changeEvent).Replaces e doc := by
  obtain ⟨h0, hab, hb⟩ := h.inRange _ (List.mem_singleton_self _)
  refine ⟨rfl, rfl, h.inRange, List.pairwise_singleton _ _, c, rfl, h0.trans hfirst, ?_⟩
  dsimp only at h0 hab hb
  rw [apply_single hab hb, List.length_append, List.length_append, List.length_take]
  omega

theorem isAutomatic_of_event {e : Edit} (h : e.event = changeEvent) : e.isAutomatic = true := by
  rw [isAutomatic, h, beq_self_eq_true, Bool.true_or]

/-- Nothing takes the place of an edit that the typing aid has made. -/
theorem intervene_of_isAutomatic {e : Edit} (h : e.isAutomatic = true) (settings : Settings)
    (rules : RuleTable) (doc : Text) : intervene settings rules doc e = e := by
  rw [intervene, intervene?, candidate?, h, Bool.not_true, Bool.and_false]
  rfl

end Edit

namespace Intervention

variable {e : Edit} {i : Intervention} {x y : Text}

/-! ### Around a selection -/

theorem replaces_of_enclose? (h0 : 0 ≤ span.start) (hle : span.start ≤ span.stop)
    (hlen : span.stop ≤ doc.length) (h : enclose? rules e.origin span = some i) :
    i.1.Replaces e doc ∧ Encloses rules doc span i.1 := by
  have hfits := fits_of_enclose? h0 hle hlen h
  rw [enclose?] at h
  split_ifs at h with hcond
  obtain ⟨pair, hpair, rfl⟩ := Option.map_eq_some_iff.1 h
  simp only [Bool.and_eq_true, decide_eq_true_eq] at hcond
  have hlt : span.start < span.stop := lt_of_le_of_ne hle hcond.1.2
  -- the two spans are listed in their order
  have hsorted : Span.ascending [⟨span.start, span.start, pair.left⟩,
      ⟨span.stop, span.stop, pair.right⟩] =
      [⟨span.start, span.start, pair.left⟩, ⟨span.stop, span.stop, pair.right⟩] := by
    simp [Span.ascending, Span.sortBy, Span.insertBy, hle]
  have happly := Edit.apply_eq_weave hfits
  rw [hsorted] at happly
  simp only [Span.weave, Text.slice, Int.toNat_zero, List.drop_zero] at happly
  refine ⟨⟨rfl, rfl, hfits.inRange, ?_, span.stop + pair.left.length + pair.right.length, ?_, by omega,
    ?_⟩, pair, hpair, ?_⟩
  · exact List.pairwise_pair.2 ⟨hlt, hle⟩
  · rw [Edit.targetCaret, Option.none_or, Edit.naturalCaret, hsorted]
    simp [Edit.lastStop, Span.growth, Span.removedLength]
  · rw [happly]
    simp only [List.length_append, List.length_take, List.length_drop]
    omega
  · rw [happly, Text.slice]
    simp only [List.append_assoc]

/-! ### Deleting a pair -/

/-- The character from `n` on is the last one before `n + 1`. -/
theorem take_of_slice_singleton {t : Text} {n : Int} {c : Char} (h : Text.slice t n (n + 1) = [c]) :
    t.take (n + 1).toNat = t.take n.toNat ++ [c] := by
  rw [← h, Text.take_append_slice (by omega)]

theorem deletePair?_pair {opening closing : Char}
    (hpair : Assoc.get? opening rules.symbols = some closing) (origin : Origin) (x y : Text) :
    deletePair? rules (x ++ opening :: closing :: y) origin ⟨x.length, x.length + 1, []⟩ =
      some (.single x.length (x.length + 2) [] origin none Edit.changeEvent,
        .deletesPair [opening] [closing]) := by
  have hopening : Text.sliceRel (x ++ opening :: closing :: y) x.length (x.length + 1) =
      [opening] := by
    rw [Text.sliceRel_eq_slice (by omega) (by omega)]
    exact Text.slice_between x [opening] (closing :: y)
  have hclosing : Text.slice (x ++ opening :: closing :: y) ((x.length : Int) + 1)
      (x.length + 1 + 1) = [closing] := by
    have := Text.slice_between (x ++ [opening]) [closing] y
    simpa using this
  rw [deletePair?]
  simp only [hopening, hpair, Option.bind_some, hclosing, if_true]
  rfl

/-- A pair is deleted where an opening symbol stands before its closing one. -/
theorem exists_of_deletePair? {origin : Origin} (h0 : 0 ≤ span.start)
    (hremoved : span.removedLength = 1) (hinsert : span.insert = [])
    (hlen : span.stop ≤ doc.length) (h : deletePair? rules doc origin span = some i) :
    ∃ x opening closing y, doc = x ++ opening :: closing :: y ∧
      span = ⟨x.length, x.length + 1, []⟩ ∧ Assoc.get? opening rules.symbols = some closing := by
  obtain ⟨start, stop, insert⟩ := span
  obtain rfl : insert = [] := hinsert
  obtain rfl : stop = start + 1 := by rw [Span.removedLength] at hremoved; dsimp at hremoved; omega
  unfold deletePair? at h
  split at h
  · next opening hopening =>
    obtain ⟨closing, hpair, h⟩ := Option.bind_eq_some_iff.1 h
    split_ifs at h with hclosing
    rw [Text.sliceRel_eq_slice h0 (by dsimp at h0 ⊢; omega)] at hopening
    have hstart := take_of_slice_singleton hopening
    have hstop := take_of_slice_singleton hclosing
    have hx : ((doc.take start.toNat).length : Int) = start := by
      rw [List.length_take]; dsimp at h0 hlen; omega
    refine ⟨doc.take start.toNat, opening, closing, doc.drop (start + 1 + 1).toNat, ?_, ?_, hpair⟩
    · conv_lhs => rw [← List.take_append_drop (start + 1 + 1).toNat doc, hstop, hstart]
      simp only [List.append_assoc, List.cons_append, List.nil_append]
    · rw [hx]
  · cases h

theorem replaces_of_deletePair? (h0 : 0 ≤ span.start) (hremoved : span.removedLength = 1)
    (hinsert : span.insert = []) (hlen : span.stop ≤ doc.length)
    (h : deletePair? rules doc e.origin span = some i) :
    i.1.Replaces e doc ∧ DeletesPair rules doc span i.1 := by
  obtain ⟨x, opening, closing, y, rfl, rfl, hpair⟩ :=
    exists_of_deletePair? h0 hremoved hinsert hlen h
  rw [deletePair?_pair hpair] at h
  obtain rfl := Option.some.inj h
  have happly := Edit.apply_single_between x [opening, closing] y [] e.origin none Edit.changeEvent
  have hlength : ((x ++ [opening, closing]).length : Int) = x.length + 2 := by simp
  rw [hlength] at happly
  simp only [List.append_assoc, List.cons_append, List.nil_append] at happly
  have hcaret : (Edit.single x.length (x.length + 2) [] e.origin none Edit.changeEvent).targetCaret =
      some (x.length : Int) := Edit.targetCaret_deletion ..
  refine ⟨⟨rfl, rfl, fun s hs => ?_, List.pairwise_singleton _ _, x.length, hcaret, by omega, ?_⟩,
    x, opening, closing, y, rfl, rfl, hpair, happly, hcaret⟩
  · obtain rfl := List.mem_singleton.1 hs
    simp only [List.length_append, List.length_cons]
    omega
  · rw [happly, List.length_append]
    omega

/-! ### Deletion rules -/

theorem deleteRule?_append (origin : Origin) (rule : Rule) (x y : Text) :
    deleteRule? (x ++ rule.before.text ++ y) origin (x ++ rule.before.left).length rule =
      some (.single x.length (x ++ rule.before.text).length rule.after.text origin
        (some (x ++ rule.after.left).length) Edit.changeEvent, .deletesRule rule) := by
  obtain ⟨⟨left, right⟩, after⟩ := rule
  have hdoc : x ++ (left ++ right) ++ y = (x ++ left) ++ (right ++ y) := by
    simp only [List.append_assoc]
  have hstart : (((x ++ left).length : ℕ) : Int) - left.length = x.length := by
    rw [List.length_append]; omega
  have hstop : (((x ++ left).length : ℕ) : Int) + right.length = (x ++ (left ++ right)).length := by
    simp only [List.length_append]; omega
  have hleft : Text.sliceRel (x ++ left ++ (right ++ y)) x.length (x ++ left).length = left := by
    rw [slice_before, List.drop_left]
  have hright : Text.slice (x ++ left ++ (right ++ y)) (x ++ left).length
      ((x ++ left).length + right.length) = right := by
    rw [slice_behind, List.take_left]
  simp only [Pair.text, deleteRule?, hdoc, hstart, hleft, hright, and_self, and_true]
  have hcaret : ((x ++ after.left).length : Int) = x.length + after.left.length := by simp
  rw [if_pos (by omega), hstop, hcaret]

/-- A deletion rule applies where it surrounds the place of the deletion. -/
theorem deleteRule?_eq_none_iff {origin : Origin} {rule : Rule} :
    deleteRule? (x ++ y) origin x.length rule = none ↔ ¬ rule.Surrounds x y := by
  constructor
  · rintro h ⟨⟨u, rfl⟩, ⟨v, rfl⟩⟩
    have happend := deleteRule?_append origin rule u v
    rw [Pair.text, ← List.append_assoc, List.append_assoc _ _ v, h] at happend
    cases happend
  · intro h
    rw [deleteRule?, if_neg]
    rintro ⟨hstart, hleft, hright⟩
    refine h ⟨?_, ?_⟩
    · obtain ⟨n, hn⟩ := Int.eq_ofNat_of_zero_le hstart
      rw [hn, slice_before] at hleft
      exact hleft ▸ List.drop_suffix n x
    · rw [slice_behind] at hright
      exact hright ▸ List.take_prefix _ y

theorem replaces_of_deleteRule? (h0 : 0 ≤ span.stop) (hlen : span.stop ≤ doc.length)
    (h : rules.deletion.findSome? (deleteRule? doc e.origin span.stop) = some i) :
    i.1.Replaces e doc ∧ DeletesWindow rules doc span i.1 := by
  obtain ⟨earlier, rule, later, hrules, hrule, hearlier⟩ := List.findSome?_eq_some_iff.1 h
  obtain ⟨before, after, rfl, hstop⟩ : ∃ before after, doc = before ++ after ∧
      span.stop = (before.length : ℕ) := by
    refine ⟨_, _, (List.take_append_drop span.stop.toNat doc).symm, ?_⟩
    rw [List.length_take]; omega
  have hfits := fits_of_deleteRule? h0 hlen hrule
  rw [hstop] at hrule hearlier
  have hsurrounds : rule.Surrounds before after := by
    by_contra hno
    rw [deleteRule?_eq_none_iff.2 hno] at hrule
    cases hrule
  obtain ⟨⟨x, rfl⟩, ⟨y, rfl⟩⟩ := hsurrounds
  have hdoc : x ++ rule.before.left ++ (rule.before.right ++ y) = x ++ rule.before.text ++ y := by
    simp only [Pair.text, List.append_assoc]
  have hrest : ∀ r ∈ earlier, ¬ r.Surrounds (x ++ rule.before.left) (rule.before.right ++ y) :=
    fun r hr => deleteRule?_eq_none_iff.1 (hearlier r hr)
  rw [hdoc] at hrule hfits ⊢
  rw [deleteRule?_append] at hrule
  obtain rfl := Option.some.inj hrule
  refine ⟨Edit.replaces_single hfits ?_ ?_, earlier, rule, later, x, y, hrules, rfl, hstop, hrest,
    rfl, Edit.apply_single_between .., rfl⟩
  · rw [List.length_append]; omega
  · rw [Pair.text, List.length_append, List.length_append]; omega

/-! ### A typed character -/

theorem replaces_of_convert? {place : Int} {c : Char} {rule : Rule} (h0 : 0 ≤ place)
    (hlen : place ≤ doc.length) (h : convert? doc e.origin place c rule = some i) :
    i.1.Replaces e doc := by
  have hfits := fits_of_convert? h0 hlen h
  rw [convert?] at h
  obtain ⟨-, h⟩ := Option.ite_none_left_eq_some.1 h
  obtain ⟨-, h⟩ := Option.ite_none_left_eq_some.1 h
  obtain ⟨-, h⟩ := Option.ite_none_right_eq_some.1 h
  obtain rfl := Option.some.inj h
  -- the caret goes between the two sides of what the rule brings
  exact Edit.replaces_single hfits (by omega) (by rw [List.length_append]; omega)

theorem replaces_of_complete? {c : Char} (hclosers : ∀ entry ∈ rules.ambiguous, entry.2 ≠ [])
    (h0 : 0 ≤ span.start) (hle : span.start ≤ span.stop) (hlen : span.stop ≤ doc.length)
    (h : complete? rules e.origin span c = some i) : i.1.Replaces e doc := by
  have hfits := fits_of_complete? h0 hle hlen h
  unfold complete? at h
  dsimp only at h
  split at h
  · obtain rfl := Option.some.inj h
    exact Edit.replaces_single hfits (by omega) (by simp)
  · obtain ⟨pair, hpair, rfl⟩ := Option.map_eq_some_iff.1 h
    have hpos : 0 < pair.length := List.length_pos_iff.2 (hclosers _ (Assoc.mem_of_get? hpair))
    exact Edit.replaces_single hfits (by omega) (by omega)

/-! ### Any edit of one span -/

/-- What takes the place of an edit that deletes backwards. -/
theorem replaces_of_delete? (h0 : 0 ≤ span.start) (hle : span.start ≤ span.stop)
    (hlen : span.stop ≤ doc.length) (h : delete? rules doc e.origin span = some i) :
    i.1.Replaces e doc ∧ (DeletesPair rules doc span i.1 ∨ DeletesWindow rules doc span i.1) := by
  rw [delete?] at h
  obtain ⟨⟨hremoved, hinsert⟩, h⟩ := Option.ite_none_right_eq_some.1 h
  rcases Option.or_eq_some_iff.1 h with h | ⟨-, h⟩
  · exact (replaces_of_deletePair? h0 hremoved hinsert hlen h).imp_right .inl
  · exact (replaces_of_deleteRule? (h0.trans hle) hlen h).imp_right .inr

/-- What takes the place of a character typed where nothing is selected. -/
theorem replaces_of_input? {settings : Settings}
    (hclosers : ∀ entry ∈ rules.ambiguous, entry.2 ≠ []) (h0 : 0 ≤ span.start)
    (hle : span.start ≤ span.stop) (hlen : span.stop ≤ doc.length)
    (h : input? rules doc e.origin span settings = some i) :
    i.1.Replaces e doc ∧ e.origin ≠ .deleteBackward ∧ span.start = span.stop := by
  unfold input? at h
  split at h
  · obtain ⟨hplace, h⟩ := Option.ite_none_right_eq_some.1 h
    simp only [Bool.and_eq_true, decide_eq_true_eq] at hplace
    have hdelete : e.origin ≠ .deleteBackward := by
      intro horigin
      rw [horigin] at hplace
      cases hplace.1
    refine ⟨?_, hdelete, hplace.2⟩
    rcases Option.or_eq_some_iff.1 h with h | ⟨-, h⟩
    · obtain ⟨rule, -, hrule⟩ := List.exists_of_findSome?_eq_some h
      exact replaces_of_convert? h0 (hle.trans hlen) hrule
    · obtain ⟨-, h⟩ := Option.ite_none_right_eq_some.1 h
      exact replaces_of_complete? hclosers h0 hle hlen h
  · cases h

end Intervention

/-- An edit that is replaced is the user's own, and its one span decides about the new edit. -/
theorem exists_of_intervene_ne {settings : Settings} {e : Edit} (hspans : e.spans = [span])
    (h : intervene settings rules doc e ≠ e) :
    ∃ i, Intervention.ofSpan? rules doc e.origin span settings = some i ∧
      intervene settings rules doc e = i.1 := by
  cases hi : intervene? settings rules doc e with
  | none => rw [intervene, hi] at h; exact absurd rfl h
  | some i =>
    obtain ⟨candidate, hcandidate, hspan⟩ := Option.bind_eq_some_iff.1 hi
    rw [Edit.candidate?, hspans] at hcandidate
    obtain ⟨-, hcandidate⟩ := Option.ite_none_right_eq_some.1 hcandidate
    obtain rfl := Option.some.inj hcandidate
    exact ⟨i, hspan, by rw [intervene, hi]; rfl⟩

/-- **An edit that takes the place of another is well formed.** -/
theorem intervene_wellFormed {settings : Settings} {e : Edit}
    (hclosers : ∀ entry ∈ rules.ambiguous, entry.2 ≠ []) (hspans : e.spans = [span])
    (h0 : 0 ≤ span.start) (hle : span.start ≤ span.stop) (hlen : span.stop ≤ doc.length)
    (hnew : intervene settings rules doc e ≠ e) :
    (intervene settings rules doc e).Replaces e doc ∧
      (∀ settings' rules' doc', intervene settings' rules' doc' (intervene settings rules doc e) =
        intervene settings rules doc e) ∧
      (e.origin ≠ .deleteBackward → span.start ≠ span.stop →
        Encloses rules doc span (intervene settings rules doc e)) ∧
      (e.origin = .deleteBackward →
        DeletesPair rules doc span (intervene settings rules doc e) ∨
          DeletesWindow rules doc span (intervene settings rules doc e)) := by
  obtain ⟨i, hi, heq⟩ := exists_of_intervene_ne hspans hnew
  rw [heq]
  have hall : i.1.Replaces e doc ∧
      (e.origin ≠ .deleteBackward → span.start ≠ span.stop → Encloses rules doc span i.1) ∧
      (e.origin = .deleteBackward →
        DeletesPair rules doc span i.1 ∨ DeletesWindow rules doc span i.1) := by
    simp only [Intervention.ofSpan?, Option.or_eq_some_iff] at hi
    rcases hi with hi | ⟨-, hi | ⟨-, hi⟩⟩
    · obtain ⟨-, hi⟩ := Option.ite_none_right_eq_some.1 hi
      obtain ⟨hreplaces, hencloses⟩ := Intervention.replaces_of_enclose? h0 hle hlen hi
      refine ⟨hreplaces, fun _ _ => hencloses, fun horigin => ?_⟩
      rw [Intervention.enclose?, horigin] at hi
      cases hi
    · obtain ⟨⟨horigin, -⟩, hi⟩ := Option.ite_none_right_eq_some.1 hi
      obtain ⟨hreplaces, hdeletes⟩ := Intervention.replaces_of_delete? h0 hle hlen hi
      exact ⟨hreplaces, fun hne => absurd horigin hne, fun _ => hdeletes⟩
    · obtain ⟨hreplaces, hne, hplace⟩ := Intervention.replaces_of_input? hclosers h0 hle hlen hi
      exact ⟨hreplaces, fun _ hselected => absurd hplace hselected,
        fun horigin => absurd horigin hne⟩
  exact ⟨hall.1, fun settings' rules' doc' => Edit.intervene_of_isAutomatic
    (Edit.isAutomatic_of_event hall.1.event) settings' rules' doc', hall.2⟩

/-- Between two equality signs on either side, a deletion takes all four. -/
theorem intervene_wellFormed_highlight :
    (∀ entry ∈ RuleTable.default.ambiguous, entry.2 ≠ []) ∧
      intervene {} .default "a====b".toList (.single 2 3 [] .deleteBackward) ≠
        .single 2 3 [] .deleteBackward ∧
      (intervene {} .default "a====b".toList (.single 2 3 [] .deleteBackward)).Replaces
        (.single 2 3 [] .deleteBackward) "a====b".toList ∧
      (intervene {} .default "a====b".toList (.single 2 3 [] .deleteBackward)).apply
        "a====b".toList = "ab".toList := by
  have hclosers : ∀ entry ∈ RuleTable.default.ambiguous, entry.2 ≠ [] := by decide +kernel
  have hnew : intervene {} .default "a====b".toList (.single 2 3 [] .deleteBackward) ≠
      .single 2 3 [] .deleteBackward := by decide +kernel
  exact ⟨hclosers, hnew, (intervene_wellFormed hclosers rfl (by decide) (by decide) (by decide)
    hnew).1, by decide +kernel⟩

end TypingAid
