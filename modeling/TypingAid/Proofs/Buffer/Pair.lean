import TypingAid.Proofs.Buffer.Sync
import TypingAid.Proofs.Rule.Replacement

/-!
# Deleting a pair that has just come

An opening symbol brings its closing one, and deleting an opening symbol in front of its closing one
takes both (`Buffer.InSync.insert_pair`, `Buffer.InSync.backspace_pair`).  The first edit is worked
out on the text without the pair and the second one on the text with it, and still the second takes
back the first (`Buffer.backspace_insert_pair`): the text, the caret and all that the session holds
are as before, whatever stands around the caret.

Nothing can come in between, because both edits are put in place of the user's own, and no line is
tidied after such an edit (`Buffer.InSync.dispatch_replaced`).
-/

namespace TypingAid

/-- The character opens a pair of the table, or it is an ambiguous closing symbol that stands for
one. -/
def RuleTable.GivesPair (rules : RuleTable) (c : Char) : Prop :=
  (∃ closing, Assoc.get? c rules.symbols = some closing) ∨
    ∃ opening closing, Assoc.get? [c] rules.ambiguous = some [opening, closing] ∧
      Assoc.get? opening rules.symbols = some closing

variable {rules : RuleTable} {settings : Settings} {c : Char} {x y : Text} {origin : Origin}

/-! ### The two edits -/

/-- What the typing aid makes of the one span of an edit takes its place. -/
theorem intervene_single {doc insert : Text} {start stop : Int} {caret : Option Int}
    {i : Intervention} (hchange : (Edit.single start stop insert origin caret).isChange = true)
    (h : Intervention.ofSpan? rules doc origin ⟨start, stop, insert⟩ settings = some i) :
    intervene settings rules doc (.single start stop insert origin caret) = i.1 := by
  have hcandidate : (Edit.single start stop insert origin caret).candidate? =
      some ⟨start, stop, insert⟩ := by
    rw [Edit.candidate?, hchange, Edit.isAutomatic_single]
    rfl
  rw [intervene, intervene?, hcandidate]
  exact congrArg (fun o : Option Intervention => (o.map Prod.fst).getD _) h

/-- A character that gives a pair and completes no rule is replaced with the pair, the caret between
its symbols. -/
theorem exists_intervene_pair (horigin : origin.isCharacterInput = true)
    (hpairs : settings.pairSymbols = true) (hc : rules.GivesPair c)
    (hrules : ∀ rule ∈ Intervention.conversionRules rules settings,
      ¬ (rule.Meets (x ++ [c]) y ∨ rule.MeetsAtTop x c y)) :
    ∃ opening closing, Assoc.get? opening rules.symbols = some closing ∧
      intervene settings rules (x ++ y) (.single x.length x.length [c] origin) =
        .single x.length x.length [opening, closing] origin (some (x.length + 1))
          Edit.changeEvent := by
  have hnone : (Intervention.conversionRules rules settings).findSome?
      (Intervention.convert? (x ++ y) origin x.length c) = none := by
    refine List.findSome?_eq_none_iff.2 fun rule hrule => ?_
    have hno := not_or.1 (hrules rule hrule)
    have hrel := Intervention.rel_convert? (x := x) (y := y) (c := c) origin rule
    rw [Rule.outcome?, if_neg hno.1, if_neg hno.2] at hrel
    cases h : Intervention.convert? (x ++ y) origin x.length c rule with
    | none => rfl
    | some i => rw [h] at hrel; cases hrel
  have hspan := Intervention.ofSpan?_typed (c := c) rules (x ++ y) x.length horigin settings
  rw [hnone, Option.none_or, if_pos hpairs, Intervention.complete?] at hspan
  have hchange := Edit.isChange_typed x.length c origin none
  cases hclosing : Assoc.get? c rules.symbols with
  | some closing =>
    rw [hclosing] at hspan
    exact ⟨c, closing, hclosing, intervene_single hchange hspan⟩
  | none =>
    rw [hclosing] at hspan
    rcases hc with ⟨closing, h⟩ | ⟨opening, closing, hpair, h⟩
    · rw [hclosing] at h; cases h
    · rw [hpair] at hspan
      exact ⟨opening, closing, h, intervene_single hchange hspan⟩

/-- Deleting an opening symbol in front of its closing one is replaced with deleting both. -/
theorem intervene_deletePair {opening closing : Char} (hpairs : settings.pairSymbols = true)
    (h : Assoc.get? opening rules.symbols = some closing) (x y : Text) :
    intervene settings rules (x ++ opening :: closing :: y)
        (.single x.length (x.length + 1) [] .deleteBackward) =
      .single x.length (x.length + 2) [] .deleteBackward none Edit.changeEvent := by
  have hchange : (Edit.single (x.length : Int) (x.length + 1) [] .deleteBackward).isChange =
      true := by
    refine Bool.of_not_eq_false fun hsame => ?_
    have := (Edit.isChange_single_eq_false_iff.1 hsame).1
    omega
  have henclose : Intervention.enclose? rules .deleteBackward ⟨x.length, x.length + 1, []⟩ =
      none := rfl
  have hremoved : (Span.mk x.length (x.length + 1) []).removedLength = 1 := by
    rw [Span.removedLength]; dsimp only; omega
  have hspan : Intervention.ofSpan? rules (x ++ opening :: closing :: y) .deleteBackward
      ⟨x.length, x.length + 1, []⟩ settings =
      some (.single x.length (x.length + 2) [] .deleteBackward none Edit.changeEvent,
        .deletesPair [opening] [closing]) := by
    simp only [Intervention.ofSpan?, henclose, ite_self, Option.none_or, hpairs, and_self, if_true,
      Intervention.delete?, hremoved, Intervention.deletePair?_pair h, Option.some_or]
  exact intervene_single hchange hspan

namespace Buffer

variable {b : Buffer} {s : Session}

/-- **An edit that the typing aid replaces** is not followed by another.  The text and the caret are
those of the new edit, and of what the session holds only the outline changes. -/
theorem InSync.dispatch_replaced (h : b.InSync s) {e new : Edit} {caret : ℕ}
    (hfits : e.Fits b.text) (hfilter : s.filter b.text e = new) (hauto : new.isAutomatic = true)
    (hcaret : new.targetCaret = some (caret : Int)) (hinside : caret ≤ (new.apply b.text).length) :
    (b.dispatch e).1.InSync { s with outline := .ofText (new.apply b.text) } ∧
      (b.dispatch e).1.text = new.apply b.text ∧
      (b.dispatch e).1.anchor = caret ∧ (b.dispatch e).1.head = caret := by
  subst hfilter
  set new := s.filter b.text e
  set b' := (b.note (s.filterLog b.text e)).commit new with hb'
  have htext : b'.text = new.apply b.text := text_commit _ _
  have hsession : b'.session = some s := (session_commit _ _).trans h.session
  have hclamp : Text.clamp (new.apply b.text) caret = caret := by rw [Text.clamp]; omega
  obtain ⟨hanchor, hhead⟩ := selection_commit_eq (b.note (s.filterLog b.text e)) new
  have hbase : (b.note (s.filterLog b.text e)).text = b.text := rfl
  rw [hcaret, Option.map_some, Option.getD_some, hbase, hclamp, ← hb'] at hanchor hhead
  have hoff : (s.afterCommit b.text b'.text new b'.anchor b'.head).2.1 = [] :=
    edits_afterEdit_of_isAutomatic hauto
  have houtline : (s.afterCommit b.text b'.text new b'.anchor b'.head).1 =
      { s with outline := .ofText (new.apply b.text) } := by
    have hnew : new.Fits b.text := hfits.intervene s.settings s.rules
    rw [htext, ← Session.outline_afterCommit h.outline hnew b'.anchor b'.head]
    rfl
  have hdispatch : (b.dispatch e).1 =
      { b' with session := some (s.afterCommit b.text b'.text new b'.anchor b'.head).1 }.note
        (s.afterCommit b.text b'.text new b'.anchor b'.head).2.2 := by
    rw [Buffer.dispatch, h.session]
    dsimp only
    rw [report, hsession]
    dsimp only
    rw [hoff]
    rfl
  rw [hdispatch, houtline]
  refine ⟨⟨rfl, ?_, ?_, ?_⟩, htext, hanchor, hhead⟩
  · exact congrArg Outline.ofText htext.symm
  · show b'.anchor ≤ b'.text.length
    rw [hanchor, htext]; exact hinside
  · show b'.head ≤ b'.text.length
    rw [hhead, htext]; exact hinside

/-- **A pair comes in at the caret**, which goes between its symbols. -/
theorem InSync.insert_pair (h : b.InSync s) (htext : b.text = x ++ y) (hanchor : b.anchor = x.length)
    (hhead : b.head = x.length) (hpairs : s.settings.pairSymbols = true)
    (horigin : origin.isCharacterInput = true) (hc : s.rules.GivesPair c)
    (hrules : ∀ rule ∈ Intervention.conversionRules s.rules s.settings,
      ¬ (rule.Meets (x ++ [c]) y ∨ rule.MeetsAtTop x c y)) :
    ∃ opening closing, Assoc.get? opening s.rules.symbols = some closing ∧
      (b.insert [c] origin).1.InSync
        { s with outline := .ofText (x ++ opening :: closing :: y) } ∧
      (b.insert [c] origin).1.text = x ++ opening :: closing :: y ∧
      (b.insert [c] origin).1.anchor = x.length + 1 ∧
      (b.insert [c] origin).1.head = x.length + 1 := by
  obtain ⟨opening, closing, hpair, hnew⟩ := exists_intervene_pair horigin hpairs hc hrules
  have hselection : b.selection = (x.length, x.length) := by
    rw [selection, hanchor, hhead, Nat.min_self, Nat.max_self]
  have hinsert : (b.insert [c] origin).1 =
      (b.dispatch (.single x.length x.length [c] origin)).1 := by
    rw [Buffer.insert, hselection]
  have hfits : (Edit.single x.length x.length [c] origin).Fits b.text :=
    Edit.fits_single (by omega) le_rfl (by rw [htext, List.length_append]; omega) _ _ _ _
  have happly := Edit.apply_single_between x [] y [opening, closing] origin
    (some (x.length + 1)) Edit.changeEvent
  simp only [List.append_nil, List.append_assoc, List.cons_append, List.nil_append] at happly
  rw [← htext] at hnew happly
  have hset := h.dispatch_replaced hfits hnew (Edit.isAutomatic_of_event rfl)
    (show _ = some ((x.length + 1 : ℕ) : Int) from rfl)
    (by rw [happly]; simp only [List.length_append, List.length_cons]; omega)
  rw [happly, ← hinsert] at hset
  exact ⟨opening, closing, hpair, hset⟩

/-- **A deletion between the two symbols of a pair takes both.** -/
theorem InSync.backspace_pair {opening closing : Char} (h : b.InSync s)
    (htext : b.text = x ++ opening :: closing :: y) (hanchor : b.anchor = x.length + 1)
    (hhead : b.head = x.length + 1) (hpairs : s.settings.pairSymbols = true)
    (hpair : Assoc.get? opening s.rules.symbols = some closing) :
    b.backspace.1.InSync { s with outline := .ofText (x ++ y) } ∧ b.backspace.1.text = x ++ y ∧
      b.backspace.1.anchor = x.length ∧ b.backspace.1.head = x.length := by
  have hselection : b.selection = (x.length + 1, x.length + 1) := by
    rw [selection, hanchor, hhead, Nat.min_self, Nat.max_self]
  have hbackspace : b.backspace.1 =
      (b.dispatch (.single x.length (x.length + 1) [] .deleteBackward)).1 := by
    rw [Buffer.backspace, hselection]
    simp
  have hfits : (Edit.single x.length (x.length + 1) [] .deleteBackward).Fits b.text :=
    Edit.fits_single (by omega) (by omega)
      (by rw [htext]; simp only [List.length_append, List.length_cons]; omega) _ _ _ _
  have hnew := intervene_deletePair hpairs hpair x y
  have happly := Edit.apply_single_between x [opening, closing] y [] .deleteBackward none
    Edit.changeEvent
  have hlength : ((x ++ [opening, closing]).length : Int) = x.length + 2 := by simp
  rw [hlength] at happly
  simp only [List.append_nil, List.append_assoc, List.cons_append, List.nil_append] at happly
  rw [← htext] at hnew happly
  have hcaret : (Edit.single x.length (x.length + 2) [] .deleteBackward none
      Edit.changeEvent).targetCaret = some (x.length : Int) := Edit.targetCaret_deletion ..
  have hset := h.dispatch_replaced hfits hnew (Edit.isAutomatic_of_event rfl) hcaret
    (by rw [happly, List.length_append]; omega)
  rwa [happly, ← hbackspace] at hset

/-- **Deleting a pair that has just come takes it back.** -/
theorem backspace_insert_pair (h : b.InSync s) (hpairs : s.settings.pairSymbols = true)
    (hplace : b.anchor = b.head) (horigin : origin.isCharacterInput = true)
    (hc : s.rules.GivesPair c)
    (hrules : ∀ rule ∈ Intervention.conversionRules s.rules s.settings,
      ¬ (rule.Meets (b.text.take b.head ++ [c]) (b.text.drop b.head) ∨
        rule.MeetsAtTop (b.text.take b.head) c (b.text.drop b.head))) :
    (b.insert [c] origin).1.backspace.1.text = b.text ∧
      (b.insert [c] origin).1.backspace.1.anchor = b.anchor ∧
      (b.insert [c] origin).1.backspace.1.head = b.head ∧
      (b.insert [c] origin).1.backspace.1.session = b.session := by
  have hhead : (b.text.take b.head).length = b.head := by
    rw [List.length_take, Nat.min_eq_left h.head]
  obtain ⟨opening, closing, hpair, hsync, htext, hanchor, hcaret⟩ :=
    h.insert_pair (List.take_append_drop b.head b.text).symm (hplace.trans hhead.symm) hhead.symm
      hpairs horigin hc hrules
  obtain ⟨hsync', htext', hanchor', hhead'⟩ :=
    hsync.backspace_pair htext hanchor hcaret hpairs hpair
  rw [List.take_append_drop] at hsync' htext'
  refine ⟨htext', ?_, hhead'.trans hhead, ?_⟩
  · rw [hanchor', hhead, hplace]
  · -- the outline is that of the same text again
    rw [hsync'.session, h.session, ← h.outline]

/-- An ambiguous closing quote in front of another one, with tidying switched on. -/
theorem backspace_insert_pair_quote :
    let b := (create "他说”".toList (some { settings := {}, rules := .default }) "note.md").setCaret 2
    (b.HasSync ∧ RuleTable.default.GivesPair '”' ∧
      ∀ rule ∈ Intervention.conversionRules RuleTable.default {},
        ¬ (rule.Meets (b.text.take b.head ++ ['”']) (b.text.drop b.head) ∨
          rule.MeetsAtTop (b.text.take b.head) '”' (b.text.drop b.head))) ∧
      (b.insert ['”']).1.text = "他说“””".toList ∧
      (b.insert ['”']).1.backspace.1.text = "他说”".toList ∧
      (b.insert ['”']).1.backspace.1.session = b.session := by
  intro b
  obtain ⟨s, hs⟩ := hasSync_fresh {} .default "他说”".toList "note.md"
  have hsync : b.InSync s := hs.setCaret 2
  have hsession : s.settings = {} ∧ s.rules = .default := by
    have h := hsync.session
    obtain rfl := Option.some.inj h
    exact ⟨rfl, rfl⟩
  have hgives : RuleTable.default.GivesPair '”' :=
    .inr ⟨'“', '”', by decide +kernel, by decide +kernel⟩
  have hrules : ∀ rule ∈ Intervention.conversionRules RuleTable.default {},
      ¬ (rule.Meets (b.text.take b.head ++ ['”']) (b.text.drop b.head) ∨
        rule.MeetsAtTop (b.text.take b.head) '”' (b.text.drop b.head)) := by decide +kernel
  have htyped : Origin.typed.isCharacterInput = true := rfl
  obtain ⟨htext, -, -, hback⟩ := backspace_insert_pair hsync (by rw [hsession.1]) rfl htyped
    (hsession.2 ▸ hgives) (by rw [hsession.1, hsession.2]; exact hrules)
  exact ⟨⟨⟨s, hsync⟩, hgives, hrules⟩, by decide +kernel, htext, hback⟩

end Buffer

end TypingAid
