import TypingAid.Keys.Chord
import TypingAid.Proofs.Text.Str
import TypingAid.Proofs.Unicode.UpperCase

/-!
# Reading a chord that has been written

The portable form of a chord is read as that chord, as long as its key is a key (`IsKey`): a word
that is its own portable name.  The key of every chord that has been read is one, or it is the plus
sign.

The plus sign is the exception.  With a modifier the chord is written with two plus signs at its
end, and is read again; without one it is written as a single plus sign, which is read as no chord
at all.  So the canonical form of a string is its own canonical form, unless it is the plus sign
alone (`Chord.canonical_canonical`).  In any case the written form tells chords apart
(`Chord.portable_inj`).

The chord that a string means is known from the words that it spells (`Chord.Spells`): it has the
last one for its key, and the modifiers that the others name (`Chord.ofPoints?_of_spells`).  But for
plain characters and plus signs, its canonical form holds nothing that does not stand in the string
(`Chord.mem_of_mem_canonical`).
-/

namespace TypingAid

open Text Unicode

variable {t w k : Points} {ws : List Points} {p : Point}

/-! ### Words -/

/-- A character that is neither a blank nor a plus sign nor a comma. -/
def Point.IsPlain : Point → Prop
  | .char c => Unicode.IsPlain c
  | .half _ => False

instance : DecidablePred Point.IsPlain
  | .char c => inferInstanceAs (Decidable (Unicode.IsPlain c))
  | .half _ => .isFalse id

theorem Point.IsPlain.isBlank (h : p.IsPlain) : p.isBlank = false := by
  cases p with
  | char c => exact h.1
  | half n => exact h.elim

/-- A word as it stands between plus signs: it is not empty, has no blank at its ends, and no plus
sign in it. -/
structure IsWord (w : Points) : Prop extends Trimmed Point.isBlank w where
  ne_nil : w ≠ []
  plus : .char '+' ∉ w

theorem isWord_of_forall (hne : w ≠ []) (h : ∀ p ∈ w, p.IsPlain) : IsWord w where
  toTrimmed := trimmed_of_forall fun p hp => (h p hp).isBlank
  ne_nil := hne
  plus hmem := (h _ hmem).2.1 rfl

namespace Chord

theorem isWord_of_mem_plainWords (h : w ∈ plainWords t) : IsWord w := by
  obtain ⟨hw, hne⟩ := List.mem_filter.1 h
  obtain ⟨piece, hpiece, rfl⟩ := List.mem_map.1 hw
  exact ⟨trimmed_trim _ piece, by simpa using hne,
    fun hp => not_mem_of_mem_splitAt hpiece (mem_of_mem_trim hp)⟩

/-- What a word holds stands in the string. -/
theorem mem_of_mem_words (h : w ∈ words t) (hp : p ∈ w) : p ∈ t ∨ p = .char '+' := by
  have hplain : ∀ {t : Points}, w ∈ plainWords t → p ∈ t := fun hw => by
    obtain ⟨piece, hpiece, rfl⟩ := List.mem_map.1 (List.mem_filter.1 hw).1
    exact mem_of_mem_splitAt hpiece (mem_of_mem_trim hp)
  rw [words] at h
  split_ifs at h
  · rcases List.mem_append.1 h with h | h
    · exact .inl (List.mem_of_mem_take (hplain h))
    · rw [List.mem_singleton.1 h] at hp
      exact .inr (List.mem_singleton.1 hp)
  · exact .inl (hplain h)

/-- Words that are joined by plus signs are told apart again. -/
theorem plainWords_intercalate (h : ∀ w ∈ ws, IsWord w) :
    plainWords (List.intercalate [.char '+'] ws) = ws := by
  rcases eq_or_ne ws [] with rfl | hne
  · rfl
  have hstrip : ws.map Points.strip = ws :=
    List.map_congr_left (fun w hw => (h w hw).trim_eq) |>.trans ws.map_id'
  have hfilter : ws.filter (!·.isEmpty) = ws :=
    List.filter_eq_self.2 fun w hw => by simpa using (h w hw).ne_nil
  rw [plainWords, splitAt_intercalate hne fun w hw => (h w hw).plus, hstrip, hfilter]

/-! ### Keys -/

/-- A word that is its own portable name. -/
structure IsKey (k : Points) : Prop extends IsWord k where
  settled : keyName k = k

theorem keyAlias?_eq_some (h : keyAlias? w = some k) :
    3 ≤ w.length ∧ IsKey k ∧ (∀ p ∈ k, p.IsPlain) ∧ keyName w = k := by
  have hlength : ∀ {s : Str}, Str.ofPoints (w.map Point.lower) = s → w.length = s.points.length :=
    fun {s} hs => by rw [← hs, Str.points_ofPoints, List.length_map]
  have hkey : ∀ {k : Points}, k ≠ [] → (∀ p ∈ k, p.IsPlain) → keyName k = k → IsKey k :=
    fun hne hplain hsettled => ⟨isWord_of_forall hne hplain, hsettled⟩
  rw [keyName, h, Option.getD_some]
  rw [keyAlias?] at h
  split at h
  -- each of the words
  iterate 10
    rename_i heq
    cases h
    exact ⟨by rw [hlength heq]; decide, hkey (by decide) (by decide) (by decide), by decide,
      by decide⟩
  cases h

theorem keyName_singleton (p : Point) : keyName [p] = p.letterUpper := by
  have halias : keyAlias? [p] = none := by
    rw [Option.eq_none_iff_forall_ne_some]
    intro k hk
    exact absurd (keyAlias?_eq_some hk).1 (by simp)
  rw [keyName, halias]
  rfl

/-- A word of two or more letters is its own name, up to the F of a function key. -/
theorem keyName_of_none {q : Point} {rest : Points} (h : keyAlias? (p :: q :: rest) = none) :
    keyName (p :: q :: rest) =
      if (p = .char 'f' || p = .char 'F') && (q :: rest).all Point.isDigit then
        .char 'F' :: q :: rest
      else p :: q :: rest := by
  rw [keyName, h]
  rfl

theorem upperSequences_settled : ∀ e ∈ upperSequences, e.2 ≠ [] ∧
    (∀ p ∈ (e.2.map Char.ofNat).map Point.char, p.IsPlain) ∧
      keyName ((e.2.map Char.ofNat).map .char) = (e.2.map Char.ofNat).map .char := by
  decide +kernel

/-- The upper case of a code point is the code point, or a key of plain characters. -/
theorem letterUpper_or (p : Point) : p.letterUpper = [p] ∨
    (∀ q ∈ p.letterUpper, q.IsPlain) ∧ IsKey p.letterUpper := by
  cases p with
  | half n => exact .inl rfl
  | char c =>
    rw [Point.letterUpper]
    rcases letterUpper_cases c with hc | ⟨u, hc, hu, hplain⟩ | ⟨e, he, hc⟩
    · rw [hc]
      exact .inl rfl
    · have hforall : ∀ q ∈ [Point.char u], q.IsPlain := List.forall_mem_singleton.2 hplain
      have hsettled : keyName [.char u] = [.char u] := by
        rw [keyName_singleton, Point.letterUpper, hu]
        rfl
      rw [hc]
      exact .inr ⟨hforall, isWord_of_forall (List.cons_ne_nil _ _) hforall, hsettled⟩
    · obtain ⟨hne, hplain, hsettled⟩ := upperSequences_settled e he
      rw [hc]
      exact .inr ⟨hplain, isWord_of_forall (by simpa using hne) hplain, hsettled⟩

theorem isKey_letterUpper (h : IsWord [p]) : IsKey p.letterUpper := by
  rcases letterUpper_or p with hself | ⟨-, hkey⟩
  · rw [hself]
    exact ⟨h, by rw [keyName_singleton, hself]⟩
  · exact hkey

/-- The name of a function key differs from the word in the case of the first letter only. -/
theorem isKey_functionKey {q : Point} {rest : Points} (h : IsWord (p :: q :: rest))
    (halias : keyAlias? (p :: q :: rest) = none) (hp : p = .char 'f' ∨ p = .char 'F')
    (hdigits : (q :: rest).all Point.isDigit = true) : IsKey (.char 'F' :: q :: rest) := by
  have hlower : (Point.char 'F' :: q :: rest).map Point.lower =
      (p :: q :: rest).map Point.lower := by
    rcases hp with rfl | rfl <;> rfl
  have halias' : keyAlias? (.char 'F' :: q :: rest) = none := by
    rw [keyAlias?, hlower, ← keyAlias?, halias]
  refine ⟨⟨⟨?_, h.last⟩, List.cons_ne_nil _ _, ?_⟩, ?_⟩
  · rintro _ ⟨⟩
    decide
  · exact List.not_mem_cons_of_ne_of_not_mem (by decide) (mt (List.mem_cons_of_mem p) h.plus)
  · rw [keyName_of_none halias', hdigits]
    rfl

/-- **The portable name of a word is a key.** -/
theorem isKey_keyName (h : IsWord w) : IsKey (keyName w) := by
  cases halias : keyAlias? w with
  | some k =>
    obtain ⟨-, hkey, -, hname⟩ := keyAlias?_eq_some halias
    rwa [hname]
  | none =>
    rcases w with _ | ⟨p, _ | ⟨q, rest⟩⟩
    · exact absurd rfl h.ne_nil
    · rw [keyName_singleton]
      exact isKey_letterUpper h
    · rw [keyName_of_none halias]
      split_ifs with hfunction
      · simp only [Bool.and_eq_true, Bool.or_eq_true, decide_eq_true_eq] at hfunction
        exact isKey_functionKey h halias hfunction.1 hfunction.2
      · exact ⟨h, by rw [keyName_of_none halias, if_neg hfunction]⟩

/-- Only plain characters come into a key by giving it its portable name. -/
theorem mem_of_mem_keyName (hp : ¬ p.IsPlain) (h : p ∈ keyName w) : p ∈ w := by
  cases halias : keyAlias? w with
  | some k =>
    obtain ⟨-, -, hplain, hname⟩ := keyAlias?_eq_some halias
    exact absurd (hplain p (hname ▸ h)) hp
  | none =>
    rcases w with _ | ⟨q, _ | ⟨r, rest⟩⟩
    · rwa [keyName, halias] at h
    · rw [keyName_singleton] at h
      rcases letterUpper_or q with hself | ⟨hplain, -⟩
      · rwa [hself] at h
      · exact absurd (hplain p h) hp
    · rw [keyName_of_none halias] at h
      split_ifs at h
      · rcases List.mem_cons.1 h with rfl | h
        · exact absurd (by decide) hp
        · exact List.mem_cons_of_mem q h
      · exact h

end Chord

/-! ### Modifiers -/

namespace Modifier

variable {m : Modifier}

/-- The names of a modifier, in small letters. -/
def names : Modifier → List Str
  | .ctrl => ["ctrl", "control"]
  | .alt => ["alt", "option"]
  | .shift => ["shift"]
  | .super => ["meta", "cmd", "command", "super", "win"]

/-- The word names the modifier, in letters of any case. -/
def IsName (m : Modifier) (w : Points) : Prop := Str.ofPoints (w.map Point.lower) ∈ m.names

instance (m : Modifier) (w : Points) : Decidable (m.IsName w) := inferInstanceAs (Decidable (_ ∈ _))

theorem ofWord?_eq_some_iff : ofWord? w = some m ↔ m.IsName w := by
  rw [ofWord?, IsName]
  constructor
  · intro h
    split at h
    -- each of the names
    iterate 10
      rename_i heq
      cases h
      rw [heq]
      decide
    cases h
  · intro h
    generalize Str.ofPoints (w.map Point.lower) = name at h ⊢
    cases m <;> simp only [names, List.mem_cons, List.not_mem_nil, or_false] at h
    case ctrl => rcases h with rfl | rfl <;> rfl
    case alt => rcases h with rfl | rfl <;> rfl
    case shift => rw [h]; rfl
    case super => rcases h with rfl | rfl | rfl | rfl | rfl <;> rfl

/-- A name is not empty and has no plus sign. -/
theorem IsName.ne_nil_and_plus (h : m.IsName w) : w ≠ [] ∧ Point.char '+' ∉ w := by
  have hall : ∀ m : Modifier, ∀ name ∈ m.names, name.points ≠ [] ∧ .char '+' ∉ name.points := by
    rintro ⟨⟩ <;> decide
  obtain ⟨hne, hplus⟩ := hall m _ h
  rw [Str.points_ofPoints] at hne hplus
  exact ⟨mt List.map_eq_nil_iff.2 hne, fun hmem => hplus (List.mem_map.2 ⟨_, hmem, by decide⟩)⟩

end Modifier

namespace Chord

/-- The words of modifiers, in the order in which they are written. -/
def modifierWords (ctrl alt shift super : Bool) : List Points :=
  ([if ctrl then Str.points "Ctrl" else [], if alt then Str.points "Alt" else [],
    if shift then Str.points "Shift" else [], if super then Str.points "Meta" else []] :
      List Points).filter (!·.isEmpty)

/-- The words of the modifiers of a chord. -/
def modifiers (c : Chord) : List Points := modifierWords c.ctrl c.alt c.shift c.super

theorem isPlain_of_mem_modifiers {c : Chord} (h : w ∈ c.modifiers) :
    w ≠ [] ∧ ∀ p ∈ w, p.IsPlain := by
  have hall : ∀ ctrl alt shift super : Bool, ∀ w ∈ modifierWords ctrl alt shift super,
      w ≠ [] ∧ ∀ p ∈ w, p.IsPlain := by decide
  exact hall _ _ _ _ w h

theorem isWord_of_mem_modifiers {c : Chord} (h : w ∈ c.modifiers) : IsWord w :=
  isWord_of_forall (isPlain_of_mem_modifiers h).1 (isPlain_of_mem_modifiers h).2

/-- The words of the modifiers name these modifiers and no other. -/
theorem contains_modifierWords : ∀ ctrl alt shift super : Bool,
    ((modifierWords ctrl alt shift super).filterMap Modifier.ofWord?).contains .ctrl = ctrl ∧
    ((modifierWords ctrl alt shift super).filterMap Modifier.ofWord?).contains .alt = alt ∧
    ((modifierWords ctrl alt shift super).filterMap Modifier.ofWord?).contains .shift = shift ∧
    ((modifierWords ctrl alt shift super).filterMap Modifier.ofWord?).contains .super = super := by
  decide

/-! ### Chords -/

variable {chord : Chord}

theorem portable_eq (htrimmed : Trimmed Point.isBlank chord.key) (hne : chord.key ≠ []) :
    chord.portable = List.intercalate [.char '+'] (chord.modifiers ++ [chord.key]) := by
  have hkey : [chord.key].filter (!·.isEmpty) = [chord.key] :=
    List.filter_eq_self.2 fun w hw => by
      rw [List.mem_singleton.1 hw]
      simpa using hne
  rw [portable, Points.strip_of_trimmed htrimmed, modifiers, modifierWords]
  conv_rhs => rw [← hkey, ← List.filter_append]
  rfl

/-- The words of the modifiers and a word for the key make up the chord. -/
theorem ofPoints?_of_words (h : words t.strip = chord.modifiers ++ [w])
    (hw : keyName w = chord.key) : ofPoints? t = some chord := by
  obtain ⟨key, ctrl, alt, shift, super⟩ := chord
  obtain ⟨hctrl, halt, hshift, hsuper⟩ := contains_modifierWords ctrl alt shift super
  rw [ofPoints?, h, modifiers]
  simp only [List.getLast?_concat, List.dropLast_concat, Option.map_some, hw, hctrl, halt, hshift,
    hsuper]

/-- The written form has no blanks at its ends and is not empty. -/
theorem trimmed_portable (htrimmed : Trimmed Point.isBlank chord.key) (hne : chord.key ≠ []) :
    Trimmed Point.isBlank chord.portable ∧ chord.portable ≠ [] := by
  rw [portable_eq htrimmed hne]
  refine trimmed_intercalate _ (List.append_ne_nil_of_right_ne_nil _ (List.cons_ne_nil _ _))
    fun w hw => ?_
  rcases List.mem_append.1 hw with hw | hw
  · exact ⟨(isWord_of_mem_modifiers hw).toTrimmed, (isWord_of_mem_modifiers hw).ne_nil⟩
  · rw [List.mem_singleton.1 hw]
    exact ⟨htrimmed, hne⟩

theorem strip_portable (htrimmed : Trimmed Point.isBlank chord.key) (hne : chord.key ≠ []) :
    chord.portable.strip = chord.portable :=
  Points.strip_of_trimmed (trimmed_portable htrimmed hne).1

/-- **A chord that has been written is read**, if its key is a key. -/
theorem ofPoints?_portable (h : IsKey chord.key) : ofPoints? chord.portable = some chord := by
  have htext := portable_eq h.toTrimmed h.ne_nil
  refine ofPoints?_of_words (w := chord.key) ?_ h.settled
  rw [strip_portable h.toTrimmed h.ne_nil]
  have hplain : plainWords chord.portable = chord.modifiers ++ [chord.key] := by
    rw [htext]
    refine plainWords_intercalate fun w hw => ?_
    rcases List.mem_append.1 hw with hw | hw
    · exact isWord_of_mem_modifiers hw
    · rw [List.mem_singleton.1 hw]
      exact h.toIsWord
  have hlast : chord.portable.getLast? = chord.key.getLast? := by
    rw [htext]
    rcases eq_or_ne chord.modifiers [] with hnil | hmods
    · rw [hnil, List.nil_append, List.intercalate_singleton]
    · rw [intercalate_concat hmods, List.getLast?_append, List.getLast?_eq_some_getLast h.ne_nil,
        Option.some_or]
  -- what is written ends with the key, and the key does not end with a plus sign
  have hsuffix : ¬ [.char '+', .char '+'].isSuffixOf chord.portable = true := by
    rw [List.isSuffixOf_iff_suffix]
    rintro ⟨front, hfront⟩
    rw [← hfront, List.getLast?_append] at hlast
    exact h.plus (List.mem_of_mem_getLast? hlast.symm)
  rw [words, if_neg hsuffix, hplain]

/-- **The plus sign with a modifier is read** as well. -/
theorem ofPoints?_portable_plus (hkey : chord.key = [.char '+']) (hmods : chord.modifiers ≠ []) :
    ofPoints? chord.portable = some chord := by
  have htrimmed : Trimmed Point.isBlank chord.key := hkey ▸ trimmed_of_forall (by decide)
  have hne : chord.key ≠ [] := hkey ▸ List.cons_ne_nil _ _
  have htext : chord.portable =
      List.intercalate [.char '+'] chord.modifiers ++ [.char '+', .char '+'] := by
    rw [portable_eq htrimmed hne, hkey, intercalate_concat hmods, List.append_assoc,
      List.singleton_append]
  refine ofPoints?_of_words (w := [.char '+']) ?_ (by rw [hkey]; decide)
  rw [strip_portable htrimmed hne, words, if_pos, htext, List.length_append,
    show [Point.char '+', .char '+'].length = 2 from rfl, Nat.add_sub_cancel, List.take_left,
    plainWords_intercalate fun w hw => isWord_of_mem_modifiers hw]
  rw [List.isSuffixOf_iff_suffix, htext]
  exact List.suffix_append _ _

/-! ### Chords that have been read -/

/-- The key of a chord that has been read is a key, or the plus sign. -/
theorem isKey_or_plus (h : ofPoints? t = some chord) :
    IsKey chord.key ∨ chord.key = [.char '+'] := by
  rw [ofPoints?] at h
  obtain ⟨w, hw, rfl⟩ := Option.map_eq_some_iff.1 h
  have hmem := List.mem_of_mem_getLast? hw
  rw [words] at hmem
  split_ifs at hmem
  · rcases List.mem_append.1 hmem with hmem | hmem
    · exact .inl (isKey_keyName (isWord_of_mem_plainWords hmem))
    · rw [List.mem_singleton.1 hmem]
      exact .inr (show keyName [.char '+'] = [.char '+'] by decide)
  · exact .inl (isKey_keyName (isWord_of_mem_plainWords hmem))

/-- Its key has no blank at its ends and is not empty. -/
theorem trimmed_key (h : ofPoints? t = some chord) :
    Trimmed Point.isBlank chord.key ∧ chord.key ≠ [] := by
  rcases isKey_or_plus h with hkey | hkey
  · exact ⟨hkey.toTrimmed, hkey.ne_nil⟩
  · rw [hkey]
    exact ⟨trimmed_of_forall (by decide), List.cons_ne_nil _ _⟩

/-- The key of a chord that has been read has nothing in it but what stands in the string, plain
characters and the plus sign. -/
theorem mem_of_mem_key (hp : ¬ p.IsPlain) (hplus : p ≠ .char '+') (h : ofPoints? t = some chord)
    (hmem : p ∈ chord.key) : p ∈ t := by
  rw [ofPoints?] at h
  obtain ⟨w, hw, rfl⟩ := Option.map_eq_some_iff.1 h
  have hword := mem_of_mem_words (List.mem_of_mem_getLast? hw) (mem_of_mem_keyName hp hmem)
  exact mem_of_mem_trim (hword.resolve_right hplus)

theorem portable_ne_nil (h : ofPoints? t = some chord) : chord.portable ≠ [] :=
  (trimmed_portable (trimmed_key h).1 (trimmed_key h).2).2

/-- **A chord that has been read and written is read again**, or it is the plus key without a
modifier. -/
theorem ofPoints?_portable_or (h : ofPoints? t = some chord) :
    ofPoints? chord.portable = some chord ∨ chord = { key := [.char '+'] } := by
  rcases isKey_or_plus h with hkey | hkey
  · exact .inl (ofPoints?_portable hkey)
  · rcases eq_or_ne chord.modifiers [] with hmods | hmods
    · right
      obtain ⟨key, ctrl, alt, shift, super⟩ := chord
      have hnone : ∀ ctrl alt shift super : Bool, modifierWords ctrl alt shift super = [] →
          ctrl = false ∧ alt = false ∧ shift = false ∧ super = false := by decide
      obtain ⟨rfl, rfl, rfl, rfl⟩ := hnone ctrl alt shift super hmods
      exact congrArg (Chord.mk · _ _ _ _) hkey
    · exact .inl (ofPoints?_portable_plus hkey hmods)

/-- The plus sign alone is read as no chord. -/
theorem ofPoints?_portable_bare : ofPoints? (portable { key := [.char '+'] }) = none := by decide

/-- **The written form tells chords apart** that have been read. -/
theorem portable_inj {t' : Points} {chord' : Chord} (h : ofPoints? t = some chord)
    (h' : ofPoints? t' = some chord') (heq : chord.portable = chord'.portable) :
    chord = chord' := by
  rcases ofPoints?_portable_or h with hread | rfl
  · rcases ofPoints?_portable_or h' with hread' | rfl
    · rw [heq, hread'] at hread
      exact (Option.some.inj hread).symm
    · rw [heq, ofPoints?_portable_bare] at hread
      cases hread
  · rcases ofPoints?_portable_or h' with hread' | rfl
    · rw [← heq, ofPoints?_portable_bare] at hread'
      cases hread'
    · rfl

/-! ### Canonical forms -/

theorem canonical_of_read (h : ofPoints? t = some chord) : canonical t = chord.portable := by
  rw [canonical, h]
  rfl

theorem canonical_eq_nil_iff : canonical t = [] ↔ ofPoints? t = none := by
  cases h : ofPoints? t with
  | none => simp [canonical, h]
  | some chord => simp [canonical_of_read h, portable_ne_nil h]

/-- **The canonical form of a string is its own canonical form**, if it is not the plus sign alone.
-/
theorem canonical_canonical (hplus : canonical t ≠ [.char '+']) :
    canonical (canonical t) = canonical t := by
  cases h : ofPoints? t with
  | none =>
    rw [canonical_eq_nil_iff.2 h]
    rfl
  | some chord =>
    rw [canonical_of_read h] at hplus ⊢
    rcases ofPoints?_portable_or h with hread | rfl
    · exact canonical_of_read hread
    · exact absurd rfl hplus

/-- **Two strings have one canonical form if and only if they mean one chord.** -/
theorem canonical_eq_iff {t' : Points} (h : canonical t ≠ []) (h' : canonical t' ≠ []) :
    canonical t = canonical t' ↔ ofPoints? t = ofPoints? t' := by
  obtain ⟨chord, hread⟩ := Option.ne_none_iff_exists'.1 (mt canonical_eq_nil_iff.2 h)
  obtain ⟨chord', hread'⟩ := Option.ne_none_iff_exists'.1 (mt canonical_eq_nil_iff.2 h')
  rw [canonical_of_read hread, canonical_of_read hread', hread, hread', Option.some.injEq]
  exact ⟨portable_inj hread hread', congrArg portable⟩

/-- A string that names a chord in its one written form. -/
structure IsCanonical (t : Points) : Prop where
  ne_nil : t ≠ []
  comma : .char ',' ∉ t
  canonical_eq : canonical t = t

/-- **Nothing comes into the canonical form** of a string but plain characters and plus signs. -/
theorem mem_of_mem_canonical (hp : ¬ p.IsPlain) (hplus : p ≠ .char '+') (h : p ∈ canonical t) :
    p ∈ t := by
  cases hread : ofPoints? t with
  | none =>
    rw [canonical_eq_nil_iff.2 hread] at h
    cases h
  | some chord =>
    obtain ⟨htrimmed, hne⟩ := trimmed_key hread
    rw [canonical_of_read hread, portable_eq htrimmed hne] at h
    rcases mem_or_of_mem_intercalate h with h | ⟨w, hw, h⟩
    · exact absurd (List.mem_singleton.1 h) hplus
    · rcases List.mem_append.1 hw with hw | hw
      · exact absurd ((isPlain_of_mem_modifiers hw).2 p h) hp
      · exact mem_of_mem_key hp hplus hread (List.mem_singleton.1 hw ▸ h)

/-- **The canonical form of a string is canonical**, if it is not the plus sign alone. -/
theorem isCanonical_canonical (ht : .char ',' ∉ t) (hne : canonical t ≠ [])
    (hplus : canonical t ≠ [.char '+']) : IsCanonical (canonical t) :=
  ⟨hne, mt (mem_of_mem_canonical (by decide) (by decide)) ht, canonical_canonical hplus⟩

/-! ### Words that are spelt -/

/-- The string spells names of these modifiers, one after the other, and then a word for the key,
with plus signs between them and blanks around each. -/
def Spells (t : Points) (ms : List Modifier) (key : Points) : Prop :=
  ∃ (pieces : List (Points × Modifier)) (q : Points),
    t = List.intercalate [.char '+'] (pieces.map Prod.fst ++ [q]) ∧
      (∀ e ∈ pieces, e.2.IsName e.1.strip) ∧ pieces.map Prod.snd = ms ∧ q.strip = key

/-- A string with two plus signs at its end has no last word. -/
theorem getLast?_splitAt_plus (h : [.char '+', .char '+'].isSuffixOf t = true) :
    (splitAt (.char '+') t).getLast? = some [] := by
  obtain ⟨front, rfl⟩ := List.isSuffixOf_iff_suffix.1 h
  have hcut : front ++ [.char '+', .char '+'] = List.intercalate [.char '+']
      (splitAt (.char '+') (front ++ [.char '+']) ++ [[]]) := by
    rw [intercalate_concat (splitAt_ne_nil _ _), intercalate_splitAt]
    simp
  rw [hcut, splitAt_intercalate (List.append_ne_nil_of_right_ne_nil _ (List.cons_ne_nil _ _)),
    List.getLast?_concat]
  rw [List.forall_mem_append, List.forall_mem_singleton]
  exact ⟨fun p hp => not_mem_of_mem_splitAt hp, List.not_mem_nil⟩

/-- The words of a string are the ones that it spells. -/
theorem words_of_spells {ps : List Points} {q : Points}
    (hps : ∀ p ∈ ps, p.strip ≠ [] ∧ Point.char '+' ∉ p.strip)
    (hq : q.strip ≠ [] ∧ Point.char '+' ∉ q.strip) :
    words (Points.strip (List.intercalate [.char '+'] (ps ++ [q]))) =
      ps.map Points.strip ++ [q.strip] := by
  have hall : ∀ p ∈ ps ++ [q], p.strip ≠ [] ∧ Point.char '+' ∉ p.strip := by
    rw [List.forall_mem_append, List.forall_mem_singleton]
    exact ⟨hps, hq⟩
  have hpieces : (splitAt (.char '+')
      (Points.strip (List.intercalate [.char '+'] (ps ++ [q])))).map Points.strip =
        (ps ++ [q]).map Points.strip := by
    rw [Points.map_strip_splitAt_strip (by decide), splitAt_intercalate
      (List.append_ne_nil_of_right_ne_nil _ (List.cons_ne_nil _ _))
      fun p hp hmem => (hall p hp).2 (mem_trim_of_mem hmem (by decide))]
  -- the last piece is not empty, so there are no two plus signs at the end
  have hsuffix : ¬[.char '+', .char '+'].isSuffixOf
      (Points.strip (List.intercalate [.char '+'] (ps ++ [q]))) = true := by
    intro h
    have hlast := congrArg List.getLast? hpieces
    rw [List.getLast?_map, getLast?_splitAt_plus h, List.map_append, List.map_singleton,
      List.getLast?_concat] at hlast
    exact hq.1 (Option.some.inj hlast).symm
  rw [words, if_neg hsuffix, plainWords, hpieces, ← List.map_singleton, ← List.map_append]
  refine List.filter_eq_self.2 fun w hw => ?_
  obtain ⟨p, hp, rfl⟩ := List.mem_map.1 hw
  simpa using (hall p hp).1

/-- **The chord that words spell** has the last one for its key, and the modifiers that the others
name. -/
theorem ofPoints?_of_spells {ms : List Modifier} (h : Spells t ms k) (hne : k ≠ [])
    (hplus : Point.char '+' ∉ k) : ofPoints? t = some
      { key := keyName k
        ctrl := ms.contains .ctrl
        alt := ms.contains .alt
        shift := ms.contains .shift
        super := ms.contains .super } := by
  obtain ⟨pieces, q, rfl, hnames, rfl, rfl⟩ := h
  have hwords : words (Points.strip (List.intercalate [.char '+'] (pieces.map Prod.fst ++ [q]))) =
      (pieces.map Prod.fst).map Points.strip ++ [q.strip] := by
    refine words_of_spells ?_ ⟨hne, hplus⟩
    rw [List.forall_mem_map]
    exact fun e he => (hnames e he).ne_nil_and_plus
  have hmodifiers : ((pieces.map Prod.fst).map Points.strip).filterMap Modifier.ofWord? =
      pieces.map Prod.snd := by
    rw [List.map_map, List.filterMap_map, ← List.filterMap_eq_map]
    exact List.filterMap_congr fun e he => Modifier.ofWord?_eq_some_iff.2 (hnames e he)
  rw [ofPoints?, hwords]
  simp only [List.getLast?_concat, List.dropLast_concat, Option.map_some, hmodifiers]

/-- **The order of the modifiers does not count**, nor how often one is named and by which name. -/
theorem canonical_of_spells {t' : Points} {ms ms' : List Modifier} (hne : k ≠ [])
    (hplus : Point.char '+' ∉ k) (h : Spells t ms k) (h' : Spells t' ms' k)
    (hms : ∀ m, m ∈ ms ↔ m ∈ ms') :
    canonical t = canonical t' := by
  have hcontains : ∀ m, ms.contains m = ms'.contains m := fun m => by
    rw [Bool.eq_iff_iff, List.contains_iff_mem, List.contains_iff_mem, hms]
  rw [canonical, canonical, ofPoints?_of_spells h hne hplus, ofPoints?_of_spells h' hne hplus]
  simp only [hcontains]

end Chord

end TypingAid
