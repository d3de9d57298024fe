import TypingAid.Proofs.Keys.Binding

/-!
# Chords that several commands have

Conflicts are found in one pass over the chords of all commands, in which the commands are put
together by the canonical form of the chord.  No command has a chord twice in normalized bindings,
so what comes together are the commands that have the chord, each once and in their order
(`Bindings.valuesOf_uses`), and the conflicts are the chords with two or more of them
(`Bindings.mem_conflicts_iff`).

That the canonical form is the right thing to go by is said along with that in
`Bindings.conflicts_canonical`: it is settled, it does not depend on how a chord is spelt, and it
tells chords apart.
-/

namespace TypingAid

open Text Chord

namespace Bindings

variable {b : Bindings} {c : Points} {ids : List String} {id : String}

/-- The ids of the commands that have a chord, in the order of the commands. -/
def owners (b : Bindings) (chord : Points) : List String :=
  (Action.all.filter fun a => (b.chords a.id).contains chord).map Action.id

theorem owners_sublist (b : Bindings) (c : Points) :
    (b.owners c).Sublist (Action.all.map Action.id) := List.filter_sublist.map _

theorem nodup_owners (b : Bindings) (c : Points) : (b.owners c).Nodup :=
  (owners_sublist b c).nodup (by decide)

theorem length_owners (b : Bindings) (c : Points) :
    (b.owners c).length = Action.all.countP fun a => (b.chords a.id).contains c := by
  rw [owners, List.length_map, List.countP_eq_length_filter]

/-- Different commands have different ids, so a command is told by its id. -/
theorem mem_owners_iff {a : Action} (ha : a ∈ Action.all) :
    a.id ∈ b.owners c ↔ c ∈ b.chords a.id := by
  have hid : ∀ a ∈ Action.all, ∀ a' ∈ Action.all, a'.id = a.id → a' = a := by decide
  rw [owners, List.mem_map]
  constructor
  · rintro ⟨a', ha', he⟩
    obtain ⟨hmem, hcontains⟩ := List.mem_filter.1 ha'
    rw [← hid a ha a' hmem he]
    exact List.contains_iff_mem.1 hcontains
  · exact fun hc => ⟨a, List.mem_filter.2 ⟨ha, List.contains_iff_mem.2 hc⟩, rfl⟩

/-- No command has a chord twice. -/
theorem Kept.nodup_chords (h : b.Kept) (id : Str) : (b.chords id).Nodup := by
  rw [Bindings.chords]
  cases hget : (Action.ofId? id).bind fun a => Assoc.get? a.id b with
  | none => exact List.nodup_nil
  | some cs =>
    obtain ⟨a, -, ha⟩ := Option.bind_eq_some_iff.1 hget
    exact h.nodup _ (Assoc.mem_of_get? ha)

/-- **The commands that come together under a chord** are the ones that have it. -/
theorem valuesOf_uses (h : b.Kept) (c : Points) : Assoc.valuesOf c b.uses = b.owners c := by
  -- what one command adds
  have hone : ∀ a : Action, Assoc.valuesOf c ((b.chords a.id).map fun chord => (chord, a.id)) =
      if (b.chords a.id).contains c then [a.id] else [] := by
    intro a
    have hfilter : (b.chords a.id).filter (fun chord => decide (chord = c)) =
        List.replicate (if c ∈ b.chords a.id then 1 else 0) c := by
      rw [← (h.nodup_chords a.id).count, ← List.filter_eq]
    simp only [Assoc.valuesOf, List.filter_map, List.map_map, Function.comp_def]
    rw [hfilter, List.map_replicate]
    simp only [List.contains_iff_mem]
    split_ifs <;> rfl
  rw [uses, owners]
  induction Action.all with
  | nil => rfl
  | cons a as ih =>
    rw [List.flatMap_cons, Assoc.valuesOf_append, hone, ih, List.filter_cons]
    split_ifs <;> rfl

/-- **The conflicts** are the chords that two or more commands have, with these commands. -/
theorem mem_conflicts_iff (h : b.Kept) :
    (c, ids) ∈ b.conflicts ↔ ids = b.owners c ∧ 1 < ids.length := by
  rw [conflicts, List.mem_filter, Assoc.mem_group_iff, valuesOf_uses h, decide_eq_true_eq]
  constructor
  · rintro ⟨⟨hids, -⟩, hlength⟩
    exact ⟨hids, hlength⟩
  · rintro ⟨hids, hlength⟩
    exact ⟨⟨hids, List.ne_nil_of_length_pos (Nat.zero_lt_of_lt hlength)⟩, hlength⟩

theorem mem_map_fst_conflicts_iff (h : b.Kept) : c ∈ b.conflicts.map Prod.fst ↔
    2 ≤ Action.all.countP fun a => (b.chords a.id).contains c := by
  rw [← length_owners, List.mem_map]
  constructor
  · rintro ⟨⟨c, ids⟩, he, rfl⟩
    obtain ⟨rfl, hlength⟩ := (mem_conflicts_iff h).1 he
    exact hlength
  · exact fun hlength => ⟨(c, b.owners c), (mem_conflicts_iff h).2 ⟨rfl, hlength⟩, rfl⟩

theorem nodup_conflicts (b : Bindings) : (b.conflicts.map Prod.fst).Nodup :=
  (List.filter_sublist.map _).nodup (Assoc.nodup_group _)

/-- **The canonical form of a chord is what conflicts can be found by.**

* A canonical form is its own canonical form, if it is not the plus sign alone.
* Strings that spell the same modifiers before the same word for the key have one canonical form,
  whatever the order, the number and the letter case of the names and the blanks around them.
* Two strings that mean chords have one canonical form if and only if they mean one chord.
* In the bindings that any value means, the conflicts are the chords of two or more commands, each
  chord once, with just the commands that have it, each once and in their order. -/
theorem conflicts_canonical (t t' key : Points) (ms ms' : List Modifier) (raw : Value) :
    (canonical t ≠ [.char '+'] → canonical (canonical t) = canonical t) ∧
    (key ≠ [] → Point.char '+' ∉ key → Spells t ms key → Spells t' ms' key →
      (∀ m, m ∈ ms ↔ m ∈ ms') → canonical t = canonical t') ∧
    (canonical t ≠ [] → canonical t' ≠ [] →
      (canonical t = canonical t' ↔ ofPoints? t = ofPoints? t')) ∧
    ((normalize raw).conflicts.map Prod.fst).Nodup ∧
    (∀ c, c ∈ (normalize raw).conflicts.map Prod.fst ↔
      2 ≤ Action.all.countP fun a => ((normalize raw).chords a.id).contains c) ∧
    ∀ c ids, (c, ids) ∈ (normalize raw).conflicts →
      ids.Sublist (Action.all.map Action.id) ∧ ids.Nodup ∧
        ∀ a ∈ Action.all, a.id ∈ ids ↔ c ∈ (normalize raw).chords a.id := by
  have hkept := kept_normalize raw
  refine ⟨canonical_canonical, canonical_of_spells, canonical_eq_iff, nodup_conflicts _,
    fun c => mem_map_fst_conflicts_iff hkept, fun c ids hc => ?_⟩
  obtain ⟨rfl, -⟩ := (mem_conflicts_iff hkept).1 hc
  exact ⟨owners_sublist _ c, nodup_owners _ c, fun a ha => mem_owners_iff ha⟩

/-- Bindings that give one chord to two commands, in two spellings, and a key to both, but only to
one of them with a modifier. -/
def clashing : Value :=
  .object [(editorScope, .object [("action.format_article", .str "ctrl+k, F4"),
    ("action.toggle_auto_format", .list [.str "CONTROL +K", .str "alt+f4"])])]

/-- A chord in two spellings, and the bindings that clash. -/
theorem conflicts_canonical_clashing :
    let t := Str.points " control +SHIFT+ Ctrl+ s "
    let t' := Str.points "shift+ctrl+s"
    canonical t ≠ [.char '+'] ∧ Spells t [.ctrl, .shift, .ctrl] [.char 's'] ∧
      Spells t' [.shift, .ctrl] [.char 's'] ∧ canonical (canonical t) = canonical t ∧
      canonical t = canonical t' ∧ ofPoints? t = ofPoints? t' ∧
      Str.points "Ctrl+K" ∈ (normalize clashing).conflicts.map Prod.fst ∧
      Str.points "F4" ∉ (normalize clashing).conflicts.map Prod.fst := by
  intro t t'
  have hs : Spells t [.ctrl, .shift, .ctrl] [.char 's'] :=
    ⟨[(Str.points " control ", .ctrl), (Str.points "SHIFT", .shift), (Str.points " Ctrl", .ctrl)],
      Str.points " s ", by decide, by decide, rfl, by decide⟩
  have hs' : Spells t' [.shift, .ctrl] [.char 's'] :=
    ⟨[(Str.points "shift", .shift), (Str.points "ctrl", .ctrl)], [.char 's'], by decide, by decide,
      rfl, rfl⟩
  have hplus : canonical t ≠ [.char '+'] := by decide
  obtain ⟨hsettled, hspelt, hchord, -, hconflicts, -⟩ := conflicts_canonical t t' [.char 's']
    [.ctrl, .shift, .ctrl] [.shift, .ctrl] clashing
  have hcanonical := hspelt (List.cons_ne_nil _ _) (by decide) hs hs' (by rintro ⟨⟩ <;> decide)
  refine ⟨hplus, hs, hs', hsettled hplus, hcanonical, (hchord (by decide) (by decide)).1 hcanonical,
    (hconflicts _).2 (by decide +kernel), fun hmem => ?_⟩
  exact absurd ((hconflicts _).1 hmem) (by decide +kernel)

end Bindings

end TypingAid
