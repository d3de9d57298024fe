import TypingAid.Keys.Binding
import TypingAid.Proofs.Json.Order
import TypingAid.Proofs.Keys.Chord
import TypingAid.Proofs.Settings.Defaults

/-!
# Reading bindings that have been written

`Bindings.Kept` is what every normalized set of bindings has: an entry for each command, in their
order, with no chord twice, each chord in canonical form or the plus sign alone.

Bindings that have been written down are read as they are if and only if no chord is the plus sign
alone (`Bindings.reread_normalize_iff`).
-/

namespace TypingAid

open Text Chord

variable {t c : Points} {cs : List Points} {v : Value} {id : Str} {a : Action} {b : Bindings}

/-! ### Lists without repetitions -/

section
variable {α : Type} [DecidableEq α] {x : α} {xs : List α}

theorem dropRepeated_of_nodup (h : xs.Nodup) : dropRepeated xs = xs := by
  have hfold : ∀ xs seen : List α, (seen ++ xs).Nodup →
      xs.foldl (fun seen x => if seen.contains x then seen else seen ++ [x]) seen = seen ++ xs := by
    intro xs
    induction xs with
    | nil => exact fun seen _ => (List.append_nil seen).symm
    | cons x xs ih =>
      intro seen h
      have hx : ¬ seen.contains x = true := by
        rw [List.contains_iff_mem]
        exact fun hmem => List.disjoint_of_nodup_append h hmem List.mem_cons_self
      rw [List.foldl_cons, if_neg hx, ih _ (by rwa [List.append_assoc, List.singleton_append]),
        List.append_assoc, List.singleton_append]
  exact hfold xs [] h

theorem nodup_dropRepeated (xs : List α) : (dropRepeated xs).Nodup := by
  refine List.foldlRecOn (motive := List.Nodup) xs _ List.nodup_nil fun seen h x _ => ?_
  split_ifs with hx
  · exact h
  · rw [List.contains_iff_mem] at hx
    exact h.append (List.nodup_singleton x) (List.disjoint_singleton.2 hx)

theorem mem_of_mem_dropRepeated (h : x ∈ dropRepeated xs) : x ∈ xs := by
  refine List.foldlRecOn (motive := fun seen => x ∈ seen → x ∈ xs) xs _ (absurd · List.not_mem_nil)
    (fun seen ih y hy hmem => ?_) h
  split_ifs at hmem
  · exact ih hmem
  · rcases List.mem_append.1 hmem with hmem | hmem
    · exact ih hmem
    · rwa [List.mem_singleton.1 hmem]

end

/-! ### The chords that a value names -/

/-- A chord that a value names is the canonical form of a string without commas. -/
theorem exists_of_mem_chordsOf (h : c ∈ chordsOf v) :
    ∃ s ∈ v.strings, ∃ t ∈ splitAt (.char ',') s, canonical t = c ∧ c ≠ [] := by
  obtain ⟨hmem, hne⟩ := List.mem_filter.1 (mem_of_mem_dropRepeated h)
  obtain ⟨t, ht, rfl⟩ := List.mem_map.1 hmem
  obtain ⟨s, hs, ht⟩ := List.mem_flatMap.1 ht
  exact ⟨s, hs, t, ht, rfl, by simpa using hne⟩

theorem canonical_or_plus (h : c ∈ chordsOf v) : IsCanonical c ∨ c = [.char '+'] := by
  obtain ⟨s, -, t, ht, rfl, hne⟩ := exists_of_mem_chordsOf h
  by_cases hplus : canonical t = [.char '+']
  · exact .inr hplus
  · exact .inl (isCanonical_canonical (not_mem_of_mem_splitAt ht) hne hplus)

/-- Chords as they are written down. -/
def chordList (cs : List Points) : Value := .list (cs.map fun c => .str (.ofPoints c))

theorem strings_chordList (cs : List Points) : (chordList cs).strings = cs := by
  rw [chordList, Value.strings, List.filterMap_map]
  refine (List.filterMap_congr fun c _ => ?_).trans List.filterMap_some
  exact congrArg some (Str.points_ofPoints c)

/-- Canonical chords that have been written down are read. -/
theorem chordsOf_chordList (hnodup : cs.Nodup) (h : ∀ c ∈ cs, IsCanonical c) :
    chordsOf (chordList cs) = cs := by
  have hpieces : cs.flatMap (splitAt (.char ',')) = cs := by
    rw [List.flatMap_congr fun c hc => splitAt_of_not_mem (h c hc).comma]
    exact List.flatMap_singleton' cs
  have hcanonical : cs.map canonical = cs :=
    (List.map_congr_left fun c hc => (h c hc).canonical_eq).trans cs.map_id'
  have hfilter : cs.filter (!·.isEmpty) = cs :=
    List.filter_eq_self.2 fun c hc => by simpa using (h c hc).ne_nil
  rw [chordsOf, strings_chordList, hpieces, hcanonical, hfilter, dropRepeated_of_nodup hnodup]

/-- The plus sign alone is not read. -/
theorem plus_not_mem_chordsOf_chordList (h : ∀ c ∈ cs, IsCanonical c ∨ c = [.char '+']) :
    [.char '+'] ∉ chordsOf (chordList cs) := by
  intro hmem
  obtain ⟨s, hs, t, ht, hplus, -⟩ := exists_of_mem_chordsOf hmem
  rw [strings_chordList] at hs
  have hnone : canonical [.char '+'] = [] := by decide
  have hcomma : .char ',' ∉ s := (h s hs).elim IsCanonical.comma fun he => he ▸ by decide
  rw [splitAt_of_not_mem hcomma, List.mem_singleton] at ht
  subst ht
  rcases h t hs with hc | rfl
  · rw [hc.canonical_eq] at hplus
    rw [hplus] at hc
    exact hc.ne_nil (hc.canonical_eq.symm.trans hnone)
  · exact absurd (hnone.symm.trans hplus) (List.cons_ne_nil _ _).symm

namespace Bindings

/-! ### What all bindings have in common -/

/-- Bindings as normalizing leaves them. -/
structure Kept (b : Bindings) : Prop where
  /-- There is an entry for each command, in their order. -/
  ids : b.map Prod.fst = Action.all.map Action.id
  /-- No command has a chord twice. -/
  nodup : ∀ e ∈ b, e.2.Nodup
  /-- Every chord is written in its one form, or is the plus sign alone. -/
  chords : ∀ e ∈ b, ∀ c ∈ e.2, IsCanonical c ∨ c = [.char '+']

theorem kept_default : Kept default where
  ids := rfl
  nodup := by decide
  chords e he c hc := by
    have hall : ∀ e ∈ default, ∀ c ∈ e.2, c ≠ [] ∧ .char ',' ∉ c ∧ canonical c = c := by decide
    obtain ⟨hne, hcomma, hcanonical⟩ := hall e he c hc
    exact .inl ⟨hne, hcomma, hcanonical⟩

theorem Kept.put (h : b.Kept) (ha : a ∈ Action.all) (hnodup : cs.Nodup)
    (hcs : ∀ c ∈ cs, IsCanonical c ∨ c = [.char '+']) : Kept (Assoc.put a.id cs b) where
  ids := by
    rw [Assoc.map_fst_put, if_pos (h.ids ▸ List.mem_map_of_mem ha), h.ids]
  nodup e he := by
    rcases Assoc.mem_or_of_mem_put he with rfl | he
    · exact hnodup
    · exact h.nodup e he
  chords e he := by
    rcases Assoc.mem_or_of_mem_put he with rfl | he
    · exact hcs
    · exact h.chords e he

/-- An entry is passed over, or gives a command chords that its value names. -/
theorem bind_cases (b : Bindings) (id : Str) (v : Value) :
    b.bind id v = b ∨ ∃ a ∈ Action.all, ∃ cs, b.bind id v = Assoc.put a.id cs b ∧ cs.Nodup ∧
      cs ⊆ chordsOf v := by
  rw [bind]
  split
  · exact .inl rfl
  · rename_i a ha
    have ha := List.mem_of_find?_eq_some ha
    split
    · exact .inr ⟨a, ha, [], rfl, List.nodup_nil, List.nil_subset _⟩
    · exact .inl rfl
    · exact .inr ⟨a, ha, _, rfl, nodup_dropRepeated _, List.Subset.refl _⟩

theorem Kept.kept_bind (h : b.Kept) (id : Str) (v : Value) : (b.bind id v).Kept := by
  rcases b.bind_cases id v with he | ⟨a, ha, cs, he, hnodup, hcs⟩
  · rwa [he]
  · rw [he]
    exact h.put ha hnodup fun c hc => canonical_or_plus (hcs hc)

/-- **Normalizing keeps bindings in form.** -/
theorem kept_normalize (raw : Value) : (normalize raw).Kept := by
  refine List.foldlRecOn (motive := Kept) _ _ kept_default fun b h e _ => ?_
  dsimp only
  split_ifs
  · exact List.foldlRecOn (motive := Kept) _ _ h fun b h e _ => h.kept_bind e.1 e.2
  · exact h

/-! ### Writing and reading -/

/-- The commands and their chords as the fields of an object. -/
def entries (b : Bindings) : Fields := b.map fun e => (.text e.1, chordList e.2)

theorem toValue_eq (b : Bindings) : b.toValue = .object [(.text editorScope, .object b.entries)] :=
  rfl

theorem map_fst_entries (b : Bindings) : b.entries.map Prod.fst = (b.map Prod.fst).map .text := by
  rw [entries, List.map_map, List.map_map]
  rfl

/-- What is written down tells bindings apart. -/
theorem toValue_injective : Function.Injective toValue := by
  intro b b' h
  rw [toValue_eq, toValue_eq] at h
  simp only [Value.object.injEq, List.cons.injEq, Prod.mk.injEq, true_and, and_true] at h
  refine List.map_injective_iff.2 (fun e e' he => ?_) h
  obtain ⟨hid, hchords⟩ := Prod.mk.inj he
  refine Prod.ext (Str.text.inj hid) ?_
  rw [← strings_chordList e.2, hchords, strings_chordList]

theorem normalize_toValue_eq (b : Bindings) :
    normalize b.toValue = b.foldl (fun b e => b.bind e.1 (chordList e.2)) default := by
  have hscope : (Str.text editorScope).strip.lower = editorScope := by decide
  rw [toValue_eq, normalize]
  simp only [Value.fields, List.foldl_cons, List.foldl_nil, hscope, if_true, entries,
    List.foldl_map]

theorem ofId?_id (ha : a ∈ Action.all) : Action.ofId? a.id = some a := by
  have hall : ∀ a ∈ Action.all, Action.ofId? a.id = some a := by decide
  exact hall a ha

/-- Chords that have been written down are laid over those of their command. -/
theorem bind_chordList (ha : a ∈ Action.all) (hnodup : cs.Nodup) (h : ∀ c ∈ cs, IsCanonical c) :
    b.bind a.id (chordList cs) = Assoc.put a.id cs b := by
  rw [bind, ofId?_id ha, chordsOf_chordList hnodup h]
  cases cs <;> rfl

variable {e : String × List Points}

theorem Kept.exists_action (h : b.Kept) (he : e ∈ b) : ∃ a ∈ Action.all, a.id = e.1 :=
  List.mem_map.1 (h.ids ▸ List.mem_map_of_mem he)

theorem Kept.isCanonical (h : b.Kept) (he : e ∈ b) (hplus : [.char '+'] ∉ e.2) (hc : c ∈ e.2) :
    IsCanonical c :=
  (h.chords e he c hc).resolve_right fun heq => hplus (heq ▸ hc)

/-- **Bindings that have been written down are read**, if no chord is the plus sign alone. -/
theorem Kept.normalize_toValue (h : b.Kept) (hplus : ∀ e ∈ b, [.char '+'] ∉ e.2) :
    normalize b.toValue = b := by
  have hbind : ∀ (b' : Bindings), ∀ e ∈ b, b'.bind e.1 (chordList e.2) = Assoc.put e.1 e.2 b' := by
    intro b' e he
    obtain ⟨a, ha, hid⟩ := h.exists_action he
    rw [← hid]
    exact bind_chordList ha (h.nodup e he) fun c hc => h.isCanonical he (hplus e he) hc
  have hids : b.map Prod.fst = default.map Prod.fst := h.ids.trans rfl
  rw [normalize_toValue_eq, List.foldl_ext _ (fun b e => Assoc.put e.1 e.2 b) _ hbind]
  exact Assoc.foldl_put ⟨[], by rw [List.append_nil, hids]⟩ (hids ▸ by decide)

/-- What has been written down and read names no chord that is the plus sign alone. -/
theorem Kept.plus_not_mem_reread (h : b.Kept) : ∀ e ∈ b.reread, [.char '+'] ∉ e.2 := by
  rw [reread, normalize_toValue_eq]
  refine List.foldlRecOn (motive := fun b : Bindings => ∀ e ∈ b, [.char '+'] ∉ e.2) b _
    (by decide : ∀ e ∈ default, [.char '+'] ∉ e.2)
    fun b' ih e he => ?_
  have hchords := plus_not_mem_chordsOf_chordList (h.chords e he)
  rw [bind]
  split
  · exact ih
  · split
    · intro e' he'
      rcases Assoc.mem_or_of_mem_put he' with rfl | he'
      · exact List.not_mem_nil
      · exact ih e' he'
    · exact ih
    · intro e' he'
      rcases Assoc.mem_or_of_mem_put he' with rfl | he'
      · exact hchords
      · exact ih e' he'

/-- **Normalized bindings come back** from being written down and read if and only if no chord of
theirs is the plus sign alone. -/
theorem reread_normalize_iff (raw : Value) :
    (normalize raw).reread = normalize raw ↔ ∀ e ∈ normalize raw, [.char '+'] ∉ e.2 :=
  ⟨fun h => h ▸ (kept_normalize raw).plus_not_mem_reread,
    (kept_normalize raw).normalize_toValue⟩

/-- Bindings are written with their fields in order. -/
theorem Kept.sorted_toValue (h : b.Kept) : b.toValue.sorted = b.toValue := by
  have hitems : ∀ cs : List Points, (chordList cs).sorted = chordList cs := by
    intro cs
    rw [chordList, Value.sorted]
    congr 1
    induction cs with
    | nil => rfl
    | cons c cs ih => simp only [List.map_cons, Value.sortedItems, Value.sorted, ih]
  have hfields : Value.sortedFields b.entries = b.entries := by
    rw [Value.sortedFields_eq_map, entries, List.map_map]
    exact List.map_congr_left fun e _ => by rw [Function.comp_apply, hitems]
  have hascending : Json.Ascending b.entries := by
    have hids : (b.entries.map Prod.fst).Pairwise fun s s' => ¬ s' < s := by
      rw [map_fst_entries, h.ids]
      decide
    exact List.pairwise_map.1 hids
  rw [toValue_eq]
  simp only [Value.sorted, Value.sortedFields, hfields, Json.sortFields_of_ascending hascending]
  rfl

/-- Written bindings lack no default. -/
theorem Kept.mergeValue (h : b.Kept) :
    Fields.mergeValue b.toValue default.toValue = b.toValue := by
  have hnames : b.entries.map Prod.fst = default.entries.map Prod.fst := by
    rw [map_fst_entries, map_fst_entries, h.ids]
    rfl
  have hflat : ∀ e ∈ default.entries, e.2.isObject = false := by
    intro e he
    obtain ⟨e', -, rfl⟩ := List.mem_map.1 he
    rfl
  rw [toValue_eq, toValue_eq, Fields.mergeValue_object, Fields.mergeDefaults_eq_self]
  rw [List.forall_mem_singleton]
  refine ⟨_, if_pos rfl, ?_⟩
  rw [Fields.mergeValue_object, Fields.mergeDefaults_of_mem hflat]
  exact fun e he => hnames ▸ List.mem_map_of_mem he

end Bindings

end TypingAid
