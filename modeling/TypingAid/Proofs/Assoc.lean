import TypingAid.Assoc
import Mathlib.Data.List.Induction
import Mathlib.Data.List.Nodup

/-!
# Laws of association lists

What `Assoc.put` and `Assoc.erase` do to the other keys, and when they do nothing or undo each other
(`Assoc.put_of_get?`, `Assoc.erase_put_of_none`).  A list without repeated keys stays one, and in
such a list every entry is found.
-/

namespace TypingAid.Assoc

variable {κ α β : Type} [DecidableEq κ] {k k' : κ} {a : α} {m : List (κ × α)}

theorem mem_of_get? (h : get? k m = some a) : (k, a) ∈ m := by
  induction m with
  | nil => cases h
  | cons e rest ih =>
    obtain ⟨k', a'⟩ := e
    rw [get?] at h
    split_ifs at h with hk
    · obtain rfl := Option.some.inj h
      exact hk ▸ List.mem_cons_self
    · exact List.mem_cons_of_mem _ (ih h)

@[simp] theorem get?_put_self (k : κ) (a : α) (m : List (κ × α)) : get? k (put k a m) = some a := by
  induction m with
  | nil => rw [put, get?, if_pos rfl]
  | cons e rest ih =>
    rw [put]
    split_ifs with hk
    · rw [get?, if_pos rfl]
    · rw [get?, if_neg hk, ih]

theorem get?_put_of_ne (h : k' ≠ k) (a : α) (m : List (κ × α)) :
    get? k' (put k a m) = get? k' m := by
  induction m with
  | nil => simp only [put, get?, if_neg h.symm]
  | cons e rest ih =>
    rw [put]
    split_ifs with hk
    · rw [get?, if_neg h.symm, get?, if_neg (hk ▸ h.symm)]
    · rw [get?, get?, ih]

/-- A key that is given the value it has keeps it. -/
theorem put_of_get? (h : get? k m = some a) : put k a m = m := by
  induction m with
  | nil => cases h
  | cons e rest ih =>
    obtain ⟨k', a'⟩ := e
    rw [get?] at h
    rw [put]
    split_ifs at h ⊢ with hk
    · rw [hk, Option.some.inj h]
    · rw [ih h]

theorem map_fst_put (k : κ) (a : α) (m : List (κ × α)) :
    (put k a m).map Prod.fst =
      if k ∈ m.map Prod.fst then m.map Prod.fst else m.map Prod.fst ++ [k] := by
  induction m with
  | nil => rfl
  | cons e rest ih =>
    rw [put]
    by_cases hk : e.1 = k
    · rw [if_pos hk, if_pos (by rw [List.map_cons, hk]; exact List.mem_cons_self), List.map_cons,
        List.map_cons, hk]
    · rw [if_neg hk, List.map_cons, ih, List.map_cons]
      simp only [List.mem_cons, Ne.symm hk, false_or]
      split_ifs <;> rfl

theorem nodup_put (h : (m.map Prod.fst).Nodup) (k : κ) (a : α) :
    ((put k a m).map Prod.fst).Nodup := by
  rw [map_fst_put]
  split_ifs with hk
  · exact h
  · exact h.append (List.nodup_singleton k) (List.disjoint_singleton.2 hk)

theorem mem_or_of_mem_put {e : κ × α} (h : e ∈ put k a m) : e = (k, a) ∨ e ∈ m := by
  induction m with
  | nil => exact .inl (List.mem_singleton.1 h)
  | cons e' rest ih =>
    rw [put] at h
    split_ifs at h
    · exact (List.mem_cons.1 h).imp_right (List.mem_cons_of_mem _)
    · rcases List.mem_cons.1 h with rfl | h
      · exact .inr List.mem_cons_self
      · exact (ih h).imp_right (List.mem_cons_of_mem _)

/-- Without repeated keys, every entry is found. -/
theorem get?_of_mem (h : (m.map Prod.fst).Nodup) (hm : (k, a) ∈ m) : get? k m = some a := by
  induction m with
  | nil => cases hm
  | cons e rest ih =>
    rw [List.map_cons, List.nodup_cons] at h
    rcases List.mem_cons.1 hm with rfl | hm
    · rw [get?, if_pos rfl]
    · have hk : e.1 ≠ k := fun he => h.1 (he ▸ List.mem_map_of_mem (f := Prod.fst) hm)
      rw [get?, if_neg hk, ih h.2 hm]

theorem exists_get?_of_mem (h : k ∈ m.map Prod.fst) : ∃ a, get? k m = some a := by
  induction m with
  | nil => cases h
  | cons e rest ih =>
    rw [get?]
    split_ifs with hk
    · exact ⟨_, rfl⟩
    · exact ih ((List.mem_cons.1 h).resolve_left (Ne.symm hk))

/-- The map with some of its keys. -/
theorem get?_filter (keep : κ → Bool) (k : κ) (m : List (κ × α)) :
    get? k (m.filter fun e => keep e.1) = if keep k then get? k m else none := by
  induction m with
  | nil => exact (ite_self _).symm
  | cons e m ih =>
    rw [List.filter_cons, get?]
    by_cases hk : e.1 = k
    · subst hk
      rw [if_pos rfl]
      split_ifs with hkeep
      · rw [get?, if_pos rfl]
      · rw [ih, if_neg hkeep]
    · rw [if_neg hk]
      split_ifs with hkeep hkeep'
      · rw [get?, if_neg hk, ih, if_pos hkeep']
      · rw [get?, if_neg hk, ih, if_neg hkeep']
      · rw [ih, if_pos ‹_›]
      · rw [ih, if_neg ‹_›]

theorem get?_map (f : α → β) (k : κ) (m : List (κ × α)) :
    get? k (m.map fun e => (e.1, f e.2)) = (get? k m).map f := by
  induction m with
  | nil => rfl
  | cons e rest ih =>
    rw [List.map_cons, get?, get?, ih]
    split_ifs <;> rfl

theorem map_put (f : α → β) (k : κ) (a : α) (m : List (κ × α)) :
    (put k a m).map (fun e => (e.1, f e.2)) = put k (f a) (m.map fun e => (e.1, f e.2)) := by
  induction m with
  | nil => rfl
  | cons e rest ih =>
    rw [put, List.map_cons, put]
    split_ifs
    · rfl
    · rw [List.map_cons, ih]

theorem put_append_of_not_mem {done : List (κ × α)} (h : k ∉ done.map Prod.fst) (a : α)
    (m : List (κ × α)) : put k a (done ++ m) = done ++ put k a m := by
  induction done with
  | nil => rfl
  | cons e done ih =>
    rw [List.map_cons, List.mem_cons, not_or] at h
    rw [List.cons_append, put, if_neg (Ne.symm h.1), ih h.2, List.cons_append]

theorem put_put (k : κ) (a a' : α) (m : List (κ × α)) : put k a (put k a' m) = put k a m := by
  induction m with
  | nil => simp only [put, if_true]
  | cons e rest ih =>
    rw [put, put]
    split_ifs with hk
    · rw [put, if_pos rfl]
    · rw [put, if_neg hk, ih]

theorem get?_eq_none_iff : get? k m = none ↔ k ∉ m.map Prod.fst := by
  induction m with
  | nil => exact ⟨fun _ => List.not_mem_nil, fun _ => rfl⟩
  | cons e rest ih =>
    rw [get?, List.map_cons, List.mem_cons, not_or, ← ih]
    by_cases hk : e.1 = k
    · rw [if_pos hk]
      exact ⟨fun h => absurd h (Option.some_ne_none _), fun h => absurd hk.symm h.1⟩
    · rw [if_neg hk]
      exact ⟨fun h => ⟨Ne.symm hk, h⟩, And.right⟩

/-! ### Taking a key out -/

theorem get?_erase_of_ne (h : k' ≠ k) (m : List (κ × α)) : get? k' (erase k m) = get? k' m := by
  induction m with
  | nil => rfl
  | cons e rest ih =>
    rw [erase]
    split_ifs with hk
    · rw [get?, if_neg (hk ▸ h.symm)]
    · rw [get?, get?, ih]

/-- Without repeated keys, a key that is taken out is gone. -/
theorem get?_erase_self (h : (m.map Prod.fst).Nodup) : get? k (erase k m) = none := by
  induction m with
  | nil => rfl
  | cons e rest ih =>
    rw [List.map_cons, List.nodup_cons] at h
    rw [erase]
    split_ifs with hk
    · exact get?_eq_none_iff.2 (hk ▸ h.1)
    · rw [get?, if_neg hk, ih h.2]

/-- A key that has come in goes out again. -/
theorem erase_put_of_none (h : get? k m = none) (a : α) : erase k (put k a m) = m := by
  induction m with
  | nil => rw [put, erase, if_pos rfl]
  | cons e rest ih =>
    rw [get?] at h
    split_ifs at h with hk
    rw [put, if_neg hk, erase, if_neg hk, ih h]

/-! ### Many entries -/

/-- Entries that are laid over a map whose keys are the first ones of theirs replace it. -/
theorem foldl_put {entries : List (κ × α)} (hkeys : m.map Prod.fst <+: entries.map Prod.fst)
    (hnodup : (entries.map Prod.fst).Nodup) :
    entries.foldl (fun m e => put e.1 e.2 m) m = entries := by
  -- the entries so far stand in front
  have hfold : ∀ (entries m done : List (κ × α)), m.map Prod.fst <+: entries.map Prod.fst →
      ((done ++ entries).map Prod.fst).Nodup →
      entries.foldl (fun m e => put e.1 e.2 m) (done ++ m) = done ++ entries := by
    intro entries
    induction entries with
    | nil =>
      intro m done hkeys _
      rw [List.map_eq_nil_iff.1 (List.prefix_nil.1 hkeys)]
      rfl
    | cons e entries ih =>
      intro m done hkeys hnodup
      have he : e.1 ∉ done.map Prod.fst := by
        rw [List.map_append, List.map_cons] at hnodup
        exact fun hmem => List.disjoint_of_nodup_append hnodup hmem List.mem_cons_self
      obtain ⟨hput, hrest⟩ : put e.1 e.2 (done ++ m) = (done ++ [e]) ++ m.tail ∧
          m.tail.map Prod.fst <+: entries.map Prod.fst := by
        rw [put_append_of_not_mem he, List.append_assoc]
        cases m with
        | nil => exact ⟨rfl, List.nil_prefix⟩
        | cons e' m =>
          rw [List.map_cons, List.map_cons, List.cons_prefix_cons] at hkeys
          rw [put, if_pos hkeys.1]
          exact ⟨rfl, hkeys.2⟩
      rw [List.foldl_cons, hput, ih _ _ hrest (by
        rwa [List.append_assoc, List.singleton_append]), List.append_assoc, List.singleton_append]
  exact hfold entries m [] hkeys hnodup

/-! ### The map of a list of entries -/

/-- Without repeated keys, nothing is replaced. -/
theorem ofList_of_nodup {entries : List (κ × α)} (h : (entries.map Prod.fst).Nodup) :
    ofList entries = entries := foldl_put ⟨_, rfl⟩ h

theorem nodup_ofList (entries : List (κ × α)) : ((ofList entries).map Prod.fst).Nodup := by
  have hfold : ∀ (entries m : List (κ × α)), (m.map Prod.fst).Nodup →
      ((entries.foldl (fun m e => put e.1 e.2 m) m).map Prod.fst).Nodup := by
    intro entries
    induction entries with
    | nil => exact fun m h => h
    | cons e entries ih => exact fun m h => ih _ (nodup_put h e.1 e.2)
  exact hfold entries [] List.nodup_nil

theorem mem_of_mem_ofList {e : κ × α} {entries : List (κ × α)} (h : e ∈ ofList entries) :
    e ∈ entries := by
  have hfold : ∀ (entries m : List (κ × α)),
      e ∈ entries.foldl (fun m e => put e.1 e.2 m) m → e ∈ m ∨ e ∈ entries := by
    intro entries
    induction entries with
    | nil => exact fun m h => .inl h
    | cons e' entries ih =>
      intro m h
      rcases ih _ h with h | h
      · rcases mem_or_of_mem_put h with rfl | h
        · exact .inr List.mem_cons_self
        · exact .inl h
      · exact .inr (List.mem_cons_of_mem _ h)
  exact (hfold entries [] h).resolve_left List.not_mem_nil

/-! ### Entries by their key -/

/-- What entries have under a key. -/
def valuesOf (k : κ) (entries : List (κ × α)) : List α :=
  (entries.filter (·.1 = k)).map Prod.snd

theorem valuesOf_append (k : κ) (entries more : List (κ × α)) :
    valuesOf k (entries ++ more) = valuesOf k entries ++ valuesOf k more := by
  rw [valuesOf, List.filter_append, List.map_append]
  rfl

theorem group_concat (entries : List (κ × α)) (e : κ × α) : group (entries ++ [e]) =
    put e.1 ((get? e.1 (group entries)).getD [] ++ [e.2]) (group entries) := by
  rw [group, List.foldl_append]
  rfl

/-- A key that comes in the entries has what they have under it. -/
theorem get?_group (k : κ) (entries : List (κ × α)) : get? k (group entries) =
    if valuesOf k entries = [] then none else some (valuesOf k entries) := by
  induction entries using List.reverseRecOn with
  | nil => rfl
  | append_singleton entries e ih =>
    rw [group_concat, valuesOf_append]
    rcases eq_or_ne e.1 k with rfl | hne
    · have hlast : valuesOf e.1 [e] = [e.2] := by simp [valuesOf]
      have hsome : valuesOf e.1 entries ++ [e.2] ≠ [] :=
        List.append_ne_nil_of_right_ne_nil _ (List.cons_ne_nil _ _)
      rw [get?_put_self, hlast, if_neg hsome, ih]
      split_ifs with hnil
      · rw [hnil, Option.getD_none]
      · rw [Option.getD_some]
    · have hlast : valuesOf k [e] = [] := by simp [valuesOf, hne]
      rw [get?_put_of_ne hne.symm, ih, hlast, List.append_nil]

/-- No key comes twice when entries are put together by their key. -/
theorem nodup_group (entries : List (κ × α)) : ((group entries).map Prod.fst).Nodup := by
  induction entries using List.reverseRecOn with
  | nil => exact List.nodup_nil
  | append_singleton entries e ih =>
    rw [group_concat]
    exact nodup_put ih _ _

/-- Entries are put together under the keys that come in them. -/
theorem mem_group_iff {as : List α} {entries : List (κ × α)} :
    (k, as) ∈ group entries ↔ as = valuesOf k entries ∧ as ≠ [] := by
  have hget : get? k (group entries) = some as ↔ as = valuesOf k entries ∧ as ≠ [] := by
    rw [get?_group]
    split_ifs with hnil
    · simp [hnil]
    · rw [Option.some.injEq]
      exact ⟨fun h => ⟨h.symm, h ▸ hnil⟩, fun h => h.1.symm⟩
  rw [← hget]
  exact ⟨get?_of_mem (nodup_group entries), mem_of_get?⟩

end TypingAid.Assoc
