import TypingAid.Proofs.Json.Order
import TypingAid.Proofs.Settings.Defaults
import TypingAid.Settings.Fields

/-!
# Reading settings that have been written

Settings that have been written down are read as they are, whatever the order of their fields
(`Settings.normalize_of_sorted`), and they lack no default (`Settings.mergeValue_of_sorted`).  No
other settings have loosely the same value (`Settings.eq_of_looselyEqual`).
-/

namespace TypingAid

variable {v w : Value}

theorem Value.field?_sorted (v : Value) (name : Str) :
    v.sorted.field? name = (v.field? name).map sorted := by
  cases v with
  | object fs =>
    rw [sorted, Value.field?, Value.field?]
    exact get?_sorted name fs
  | _ => rw [sorted] <;> first | rfl | simp

namespace Settings

/-- All settings have the same names. -/
theorem names_toFields (s s' : Settings) :
    s.toFields.map Prod.fst = s'.toFields.map Prod.fst := rfl

/-- Each of them is a switch or the name of a mode. -/
theorem scalar_of_mem_toFields {s : Settings} {e : Str × Value} (he : e ∈ s.toFields) :
    (∃ b, e.2 = .bool b) ∨ ∃ t, e.2 = .str t := by
  have hscalar : ∀ e ∈ s.toFields, (∃ b, e.2 = .bool b) ∨ ∃ t, e.2 = .str t := by
    simp [toFields]
  exact hscalar e he

/-- A switch or a mode is the same in any order. -/
theorem eq_of_mem_toFields (s : Settings) {e : Str × Value} (he : e ∈ s.toFields)
    (h : w.sorted = e.2.sorted) : w = e.2 := by
  rcases scalar_of_mem_toFields he with ⟨b, hb⟩ | ⟨t, ht⟩
  · rw [hb] at h ⊢
    cases w <;> simp_all [Value.sorted]
  · rw [ht] at h ⊢
    cases w <;> simp_all [Value.sorted]

/-- What has been written as settings has their fields, in some order. -/
theorem field?_of_sorted {s : Settings} (h : v.sorted = s.toValue.sorted) (name : Str) :
    v.field? name = s.toValue.field? name := by
  have hmap : (v.field? name).map Value.sorted = (s.toValue.field? name).map Value.sorted := by
    rw [← Value.field?_sorted, ← Value.field?_sorted, h]
  cases hs : s.toValue.field? name with
  | none =>
    rw [hs] at hmap
    exact Option.map_eq_none_iff.1 hmap
  | some x =>
    rw [hs] at hmap
    obtain ⟨w, hw, hwx⟩ := Option.map_eq_some_iff.1 hmap
    rw [hw]
    exact congrArg some (s.eq_of_mem_toFields (Assoc.mem_of_get? hs) hwx)

theorem normalize_congr (h : ∀ name, v.field? name = w.field? name) :
    normalize v = normalize w := by
  simp only [normalize, h]

theorem capitalMode_of_name (m : CapitalMode) :
    CapitalMode.ofName? (Value.str m.name).lowerWord = some m := by
  cases m <;> decide

theorem spaceMode_of_name (m : SpaceMode) :
    SpaceMode.ofName? (Value.str m.name).lowerWord = some m := by
  cases m <;> decide

/-- Settings that have been written down are read. -/
theorem normalize_toValue (s : Settings) : normalize s.toValue = s := by
  simp [normalize, toValue, toFields, Value.field?, Value.fields, Assoc.get?, Value.toSwitch,
    capitalMode_of_name, spaceMode_of_name]

/-- **Settings that have been written down are read**, in any order. -/
theorem normalize_of_sorted {s : Settings} (h : v.sorted = s.toValue.sorted) : normalize v = s :=
  (normalize_congr (field?_of_sorted h)).trans s.normalize_toValue

/-- Settings whose values are loosely equal are the same: a switch is no number. -/
theorem eq_of_looselyEqual {s s' : Settings} (h : s.toValue.looselyEqual s'.toValue = true) :
    s = s' := by
  have hfield : ∀ e ∈ s.toFields, Assoc.get? e.1 s'.toFields = some e.2 := by
    intro e he
    rw [toValue, toValue, Value.looselyEqual, Bool.and_eq_true] at h
    obtain ⟨w, hw, hequal⟩ := Value.get?_of_looselyIn h.2 e he
    rw [hw]
    rcases scalar_of_mem_toFields he with ⟨b, hb⟩ | ⟨t, ht⟩ <;>
      rcases scalar_of_mem_toFields (Assoc.mem_of_get? hw) with ⟨b', hb'⟩ | ⟨t', ht'⟩
    · dsimp only at hb'
      rw [hb, hb'] at hequal ⊢
      cases b <;> cases b' <;> first | rfl | cases hequal
    · simp_all [Value.looselyEqual, Value.asInt?]
    · simp_all [Value.looselyEqual]
    · simp_all [Value.looselyEqual]
  have hsame : ∀ name, s.toValue.field? name = s'.toValue.field? name := by
    intro name
    by_cases hname : name ∈ s.toFields.map Prod.fst
    · obtain ⟨v, hv⟩ := Assoc.exists_get?_of_mem hname
      exact hv.trans (hfield (name, v) (Assoc.mem_of_get? hv)).symm
    · exact (Assoc.get?_eq_none_iff.2 hname).trans
        (Assoc.get?_eq_none_iff.2 (names_toFields s s' ▸ hname)).symm
  rw [← normalize_toValue s, normalize_congr hsame, normalize_toValue]

/-- Fields of settings laid over others replace them. -/
theorem foldl_put_toFields (s s' : Settings) :
    s.toFields.foldl (fun fs e => Assoc.put e.1 e.2 fs) s'.toFields = s.toFields := by
  have hnodup : (({} : Settings).toFields.map Prod.fst).Nodup := by decide
  exact Assoc.foldl_put (names_toFields s' s ▸ List.prefix_rfl) (names_toFields {} s ▸ hnodup)

/-- What has been written as settings lacks no default. -/
theorem mergeValue_of_sorted {s : Settings} (h : v.sorted = s.toValue.sorted) (s' : Settings) :
    Fields.mergeValue v s'.toValue = v := by
  obtain ⟨fs, rfl⟩ : ∃ fs, v = .object fs := by
    cases v <;> simp_all [Value.sorted, toValue]
  have hflat : ∀ e ∈ s'.toFields, e.2.isObject = false := by simp [toFields, Value.isObject]
  rw [toValue, Fields.mergeValue_object, Fields.mergeDefaults_eq_self]
  intro e he
  have hname : e.1 ∈ s.toFields.map Prod.fst := names_toFields s' s ▸ List.mem_map_of_mem he
  obtain ⟨x, hx⟩ := Assoc.exists_get?_of_mem hname
  exact ⟨x, (field?_of_sorted h e.1).trans hx, Fields.mergeValue_of_not_object (hflat e he) x⟩

theorem distinct_toValue (s : Settings) : s.toValue.Distinct := by
  have hnodup : (({} : Settings).toFields.map Prod.fst).Nodup := by decide
  refine ⟨names_toFields {} s ▸ hnodup, Value.distinctFields_iff.2 ?_⟩
  simp [toFields, Value.Distinct]

end Settings

end TypingAid
