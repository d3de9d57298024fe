import TypingAid.Proofs.Assoc
import TypingAid.Settings.DotKey

/-!
# Filling in defaults

Once defaults have been filled in, a field that has one holds it, or what it held before with the
defaults that were missing inside (`Fields.get?_mergeDefaults`).  Where no default is missing,
nothing changes (`Fields.mergeDefaults_eq_self`).
-/

namespace TypingAid.Fields

variable {fs defaults : Fields}

theorem mergeValue_of_not_object {default : Value} (h : default.isObject = false) (v : Value) :
    mergeValue v default = v := by
  cases default with
  | object _ => cases h
  | _ => rfl

theorem mergeValue_object (fs defaults : Fields) :
    mergeValue (.object fs) (.object defaults) = .object (mergeDefaults fs defaults) := by
  rw [mergeValue]

/-- Defaults that are all there, also inside objects, change nothing. -/
theorem mergeDefaults_eq_self
    (h : ∀ e ∈ defaults, ∃ v, Assoc.get? e.1 fs = some v ∧ mergeValue v e.2 = v) :
    mergeDefaults fs defaults = fs := by
  induction defaults with
  | nil => rw [mergeDefaults]
  | cons e defaults ih =>
    obtain ⟨⟨v, hv, hmerge⟩, hrest⟩ := List.forall_mem_cons.1 h
    rw [mergeDefaults, hv]
    dsimp only
    rw [hmerge, Assoc.put_of_get? hv, ih hrest]

/-- So they do in an object without objects, if all names are there. -/
theorem mergeDefaults_of_mem (hflat : ∀ e ∈ defaults, e.2.isObject = false)
    (h : ∀ e ∈ defaults, e.1 ∈ fs.map Prod.fst) : mergeDefaults fs defaults = fs :=
  mergeDefaults_eq_self fun e he => (Assoc.exists_get?_of_mem (h e he)).imp fun _ hv =>
    ⟨hv, mergeValue_of_not_object (hflat e he) _⟩

/-! ### What a field holds -/

variable {name : Str} {default : Value}

theorem get?_mergeDefaults_of_none (h : Assoc.get? name defaults = none) (fs : Fields) :
    Assoc.get? name (mergeDefaults fs defaults) = Assoc.get? name fs := by
  induction defaults generalizing fs with
  | nil => rw [mergeDefaults]
  | cons e defaults ih =>
    rw [Assoc.get?] at h
    split_ifs at h with hk
    have hput : ∀ v, Assoc.get? name (Assoc.put e.1 v fs) = Assoc.get? name fs :=
      fun v => Assoc.get?_put_of_ne (Ne.symm hk) v fs
    rw [mergeDefaults, ih h]
    cases Assoc.get? e.1 fs <;> exact hput _

/-- A field that has a default holds that, or what it held before with what the default adds. -/
theorem get?_mergeDefaults (hnodup : (defaults.map Prod.fst).Nodup)
    (h : Assoc.get? name defaults = some default) (fs : Fields) :
    Assoc.get? name (mergeDefaults fs defaults) =
      some ((Assoc.get? name fs).elim default (mergeValue · default)) := by
  induction defaults generalizing fs with
  | nil => cases h
  | cons e defaults ih =>
    rw [List.map_cons, List.nodup_cons] at hnodup
    rw [Assoc.get?] at h
    rw [mergeDefaults]
    split_ifs at h with hk
    · -- no later default is for this field
      obtain rfl := Option.some.inj h
      have hrest : Assoc.get? name defaults = none := by
        by_contra hne
        obtain ⟨v, hv⟩ := Option.ne_none_iff_exists'.1 hne
        exact hnodup.1 (hk ▸ List.mem_map_of_mem (f := Prod.fst) (Assoc.mem_of_get? hv))
      rw [get?_mergeDefaults_of_none hrest, hk]
      cases Assoc.get? name fs <;> exact Assoc.get?_put_self ..
    · have hput : ∀ v, Assoc.get? name (Assoc.put e.1 v fs) = Assoc.get? name fs :=
        fun v => Assoc.get?_put_of_ne (Ne.symm hk) v fs
      rw [ih hnodup.2 h]
      cases Assoc.get? e.1 fs <;> simp only [hput]

end TypingAid.Fields
