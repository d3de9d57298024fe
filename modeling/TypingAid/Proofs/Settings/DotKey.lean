import TypingAid.Proofs.Json.Equality
import TypingAid.Proofs.Json.Order
import TypingAid.Settings.DotKey
import Mathlib.Data.List.Infix

/-!
# Laws of dotted keys

A dotted key is a way through objects, and each law is one about ways, by induction on the way.
Ways that go apart somewhere (`Fields.Apart`) have nothing to do with each other: what is set or
deleted at the end of one is not seen from the other.

* A value that has been set is found, and nothing apart from it has changed (`Fields.at?_setParts`,
  `Fields.at?_setParts_of_apart`), whatever was in the way.  So many values may be set, if only
  what is apart from all of them matters (`Fields.SameApart`).
* Whatever is found can be deleted (`Fields.isSome_deleteParts?`).  It is gone then, the objects
  that are left on the way to it are not empty, and nothing apart from it has changed.
* Deleting takes back what setting did, where nothing was and no empty object was on the way
  (`Fields.deleteParts?_setParts`).

`Fields.dotKey_laws` puts them together for dotted keys.
-/

namespace TypingAid

theorem keyParts_ne_nil (key : Str) : keyParts key ≠ [] :=
  mt List.map_eq_nil_iff.1 (Text.splitAt_ne_nil _ _)

namespace Value

theorem at?_cons (v : Value) (name : Str) (rest : List Str) :
    v.at? (name :: rest) = (Assoc.get? name v.fields).bind (·.at? rest) := by
  cases v <;> rfl

theorem at?_singleton (v : Value) (name : Str) :
    v.at? [name] = Assoc.get? name v.fields := by
  rw [at?_cons]
  cases Assoc.get? name v.fields <;> rfl

theorem at?_pair {fs inner : Fields} {name : Str} (h : Assoc.get? name fs = some (object inner))
    (next : Str) : (object fs).at? [name, next] = Assoc.get? next inner := by
  rw [at?_cons, fields, h, Option.bind_some, at?_singleton, fields]

/-- There is nothing in an empty object. -/
theorem at?_empty {way : List Str} (h : way ≠ []) : (object []).at? way = none := by
  obtain ⟨name, rest, rfl⟩ := List.exists_cons_of_ne_nil h
  rfl

/-- Sorting fields does not move a value to another way. -/
theorem at?_sorted (v : Value) (way : List Str) : v.sorted.at? way = (v.at? way).map sorted := by
  induction way generalizing v with
  | nil => rfl
  | cons name rest ih =>
    cases v with
    | object fs =>
      rw [sorted, at?_cons, at?_cons, fields, fields, get?_sorted]
      cases Assoc.get? name fs with
      | none => rfl
      | some w => exact ih w
    | _ => rw [sorted] <;> first | rfl | simp

end Value

namespace Fields

variable {fs gs : Fields} {name : Str} {way rest other : List Str} {v : Value}

/-! ### Ways that go apart -/

/-- Neither way is a beginning of the other. -/
def Apart (way other : List Str) : Prop := ¬way <+: other ∧ ¬other <+: way

instance (way other : List Str) : Decidable (Apart way other) :=
  inferInstanceAs (Decidable (_ ∧ _))

theorem Apart.ne_nil (h : Apart way other) : other ≠ [] :=
  fun hnil => h.2 (hnil ▸ List.nil_prefix)

theorem apart_cons {name' : Str} :
    Apart (name :: way) (name' :: other) ↔ name ≠ name' ∨ Apart way other := by
  rw [Apart, Apart, List.cons_prefix_cons, List.cons_prefix_cons]
  by_cases h : name = name'
  · subst h
    simp
  · simp [h, Ne.symm h]

/-! ### One step of a way -/

/-- The fields of the object under a name; there are none if there is no object. -/
def under (name : Str) (fs : Fields) : Fields := ((Assoc.get? name fs).map Value.fields).getD []

@[simp] theorem under_put (name : Str) (fs inner : Fields) :
    under name (Assoc.put name (.object inner) fs) = inner := by
  rw [under, Assoc.get?_put_self]
  rfl

theorem under_of_get? (h : Assoc.get? name fs = some v) : under name fs = v.fields := by
  rw [under, h]
  rfl

theorem under_of_none (h : Assoc.get? name fs = none) : under name fs = [] := by
  rw [under, h]
  rfl

theorem distinct_under (h : (Value.object fs).Distinct) (name : Str) :
    (Value.object (under name fs)).Distinct := by
  cases hget : Assoc.get? name fs with
  | none =>
    rw [under_of_none hget]
    exact ⟨List.nodup_nil, trivial⟩
  | some w =>
    have hw := Value.distinctFields_iff.1 h.2 _ (Assoc.mem_of_get? hget)
    rw [under_of_get? hget]
    cases w with
    | object inner => exact hw
    | _ => exact ⟨List.nodup_nil, trivial⟩

/-- A way that goes on goes on in the object under its first name. -/
theorem at?_cons (h : rest ≠ []) (name : Str) (fs : Fields) :
    (Value.object fs).at? (name :: rest) = (Value.object (under name fs)).at? rest := by
  obtain ⟨next, rest, rfl⟩ := List.exists_cons_of_ne_nil h
  rw [Value.at?_cons, Value.fields, under]
  cases Assoc.get? name fs with
  | none => rfl
  | some w => rw [Option.bind_some, Value.at?_cons, Value.at?_cons]; rfl

theorem setParts_cons (h : rest ≠ []) (name : Str) (fs : Fields) (v : Value) :
    setParts fs (name :: rest) v =
      Assoc.put name (.object (setParts (under name fs) rest v)) fs := by
  obtain ⟨next, rest, rfl⟩ := List.exists_cons_of_ne_nil h
  rfl

theorem setParts_singleton (fs : Fields) (name : Str) (v : Value) :
    setParts fs [name] v = Assoc.put name v fs := rfl

theorem setParts_pair (fs : Fields) (name next : Str) (v : Value) :
    setParts fs [name, next] v = Assoc.put name (.object (Assoc.put next v (under name fs))) fs :=
  rfl

@[simp] theorem deleteParts?_empty (way : List Str) : deleteParts? [] way = none := by
  rcases way with _ | ⟨name, _ | ⟨next, rest⟩⟩ <;> rfl

theorem deleteParts?_cons (h : rest ≠ []) (name : Str) (fs : Fields) :
    deleteParts? fs (name :: rest) = (deleteParts? (under name fs) rest).map fun inner =>
      if inner.isEmpty then Assoc.erase name fs else Assoc.put name (.object inner) fs := by
  rw [deleteParts?.eq_3 _ _ _ h, under]
  cases Assoc.get? name fs with
  | none => simp
  | some w => cases w <;> simp [Value.fields]

theorem deleteParts?_singleton (h : deleteParts? fs [name] = some gs) :
    gs = Assoc.erase name fs := by
  rw [deleteParts?] at h
  exact (Option.some.inj (Option.ite_none_right_eq_some.1 h).2).symm

/-- What is deleted further on leaves an object without it, or nothing at all. -/
theorem deleteParts?_cons_cases (hrest : rest ≠ [])
    (h : deleteParts? fs (name :: rest) = some gs) :
    ∃ inner, deleteParts? (under name fs) rest = some inner ∧
      (inner = [] ∧ gs = Assoc.erase name fs ∨
        inner ≠ [] ∧ gs = Assoc.put name (.object inner) fs) := by
  rw [deleteParts?_cons hrest] at h
  obtain ⟨inner, hinner, rfl⟩ := Option.map_eq_some_iff.1 h
  refine ⟨inner, hinner, ?_⟩
  cases inner with
  | nil => exact .inl ⟨rfl, rfl⟩
  | cons => exact .inr ⟨List.cons_ne_nil _ _, rfl⟩

/-! ### Setting -/

/-- **A value that has been set is found.** -/
theorem at?_setParts (h : way ≠ []) (fs : Fields) (v : Value) :
    (Value.object (setParts fs way v)).at? way = some v := by
  induction way generalizing fs with
  | nil => exact absurd rfl h
  | cons name rest ih =>
    rcases eq_or_ne rest [] with rfl | hrest
    · rw [Value.at?_singleton]
      exact Assoc.get?_put_self name v fs
    · rw [setParts_cons hrest, at?_cons hrest, under_put, ih hrest]

/-- **Nothing apart from it has changed.** -/
theorem at?_setParts_of_apart (h : Apart way other) (fs : Fields) (v : Value) :
    (Value.object (setParts fs way v)).at? other = (Value.object fs).at? other := by
  induction way generalizing fs other with
  | nil => exact absurd List.nil_prefix h.1
  | cons name rest ih =>
    obtain ⟨name', other, rfl⟩ := List.exists_cons_of_ne_nil h.ne_nil
    obtain ⟨w, hput⟩ : ∃ w, setParts fs (name :: rest) v = Assoc.put name w fs := by
      rcases eq_or_ne rest [] with rfl | hrest
      · exact ⟨v, rfl⟩
      · exact ⟨_, setParts_cons hrest name fs v⟩
    rcases eq_or_ne name' name with rfl | hname
    · -- the ways go apart further on
      have happart : Apart rest other := (apart_cons.1 h).resolve_left (absurd rfl)
      have hrest : rest ≠ [] := fun hnil => happart.1 (hnil ▸ List.nil_prefix)
      rw [setParts_cons hrest, at?_cons happart.ne_nil, at?_cons happart.ne_nil, under_put,
        ih happart]
    · rw [hput, Value.at?_cons, Value.at?_cons, Value.fields, Value.fields,
        Assoc.get?_put_of_ne hname]

/-- The fields differ at most at the ends of some ways, below them and above them. -/
def SameApart (ways : List (List Str)) (fs gs : Fields) : Prop :=
  ∀ other, (∀ way ∈ ways, Apart way other) →
    (Value.object gs).at? other = (Value.object fs).at? other

namespace SameApart

variable {ways : List (List Str)}

theorem refl (ways : List (List Str)) (fs : Fields) : SameApart ways fs fs := fun _ _ => rfl

/-- Setting the value at the end of one of the ways is such a difference. -/
theorem setParts (h : SameApart ways fs gs) (hway : way ∈ ways) (v : Value) :
    SameApart ways fs (setParts gs way v) :=
  fun other hother => (at?_setParts_of_apart (hother way hway) gs v).trans (h other hother)

end SameApart

/-! ### Deleting -/

/-- **What is found can be deleted**, and nothing else. -/
theorem isSome_deleteParts? (h : way ≠ []) (fs : Fields) :
    (deleteParts? fs way).isSome = ((Value.object fs).at? way).isSome := by
  induction way generalizing fs with
  | nil => exact absurd rfl h
  | cons name rest ih =>
    rcases eq_or_ne rest [] with rfl | hrest
    · rw [Value.at?_singleton, deleteParts?, Assoc.has, Value.fields]
      cases Assoc.get? name fs <;> rfl
    · rw [deleteParts?_cons hrest, at?_cons hrest, Option.isSome_map, ih hrest]

/-- **What has been deleted is gone.** -/
theorem at?_deleteParts (hfs : (Value.object fs).Distinct) (h : deleteParts? fs way = some gs) :
    (Value.object gs).at? way = none := by
  induction way generalizing fs gs with
  | nil => cases h
  | cons name rest ih =>
    rcases eq_or_ne rest [] with rfl | hrest
    · rw [deleteParts?_singleton h, Value.at?_singleton]
      exact Assoc.get?_erase_self hfs.1
    · obtain ⟨inner, hinner, ⟨-, rfl⟩ | ⟨-, rfl⟩⟩ := deleteParts?_cons_cases hrest h
      · rw [Value.at?_cons, Value.fields, Assoc.get?_erase_self hfs.1]
        rfl
      · rw [at?_cons hrest, under_put, ih (distinct_under hfs name) hinner]

/-- **No empty object is left** on the way to what has been deleted. -/
theorem at?_deleteParts_ne_empty (hfs : (Value.object fs).Distinct)
    (h : deleteParts? fs way = some gs) (hne : other ≠ []) (hfront : other <+: way) :
    (Value.object gs).at? other ≠ some (.object []) := by
  induction way generalizing fs gs other with
  | nil => cases h
  | cons name rest ih =>
    obtain ⟨name', other, rfl⟩ := List.exists_cons_of_ne_nil hne
    obtain ⟨rfl, hother'⟩ := List.cons_prefix_cons.1 hfront
    have herase : (Value.object (Assoc.erase name' fs)).at? (name' :: other) = none := by
      rw [Value.at?_cons, Value.fields, Assoc.get?_erase_self hfs.1]
      rfl
    rcases eq_or_ne rest [] with rfl | hrest
    · rw [deleteParts?_singleton h, herase]
      exact (Option.some_ne_none _).symm
    · obtain ⟨inner, hinner, ⟨-, rfl⟩ | ⟨hempty, rfl⟩⟩ := deleteParts?_cons_cases hrest h
      · rw [herase]
        exact (Option.some_ne_none _).symm
      · rcases eq_or_ne other [] with rfl | hother
        · rw [Value.at?_singleton, Value.fields, Assoc.get?_put_self]
          simpa using hempty
        · rw [at?_cons hother, under_put]
          exact ih (distinct_under hfs name') hinner hother hother'

/-- **Nothing apart from it has changed.** -/
theorem at?_deleteParts_of_apart (hfs : (Value.object fs).Distinct)
    (h : deleteParts? fs way = some gs) (happart : Apart way other) :
    (Value.object gs).at? other = (Value.object fs).at? other := by
  induction way generalizing fs gs other with
  | nil => cases h
  | cons name rest ih =>
    obtain ⟨name', other, rfl⟩ := List.exists_cons_of_ne_nil happart.ne_nil
    rcases eq_or_ne name' name with rfl | hname
    · have happart : Apart rest other := (apart_cons.1 happart).resolve_left (absurd rfl)
      have hrest : rest ≠ [] := fun hnil => happart.1 (hnil ▸ List.nil_prefix)
      obtain ⟨inner, hinner, ⟨hempty, rfl⟩ | ⟨-, rfl⟩⟩ := deleteParts?_cons_cases hrest h
      · -- the object under the name has become empty, so there was nothing else in it
        have hnone := ih (distinct_under hfs name') hinner happart
        rw [hempty, Value.at?_empty happart.ne_nil] at hnone
        rw [Value.at?_cons, Value.fields, Assoc.get?_erase_self hfs.1,
          at?_cons happart.ne_nil, ← hnone]
        rfl
      · rw [at?_cons happart.ne_nil, at?_cons happart.ne_nil, under_put,
          ih (distinct_under hfs name') hinner happart]
    · have hget : Assoc.get? name' gs = Assoc.get? name' fs := by
        rcases eq_or_ne rest [] with rfl | hrest
        · rw [deleteParts?_singleton h, Assoc.get?_erase_of_ne hname]
        · obtain ⟨inner, -, ⟨-, rfl⟩ | ⟨-, rfl⟩⟩ := deleteParts?_cons_cases hrest h
          · exact Assoc.get?_erase_of_ne hname fs
          · exact Assoc.get?_put_of_ne hname _ fs
      rw [Value.at?_cons, Value.at?_cons, Value.fields, Value.fields, hget]

/-! ### Setting and deleting -/

/-- What there is on the way to a value: objects that are not empty. -/
def OpenTo (fs : Fields) (way : List Str) : Prop :=
  ∀ front, front ≠ [] → front <+: way → front ≠ way →
    ∀ w, (Value.object fs).at? front = some w → ∃ inner, w = .object inner ∧ inner ≠ []

theorem OpenTo.under (h : OpenTo fs (name :: rest)) : OpenTo (under name fs) rest := by
  intro front hne hfront hproper w hw
  refine h (name :: front) (List.cons_ne_nil _ _) (List.cons_prefix_cons.2 ⟨rfl, hfront⟩)
    (fun he => hproper (List.cons.inj he).2) w ?_
  rw [at?_cons hne, hw]

/-- What is under the first name is an object that is not empty, if there is anything. -/
theorem OpenTo.get? (h : OpenTo fs (name :: rest)) (hrest : rest ≠ [])
    (hget : Assoc.get? name fs = some v) : v = .object (Fields.under name fs) ∧
      Fields.under name fs ≠ [] := by
  obtain ⟨inner, rfl, hempty⟩ := h [name] (List.cons_ne_nil _ _)
    (List.cons_prefix_cons.2 ⟨rfl, List.nil_prefix⟩) (fun he => hrest (List.cons.inj he).2.symm) v
    ((Value.at?_singleton _ _).trans hget)
  rw [under_of_get? hget]
  exact ⟨rfl, hempty⟩

/-- **Deleting takes back what setting did**, where nothing was and no empty object is on the way.
-/
theorem deleteParts?_setParts (hway : way ≠ []) (hnone : (Value.object fs).at? way = none)
    (hopen : OpenTo fs way) (v : Value) : deleteParts? (setParts fs way v) way = some fs := by
  induction way generalizing fs with
  | nil => exact absurd rfl hway
  | cons name rest ih =>
    rcases eq_or_ne rest [] with rfl | hrest
    · rw [Value.at?_singleton, Value.fields] at hnone
      rw [setParts, deleteParts?, Assoc.has, Assoc.get?_put_self, Assoc.erase_put_of_none hnone]
      rfl
    · rw [at?_cons hrest] at hnone
      rw [setParts_cons hrest, deleteParts?_cons hrest, under_put, ih hrest hnone hopen.under,
        Option.map_some, Assoc.put_put]
      congr 1
      cases hget : Assoc.get? name fs with
      | none =>
        -- the object has been made on the way, and goes again
        rw [under_of_none hget, List.isEmpty_nil, if_pos rfl, Assoc.erase_put_of_none hget]
      | some w =>
        obtain ⟨hobject, hempty⟩ := hopen.get? hrest hget
        rw [if_neg (mt List.isEmpty_iff.1 hempty), Assoc.put_of_get? (hobject ▸ hget)]

/-! ### Dotted keys -/

variable {k : Str}

theorem at?_of_ne (h : k ≠ "") (fs : Fields) : at? fs k = (Value.object fs).at? (keyParts k) :=
  if_neg h

/-- What is left when a dotted key is deleted: everything, if there is nothing to delete. -/
def without (fs : Fields) (key : Str) : Fields := (deleteAt? fs key).getD fs

theorem without_of_none (h : deleteAt? fs k = none) : without fs k = fs := by
  rw [without, h, Option.getD_none]

/-- **The laws of dotted keys**, in an object that names no field twice.

* A key can be set.  It has its value then, and every key apart from it has what it had.  If the key
  had none, and there were only objects on the way to it that are not empty, then deleting it gives
  the object back.
* A key can be deleted if and only if it has a value; otherwise everything is left.  It has none
  then, no object on the way to it is empty, and every key apart from it has what it had. -/
theorem dotKey_laws (hfs : (Value.object fs).Distinct) (hk : k ≠ "") (v : Value) :
    (∃ gs, setAt? fs k v = some gs ∧ at? gs k = some v ∧
      (∀ k' : Str, k' ≠ "" → Apart (keyParts k) (keyParts k') → at? gs k' = at? fs k') ∧
      (at? fs k = none → OpenTo fs (keyParts k) → deleteAt? gs k = some fs)) ∧
    ((deleteAt? fs k).isSome = (at? fs k).isSome) ∧
    ((deleteAt? fs k).isSome = false → without fs k = fs) ∧
    ((deleteAt? fs k).isSome = true → at? (without fs k) k = none ∧
      (∀ front, front ≠ [] → front <+: keyParts k →
        (Value.object (without fs k)).at? front ≠ some (.object [])) ∧
      ∀ k' : Str, k' ≠ "" → Apart (keyParts k) (keyParts k') →
        at? (without fs k) k' = at? fs k') := by
  have hparts := keyParts_ne_nil k
  have hset : setAt? fs k v = some (setParts fs (keyParts k) v) := if_neg hk
  have hdelete : ∀ fs, deleteAt? fs k = deleteParts? fs (keyParts k) := fun _ => if_neg hk
  refine ⟨⟨_, hset, ?_, fun k' hk' happart => ?_, fun hnone hopen => ?_⟩, ?_, fun hnone => ?_,
    fun hsome => ?_⟩
  · rw [at?_of_ne hk, at?_setParts hparts]
  · rw [at?_of_ne hk', at?_of_ne hk', at?_setParts_of_apart happart]
  · rw [at?_of_ne hk] at hnone
    rw [hdelete, deleteParts?_setParts hparts hnone hopen]
  · rw [hdelete, at?_of_ne hk, isSome_deleteParts? hparts]
  · exact without_of_none (Option.isSome_eq_false_iff.1 hnone |> Option.isNone_iff_eq_none.1)
  · obtain ⟨gs, hgs⟩ := Option.isSome_iff_exists.1 hsome
    have hleft : without fs k = gs := by rw [without, hgs, Option.getD_some]
    rw [hdelete] at hgs
    rw [hleft]
    refine ⟨?_, fun front hne hfront => at?_deleteParts_ne_empty hfs hgs hne hfront,
      fun k' hk' happart => ?_⟩
    · rw [at?_of_ne hk, at?_deleteParts hfs hgs]
    · rw [at?_of_ne hk', at?_of_ne hk', at?_deleteParts_of_apart hfs hgs happart]

/-- An object with an object in it. -/
def nestedFields : Fields := [("editor", .object [("tab_width", .int 4)]), ("note", .null)]

/-- A value that is set two objects further down, where one of them is missing, and deleted again;
and the only field of an object, which goes with it. -/
theorem dotKey_laws_nested :
    (Value.object nestedFields).Distinct ∧ "editor.font.size" ≠ "" ∧ "editor.tab_width" ≠ "" ∧
      (∃ gs, setAt? nestedFields "editor.font.size" (.int 12) = some gs ∧
        at? gs "editor.font.size" = some (.int 12) ∧ at? gs "editor.tab_width" = some (.int 4) ∧
        deleteAt? gs "editor.font.size" = some nestedFields) ∧
      (deleteAt? nestedFields "editor.tab_width").isSome = true ∧
      at? (without nestedFields "editor.tab_width") "editor" ≠ some (.object []) ∧
      at? (without nestedFields "editor.tab_width") "note" = some .null := by
  have hdistinct : (Value.object nestedFields).Distinct := by decide
  have hopen : OpenTo nestedFields (keyParts "editor.font.size") := by
    intro front hne hfront hproper w hw
    have hmem : front ∈ (keyParts "editor.font.size").inits := (List.mem_inits _ _).2 hfront
    have hall : ∀ front ∈ (keyParts "editor.font.size").inits, front ≠ [] →
        front ≠ keyParts "editor.font.size" →
        (Value.object nestedFields).at? front = none ∨
          (Value.object nestedFields).at? front = some (.object [("tab_width", .int 4)]) := by
      decide
    rcases hall front hmem hne hproper with hnone | hsome
    · rw [hnone] at hw
      cases hw
    · rw [hsome] at hw
      exact ⟨_, (Option.some.inj hw).symm, List.cons_ne_nil _ _⟩
  obtain ⟨⟨gs, hset, hvalue, hapart, hback⟩, -⟩ :=
    dotKey_laws (k := "editor.font.size") hdistinct (by decide) (.int 12)
  obtain ⟨-, hdelete, -, hdeleted⟩ :=
    dotKey_laws (k := "editor.tab_width") hdistinct (by decide) .null
  have hsome : (deleteAt? nestedFields "editor.tab_width").isSome = true := hdelete.trans (by decide)
  obtain ⟨-, hempty, hothers⟩ := hdeleted hsome
  refine ⟨hdistinct, by decide, by decide, ⟨gs, hset, hvalue, ?_, hback (by decide) hopen⟩, hsome,
    ?_, ?_⟩
  · rw [hapart "editor.tab_width" (by decide) (by decide)]
    decide
  · rw [at?_of_ne (by decide)]
    exact hempty _ (by decide) (by decide)
  · rw [hothers "note" (by decide) (by decide)]
    decide

end Fields

end TypingAid
