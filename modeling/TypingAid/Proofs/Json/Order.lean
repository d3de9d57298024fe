import TypingAid.Json.Printer
import TypingAid.Proofs.Assoc
import TypingAid.Proofs.Text.Str

/-!
# The order of fields

`Value.sorted` puts the fields of all objects in the order of their names, the order in which a
settings file has them.  Two values with the same sorted value differ in the order of fields only.

* Looking a field up does not depend on the order (`Json.get?_sortFields`), and sorting twice is
  sorting once (`Value.sorted_sorted`).
* If no object in it names a field twice (`Value.Distinct`), a value is loosely equal to every value
  that differs from it in the order of fields only (`Value.Distinct.looselyEqual`).
-/

namespace TypingAid

namespace Json

variable {α β : Type} {field : Str × α} {fs : List (Str × α)} {k : Str}

/-- The names of the fields come in ascending order. -/
def Ascending (fs : List (Str × α)) : Prop := fs.Pairwise fun a b => ¬ b.1 < a.1

theorem perm_insertField (field : Str × α) (fs : List (Str × α)) :
    (insertField field fs).Perm (field :: fs) := by
  induction fs with
  | nil => exact .refl _
  | cons other rest ih =>
    rw [insertField]
    split_ifs
    · exact (ih.cons other).trans (.swap field other rest)
    · exact .refl _

theorem perm_sortFields (fs : List (Str × α)) : (sortFields fs).Perm fs := by
  induction fs with
  | nil => exact .refl _
  | cons field fs ih => exact (perm_insertField field _).trans (ih.cons field)

@[simp] theorem sortFields_eq_nil : sortFields fs = [] ↔ fs = [] := by
  rw [← List.length_eq_zero_iff, (perm_sortFields fs).length_eq, List.length_eq_zero_iff]

theorem ascending_insertField (h : Ascending fs) (field : Str × α) :
    Ascending (insertField field fs) := by
  induction fs with
  | nil => exact List.pairwise_singleton _ _
  | cons other rest ih =>
    obtain ⟨hother, hrest⟩ := List.pairwise_cons.1 h
    rw [insertField]
    split_ifs with hlt
    · refine List.pairwise_cons.2 ⟨fun e he => ?_, ih hrest⟩
      rcases List.mem_cons.1 ((perm_insertField field rest).mem_iff.1 he) with rfl | he
      · exact lt_asymm hlt
      · exact hother e he
    · refine List.pairwise_cons.2 ⟨fun e he => ?_, h⟩
      rcases List.mem_cons.1 he with rfl | he
      · exact hlt
      · exact not_lt.2 ((not_lt.1 hlt).trans (not_lt.1 (hother e he)))

theorem ascending_sortFields (fs : List (Str × α)) : Ascending (sortFields fs) := by
  induction fs with
  | nil => exact List.Pairwise.nil
  | cons field fs ih => exact ascending_insertField ih field

/-- Fields in ascending order stay where they are. -/
theorem sortFields_of_ascending (h : Ascending fs) : sortFields fs = fs := by
  induction fs with
  | nil => rfl
  | cons field fs ih =>
    obtain ⟨hfield, hrest⟩ := List.pairwise_cons.1 h
    show insertField field (sortFields fs) = _
    rw [ih hrest]
    cases fs with
    | nil => rfl
    | cons other rest => rw [insertField, if_neg (hfield other List.mem_cons_self)]

/-- The order of the fields is of no account when one is looked up. -/
@[simp] theorem get?_sortFields (k : Str) (fs : List (Str × α)) :
    Assoc.get? k (sortFields fs) = Assoc.get? k fs := by
  have hinsert : ∀ (field : Str × α) (fs : List (Str × α)),
      Assoc.get? k (insertField field fs) = Assoc.get? k (field :: fs) := by
    intro field fs
    induction fs with
    | nil => rfl
    | cons other rest ih =>
      rw [insertField]
      split_ifs with hlt
      · -- a field that is passed has another name than the one that passes it
        have hne : ¬ (other.1 = k ∧ field.1 = k) := fun h => lt_irrefl k (by
          rw [h.1, h.2] at hlt; exact hlt)
        simp only [Assoc.get?] at ih ⊢
        rw [ih]
        split_ifs <;> first | rfl | tauto
      · rfl
  induction fs with
  | nil => rfl
  | cons field fs ih =>
    show Assoc.get? k (insertField field (sortFields fs)) = _
    rw [hinsert, Assoc.get?, Assoc.get?, ih]

theorem map_sortFields (f : α → β) (fs : List (Str × α)) :
    (sortFields fs).map (fun e => (e.1, f e.2)) = sortFields (fs.map fun e => (e.1, f e.2)) := by
  have hinsert : ∀ (field : Str × α) (fs : List (Str × α)),
      (insertField field fs).map (fun e => (e.1, f e.2)) =
        insertField (field.1, f field.2) (fs.map fun e => (e.1, f e.2)) := by
    intro field fs
    induction fs with
    | nil => rfl
    | cons other rest ih =>
      rw [insertField, List.map_cons, insertField]
      split_ifs
      · rw [List.map_cons, ih]
      · rfl
  induction fs with
  | nil => rfl
  | cons field fs ih =>
    show (insertField field (sortFields fs)).map _ = _
    rw [hinsert, ih]
    rfl

end Json

namespace Value

/-! ### Sorted values -/

mutual

/-- The value with the fields of all objects in the order of their names. -/
def sorted : Value → Value
  | list items => list (sortedItems items)
  | object fs => object (Json.sortFields (sortedFields fs))
  | v => v

/-- The items with the fields of all objects in order. -/
def sortedItems : List Value → List Value
  | [] => []
  | v :: rest => sorted v :: sortedItems rest

/-- The fields, in their own order, with the fields of all objects in them in order. -/
def sortedFields : Fields → Fields
  | [] => []
  | (key, v) :: rest => (key, sorted v) :: sortedFields rest

end

theorem sortedFields_eq_map (fs : Fields) : sortedFields fs = fs.map fun e => (e.1, e.2.sorted) := by
  induction fs with
  | nil => rfl
  | cons e fs ih => rw [sortedFields, List.map_cons, ih]

@[simp] theorem get?_sortedFields (k : Str) (fs : Fields) :
    Assoc.get? k (sortedFields fs) = (Assoc.get? k fs).map sorted := by
  rw [sortedFields_eq_map, Assoc.get?_map]

/-- A field of a sorted object is the field, sorted. -/
theorem get?_sorted (k : Str) (fs : Fields) :
    Assoc.get? k (Json.sortFields (sortedFields fs)) = (Assoc.get? k fs).map sorted := by
  rw [Json.get?_sortFields, get?_sortedFields]

/-- A field may be replaced by one that is the same but for the order of fields. -/
theorem sorted_put {k : Str} {v w : Value} {fs : Fields} (h : Assoc.get? k fs = some w)
    (hv : v.sorted = w.sorted) : (object (Assoc.put k v fs)).sorted = (object fs).sorted := by
  have hsame : sortedFields (Assoc.put k v fs) = sortedFields fs := by
    rw [sortedFields_eq_map, Assoc.map_put, ← sortedFields_eq_map]
    refine Assoc.put_of_get? ?_
    rw [get?_sortedFields, h, Option.map_some, hv]
  rw [sorted, sorted, hsame]

mutual

/-- **Sorting twice is sorting once.** -/
theorem sorted_sorted : ∀ v : Value, v.sorted.sorted = v.sorted
  | null | bool _ | int _ | float _ | str _ => by simp only [sorted]
  | list items => by rw [sorted, sorted, sortedItems_sortedItems items]
  | object fs => by
    have hmap : sortedFields (Json.sortFields (sortedFields fs)) =
        Json.sortFields (sortedFields fs) := by
      rw [sortedFields_eq_map, Json.map_sortFields, ← sortedFields_eq_map,
        sortedFields_sortedFields fs]
    rw [sorted, sorted, hmap, Json.sortFields_of_ascending (Json.ascending_sortFields _)]

theorem sortedItems_sortedItems : ∀ items : List Value,
    sortedItems (sortedItems items) = sortedItems items
  | [] => rfl
  | v :: rest => by rw [sortedItems, sortedItems, sorted_sorted v, sortedItems_sortedItems rest]

theorem sortedFields_sortedFields : ∀ fs : Fields,
    sortedFields (sortedFields fs) = sortedFields fs
  | [] => rfl
  | (key, v) :: rest => by
    rw [sortedFields, sortedFields, sorted_sorted v, sortedFields_sortedFields rest]

end

/-! ### Values that name no field twice -/

mutual

/-- No object in the value names a field twice. -/
def Distinct : Value → Prop
  | list items => DistinctItems items
  | object fs => (fs.map Prod.fst).Nodup ∧ DistinctFields fs
  | _ => True

def DistinctItems : List Value → Prop
  | [] => True
  | v :: rest => Distinct v ∧ DistinctItems rest

def DistinctFields : Fields → Prop
  | [] => True
  | (_, v) :: rest => Distinct v ∧ DistinctFields rest

end

mutual

instance decidableDistinct : DecidablePred Distinct
  | null | bool _ | int _ | float _ | str _ => .isTrue trivial
  | list items => decidableDistinctItems items
  | object fs => @instDecidableAnd _ _ (List.nodupDecidable _) (decidableDistinctFields fs)

instance decidableDistinctItems : DecidablePred DistinctItems
  | [] => .isTrue trivial
  | v :: rest => @instDecidableAnd _ _ (decidableDistinct v) (decidableDistinctItems rest)

instance decidableDistinctFields : DecidablePred DistinctFields
  | [] => .isTrue trivial
  | (_, v) :: rest => @instDecidableAnd _ _ (decidableDistinct v) (decidableDistinctFields rest)

end

theorem distinctFields_iff {fs : Fields} : DistinctFields fs ↔ ∀ e ∈ fs, e.2.Distinct := by
  induction fs with
  | nil => exact ⟨fun _ _ h => absurd h List.not_mem_nil, fun _ => trivial⟩
  | cons e fs ih => rw [DistinctFields, ih, List.forall_mem_cons]

theorem Distinct.put {fs : Fields} (h : (object fs).Distinct) {v : Value} (hv : v.Distinct)
    (k : Str) : (object (Assoc.put k v fs)).Distinct := by
  obtain ⟨hnodup, hfields⟩ := h
  refine ⟨Assoc.nodup_put hnodup k v, distinctFields_iff.2 fun e he => ?_⟩
  rcases Assoc.mem_or_of_mem_put he with rfl | he
  · exact hv
  · exact distinctFields_iff.1 hfields e he

theorem sameNumber_self (x : Binary64) : x.sameNumber x = true := by
  rw [Binary64.sameNumber, decide_eq_true rfl, Bool.true_or]

mutual

/-- **A value is loosely equal to itself in another order.** -/
theorem Distinct.looselyEqual : ∀ {v w : Value}, v.Distinct → v.sorted = w.sorted →
    v.looselyEqual w = true
  | null, w, _, h => by cases w <;> simp_all [sorted, Value.looselyEqual]
  | bool b, w, _, h => by cases w <;> simp_all [sorted, Value.looselyEqual, asInt?]
  | int n, w, _, h => by cases w <;> simp_all [sorted, Value.looselyEqual, asInt?]
  | float x, w, _, h => by cases w <;> simp_all [sorted, Value.looselyEqual, sameNumber_self]
  | str s, w, _, h => by cases w <;> simp_all [sorted, Value.looselyEqual]
  | list items, w, hv, h => by
    cases w with
    | list others =>
      rw [sorted, sorted, list.injEq] at h
      exact DistinctItems.looselyEqual hv h
    | _ => simp only [sorted, reduceCtorEq] at h
  | object fs, w, hv, h => by
    cases w with
    | object others =>
      rw [sorted, sorted, object.injEq] at h
      have hlen : fs.length = others.length := by
        have := congrArg List.length h
        rw [(Json.perm_sortFields _).length_eq, (Json.perm_sortFields _).length_eq,
          sortedFields_eq_map, sortedFields_eq_map, List.length_map, List.length_map] at this
        exact this
      have hget : ∀ e ∈ fs, ∃ w, Assoc.get? e.1 others = some w ∧ e.2.sorted = w.sorted := by
        intro e he
        have hsame := congrArg (Assoc.get? e.1) h
        rw [get?_sorted, get?_sorted, Assoc.get?_of_mem hv.1 he, Option.map_some,
          eq_comm, Option.map_eq_some_iff] at hsame
        obtain ⟨w, hw, hs⟩ := hsame
        exact ⟨w, hw, hs.symm⟩
      rw [Value.looselyEqual]
      simp only [hlen, beq_self_eq_true, Bool.true_and]
      exact DistinctFields.looselyIn hv.2 hget
    | _ => simp only [sorted, reduceCtorEq] at h

theorem DistinctItems.looselyEqual : ∀ {items others : List Value}, DistinctItems items →
    sortedItems items = sortedItems others → looselyEqualItems items others = true
  | [], others, _, h => by
    cases others with
    | nil => rfl
    | cons w others => cases h
  | v :: rest, others, hv, h => by
    cases others with
    | nil => cases h
    | cons w others =>
      rw [sortedItems, sortedItems, List.cons.injEq] at h
      rw [looselyEqualItems, Distinct.looselyEqual hv.1 h.1, Bool.true_and]
      exact DistinctItems.looselyEqual hv.2 h.2

theorem DistinctFields.looselyIn : ∀ {fs others : Fields}, DistinctFields fs →
    (∀ e ∈ fs, ∃ w, Assoc.get? e.1 others = some w ∧ e.2.sorted = w.sorted) →
    Value.looselyIn fs others = true
  | [], _, _, _ => rfl
  | (key, v) :: rest, others, hv, h => by
    obtain ⟨w, hw, hs⟩ := h (key, v) List.mem_cons_self
    rw [Value.looselyIn, hw]
    dsimp only
    rw [Distinct.looselyEqual hv.1 hs, Bool.true_and]
    exact DistinctFields.looselyIn hv.2 fun e he => h e (List.mem_cons_of_mem _ he)

end

theorem get?_of_looselyIn {fs others : Fields} (h : looselyIn fs others = true) :
    ∀ e ∈ fs, ∃ w, Assoc.get? e.1 others = some w ∧ e.2.looselyEqual w = true := by
  induction fs with
  | nil => exact fun _ he => absurd he List.not_mem_nil
  | cons e fs ih =>
    rw [looselyIn, Bool.and_eq_true] at h
    obtain ⟨hfirst, hrest⟩ := h
    refine List.forall_mem_cons.2 ⟨?_, ih hrest⟩
    cases hget : Assoc.get? e.1 others with
    | none =>
      rw [hget] at hfirst
      cases hfirst
    | some w =>
      rw [hget] at hfirst
      exact ⟨w, rfl, hfirst⟩

end Value

end TypingAid
