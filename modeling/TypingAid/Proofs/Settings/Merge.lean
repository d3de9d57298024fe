import TypingAid.Proofs.Settings.Defaults
import TypingAid.Proofs.Settings.DotKey

/-!
# Defaults and what a user has written

Filling in defaults is a recursion over two objects.  What comes out of it is said here for every
way through the objects, by how far the way goes in the object that is filled in
(`Value.Reaches`):

* a value at its end stays, and an object there at most gains fields (`Fields.at?_mergeValue`);
* if it breaks off in an object, the defaults decide, and if it breaks off at any other value,
  nothing comes behind that (`Fields.at?_mergeValue_of_none`).

Filling in the same defaults once more changes nothing (`Fields.mergeDefaults_mergeDefaults`).
`Fields.mergeDefaults_ways` puts this together.
-/

namespace TypingAid

/-! ### How far a way goes -/

/-- `front` is the longest beginning of `way` that leads anywhere in `v`, and it leads to `w`. -/
structure Value.Reaches (v : Value) (way front : List Str) (w : Value) : Prop where
  begins : front <+: way
  found : v.at? front = some w
  longest : ∀ other, other <+: way → (v.at? other).isSome = true → other.length ≤ front.length

namespace Value

variable {v w x : Value} {name : Str} {front rest way : List Str} {fs : Fields}

/-- A way that breaks off at once goes nowhere. -/
theorem reaches_iff_of_none (h : Assoc.get? name v.fields = none) :
    Reaches v (name :: rest) front w ↔ front = [] ∧ w = v := by
  have hnone : ∀ other, v.at? (name :: other) = none := fun other => by
    rw [at?_cons, h, Option.bind_none]
  constructor
  · rintro ⟨hbegins, hfound, -⟩
    cases front with
    | nil => exact ⟨rfl, (Option.some.inj hfound).symm⟩
    | cons next front =>
      obtain ⟨rfl, -⟩ := List.cons_prefix_cons.1 hbegins
      rw [hnone] at hfound
      cases hfound
  · rintro ⟨rfl, rfl⟩
    refine ⟨List.nil_prefix, rfl, fun other hother hsome => ?_⟩
    cases other with
    | nil => exact Nat.le_refl _
    | cons next other =>
      obtain ⟨rfl, -⟩ := List.cons_prefix_cons.1 hother
      rw [hnone] at hsome
      cases hsome

/-- A way that goes on goes as far as it goes from there. -/
theorem reaches_iff_of_some (h : Assoc.get? name v.fields = some x) :
    Reaches v (name :: rest) front w ↔ ∃ behind, front = name :: behind ∧ Reaches x rest behind w := by
  have hat : ∀ other, v.at? (name :: other) = x.at? other := fun other => by
    rw [at?_cons, h, Option.bind_some]
  constructor
  · rintro ⟨hbegins, hfound, hlongest⟩
    -- the first name leads somewhere, so the longest beginning holds it
    have hone : 1 ≤ front.length :=
      hlongest [name] (List.cons_prefix_cons.2 ⟨rfl, List.nil_prefix⟩) (by rw [hat]; rfl)
    obtain ⟨next, behind, rfl⟩ := List.exists_cons_of_length_pos hone
    obtain ⟨rfl, hbehind⟩ := List.cons_prefix_cons.1 hbegins
    refine ⟨behind, rfl, hbehind, (hat behind).symm.trans hfound, fun other hother hsome => ?_⟩
    have hle := hlongest (next :: other) (List.cons_prefix_cons.2 ⟨rfl, hother⟩) (by rwa [hat])
    simpa using hle
  · rintro ⟨behind, rfl, hbegins, hfound, hlongest⟩
    refine ⟨List.cons_prefix_cons.2 ⟨rfl, hbegins⟩, (hat behind).trans hfound,
      fun other hother hsome => ?_⟩
    cases other with
    | nil => exact Nat.zero_le _
    | cons next other =>
      obtain ⟨rfl, hrest⟩ := List.cons_prefix_cons.1 hother
      exact Nat.succ_le_succ (hlongest other hrest (by rwa [← hat]))

/-- Every way goes somewhere, if only to its start. -/
theorem exists_reaches (v : Value) (way : List Str) : ∃ front w, Reaches v way front w := by
  induction way generalizing v with
  | nil => exact ⟨[], v, List.nil_prefix, rfl, fun other hother _ =>
      (List.prefix_nil.1 hother) ▸ Nat.le_refl _⟩
  | cons name rest ih =>
    cases hget : Assoc.get? name v.fields with
    | none => exact ⟨[], v, (reaches_iff_of_none hget).2 ⟨rfl, rfl⟩⟩
    | some x =>
      obtain ⟨behind, w, hreach⟩ := ih x
      exact ⟨name :: behind, w, (reaches_iff_of_some hget).2 ⟨behind, rfl, hreach⟩⟩

end Value

namespace Fields

variable {fs defaults : Fields} {name : Str} {way front : List Str} {v w x d : Value}

/-! ### One step -/

/-- The default that a value has for a field; if it has none, null, which adds nothing. -/
def defaultFor (name : Str) (d : Value) : Value := (Assoc.get? name d.fields).getD .null

theorem distinct_defaultFor (h : d.Distinct) (name : Str) : (defaultFor name d).Distinct := by
  rw [defaultFor]
  cases hget : Assoc.get? name d.fields with
  | none => exact trivial
  | some x =>
    cases d with
    | object defaults => exact Value.distinctFields_iff.1 h.2 _ (Assoc.mem_of_get? hget)
    | _ => cases hget

/-- The defaults at the end of a way that goes on are those behind its first name. -/
theorem at?_defaultFor (hway : way ≠ []) (name : Str) (d : Value) :
    (defaultFor name d).at? way = d.at? (name :: way) := by
  obtain ⟨next, rest, rfl⟩ := List.exists_cons_of_ne_nil hway
  rw [Value.at?_cons d, defaultFor]
  cases Assoc.get? name d.fields <;> rfl

theorem mergeValue_of_not_object_left (h : v.isObject = false) (d : Value) :
    mergeValue v d = v := by
  cases d with
  | object defaults =>
    cases v with
    | object fs => cases h
    | _ =>
      rw [mergeValue]
      rintro _ ⟨⟩
  | _ => rfl

theorem isObject_mergeValue (v d : Value) : (mergeValue v d).isObject = v.isObject := by
  cases v with
  | object fs =>
    cases d with
    | object defaults => rw [mergeValue_object]; rfl
    | _ => rfl
  | _ => rw [mergeValue_of_not_object_left rfl]

/-- What a field holds is kept, or filled in. -/
theorem get?_mergeValue_of_some (hd : d.Distinct) (h : Assoc.get? name v.fields = some x) :
    Assoc.get? name (mergeValue v d).fields = some (mergeValue x (defaultFor name d)) := by
  obtain ⟨fs, rfl⟩ : ∃ fs, v = .object fs := by
    cases v <;> first | exact ⟨_, rfl⟩ | cases h
  cases d with
  | object defaults =>
    rw [mergeValue_object, Value.fields, defaultFor, Value.fields]
    cases hget : Assoc.get? name defaults with
    | none => exact (get?_mergeDefaults_of_none hget fs).trans h
    | some default => rw [get?_mergeDefaults hd.1 hget, show Assoc.get? name fs = some x from h]; rfl
  | _ => exact h

/-- What an object does not hold comes from the defaults. -/
theorem get?_mergeValue_of_none (hd : d.Distinct) (h : Assoc.get? name fs = none) :
    Assoc.get? name (mergeValue (.object fs) d).fields = Assoc.get? name d.fields := by
  cases d with
  | object defaults =>
    rw [mergeValue_object, Value.fields, Value.fields]
    cases hget : Assoc.get? name defaults with
    | none => exact (get?_mergeDefaults_of_none hget fs).trans h
    | some default => rw [get?_mergeDefaults hd.1 hget, h]; rfl
  | _ => exact h

/-! ### Whole ways -/

/-- **What is there stays**, if it is an object with what the defaults add to it. -/
theorem at?_mergeValue (hd : d.Distinct) (h : v.at? way = some w) :
    ∃ default, (mergeValue v d).at? way = some (mergeValue w default) := by
  induction way generalizing v d with
  | nil =>
    obtain rfl := Option.some.inj h
    exact ⟨d, rfl⟩
  | cons name rest ih =>
    rw [Value.at?_cons] at h
    obtain ⟨x, hget, hx⟩ := Option.bind_eq_some_iff.1 h
    rw [Value.at?_cons, get?_mergeValue_of_some hd hget]
    exact ih (distinct_defaultFor hd name) hx

/-- **Where nothing is, the defaults decide**, unless a value is in the way that is no object. -/
theorem at?_mergeValue_of_none (hd : d.Distinct) (h : v.at? way = none)
    (hreach : v.Reaches way front w) :
    (mergeValue v d).at? way = if w.isObject then d.at? way else none := by
  induction way generalizing v d front with
  | nil => cases h
  | cons name rest ih =>
    cases hget : Assoc.get? name v.fields with
    | none =>
      -- the way breaks off here
      obtain ⟨-, rfl⟩ := (Value.reaches_iff_of_none hget).1 hreach
      cases w with
      | object fs =>
        rw [Value.fields] at hget
        rw [Value.at?_cons, get?_mergeValue_of_none hd hget, Value.at?_cons d]
        rfl
      | _ => rw [mergeValue_of_not_object_left rfl]; exact h
    | some x =>
      obtain ⟨behind, rfl, hbehind⟩ := (Value.reaches_iff_of_some hget).1 hreach
      rw [Value.at?_cons, hget, Option.bind_some] at h
      have hrest : rest ≠ [] := by
        rintro rfl
        cases h
      rw [Value.at?_cons, get?_mergeValue_of_some hd hget, Option.bind_some,
        ih (distinct_defaultFor hd name) h hbehind, at?_defaultFor hrest]

/-! ### Filling in twice -/

mutual

theorem mergeValue_twice : ∀ {d : Value}, d.Distinct →
    mergeValue d d = d ∧ ∀ v, mergeValue (mergeValue v d) d = mergeValue v d
  | .object defaults, hd => by
    have hfields := mergeFields_twice hd.2
    constructor
    · rw [mergeValue_object, mergeDefaults_eq_self]
      exact fun e he => ⟨e.2, Assoc.get?_of_mem hd.1 he, (hfields e he).1⟩
    · intro v
      cases v with
      | object fs =>
        rw [mergeValue_object, mergeValue_object, mergeDefaults_eq_self]
        -- a field holds its default now, or what has been filled in there
        intro e he
        refine ⟨_, get?_mergeDefaults hd.1 (Assoc.get?_of_mem hd.1 he) fs, ?_⟩
        cases Assoc.get? e.1 fs with
        | none => exact (hfields e he).1
        | some x => exact (hfields e he).2 x
      | _ => rw [mergeValue_of_not_object_left rfl, mergeValue_of_not_object_left rfl]
  | .null, _ | .bool _, _ | .int _, _ | .float _, _ | .str _, _ | .list _, _ =>
    ⟨rfl, fun _ => rfl⟩

theorem mergeFields_twice : ∀ {defaults : Fields}, Value.DistinctFields defaults →
    ∀ e ∈ defaults, mergeValue e.2 e.2 = e.2 ∧
      ∀ v, mergeValue (mergeValue v e.2) e.2 = mergeValue v e.2
  | [], _ => List.forall_mem_nil _
  | (_, _) :: _, hd => List.forall_mem_cons.2 ⟨mergeValue_twice hd.1, mergeFields_twice hd.2⟩

end

/-- **Defaults that have been filled in are all there.** -/
theorem mergeDefaults_mergeDefaults (hd : (Value.object defaults).Distinct) (fs : Fields) :
    mergeDefaults (mergeDefaults fs defaults) defaults = mergeDefaults fs defaults := by
  have h := (mergeValue_twice hd).2 (.object fs)
  rw [mergeValue_object, mergeValue_object] at h
  exact Value.object.inj h

/-! ### The theorem -/

/-- **Filling in defaults never replaces anything and leaves no default out.**  What is at the end of
a way after it:

* a value that was there, if it is no object;
* an object, if there was one;
* if nothing was there, and the longest beginning of the way that leads anywhere leads to an object,
  what the defaults have there; if it leads to any other value, nothing.

The defaults name no field twice, and filling them in once more changes nothing. -/
theorem mergeDefaults_ways (hd : (Value.object defaults).Distinct) (fs : Fields)
    (way : List Str) :
    (∀ v, (Value.object fs).at? way = some v → v.isObject = false →
      (Value.object (mergeDefaults fs defaults)).at? way = some v) ∧
    (∀ inner, (Value.object fs).at? way = some (.object inner) →
      ∃ filled, (Value.object (mergeDefaults fs defaults)).at? way = some (.object filled)) ∧
    (∃ front w, (Value.object fs).Reaches way front w) ∧
    ((Value.object fs).at? way = none → ∀ front w, (Value.object fs).Reaches way front w →
      (w.isObject = true → (Value.object (mergeDefaults fs defaults)).at? way =
        (Value.object defaults).at? way) ∧
      (w.isObject = false → (Value.object (mergeDefaults fs defaults)).at? way = none)) ∧
    mergeDefaults (mergeDefaults fs defaults) defaults = mergeDefaults fs defaults := by
  have hmerge := mergeValue_object fs defaults
  refine ⟨fun v hv hobject => ?_, fun inner hinner => ?_, Value.exists_reaches _ way,
    fun hnone front w hreach => ?_, mergeDefaults_mergeDefaults hd fs⟩
  · obtain ⟨default, hat⟩ := at?_mergeValue hd hv
    rwa [hmerge, mergeValue_of_not_object_left hobject] at hat
  · obtain ⟨default, hat⟩ := at?_mergeValue hd hinner
    have hobject := isObject_mergeValue (.object inner) default
    rw [hmerge] at hat
    cases hfilled : mergeValue (.object inner) default with
    | object filled => exact ⟨filled, hfilled ▸ hat⟩
    | _ => rw [hfilled] at hobject; cases hobject
  · have hat := at?_mergeValue_of_none hd hnone hreach
    rw [hmerge] at hat
    exact ⟨fun hw => by rw [hat, if_pos hw], fun hw => by rw [hat, hw]; rfl⟩

/-- Defaults for nested settings. -/
def layeredDefaults : Fields :=
  [("editor", .object [("font", .object [("size", .int 12), ("family", .str "serif")]),
    ("tab_width", .int 4)]), ("window", .object [("width", .int 800)])]

/-- Settings of which some are missing, and one stands where an object is expected. -/
def writtenFields : Fields :=
  [("window", .str "wide"), ("editor", .object [("font", .object [("size", .int 9)])])]

/-- A value that is kept, an object that gains a field, a field that is missing deep inside, and one
that is missing behind a text. -/
theorem mergeDefaults_ways_layered :
    (Value.object layeredDefaults).Distinct ∧
      (Value.object (mergeDefaults writtenFields layeredDefaults)).at? ["editor", "font", "size"] =
        some (.int 9) ∧
      (∃ filled, (Value.object (mergeDefaults writtenFields layeredDefaults)).at?
        ["editor", "font"] = some (.object filled)) ∧
      (Value.object (mergeDefaults writtenFields layeredDefaults)).at?
        ["editor", "font", "family"] = some (.str "serif") ∧
      (Value.object (mergeDefaults writtenFields layeredDefaults)).at? ["window", "width"] =
        none := by
  have hd : (Value.object layeredDefaults).Distinct := by decide
  -- one way goes as far as an object, the other as far as a text
  have hfont : (Value.object writtenFields).Reaches ["editor", "font", "family"]
      ["editor", "font"] (.object [("size", .int 9)]) :=
    (Value.reaches_iff_of_some rfl).2 ⟨_, rfl, (Value.reaches_iff_of_some rfl).2
      ⟨_, rfl, (Value.reaches_iff_of_none rfl).2 ⟨rfl, rfl⟩⟩⟩
  have hwindow : (Value.object writtenFields).Reaches ["window", "width"] ["window"]
      (.str "wide") :=
    (Value.reaches_iff_of_some rfl).2 ⟨_, rfl, (Value.reaches_iff_of_none rfl).2 ⟨rfl, rfl⟩⟩
  obtain ⟨hkept, -⟩ := mergeDefaults_ways hd writtenFields ["editor", "font", "size"]
  obtain ⟨-, hobject, -⟩ := mergeDefaults_ways hd writtenFields ["editor", "font"]
  obtain ⟨-, -, -, hmissing, -⟩ := mergeDefaults_ways hd writtenFields ["editor", "font", "family"]
  obtain ⟨-, -, -, hbehind, -⟩ := mergeDefaults_ways hd writtenFields ["window", "width"]
  refine ⟨hd, hkept (.int 9) rfl rfl, hobject _ rfl, ?_, (hbehind rfl _ _ hwindow).2 rfl⟩
  rw [(hmissing rfl _ _ hfont).1 rfl]
  rfl

end Fields

end TypingAid
