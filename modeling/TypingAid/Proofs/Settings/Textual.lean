import TypingAid.Proofs.Json.Printer
import TypingAid.Proofs.Settings.App

/-!
# Settings that can be written

A settings file can be written if and only if every string in it is a text
(`Value.isText_pretty_iff`).  Normalizing puts nothing into a file but what it has read there and
words of its own.  So if every string of a document is a text, then every string of what normalizing
makes of it is one (`AppFields.textual_normalize`).
-/

namespace TypingAid

variable {v : Value} {fs : Fields} {k : Str}

namespace Value

/-! ### Parts of a value -/

@[simp]
theorem textual_int (n : Int) : (int n).Textual := fun _ h => absurd h List.not_mem_nil

@[simp]
theorem textual_bool (b : Bool) : (bool b).Textual := fun _ h => absurd h List.not_mem_nil

theorem textual_str_iff {s : Str} : (str s).Textual ↔ s.isText = true := List.forall_mem_singleton

theorem textual_list_iff {items : List Value} :
    (list items).Textual ↔ ∀ v ∈ items, v.Textual := by
  induction items with
  | nil => exact ⟨fun _ _ h => absurd h List.not_mem_nil, fun _ _ h => absurd h List.not_mem_nil⟩
  | cons v items ih =>
    rw [List.forall_mem_cons, ← ih]
    exact List.forall_mem_append

theorem Textual.fields (h : v.Textual) : (object v.fields).Textual := by
  cases v with
  | object fs => exact h
  | _ => exact fun _ hs => absurd hs List.not_mem_nil

theorem Textual.get? (h : (object fs).Textual) (hget : Assoc.get? k fs = some v) : v.Textual :=
  (textual_object_iff.1 h _ (Assoc.mem_of_get? hget)).2

theorem Textual.put (h : (object fs).Textual) (hk : k.isText = true) (hv : v.Textual) :
    (object (Assoc.put k v fs)).Textual := by
  refine textual_object_iff.2 fun e he => ?_
  rcases Assoc.mem_or_of_mem_put he with rfl | he
  · exact ⟨hk, hv⟩
  · exact textual_object_iff.1 h e he

mutual

/-- The order of fields is of no account. -/
theorem Textual.sorted : ∀ {v : Value}, v.Textual → v.sorted.Textual
  | null, h | bool _, h | int _, h | float _, h | str _, h => by simpa only [Value.sorted] using h
  | list _, h => textual_list_iff.2 (textual_sortedItems (textual_list_iff.1 h))
  | object _, h => textual_object_iff.2 fun e he =>
    textual_sortedFields (textual_object_iff.1 h) e ((Json.perm_sortFields _).mem_iff.1 he)

theorem textual_sortedItems : ∀ {items : List Value}, (∀ v ∈ items, v.Textual) →
    ∀ v ∈ sortedItems items, v.Textual
  | [], _ => List.forall_mem_nil _
  | _ :: _, h => by
    rw [List.forall_mem_cons] at h
    exact List.forall_mem_cons.2 ⟨h.1.sorted, textual_sortedItems h.2⟩

theorem textual_sortedFields : ∀ {fs : Fields}, (∀ e ∈ fs, e.1.isText = true ∧ e.2.Textual) →
    ∀ e ∈ sortedFields fs, e.1.isText = true ∧ e.2.Textual
  | [], _ => List.forall_mem_nil _
  | (_, _) :: _, h => by
    rw [List.forall_mem_cons] at h
    exact List.forall_mem_cons.2 ⟨⟨h.1.1, h.1.2.sorted⟩, textual_sortedFields h.2⟩

end

/-- Only a string is shown as it is. -/
theorem Textual.isText_word (h : v.Textual) : v.word.isText = true := by
  have hdisplay : v.display.isText = true := by
    cases v with
    | str s => exact textual_str_iff.1 h
    | _ => rfl
  rw [word]
  split_ifs
  · exact Str.isText_strip hdisplay
  · rfl

end Value

/-! ### Defaults -/

mutual

theorem Fields.textual_mergeDefaults : ∀ {defaults fs : Fields}, (Value.object defaults).Textual →
    (Value.object fs).Textual → (Value.object (mergeDefaults fs defaults)).Textual
  | [], _, _, h => by rwa [mergeDefaults]
  | (name, default) :: rest, fs, hdefaults, h => by
    rw [Value.textual_object_iff, List.forall_mem_cons] at hdefaults
    obtain ⟨⟨hname, hdefault⟩, hrest⟩ := hdefaults
    rw [mergeDefaults]
    refine textual_mergeDefaults (Value.textual_object_iff.2 hrest) ?_
    cases hget : Assoc.get? name fs with
    | none => exact h.put hname hdefault
    | some v => exact h.put hname (textual_mergeValue hdefault (h.get? hget))

theorem Fields.textual_mergeValue : ∀ {default v : Value}, default.Textual → v.Textual →
    (mergeValue v default).Textual
  | .object _, v, hdefault, h => by
    cases v with
    | object fs =>
      rw [mergeValue_object]
      exact textual_mergeDefaults hdefault h
    | _ => exact h
  | .null, _, _, h | .bool _, _, _, h | .int _, _, _, h | .float _, _, _, h | .str _, _, _, h
  | .list _, _, _, h => h

end

/-! ### Bindings -/

/-- A chord is a text if the value that names it is made of texts. -/
theorem isText_of_mem_chordsOf {c : Points} (h : v.Textual) (hc : c ∈ chordsOf v) :
    (Str.ofPoints c).isText = true := by
  have hstrings : ∀ s ∈ v.strings, ∀ p ∈ s, p.isHalf = false := by
    cases v with
    | str s => exact List.forall_mem_singleton.2 (Str.isText_iff.1 (Value.textual_str_iff.1 h))
    | list items =>
      intro s hs
      obtain ⟨w, hw, hs⟩ := List.mem_filterMap.1 hs
      have hword := Value.textual_list_iff.1 h w hw
      cases w with
      | str t =>
        cases hs
        exact Str.isText_iff.1 (Value.textual_str_iff.1 hword)
      | _ => cases hs
    | _ => exact List.forall_mem_nil _
  obtain ⟨s, hs, t, ht, rfl, -⟩ := exists_of_mem_chordsOf hc
  refine Str.isText_ofPoints.2 fun p hp => ?_
  cases p with
  | char c => rfl
  | half n =>
    -- no half comes into a chord but from the string
    have hmem := Chord.mem_of_mem_canonical (p := .half n) id Point.noConfusion hp
    exact hstrings s hs _ (Text.mem_of_mem_splitAt ht hmem)

namespace Bindings

/-- Every chord is a text. -/
def Textual (b : Bindings) : Prop := ∀ e ∈ b, ∀ c ∈ e.2, (Str.ofPoints c).isText = true

theorem Textual.bind {b : Bindings} (h : b.Textual) (hv : v.Textual) (id : Str) :
    (b.bind id v).Textual := by
  rcases b.bind_cases id v with he | ⟨a, -, cs, he, -, hcs⟩
  · rwa [he]
  · rw [he]
    intro e he
    rcases Assoc.mem_or_of_mem_put he with rfl | he
    · exact fun c hc => isText_of_mem_chordsOf hv (hcs hc)
    · exact h e he

theorem textual_normalize {raw : Value} (h : raw.Textual) : (normalize raw).Textual := by
  have hdefault : Textual default := by
    rw [Textual]
    decide
  refine List.foldlRecOn (motive := Textual) _ _ hdefault fun b hb e he => ?_
  dsimp only
  split_ifs
  · have hentries := (Value.textual_object_iff.1 h.fields e he).2.fields
    exact List.foldlRecOn (motive := Textual) _ _ hb fun b hb e he =>
      hb.bind (Value.textual_object_iff.1 hentries e he).2 e.1
  · exact hb

theorem Textual.toValue {b : Bindings} (h : b.Textual) : b.toValue.Textual := by
  rw [toValue_eq, Value.textual_object_iff, List.forall_mem_singleton]
  refine ⟨rfl, Value.textual_object_iff.2 fun e he => ?_⟩
  obtain ⟨chords, hchords, rfl⟩ := List.mem_map.1 he
  refine ⟨rfl, Value.textual_list_iff.2 fun w hw => ?_⟩
  obtain ⟨c, hc, rfl⟩ := List.mem_map.1 hw
  exact Value.textual_str_iff.2 (h chords hchords c hc)

end Bindings

/-! ### The whole file -/

theorem Settings.textual_toValue (s : Settings) : s.toValue.Textual := by
  simp [toValue, toFields, Value.Textual, Value.strs, Value.strsFields]

namespace AppFields

theorem textual_field (h : (Value.object fs).Textual) (name : Str) : (field fs name).Textual := by
  rw [field]
  cases hget : Assoc.get? name fs with
  | none => exact List.forall_mem_nil _
  | some v => exact h.get? hget

theorem textual_editor? {inner : Fields} (h : v.Textual) (hinner : editor? v = some inner) :
    (Value.object inner).Textual := by
  have hdefaults : (Value.object editorDefaults).Textual := by decide
  have hmerged := Fields.textual_mergeDefaults hdefaults h.fields
  obtain ⟨size, tab, -, -, rfl⟩ := (editor?_eq_some_iff rfl).1 hinner
  have hfont := Value.textual_str_iff.2 (textual_field hmerged "font_family").isText_word
  exact (((hmerged.put rfl hfont).put rfl (Value.textual_int _)).put rfl
    (Value.textual_int _)).put rfl (Value.textual_bool _)

theorem textual_window? {outer : Fields} (h : v.Textual) (houter : window? v = some outer) :
    (Value.object outer).Textual := by
  have hdefaults : (Value.object windowDefaults).Textual := by decide
  have hmerged := Fields.textual_mergeDefaults hdefaults h.fields
  obtain ⟨width, height, -, -, rfl⟩ := (window?_eq_some_iff rfl).1 houter
  have hfile := Value.textual_str_iff.2 (textual_field hmerged "last_open_file").isText_word
  exact ((hmerged.put rfl (Value.textual_int _)).put rfl (Value.textual_int _)).put rfl hfile

/-- **Normalizing puts nothing but texts** into a file of texts. -/
theorem textual_normalize (hdone : (normalize fs).2 = true) (h : (Value.object fs).Textual) :
    (Value.object (normalize fs).1).Textual := by
  obtain ⟨inner, outer, hinner, houter, hnormalize⟩ := normalize_eq hdone
  have hbindings := Bindings.textual_normalize (textual_field h "keybindings")
  rw [hnormalize]
  exact (((h.put rfl (Settings.textual_toValue _)).put rfl hbindings.toValue).put rfl
    (textual_editor? (textual_field h _) hinner)).put rfl
    (textual_window? (textual_field h _) houter)

end AppFields

end TypingAid
