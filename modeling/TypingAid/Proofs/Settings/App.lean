import TypingAid.Proofs.Keys.Binding
import TypingAid.Proofs.Settings.DotKey
import TypingAid.Proofs.Settings.Fields
import TypingAid.Settings.App

/-!
# Settings that are what the program needs

`AppFields.Kept` says what the four objects of a settings file hold once they have been normalized:
settings, bindings, the looks of the editor and the window as they would be written.

* Normalizing brings it about, if no chord is the plus sign alone (`AppFields.kept_normalize`).
* It does not depend on the order of fields (`AppFields.KeptWith.sortFields`).
* There, no default is missing, and normalizing does nothing but put the typing settings in their
  own order (`AppFields.Usable.mergeDefaults`, `AppFields.Kept.normalize`).

While the program runs, the window gets other numbers and another file.  Then the settings are still
usable (`AppFields.Usable`): normalizing puts the window right and leaves all else.
-/

namespace TypingAid

variable {v : Value} {fs inner : Fields} {n : Int}

/-! ### Values of fields -/

/-- A string without blanks at its ends is its own word. -/
theorem Value.word_str {s : Str} (h : s.strip = s) : (Value.str s).word = s := by
  rw [word]
  split_ifs with hs
  · exact h
  · simp only [isTruthy, ne_eq, decide_not, Bool.not_eq_true', decide_eq_false_iff_not,
      not_not] at hs
    exact hs.symm

theorem Value.strip_word (v : Value) : v.word.strip = v.word := by
  rw [word]
  split_ifs
  · exact Str.strip_strip _
  · decide

theorem Value.kindName_sorted (v : Value) : v.sorted.kindName = v.kindName := by
  cases v <;> simp [sorted, kindName]

namespace NumberRange

variable {r : NumberRange}

theorem clamp_clamp (r : NumberRange) (n : Int) : r.clamp (r.clamp n) = r.clamp n := by
  simp only [clamp]
  omega

/-- What a value means is in the range, if the default is. -/
theorem clamp_of_read? (hr : r.clamp r.default = r.default) (h : r.read? v = some n) :
    r.clamp n = n := by
  rw [read?] at h
  split at h
  · cases h
    exact r.clamp_clamp _
  · cases h
  · cases h
    exact hr

theorem read?_whole (r : NumberRange) (n : Int) : r.read? (.int n) = some (r.clamp n) := rfl

theorem read?_int (h : r.clamp n = n) : r.read? (.int n) = some n :=
  (r.read?_whole n).trans (congrArg some h)

end NumberRange

namespace AppFields

theorem field_eq {name : Str} (h : Assoc.get? name fs = some v) : field fs name = v := by
  rw [field, h, Option.getD_some]

theorem field_put_of_ne {name k : Str} (h : name ≠ k) (v : Value) (fs : Fields) :
    field (Assoc.put k v fs) name = field fs name := by
  rw [field, Assoc.get?_put_of_ne h, ← field]

/-! ### The editor and the window -/

/-- The fields with those of the editor. -/
def putEditor (font : Str) (size tab : Int) (wrap : Bool) (fs : Fields) : Fields :=
  Assoc.put ↑"word_wrap" (.bool wrap) (Assoc.put ↑"tab_width" (.int tab)
    (Assoc.put ↑"font_size" (.int size) (Assoc.put ↑"font_family" (.str font) fs)))

/-- The fields with those of the window. -/
def putWindow (width height : Int) (file : Str) (fs : Fields) : Fields :=
  Assoc.put ↑"last_open_file" (.str file)
    (Assoc.put ↑"height" (.int height) (Assoc.put ↑"width" (.int width) fs))

theorem get?_putEditor (font : Str) (size tab : Int) (wrap : Bool) (fs : Fields) :
    Assoc.get? ↑"font_family" (putEditor font size tab wrap fs) = some (.str font) ∧
      Assoc.get? ↑"font_size" (putEditor font size tab wrap fs) = some (.int size) ∧
      Assoc.get? ↑"tab_width" (putEditor font size tab wrap fs) = some (.int tab) ∧
      Assoc.get? ↑"word_wrap" (putEditor font size tab wrap fs) = some (.bool wrap) := by
  refine ⟨?_, ?_, ?_, ?_⟩ <;> simp [putEditor, Assoc.get?_put_of_ne]

theorem get?_putWindow (width height : Int) (file : Str) (fs : Fields) :
    Assoc.get? ↑"width" (putWindow width height file fs) = some (.int width) ∧
      Assoc.get? ↑"height" (putWindow width height file fs) = some (.int height) ∧
      Assoc.get? ↑"last_open_file" (putWindow width height file fs) = some (.str file) := by
  refine ⟨?_, ?_, ?_⟩ <;> simp [putWindow, Assoc.get?_put_of_ne]

/-- The editor can be made ready if and only if its numbers can be read. -/
theorem editor?_eq_some_iff (hfs : Fields.mergeDefaults v.fields editorDefaults = fs) :
    editor? v = some inner ↔ ∃ size tab, fontSize.read? (field fs "font_size") = some size ∧
      tabWidth.read? (field fs "tab_width") = some tab ∧
      inner = putEditor (field fs "font_family").word size tab
        ((field fs "word_wrap").toSwitch true) fs := by
  subst hfs
  rw [editor?]
  simp only [Option.bind_eq_bind, Option.bind_eq_some_iff, field_put_of_ne, ne_eq,
    Str.text.injEq, String.reduceEq, not_false_eq_true]
  constructor
  · rintro ⟨size, hsize, tab, htab, h⟩
    exact ⟨size, tab, hsize, htab, (Option.some.inj h).symm⟩
  · rintro ⟨size, tab, hsize, htab, rfl⟩
    exact ⟨size, hsize, tab, htab, rfl⟩

/-- So can the window. -/
theorem window?_eq_some_iff (hfs : Fields.mergeDefaults v.fields windowDefaults = fs) :
    window? v = some inner ↔ ∃ width height,
      windowWidth.read? (field fs "width") = some width ∧
      windowHeight.read? (field fs "height") = some height ∧
      inner = putWindow width height (field fs "last_open_file").word fs := by
  subst hfs
  rw [window?]
  simp only [Option.bind_eq_bind, Option.bind_eq_some_iff, field_put_of_ne, ne_eq,
    Str.text.injEq, String.reduceEq, not_false_eq_true]
  constructor
  · rintro ⟨width, hwidth, height, hheight, h⟩
    exact ⟨width, height, hwidth, hheight, (Option.some.inj h).symm⟩
  · rintro ⟨width, height, hwidth, hheight, rfl⟩
    exact ⟨width, hwidth, height, hheight, rfl⟩

/-- The looks of the editor as they are written. -/
structure EditorKept (fs : Fields) : Prop where
  font : ∃ s, Assoc.get? ↑"font_family" fs = some (.str s) ∧ s.strip = s
  size : ∃ n, Assoc.get? ↑"font_size" fs = some (.int n) ∧ fontSize.clamp n = n
  tab : ∃ n, Assoc.get? ↑"tab_width" fs = some (.int n) ∧ tabWidth.clamp n = n
  wrap : ∃ b, Assoc.get? ↑"word_wrap" fs = some (.bool b)

/-- The window as it is written. -/
structure WindowKept (fs : Fields) : Prop where
  width : ∃ n, Assoc.get? ↑"width" fs = some (.int n) ∧ windowWidth.clamp n = n
  height : ∃ n, Assoc.get? ↑"height" fs = some (.int n) ∧ windowHeight.clamp n = n
  file : ∃ s, Assoc.get? ↑"last_open_file" fs = some (.str s) ∧ s.strip = s

theorem editorKept_of_editor? (h : editor? v = some inner) : EditorKept inner := by
  obtain ⟨size, tab, hsize, htab, rfl⟩ := (editor?_eq_some_iff rfl).1 h
  obtain ⟨hfont, hsize', htab', hwrap⟩ := get?_putEditor _ _ _ _ _
  exact ⟨⟨_, hfont, Value.strip_word _⟩,
    ⟨size, hsize', NumberRange.clamp_of_read? (by decide) hsize⟩,
    ⟨tab, htab', NumberRange.clamp_of_read? (by decide) htab⟩, ⟨_, hwrap⟩⟩

theorem windowKept_of_window? (h : window? v = some inner) : WindowKept inner := by
  obtain ⟨width, height, hwidth, hheight, rfl⟩ := (window?_eq_some_iff rfl).1 h
  obtain ⟨hwidth', hheight', hfile⟩ := get?_putWindow _ _ _ _
  exact ⟨⟨width, hwidth', NumberRange.clamp_of_read? (by decide) hwidth⟩,
    ⟨height, hheight', NumberRange.clamp_of_read? (by decide) hheight⟩,
    ⟨_, hfile, Value.strip_word _⟩⟩

theorem mem_fst_of_get? {k : Str} (h : Assoc.get? k fs = some v) : k ∈ fs.map Prod.fst :=
  List.mem_map_of_mem (f := Prod.fst) (Assoc.mem_of_get? h)

namespace EditorKept

theorem mergeDefaults (h : EditorKept fs) : Fields.mergeDefaults fs editorDefaults = fs := by
  obtain ⟨⟨_, hfont, -⟩, ⟨_, hsize, -⟩, ⟨_, htab, -⟩, ⟨_, hwrap⟩⟩ := h
  refine Fields.mergeDefaults_of_mem (by decide) ?_
  simp only [editorDefaults, List.forall_mem_cons, List.not_mem_nil, false_implies, implies_true,
    and_true]
  exact ⟨mem_fst_of_get? hfont, mem_fst_of_get? hsize, mem_fst_of_get? htab, mem_fst_of_get? hwrap⟩

/-- What is kept stays as it is. -/
theorem editor?_eq (h : EditorKept fs) : editor? (.object fs) = some fs := by
  have hmerge := h.mergeDefaults
  obtain ⟨⟨font, hfont, hstrip⟩, ⟨size, hsize, hsize'⟩, ⟨tab, htab, htab'⟩, ⟨wrap, hwrap⟩⟩ := h
  refine (editor?_eq_some_iff (v := .object fs) hmerge).2 ⟨size, tab, ?_, ?_, ?_⟩
  · rw [field_eq hsize, NumberRange.read?_int hsize']
  · rw [field_eq htab, NumberRange.read?_int htab']
  · rw [field_eq hfont, Value.word_str hstrip, field_eq hwrap, Value.toSwitch, putEditor,
      Assoc.put_of_get? hfont, Assoc.put_of_get? hsize, Assoc.put_of_get? htab,
      Assoc.put_of_get? hwrap]

theorem sortFields (h : EditorKept fs) : EditorKept (Json.sortFields (Value.sortedFields fs)) := by
  obtain ⟨⟨font, hfont, hstrip⟩, ⟨size, hsize, hsize'⟩, ⟨tab, htab, htab'⟩, ⟨wrap, hwrap⟩⟩ := h
  constructor
  · exact ⟨font, by simp [hfont, Value.sorted], hstrip⟩
  · exact ⟨size, by simp [hsize, Value.sorted], hsize'⟩
  · exact ⟨tab, by simp [htab, Value.sorted], htab'⟩
  · exact ⟨wrap, by simp [hwrap, Value.sorted]⟩

end EditorKept

/-- The fields of the window by default are there, with values of their kinds. -/
def WindowTyped (fs : Fields) : Prop :=
  ∀ e ∈ windowDefaults, ∃ v, Assoc.get? e.1 fs = some v ∧ v.kindName = e.2.kindName

namespace WindowTyped

theorem mergeDefaults (h : WindowTyped fs) : Fields.mergeDefaults fs windowDefaults = fs :=
  Fields.mergeDefaults_of_mem (by decide) fun e he => mem_fst_of_get? (h e he).choose_spec.1

theorem put {k : Str} (h : WindowTyped fs)
    (hv : ∀ e ∈ windowDefaults, e.1 = k → v.kindName = e.2.kindName) :
    WindowTyped (Assoc.put k v fs) := by
  intro e he
  by_cases hk : e.1 = k
  · exact ⟨v, hk ▸ Assoc.get?_put_self _ _ _, hv e he hk⟩
  · rw [Assoc.get?_put_of_ne hk]
    exact h e he

/-- Its numbers and its string are put right, and nothing else. -/
theorem window?_eq (h : WindowTyped fs) :
    ∃ width height file, window? (.object fs) = some (putWindow width height file fs) := by
  have hint : ∀ {v : Value}, v.kindName = "int" → ∃ n, v = .int n := by
    intro v hv
    cases v <;> simp_all [Value.kindName]
  have hmerge := h.mergeDefaults
  simp only [WindowTyped, windowDefaults, List.forall_mem_cons, List.not_mem_nil, false_implies,
    implies_true, and_true] at h
  obtain ⟨⟨v, hwidth, hv⟩, ⟨w, hheight, hw⟩, -⟩ := h
  obtain ⟨width, rfl⟩ := hint hv
  obtain ⟨height, rfl⟩ := hint hw
  have hwidth' := NumberRange.read?_whole windowWidth width
  have hheight' := NumberRange.read?_whole windowHeight height
  rw [← field_eq hwidth] at hwidth'
  rw [← field_eq hheight] at hheight'
  exact ⟨_, _, _, (window?_eq_some_iff (v := .object fs) hmerge).2
    ⟨_, _, hwidth', hheight', rfl⟩⟩

theorem sortFields (h : WindowTyped fs) :
    WindowTyped (Json.sortFields (Value.sortedFields fs)) := by
  intro e he
  obtain ⟨v, hv, hkind⟩ := h e he
  refine ⟨v.sorted, ?_, ?_⟩
  · rw [Value.get?_sorted, hv, Option.map_some]
  · rw [Value.kindName_sorted, hkind]

end WindowTyped

namespace WindowKept

theorem typed (h : WindowKept fs) : WindowTyped fs := by
  obtain ⟨⟨_, hwidth, -⟩, ⟨_, hheight, -⟩, ⟨_, hfile, -⟩⟩ := h
  simp only [WindowTyped, windowDefaults, List.forall_mem_cons, List.not_mem_nil, false_implies,
    implies_true, and_true]
  exact ⟨⟨_, hwidth, rfl⟩, ⟨_, hheight, rfl⟩, ⟨_, hfile, rfl⟩⟩

theorem mergeDefaults (h : WindowKept fs) : Fields.mergeDefaults fs windowDefaults = fs :=
  h.typed.mergeDefaults

theorem window?_eq (h : WindowKept fs) : window? (.object fs) = some fs := by
  have hmerge := h.mergeDefaults
  obtain ⟨⟨width, hwidth, hwidth'⟩, ⟨height, hheight, hheight'⟩, ⟨file, hfile, hstrip⟩⟩ := h
  refine (window?_eq_some_iff (v := .object fs) hmerge).2 ⟨width, height, ?_, ?_, ?_⟩
  · rw [field_eq hwidth, NumberRange.read?_int hwidth']
  · rw [field_eq hheight, NumberRange.read?_int hheight']
  · rw [field_eq hfile, Value.word_str hstrip, putWindow, Assoc.put_of_get? hwidth,
      Assoc.put_of_get? hheight, Assoc.put_of_get? hfile]

theorem sortFields (h : WindowKept fs) : WindowKept (Json.sortFields (Value.sortedFields fs)) := by
  obtain ⟨⟨width, hwidth, hwidth'⟩, ⟨height, hheight, hheight'⟩, ⟨file, hfile, hstrip⟩⟩ := h
  constructor
  · exact ⟨width, by simp [hwidth, Value.sorted], hwidth'⟩
  · exact ⟨height, by simp [hheight, Value.sorted], hheight'⟩
  · exact ⟨file, by simp [hfile, Value.sorted], hstrip⟩

end WindowKept

/-! ### The whole file -/

/-- The four objects of a settings file as they are written, in some order, but of the window only
something is known. -/
structure KeptWith (Window : Fields → Prop) (fs : Fields) : Prop where
  settings : ∃ (s : Settings) (v : Value),
    Assoc.get? ↑"easy_typing" fs = some v ∧ v.sorted = s.toValue.sorted
  bindings : ∃ b : Bindings, Assoc.get? ↑"keybindings" fs = some b.toValue ∧ b.Kept ∧
    ∀ e ∈ b, [.char '+'] ∉ e.2
  editor : ∃ inner, Assoc.get? ↑"editor" fs = some (.object inner) ∧ EditorKept inner
  window : ∃ inner, Assoc.get? ↑"window" fs = some (.object inner) ∧ Window inner

/-- All four objects as they are written. -/
def Kept : Fields → Prop := KeptWith WindowKept

/-- The objects as they are written, but the numbers and the string of the window may be any. -/
def Usable : Fields → Prop := KeptWith WindowTyped

theorem Kept.usable (h : Kept fs) : Usable fs :=
  { h with window := h.window.imp fun _ hinner => ⟨hinner.1, hinner.2.typed⟩ }

/-- The order of fields is of no account. -/
theorem KeptWith.sortFields {Window : Fields → Prop} (h : KeptWith Window fs)
    (hwindow : ∀ inner, Window inner → Window (Json.sortFields (Value.sortedFields inner))) :
    KeptWith Window (Json.sortFields (Value.sortedFields fs)) := by
  obtain ⟨⟨s, v, hv, hsorted⟩, ⟨b, hb, hkept, hplus⟩, ⟨inner, hinner, hekept⟩,
    ⟨outer, houter, hwkept⟩⟩ := h
  refine ⟨⟨s, v.sorted, ?_, ?_⟩, ⟨b, ?_, hkept, hplus⟩, ⟨_, ?_, hekept.sortFields⟩,
    ⟨_, ?_, hwindow outer hwkept⟩⟩
  · rw [Value.get?_sorted, hv, Option.map_some]
  · rw [Value.sorted_sorted, hsorted]
  · rw [Value.get?_sorted, hb, Option.map_some, hkept.sorted_toValue]
  · rw [Value.get?_sorted, hinner, Option.map_some, Value.sorted]
  · rw [Value.get?_sorted, houter, Option.map_some, Value.sorted]

theorem putOr_complete {name : Str} {new : Option Fields} {next : Fields → Fields × Bool}
    (h : (putOr name new fs next).2 = true) :
    ∃ inner, new = some inner ∧
      putOr name new fs next = next (Assoc.put name (.object inner) fs) := by
  cases new with
  | none => cases h
  | some inner => exact ⟨inner, rfl, rfl⟩

/-- What normalizing does if it can be done. -/
theorem normalize_eq (h : (normalize fs).2 = true) : ∃ inner outer : Fields,
    editor? (field fs "editor") = some inner ∧ window? (field fs "window") = some outer ∧
      normalize fs = (Assoc.put ↑"window" (.object outer) (Assoc.put ↑"editor" (.object inner)
        (Assoc.put ↑"keybindings" (Bindings.normalize (field fs "keybindings")).toValue
          (Assoc.put ↑"easy_typing" (Settings.normalize (field fs "easy_typing")).toValue fs))),
        true) := by
  rw [normalize] at h ⊢
  obtain ⟨inner, hinner, heditor⟩ := putOr_complete h
  rw [heditor] at h ⊢
  obtain ⟨outer, houter, hwindow⟩ := putOr_complete h
  rw [hwindow]
  simp only [field_put_of_ne, ne_eq, Str.text.injEq, String.reduceEq, not_false_eq_true]
    at hinner houter ⊢
  exact ⟨inner, outer, hinner, houter, rfl⟩

/-- The bindings that normalizing puts into the file. -/
theorem get?_keybindings_normalize (h : (normalize fs).2 = true) :
    Assoc.get? ↑"keybindings" (normalize fs).1 =
      some (Bindings.normalize (field fs "keybindings")).toValue := by
  obtain ⟨inner, outer, -, -, hnormalize⟩ := normalize_eq h
  rw [hnormalize]
  simp [Assoc.get?_put_of_ne]

/-- The other objects that normalizing puts into the file. -/
theorem get?_normalize (h : (normalize fs).2 = true) : ∃ inner outer : Fields,
    editor? (field fs "editor") = some inner ∧ window? (field fs "window") = some outer ∧
      Assoc.get? ↑"easy_typing" (normalize fs).1 =
        some (Settings.normalize (field fs "easy_typing")).toValue ∧
      Assoc.get? ↑"editor" (normalize fs).1 = some (.object inner) ∧
      Assoc.get? ↑"window" (normalize fs).1 = some (.object outer) := by
  obtain ⟨inner, outer, hinner, houter, hnormalize⟩ := normalize_eq h
  rw [hnormalize]
  refine ⟨inner, outer, hinner, houter, ?_, ?_, Assoc.get?_put_self _ _ _⟩
  all_goals simp [Assoc.get?_put_of_ne]

/-- **Normalizing makes a file what the program needs**, if no chord is the plus sign alone. -/
theorem kept_normalize (h : (normalize fs).2 = true)
    (hplus : ∀ e ∈ Bindings.normalize (field fs "keybindings"), [.char '+'] ∉ e.2) :
    Kept (normalize fs).1 := by
  have hbindings := get?_keybindings_normalize h
  obtain ⟨inner, outer, hinner, houter, hsettings, heditor, hwindow⟩ := get?_normalize h
  exact ⟨⟨_, _, hsettings, rfl⟩, ⟨_, hbindings, Bindings.kept_normalize _, hplus⟩,
    ⟨inner, heditor, editorKept_of_editor? hinner⟩, ⟨outer, hwindow, windowKept_of_window? houter⟩⟩

namespace Usable

/-- No default is missing. -/
theorem mergeDefaults (h : Usable fs) : Fields.mergeDefaults fs defaults = fs := by
  obtain ⟨⟨s, v, hv, hsorted⟩, ⟨b, hb, hkept, -⟩, ⟨inner, hinner, hekept⟩,
    ⟨outer, houter, hwtyped⟩⟩ := h
  refine Fields.mergeDefaults_eq_self ?_
  simp only [defaults, List.forall_mem_cons, List.not_mem_nil, false_implies, implies_true,
    and_true]
  refine ⟨⟨v, hv, Settings.mergeValue_of_sorted hsorted {}⟩, ⟨_, hinner, ?_⟩, ⟨_, houter, ?_⟩,
    ⟨_, hb, hkept.mergeValue⟩⟩
  · rw [Fields.mergeValue_object, hekept.mergeDefaults]
  · rw [Fields.mergeValue_object, hwtyped.mergeDefaults]

/-- Normalizing puts the typing settings in their own order, and the window right. -/
theorem normalize (h : Usable fs) : ∃ (s : Settings) (v : Value) (inner : Fields),
    Assoc.get? ↑"easy_typing" fs = some v ∧ v.sorted = s.toValue.sorted ∧
      Assoc.get? ↑"window" fs = some (.object inner) ∧ WindowTyped inner ∧
      ∀ outer, window? (.object inner) = some outer → AppFields.normalize fs =
        (Assoc.put ↑"window" (.object outer) (Assoc.put ↑"easy_typing" s.toValue fs), true) := by
  obtain ⟨⟨s, v, hv, hsorted⟩, ⟨b, hb, hkept, hplus⟩, ⟨inner, hinner, hekept⟩,
    ⟨outer, houter, hwtyped⟩⟩ := h
  refine ⟨s, v, outer, hv, hsorted, houter, hwtyped, fun outer' houter' => ?_⟩
  have hget : ∀ {name : Str} {w : Value}, name ≠ "easy_typing" → Assoc.get? name fs = some w →
      Assoc.get? name (Assoc.put ↑"easy_typing" s.toValue fs) = some w :=
    fun hne hw => (Assoc.get?_put_of_ne hne _ _).trans hw
  have hb' := hget (by decide) hb
  have hinner' := hget (by decide) hinner
  have hwindow := hget (by decide) houter
  rw [AppFields.normalize]
  simp only [field_eq hv, Settings.normalize_of_sorted hsorted, field_eq hb',
    hkept.normalize_toValue hplus, Assoc.put_of_get? hb', field_eq hinner', hekept.editor?_eq,
    putOr, Assoc.put_of_get? hinner', field_eq hwindow, houter']

end Usable

namespace Kept

/-- **Normalizing does nothing** but put the typing settings in their own order. -/
theorem normalize (h : Kept fs) : ∃ (s : Settings) (v : Value),
    Assoc.get? ↑"easy_typing" fs = some v ∧ v.sorted = s.toValue.sorted ∧
      AppFields.normalize fs = (Assoc.put ↑"easy_typing" s.toValue fs, true) := by
  obtain ⟨s, v, outer, hv, hsorted, houter, -, hnormalize⟩ := h.usable.normalize
  obtain ⟨outer', houter', hwkept⟩ := h.window
  obtain rfl : outer = outer' := Value.object.inj (Option.some.inj (houter.symm.trans houter'))
  have hwindow : Assoc.get? ↑"window" (Assoc.put ↑"easy_typing" s.toValue fs) =
      some (.object outer) := (Assoc.get?_put_of_ne (by decide) _ _).trans houter
  refine ⟨s, v, hv, hsorted, ?_⟩
  rw [hnormalize outer hwkept.window?_eq, Assoc.put_of_get? hwindow]

/-- **What has been normalized and written stays**: up to the order of the typing settings it is
normalized to itself. -/
theorem normalize_sortFields (h : Kept fs) {gs : Fields}
    (hgs : gs = Json.sortFields (Value.sortedFields fs)) : ∃ hs,
    AppFields.normalize (Fields.mergeDefaults gs defaults) = (hs, true) ∧
      (Value.object hs).sorted = (Value.object fs).sorted ∧
      Settings.normalize (field hs "easy_typing") = Settings.normalize (field fs "easy_typing") ∧
      field hs "keybindings" = field fs "keybindings" ∧
      ((Value.object gs).Distinct →
        (Value.object hs).looselyEqual (.object (Fields.mergeDefaults gs defaults)) = true) := by
  subst hgs
  have hkept : Kept _ := KeptWith.sortFields h fun _ => WindowKept.sortFields
  have hmerge := hkept.usable.mergeDefaults
  obtain ⟨s, v, hv, hsorted, hnormalize⟩ := hkept.normalize
  obtain ⟨w, hw, rfl⟩ : ∃ w, Assoc.get? ↑"easy_typing" fs = some w ∧ w.sorted = v := by
    rw [Value.get?_sorted] at hv
    exact Option.map_eq_some_iff.1 hv
  have hsame := Value.sorted_put hv hsorted.symm
  have hback : (Value.object (Json.sortFields (Value.sortedFields fs))).sorted =
      (Value.object fs).sorted := by
    rw [← Value.sorted, Value.sorted_sorted]
  refine ⟨_, by rw [hmerge, hnormalize], hsame.trans hback, ?_, ?_, fun hdistinct => ?_⟩
  · rw [Value.sorted_sorted] at hsorted
    rw [field_eq (Assoc.get?_put_self _ _ _), field_eq hw, s.normalize_toValue,
      Settings.normalize_of_sorted hsorted]
  · obtain ⟨b, hb, hbkept, -⟩ := h.bindings
    rw [field_put_of_ne (by decide), field_eq hb]
    refine field_eq ?_
    rw [Value.get?_sorted, hb, Option.map_some, hbkept.sorted_toValue]
  · rw [hmerge]
    exact (hdistinct.put s.distinct_toValue _).looselyEqual hsame

end Kept

end AppFields

end TypingAid
