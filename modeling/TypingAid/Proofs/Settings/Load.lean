import TypingAid.Proofs.Settings.DotKey
import TypingAid.Proofs.Settings.Reload
import TypingAid.Proofs.Settings.Textual

/-!
# Loading any settings file

A settings file may hold any JSON document at all.  Four of its fields are whole numbers with a
range (`AppFields.NumberField.all`).  Each is read from what the document has in its place, or from
null if there is nothing (`AppFields.NumberField.read?`).  Only an infinite number cannot be read
(`NumberRange.read?_eq_none_iff`).

* Normalizing can be done if and only if all four can be read (`AppFields.done_iff`), and puts what
  was read in their places (`AppFields.number_normalize`).
* So in a place where files can be written, loading fails for two reasons only: an infinite number,
  or half of a surrogate pair in a file that has to be written again.  The settings are what the
  program asks for, unless a number is infinite (`Preferences.load_ready`).
* A number that is written in digits can be infinite, and then loading does fail
  (`Preferences.load_huge`).  Half of a surrogate pair can be read, and not written
  (`Preferences.load_half`).
-/

namespace TypingAid

variable {v w : Value} {fs : Fields} {n : Int}

/-- Nothing but an infinite number is refused for being infinite. -/
theorem Value.whole?_eq_infinite_iff :
    v.whole? = .error .infinite ↔ ∃ negative, v = .float (.infinite negative) := by
  constructor
  · intro h
    cases v with
    | float x =>
      cases x with
      | infinite negative => exact ⟨negative, rfl⟩
      | finite negative m e => cases h
      | nan => cases h
    | str s =>
      rw [whole?] at h
      cases hs : s.text?.bind Text.whole? <;> rw [hs] at h <;> cases h
    | _ => cases h
  · rintro ⟨negative, rfl⟩
    rfl

namespace NumberRange

variable {r : NumberRange}

/-- Every value means a number of the range, but for an infinite one. -/
theorem read?_eq_none_iff : r.read? v = none ↔ ∃ negative, v = .float (.infinite negative) := by
  rw [← Value.whole?_eq_infinite_iff, read?]
  split <;> simp_all

theorem bounds_of_clamp (hr : r.least ≤ r.greatest) (h : r.clamp n = n) :
    r.least ≤ n ∧ n ≤ r.greatest := by
  rw [clamp] at h
  omega

end NumberRange

namespace AppFields

/-! ### Objects with all defaults -/

section
variable {name k : Str} {ds : Fields} {default : Value}
  (hobject : Assoc.get? name defaults = some (.object ds))
include hobject

/-- Where a field has no default, the object is as in the document. -/
theorem field?_merged_of_none (h : Assoc.get? k ds = none) (v : Value) :
    (field (Fields.mergeDefaults v.fields defaults) name).field? k = v.at? [name, k] := by
  have hfile := Fields.get?_mergeDefaults (by decide) hobject v.fields
  rw [field_eq hfile, Value.at?_cons]
  cases Assoc.get? name v.fields with
  | none => exact h
  | some w =>
    rw [Option.elim_some, Option.bind_some, Value.at?_singleton]
    cases w with
    | object fs =>
      rw [Fields.mergeValue_object]
      exact Fields.get?_mergeDefaults_of_none h fs
    | _ => rfl

variable (hnodup : (ds.map Prod.fst).Nodup) (hdefault : Assoc.get? k ds = some default)
  (hflat : default.isObject = false)
include hnodup hdefault hflat

/-- Where a field has a default, the object holds what the document does, or the default. -/
theorem field?_merged (v : Value) :
    ((field (Fields.mergeDefaults v.fields defaults) name).field? k).getD default =
      (v.at? [name, k]).getD default := by
  have hfile := Fields.get?_mergeDefaults (by decide) hobject v.fields
  rw [field_eq hfile, Value.at?_cons]
  cases Assoc.get? name v.fields with
  | none =>
    rw [Option.elim_none, Value.field?, Value.fields, hdefault]
    rfl
  | some w =>
    rw [Option.elim_some, Option.bind_some, Value.at?_singleton]
    cases w with
    | object fs =>
      rw [Fields.mergeValue_object, Value.field?, Value.fields, Value.fields,
        Fields.get?_mergeDefaults hnodup hdefault, Option.getD_some]
      cases Assoc.get? k fs with
      | none => rfl
      | some w => exact Fields.mergeValue_of_not_object hflat w
    | _ => rfl

/-- The same, if the defaults are filled in twice: in the file, and then in the object. -/
theorem field_merged (v : Value) :
    field (Fields.mergeDefaults
      (field (Fields.mergeDefaults v.fields defaults) name).fields ds) k =
      (v.at? [name, k]).getD default := by
  rw [← field?_merged hobject hnodup hdefault hflat, Value.field?, field,
    Fields.get?_mergeDefaults hnodup hdefault, Option.getD_some]
  cases Assoc.get? k (field (Fields.mergeDefaults v.fields defaults) name).fields with
  | none => rfl
  | some w => exact Fields.mergeValue_of_not_object hflat w

end

/-! ### The numbers of a settings file -/

/-- A whole number in one of the objects of a settings file. -/
structure NumberField where
  object : String
  name : String
  range : NumberRange

namespace NumberField

/-- The size of the letters in the editor. -/
def size : NumberField := ⟨"editor", "font_size", fontSize⟩

/-- The width of a tab in the editor. -/
def tab : NumberField := ⟨"editor", "tab_width", tabWidth⟩

/-- The width of the window. -/
def width : NumberField := ⟨"window", "width", windowWidth⟩

/-- The height of the window. -/
def height : NumberField := ⟨"window", "height", windowHeight⟩

/-- All whole numbers of a settings file. -/
def all : List NumberField := [size, tab, width, height]

variable {f : NumberField} {ds : Fields}

/-- The dotted key of the number. -/
def key (f : NumberField) : String := f.object ++ "." ++ f.name

/-- What a document has in the place of the number. -/
def value? (f : NumberField) (v : Value) : Option Value := v.at? [↑f.object, ↑f.name]

/-- The number that a document means, unless it is infinite.  Where it has nothing, the default is
meant. -/
def read? (f : NumberField) (v : Value) : Option Int := f.range.read? ((f.value? v).getD .null)

theorem read?_eq_none_iff :
    f.read? v = none ↔ ∃ negative, f.value? v = some (.float (.infinite negative)) := by
  rw [read?, NumberRange.read?_eq_none_iff]
  cases f.value? v <;> simp

/-- The object of the number by default, where the number is the one by default. -/
structure HasDefault (f : NumberField) (ds : Fields) : Prop where
  object : Assoc.get? ↑f.object defaults = some (.object ds)
  nodup : (ds.map Prod.fst).Nodup
  number : Assoc.get? ↑f.name ds = some (.int f.range.default)
  range : f.range.clamp f.range.default = f.range.default

/-- What is read from the object with all defaults is what is read from the document. -/
theorem HasDefault.read?_merged (h : f.HasDefault ds) (v : Value) :
    f.range.read? (field (Fields.mergeDefaults
      (field (Fields.mergeDefaults v.fields defaults) f.object).fields ds) f.name) = f.read? v := by
  have hdefault : f.range.read? (.int f.range.default) = f.range.read? .null := by
    rw [NumberRange.read?_int h.range]
    rfl
  rw [field_merged h.object h.nodup h.number rfl, read?, value?]
  cases v.at? [↑f.object, ↑f.name] with
  | none => rw [Option.getD_none, Option.getD_none, hdefault]
  | some w => rfl

theorem hasDefault_size : size.HasDefault editorDefaults := ⟨rfl, by decide, rfl, by decide⟩

theorem hasDefault_tab : tab.HasDefault editorDefaults := ⟨rfl, by decide, rfl, by decide⟩

theorem hasDefault_width : width.HasDefault windowDefaults := ⟨rfl, by decide, rfl, by decide⟩

theorem hasDefault_height : height.HasDefault windowDefaults := ⟨rfl, by decide, rfl, by decide⟩

/-- What is read is in the range. -/
theorem bounds_of_read? (hf : f ∈ all) (h : f.read? v = some n) :
    f.range.least ≤ n ∧ n ≤ f.range.greatest := by
  have hrange : ∀ f ∈ all, f.range.least ≤ f.range.greatest ∧
      f.range.clamp f.range.default = f.range.default := by decide
  obtain ⟨hle, hclamp⟩ := hrange f hf
  exact NumberRange.bounds_of_clamp hle (NumberRange.clamp_of_read? hclamp h)

end NumberField

/-! ### What normalizing makes of them -/

/-- **The numbers that a document means** come in their places. -/
theorem number_normalize (h : (normalize (Fields.mergeDefaults v.fields defaults)).2 = true) :
    ∀ f ∈ NumberField.all, ∃ n, f.read? v = some n ∧
      f.value? (.object (normalize (Fields.mergeDefaults v.fields defaults)).1) = some (.int n) := by
  obtain ⟨inner, outer, hinner, houter, -, heditor, hwindow⟩ := get?_normalize h
  obtain ⟨size, tab, hsize, htab, rfl⟩ := (editor?_eq_some_iff rfl).1 hinner
  obtain ⟨width, height, hwidth, hheight, rfl⟩ := (window?_eq_some_iff rfl).1 houter
  obtain ⟨-, hsize', htab', -⟩ := get?_putEditor _ _ _ _ _
  obtain ⟨hwidth', hheight', -⟩ := get?_putWindow _ _ _ _
  simp only [NumberField.all, List.forall_mem_cons, List.not_mem_nil, false_implies, implies_true,
    and_true]
  refine ⟨⟨size, ?_, ?_⟩, ⟨tab, ?_, ?_⟩, ⟨width, ?_, ?_⟩, ⟨height, ?_, ?_⟩⟩
  · exact (NumberField.hasDefault_size.read?_merged v).symm.trans hsize
  · exact (Value.at?_pair heditor _).trans hsize'
  · exact (NumberField.hasDefault_tab.read?_merged v).symm.trans htab
  · exact (Value.at?_pair heditor _).trans htab'
  · exact (NumberField.hasDefault_width.read?_merged v).symm.trans hwidth
  · exact (Value.at?_pair hwindow _).trans hwidth'
  · exact (NumberField.hasDefault_height.read?_merged v).symm.trans hheight
  · exact (Value.at?_pair hwindow _).trans hheight'

/-- **Normalizing can be done** if and only if every number can be read. -/
theorem done_iff : (normalize (Fields.mergeDefaults v.fields defaults)).2 = true ↔
    ∀ f ∈ NumberField.all, f.read? v ≠ none := by
  constructor
  · intro h f hf
    obtain ⟨n, hn, -⟩ := number_normalize h f hf
    rw [hn]
    exact Option.some_ne_none n
  · intro h
    simp only [NumberField.all, List.forall_mem_cons, List.not_mem_nil, false_implies, implies_true,
      and_true, Option.ne_none_iff_exists'] at h
    obtain ⟨⟨size, hsize⟩, ⟨tab, htab⟩, ⟨width, hwidth⟩, ⟨height, hheight⟩⟩ := h
    have hinner := (editor?_eq_some_iff
      (v := field (Fields.mergeDefaults v.fields defaults) "editor") rfl).2 ⟨size, tab,
      (NumberField.hasDefault_size.read?_merged v).trans hsize,
      (NumberField.hasDefault_tab.read?_merged v).trans htab, rfl⟩
    have houter := (window?_eq_some_iff
      (v := field (Fields.mergeDefaults v.fields defaults) "window") rfl).2 ⟨width, height,
      (NumberField.hasDefault_width.read?_merged v).trans hwidth,
      (NumberField.hasDefault_height.read?_merged v).trans hheight, rfl⟩
    rw [normalize]
    simp only [field_put_of_ne, ne_eq, Str.text.injEq, String.reduceEq, not_false_eq_true, hinner,
      putOr, houter]

end AppFields

/-! ### Any document -/

theorem Value.eq_object (h : v.isObject = true) : v = .object v.fields := by
  cases v <;> first | rfl | cases h

theorem Value.fields_of_not_object (h : v.isObject = false) : v.fields = [] := by
  cases v <;> first | rfl | cases h

/-- A file that cannot be used is left alone, and the defaults count. -/
theorem Store.load_of_error {d : Disk} {s : Store} {e : LoadError} (hp : s.persistent = true)
    (hholds : d.holds s.path = true) (h : readFile d s.path = .error e) :
    s.load d = ({ s with
      data := Fields.mergeDefaults s.data s.defaults, dirty := false, lastError := some e },
      [warning s.path e]) := by
  rw [load, hp, hholds, h]
  rfl

theorem Store.readFile_of_parse {d : Disk} {path : Path} {t : Text}
    (hfile : d.readText path = .ok t) (hparse : Value.parse? t = some (.object fs)) :
    readFile d path = .ok fs := by
  rw [readFile, hfile]
  dsimp only
  rw [hparse]

theorem Store.readFile_of_not_object {d : Disk} {path : Path} {t : Text}
    (hfile : d.readText path = .ok t) (hparse : Value.parse? t = some v)
    (h : v.isObject = false) : readFile d path = .error (.notObject v.kindName) := by
  rw [readFile, hfile]
  dsimp only
  rw [hparse]
  cases v <;> first | rfl | cases h

open AppFields

namespace Preferences

variable {d : Disk} {p q : Preferences}

/-- The document has an infinite number in the place of one of the whole numbers. -/
def HasInfinite (v : Value) : Prop :=
  ∃ f ∈ NumberField.all, ∃ negative, f.value? v = some (.float (.infinite negative))

/-- The settings are what the program asks for, and the numbers are what the document means. -/
structure Ready (p : Preferences) (v : Value) : Prop where
  numbers : ∀ f ∈ NumberField.all, ∃ n, p.value f.key = .int n ∧ f.read? v = some n ∧
    f.range.least ≤ n ∧ n ≤ f.range.greatest
  /-- The typing settings that are read are the ones that are stored. -/
  settings : p.value "easy_typing" = p.settings.toValue
  bindings : p.bindings.Kept
  editor : ∃ fs, p.editor = .object fs ∧ EditorKept fs

/-- **Normalizing can be done** unless one of the whole numbers is infinite. -/
theorem done_iff_not_hasInfinite (hdefaults : p.store.defaults = AppFields.defaults) :
    (p.taken v.fields).2 = true ↔ ¬HasInfinite v := by
  rw [taken, hdefaults, done_iff]
  constructor
  · rintro h ⟨f, hf, hinfinite⟩
    exact h f hf (NumberField.read?_eq_none_iff.2 hinfinite)
  · intro h f hf hnone
    exact h ⟨f, hf, NumberField.read?_eq_none_iff.1 hnone⟩

theorem value_key {f : NumberField} (hf : f ∈ NumberField.all) (p : Preferences) :
    p.value f.key = (f.value? (.object p.store.data)).getD .null := by
  have hkey : ∀ f ∈ NumberField.all,
      (f.key : Str) ≠ "" ∧ keyParts f.key = [↑f.object, ↑f.name] := by decide
  obtain ⟨hne, hparts⟩ := hkey f hf
  rw [value, Store.get?, Fields.at?, if_neg hne, hparts]
  rfl

/-- Settings that have been normalized are ready. -/
theorem ready_of_taken (hdefaults : p.store.defaults = AppFields.defaults)
    (hdone : (p.taken v.fields).2 = true) (hdata : q.store.data = (p.taken v.fields).1) :
    Ready q v where
  numbers f hf := by
    rw [taken, hdefaults] at hdone hdata
    obtain ⟨n, hn, hvalue⟩ := number_normalize hdone f hf
    refine ⟨n, ?_, hn, NumberField.bounds_of_read? hf hn⟩
    rw [value_key hf, hdata, hvalue, Option.getD_some]
  settings := by
    rw [taken, hdefaults] at hdone hdata
    obtain ⟨inner, outer, -, -, hsettings, -⟩ := get?_normalize hdone
    have hvalue : q.value "easy_typing" = (Settings.normalize
        (field (Fields.mergeDefaults v.fields defaults) "easy_typing")).toValue := by
      rw [value_eq (by decide), hdata, field_eq hsettings]
    rw [settings, hvalue, Settings.normalize_toValue]
  bindings := Bindings.kept_normalize _
  editor := by
    rw [taken, hdefaults] at hdone hdata
    obtain ⟨inner, outer, hinner, -, -, heditor, -⟩ := get?_normalize hdone
    have hvalue : q.value "editor" = .object inner := by
      rw [value_eq (by decide), hdata, field_eq heditor]
    have hkept := editorKept_of_editor? hinner
    have htruthy : (Value.object inner).isTruthy = true := by
      obtain ⟨s, hs, -⟩ := hkept.font
      cases inner with
      | nil => cases hs
      | cons => rfl
    refine ⟨inner, ?_, hkept⟩
    rw [editor, hvalue, if_pos htruthy]

/-- Where the file cannot be used, the settings are those of an empty object, and nothing is
written. -/
theorem load_of_error {e : LoadError} (hp : p.store.persistent = true) (hnew : p.store.data = [])
    (hholds : d.holds p.store.path = true) (hfile : Store.readFile d p.store.path = .error e) :
    (p.load d).preferences.store.data = (p.taken []).1 ∧ p.writes d = false ∧
      (p.load d).error = if (p.taken []).2 then none else some .infiniteNumber := by
  unfold load writes
  rw [Store.load_of_error hp hholds hfile, hnew]
  simp only [normalize]
  rw [← taken]
  cases (p.taken []).2 with
  | false => exact ⟨rfl, rfl, rfl⟩
  | true => exact ⟨rfl, rfl, rfl⟩

/-- Whatever the document, the settings are what normalizing makes of its fields.  If that can be
done, then only a string that is not a text can stop the file from being written. -/
theorem load_of_parse {t : Text} (hp : p.store.persistent = true) (hnew : p.store.data = [])
    (hfile : d.readText p.store.path = .ok t) (hparse : Value.parse? t = some v)
    (hwritable : d.Writable p.store.path) :
    (p.load d).preferences.store.data = (p.taken v.fields).1 ∧
      (p.load d).error = if (p.taken v.fields).2 then
        if p.writes d ∧ ¬(Value.object (p.taken v.fields).1).Textual then some .notText else none
        else some .infiniteNumber := by
  cases hobject : v.isObject with
  | false =>
    obtain ⟨hdata, hwrites, herror⟩ := load_of_error hp hnew (Disk.holds_of_readText hfile)
      (Store.readFile_of_not_object hfile hparse hobject)
    rw [Value.fields_of_not_object hobject, hwrites, herror]
    exact ⟨hdata, by simp⟩
  | true =>
    rw [Value.eq_object hobject] at hparse
    have hread := Store.readFile_of_parse hfile hparse
    refine ⟨data_load hp hread, ?_⟩
    rw [load_of_readFile hp hread]
    by_cases hdone : (p.taken v.fields).2 = true
    · rw [if_pos hdone, if_pos hdone, writes_eq hp hread hdone]
      by_cases hchanges : p.changes v.fields = true
      · have hsave := error_save_of_writable (p := p.holding v.fields true) hp hwritable
        rw [data_holding] at hsave
        rw [if_pos hchanges, hsave, hchanges]
        simp only [true_and, ite_not]
      · simp [hchanges]
    · rw [if_neg hdone, if_neg hdone]

/-- If normalizing can be done, the file holds nothing but texts and can be written, then loading
succeeds. -/
theorem error_load_of_writable {t : Text} (hp : p.store.persistent = true)
    (hnew : p.store.data = []) (hdefaults : p.store.defaults = AppFields.defaults)
    (hfile : d.readText p.store.path = .ok t) (hparse : Value.parse? t = some v)
    (hdone : (p.taken v.fields).2 = true) (hwritable : d.Writable p.store.path)
    (htextual : v.Textual) : (p.load d).error = none := by
  have hall : (Value.object (p.taken v.fields).1).Textual := by
    rw [taken, hdefaults] at hdone ⊢
    have hdefault : (Value.object AppFields.defaults).Textual := by decide
    exact textual_normalize hdone (Fields.textual_mergeDefaults hdefault htextual.fields)
  rw [(load_of_parse hp hnew hfile hparse hwritable).2, if_pos hdone, if_neg fun h => h.2 hall]

/-- **A settings file stops little.**  Whatever document it holds, in a place where every text can
be written: if one of the whole numbers is infinite there, loading fails for that reason.  Else the
settings are ready.  Then loading succeeds if every string of the document is a text, and fails only
when the settings have to be written and one of their strings is not a text. -/
theorem load_ready {folder : Path} {fileName : String} {t : Text} {loaded : Loaded}
    (hfile : d.readText (create folder fileName).store.path = .ok t)
    (hparse : Value.parse? t = some v)
    (hwritable : d.Writable (create folder fileName).store.path)
    (hload : (create folder fileName).load d = loaded) :
    (HasInfinite v → loaded.error = some .infiniteNumber) ∧
      (¬HasInfinite v → Ready loaded.preferences v ∧ (v.Textual → loaded.error = none) ∧
        loaded.error = if (create folder fileName).writes d ∧
            ¬(Value.object loaded.preferences.store.data).Textual
          then some .notText else none) := by
  have hp : (create folder fileName).store.persistent = true := rfl
  have hnew : (create folder fileName).store.data = [] := rfl
  have hdefaults : (create folder fileName).store.defaults = AppFields.defaults := rfl
  generalize create folder fileName = p at *
  subst hload
  obtain ⟨hdata, herror⟩ := load_of_parse hp hnew hfile hparse hwritable
  constructor
  · intro hinfinite
    have hdone : ¬(p.taken v.fields).2 = true := fun h =>
      (done_iff_not_hasInfinite hdefaults).1 h hinfinite
    rw [herror, if_neg hdone]
  · intro hfinite
    have hdone := (done_iff_not_hasInfinite hdefaults).2 hfinite
    refine ⟨ready_of_taken hdefaults hdone hdata,
      error_load_of_writable hp hnew hdefaults hfile hparse hdone hwritable, ?_⟩
    rw [herror, if_pos hdone, hdata]

/-- A number that is a string, a number out of range, and a list in the place of an object. -/
def oddFields : Fields :=
  [("editor", .object [("font_size", .str " 12 "), ("tab_width", .int 99)]),
    ("window", .list [.null])]

/-- All of it is put right. -/
theorem load_ready_odd :
    let d := diskWith oddFields
    let loaded := atRoot.load d
    d.readText atRoot.store.path = .ok ((Value.object oddFields).written 0) ∧
      Value.parse? ((Value.object oddFields).written 0) = some (.object oddFields) ∧
      d.Writable atRoot.store.path ∧ ¬HasInfinite (.object oddFields) ∧
      (Value.object oddFields).Textual ∧ loaded.error = none ∧
      Ready loaded.preferences (.object oddFields) := by
  intro d loaded
  have htextual : (Value.object oddFields).Textual := by decide +kernel
  have hread : d.readText atRoot.store.path = .ok ((Value.object oddFields).written 0) :=
    readText_diskWith htextual
  have hparse : Value.parse? ((Value.object oddFields).written 0) = some (.object oddFields) := by
    have hback := Value.parse?_pretty (v := .object oddFields) (by decide +kernel) htextual
      (by decide +kernel)
    rwa [Value.text?_pretty htextual, Option.bind_some] at hback
  have hwritable := writable_diskWith oddFields
  have hfinite : ¬HasInfinite (.object oddFields) :=
    (done_iff_not_hasInfinite (p := atRoot) rfl).1 (by decide +kernel)
  obtain ⟨hready, herror, -⟩ := (load_ready hread hparse hwritable rfl).2 hfinite
  exact ⟨hread, hparse, hwritable, hfinite, htextual, herror htextual, hready⟩

/-! ### An infinite number, and half of a pair -/

/-- A disk with nothing but a settings file that holds a text. -/
def diskHolding (t : Text) : Disk :=
  { nodes := [([defaultFileName], .file (Utf8.encode t))] }

theorem readText_diskHolding {t : Text} (h : '\r' ∉ t) :
    (diskHolding t).readText atRoot.store.path = .ok t :=
  Disk.readText_of_read rfl h

theorem writable_diskHolding (t : Text) : (diskHolding t).Writable atRoot.store.path := fun _ => rfl

/-- A document with a number that is too great. -/
def hugeFile : Text := "\x7b\"editor\": \x7b\"font_size\": 1e999\x7d\x7d".toList

/-- The number is in no range, and loading fails, although the file can be read and written. -/
theorem load_huge :
    (diskHolding hugeFile).readText atRoot.store.path = .ok hugeFile ∧
      (Value.parse? hugeFile).isSome = true ∧
      (diskHolding hugeFile).Writable atRoot.store.path ∧
      (atRoot.load (diskHolding hugeFile)).error = some .infiniteNumber := by
  have hread := readText_diskHolding (t := hugeFile) (by decide)
  have hwritable := writable_diskHolding hugeFile
  have hnumber : (Value.parse? hugeFile).map NumberField.size.read? = some none := by
    decide +kernel
  obtain ⟨v, hparse, hnone⟩ := Option.map_eq_some_iff.1 hnumber
  have hinfinite : HasInfinite v :=
    ⟨.size, List.mem_cons_self, NumberField.read?_eq_none_iff.1 hnone⟩
  refine ⟨hread, by rw [hparse]; rfl, hwritable, ?_⟩
  rw [(load_of_parse rfl rfl hread hparse hwritable).2]
  exact if_neg fun hdone => (done_iff_not_hasInfinite (p := atRoot) rfl).1 hdone hinfinite

/-- A document with half of a surrogate pair, and a number out of range. -/
def halfFile : Text :=
  "\x7b\"note\": \"\\ud800\", \"editor\": \x7b\"font_size\": 99\x7d\x7d".toList

/-- The number is put right, and then the half cannot be written. -/
theorem load_half :
    (diskHolding halfFile).readText atRoot.store.path = .ok halfFile ∧
      (Value.parse? halfFile).isSome = true ∧
      (diskHolding halfFile).Writable atRoot.store.path ∧
      (atRoot.load (diskHolding halfFile)).error = some .notText := by
  have hread := readText_diskHolding (t := halfFile) (by decide)
  have hwritable := writable_diskHolding halfFile
  have hdocument : (Value.parse? halfFile).map (fun v => v.isObject &&
      (atRoot.taken v.fields).2 && atRoot.changes v.fields &&
      !decide (Value.object (atRoot.taken v.fields).1).Textual) = some true := by
    decide +kernel
  obtain ⟨v, hparse, hall⟩ := Option.map_eq_some_iff.1 hdocument
  simp only [Bool.and_eq_true, Bool.not_eq_true', decide_eq_false_iff_not] at hall
  obtain ⟨⟨⟨hobject, hdone⟩, hchanges⟩, htextual⟩ := hall
  refine ⟨hread, by rw [hparse]; rfl, hwritable, ?_⟩
  have hobject' := hparse.trans (congrArg some (Value.eq_object hobject))
  have hwrites := (writes_eq rfl (Store.readFile_of_parse hread hobject') hdone).trans hchanges
  rw [(load_of_parse rfl rfl hread hparse hwritable).2, if_pos hdone, if_pos ⟨hwrites, htextual⟩]

end Preferences

end TypingAid
