import TypingAid.Proofs.Settings.Load

/-!
# What loading keeps

A settings file has known fields (`AppFields.KnownField.all`): switches, choices, whole numbers and
strings.  Loading reads each of them from what the document has in its place, whatever the other
fields hold (`AppFields.value?_normalize`).

* What is read is a value that the field may have (`AppFields.FieldKind.accepts_read`), and such a
  value is read as it is (`AppFields.FieldKind.read_of_accepts`).
* Fields that are not known are left alone, in the file and in the objects of the editor and the
  window (`AppFields.get?_normalize_of_unknown`, `AppFields.at?_normalize_of_unknown`).

So loading keeps all that is valid (`Preferences.load_keeps`).
-/

namespace TypingAid

variable {v : Value} {fs inner outer : Fields} {k : Str}

/-- Looking a name up in a list gives what has that name, if anything has. -/
theorem name_getD_find? {α : Type} (name : α → Str) (as : List α) (default : α) (s : Str) :
    name ((as.find? (name · == s)).getD default) = if s ∈ as.map name then s else name default := by
  cases h : as.find? (name · == s) with
  | none =>
    have hmem : s ∉ as.map name := by
      rintro hmem
      obtain ⟨a, ha, rfl⟩ := List.mem_map.1 hmem
      exact List.find?_eq_none.1 h a ha (beq_self_eq_true _)
    rw [if_neg hmem, Option.getD_none]
  | some a =>
    have hbeq := List.find?_some h
    have hname : name a = s := eq_of_beq hbeq
    have hmem : s ∈ as.map name := hname ▸ List.mem_map_of_mem (List.mem_of_find?_eq_some h)
    rw [if_pos hmem, Option.getD_some, hname]

namespace AppFields

/-! ### Kinds of fields -/

/-- What a field is for, and what counts where there is nothing. -/
inductive FieldKind where
  | switch (default : Bool)
  | choice (names : List Str) (default : Str)
  | number (range : NumberRange)
  | string
deriving DecidableEq, Repr

namespace FieldKind

/-- What counts where there is nothing. -/
def default : FieldKind → Value
  | switch default => .bool default
  | choice _ default => .str default
  | number range => .int range.default
  | string => .str ""

/-- The values that a field may have. -/
def Accepts : FieldKind → Value → Prop
  | switch _, v => ∃ b, v = .bool b
  | choice names _, v => ∃ s ∈ names, v = .str s
  | number range, v => ∃ n, v = .int n ∧ range.least ≤ n ∧ n ≤ range.greatest
  | string, v => ∃ s, v = .str s ∧ s.strip = s

/-- The value of the field that any value means. -/
def read : FieldKind → Value → Value
  | switch default, v => .bool (v.toSwitch default)
  | choice names default, v => .str (if v.lowerWord ∈ names then v.lowerWord else default)
  | number range, v => .int ((range.read? v).getD range.default)
  | string, v => .str v.word

/-- The default is a value that the field may have, and each choice is its own word. -/
def Sound : FieldKind → Prop
  | choice names default => default ∈ names ∧ ∀ s ∈ names, (Value.str s).lowerWord = s
  | number range => range.least ≤ range.default ∧ range.default ≤ range.greatest
  | switch _ | string => True

instance : DecidablePred Sound
  | choice _ _ => inferInstanceAs (Decidable (_ ∧ _))
  | number _ => inferInstanceAs (Decidable (_ ∧ _))
  | switch _ => .isTrue trivial
  | string => .isTrue trivial

variable {kind : FieldKind}

/-- Whatever a field is read from, it may have that value. -/
theorem accepts_read (h : kind.Sound) (v : Value) : kind.Accepts (kind.read v) := by
  cases kind with
  | switch default => exact ⟨_, rfl⟩
  | choice names default =>
    refine ⟨_, ?_, rfl⟩
    split_ifs with hmem
    · exact hmem
    · exact h.1
  | number range =>
    have hclamp : range.clamp range.default = range.default := by
      rw [NumberRange.clamp, Sound] at *
      omega
    refine ⟨_, rfl, ?_⟩
    cases hread : range.read? v with
    | none => exact h
    | some n =>
      exact NumberRange.bounds_of_clamp (h.1.trans h.2) (NumberRange.clamp_of_read? hclamp hread)
  | string => exact ⟨_, rfl, Value.strip_word v⟩

/-- A value that a field may have is read as it is. -/
theorem read_of_accepts (h : kind.Sound) (hv : kind.Accepts v) : kind.read v = v := by
  cases kind with
  | switch default =>
    obtain ⟨b, rfl⟩ := hv
    rfl
  | choice names default =>
    obtain ⟨s, hs, rfl⟩ := hv
    rw [read, h.2 s hs, if_pos hs]
  | number range =>
    obtain ⟨n, rfl, hleast, hgreatest⟩ := hv
    have hclamp : range.clamp n = n := by
      rw [NumberRange.clamp]
      omega
    rw [read, NumberRange.read?_int hclamp, Option.getD_some]
  | string =>
    obtain ⟨s, rfl, hs⟩ := hv
    rw [read, Value.word_str hs]

theorem isObject_default (kind : FieldKind) : kind.default.isObject = false := by
  cases kind <;> rfl

end FieldKind

/-! ### The known fields -/

/-- A field of one of the objects of a settings file. -/
structure KnownField where
  object : Str
  name : Str
  kind : FieldKind
deriving DecidableEq, Repr

/-- The field of a whole number. -/
def NumberField.known (f : NumberField) : KnownField := ⟨f.object, f.name, .number f.range⟩

namespace KnownField

/-- A typing setting that is on or off. -/
def switch (name : Str) (default : Bool) : KnownField := ⟨"easy_typing", name, .switch default⟩

/-- The blanks around code or a formula. -/
def spaces (name : Str) : KnownField :=
  ⟨"easy_typing", name, .choice ["none", "soft", "strict"] "soft"⟩

/-- The typing settings. -/
def typing : List KnownField :=
  [switch "SelectionEnhance" true, switch "SymbolAutoPairDelete" true,
    switch "BaseObEditEnhance" true, switch "FW2HWEnhance" true, switch "AutoFormat" true,
    switch "ChineseEnglishSpace" true, switch "ChineseNumberSpace" true,
    switch "EnglishNumberSpace" false, switch "ChineseNoSpace" true,
    switch "PunctuationSpace" true, switch "AutoCapital" true,
    ⟨"easy_typing", "AutoCapitalMode", .choice ["typing", "global"] "typing"⟩,
    spaces "InlineCodeSpaceMode", spaces "InlineFormulaSpaceMode", switch "debug" false]

/-- The looks of the editor. -/
def editor : List KnownField :=
  [⟨"editor", "font_family", .string⟩, NumberField.size.known, NumberField.tab.known,
    ⟨"editor", "word_wrap", .switch true⟩]

/-- The window. -/
def window : List KnownField :=
  [NumberField.width.known, NumberField.height.known, ⟨"window", "last_open_file", .string⟩]

/-- All known fields. -/
def all : List KnownField := typing ++ editor ++ window

variable {f : KnownField}

/-- The names on the way to the field. -/
def way (f : KnownField) : List Str := [f.object, f.name]

/-- What a document has in the place of the field. -/
def value? (f : KnownField) (v : Value) : Option Value := v.at? f.way

theorem value?_of_get? (hobject : f.object = k) (h : Assoc.get? k fs = some (.object inner)) :
    f.value? (.object fs) = Assoc.get? f.name inner := by
  rw [value?, way, hobject, Value.at?_pair h]

/-- The fields with what counts where there is nothing. -/
def defaults (known : List KnownField) : Fields := known.map fun f => (f.name, f.kind.default)

theorem sound : ∀ f ∈ all, f.kind.Sound := by decide +kernel

theorem map_fst_defaults (known : List KnownField) :
    (defaults known).map Prod.fst = known.map name := by
  rw [defaults, List.map_map]
  rfl

theorem get?_defaults {known : List KnownField} (hnodup : (known.map name).Nodup)
    (hf : f ∈ known) : Assoc.get? f.name (defaults known) = some f.kind.default :=
  Assoc.get?_of_mem (map_fst_defaults known ▸ hnodup)
    (List.mem_map_of_mem (f := fun f : KnownField => (f.name, f.kind.default)) hf)

theorem get?_defaults_eq_none {known : List KnownField} (h : k ∉ known.map name) :
    Assoc.get? k (defaults known) = none := by
  rwa [Assoc.get?_eq_none_iff, map_fst_defaults]

theorem nodup_typing : (typing.map name).Nodup := by decide +kernel

theorem get?_defaults_typing :
    Assoc.get? ↑"easy_typing" AppFields.defaults = some (.object (defaults typing)) := rfl

theorem get?_defaults_editor :
    Assoc.get? ↑"editor" AppFields.defaults = some (.object (defaults editor)) := rfl

theorem get?_defaults_window :
    Assoc.get? ↑"window" AppFields.defaults = some (.object (defaults window)) := rfl

end KnownField

/-! ### What is read -/

theorem get?_toFields_normalize (raw : Value) : ∀ f ∈ KnownField.typing,
    Assoc.get? f.name (Settings.normalize raw).toFields =
      some (f.kind.read ((raw.field? f.name).getD f.kind.default)) := by
  have hswitch : ∀ name default,
      some (Value.bool (((raw.field? name).map (·.toSwitch default)).getD default)) =
        some ((FieldKind.switch default).read ((raw.field? name).getD (.bool default))) := by
    intro name default
    cases raw.field? name <;> rfl
  have hcapital : some (Value.str ((raw.field? "AutoCapitalMode").bind
      (CapitalMode.ofName? ·.lowerWord) |>.getD .typing).name) =
        some ((FieldKind.choice ["typing", "global"] "typing").read
          ((raw.field? "AutoCapitalMode").getD (.str "typing"))) := by
    cases raw.field? "AutoCapitalMode" with
    | none => rfl
    | some v =>
      exact congrArg (some ∘ Value.str)
        (name_getD_find? (.text ·.name) _ CapitalMode.typing v.lowerWord)
  have hspaces : ∀ name, some (Value.str ((raw.field? name).bind
      (SpaceMode.ofName? ·.lowerWord) |>.getD .soft).name) =
        some ((FieldKind.choice ["none", "soft", "strict"] "soft").read
          ((raw.field? name).getD (.str "soft"))) := by
    intro name
    cases raw.field? name with
    | none => rfl
    | some v =>
      exact congrArg (some ∘ Value.str)
        (name_getD_find? (.text ·.name) _ SpaceMode.soft v.lowerWord)
  simp only [KnownField.typing, List.forall_mem_cons, List.not_mem_nil, false_implies, implies_true,
    and_true]
  exact ⟨hswitch _ _, hswitch _ _, hswitch _ _, hswitch _ _, hswitch _ _, hswitch _ _, hswitch _ _,
    hswitch _ _, hswitch _ _, hswitch _ _, hswitch _ _, hcapital, hspaces _, hspaces _, hswitch _ _⟩

/-- An object holds what is read for its known fields from a value with their defaults, and all else
that is there. -/
structure ReadFrom (known : List KnownField) (v : Value) (inner : Fields) : Prop where
  read : ∀ f ∈ known, Assoc.get? f.name inner =
    some (f.kind.read (field (Fields.mergeDefaults v.fields (KnownField.defaults known)) f.name))
  rest : ∀ k ∉ known.map KnownField.name,
    Assoc.get? k inner = Assoc.get? k (Fields.mergeDefaults v.fields (KnownField.defaults known))

theorem readFrom_of_editor? (h : editor? v = some inner) : ReadFrom KnownField.editor v inner := by
  have hdefaults : KnownField.defaults KnownField.editor = editorDefaults := rfl
  obtain ⟨size, tab, hsize, htab, rfl⟩ := (editor?_eq_some_iff rfl).1 h
  obtain ⟨hfont', hsize', htab', hwrap'⟩ := get?_putEditor _ _ _ _ _
  constructor
  · rw [hdefaults]
    simp only [KnownField.editor, List.forall_mem_cons, List.not_mem_nil, false_implies,
      implies_true, and_true, FieldKind.read, NumberField.known, NumberField.size, NumberField.tab,
      hsize, htab, Option.getD_some]
    exact ⟨hfont', hsize', htab', hwrap'⟩
  · intro k hk
    simp only [KnownField.editor, NumberField.known, NumberField.size, NumberField.tab,
      List.map_cons, List.map_nil, List.mem_cons, List.not_mem_nil, or_false, not_or] at hk
    obtain ⟨hfont, hsize, htab, hwrap⟩ := hk
    rw [hdefaults, putEditor, Assoc.get?_put_of_ne hwrap, Assoc.get?_put_of_ne htab,
      Assoc.get?_put_of_ne hsize, Assoc.get?_put_of_ne hfont]

theorem readFrom_of_window? (h : window? v = some outer) : ReadFrom KnownField.window v outer := by
  have hdefaults : KnownField.defaults KnownField.window = windowDefaults := rfl
  obtain ⟨width, height, hwidth, hheight, rfl⟩ := (window?_eq_some_iff rfl).1 h
  obtain ⟨hwidth', hheight', hfile'⟩ := get?_putWindow _ _ _ _
  constructor
  · rw [hdefaults]
    simp only [KnownField.window, List.forall_mem_cons, List.not_mem_nil, false_implies,
      implies_true, and_true, FieldKind.read, NumberField.known, NumberField.width,
      NumberField.height, hwidth, hheight, Option.getD_some]
    exact ⟨hwidth', hheight', hfile'⟩
  · intro k hk
    simp only [KnownField.window, NumberField.known, NumberField.width, NumberField.height,
      List.map_cons, List.map_nil, List.mem_cons, List.not_mem_nil, or_false, not_or] at hk
    obtain ⟨hwidth, hheight, hfile⟩ := hk
    rw [hdefaults, putWindow, Assoc.get?_put_of_ne hfile, Assoc.get?_put_of_ne hheight,
      Assoc.get?_put_of_ne hwidth]

/-- Each known field is read from what a document has in its place, and all else is what the
document has there. -/
theorem ReadFrom.at? {name : Str} {known : List KnownField}
    (h : ReadFrom known (field (Fields.mergeDefaults v.fields defaults) name) inner)
    (hobject : Assoc.get? name defaults = some (.object (KnownField.defaults known)))
    (hnodup : (known.map KnownField.name).Nodup) :
    (∀ f ∈ known, Assoc.get? f.name inner =
      some (f.kind.read ((v.at? [name, f.name]).getD f.kind.default))) ∧
      ∀ k ∉ known.map KnownField.name, Assoc.get? k inner = v.at? [name, k] := by
  constructor
  · intro f hf
    have hnames := KnownField.map_fst_defaults known ▸ hnodup
    rw [h.read f hf, field_merged hobject hnames (KnownField.get?_defaults hnodup hf)
      f.kind.isObject_default]
  · intro k hk
    have hnone := KnownField.get?_defaults_eq_none hk
    rw [h.rest k hk, Fields.get?_mergeDefaults_of_none hnone]
    exact field?_merged_of_none hobject hnone v

/-! ### What normalizing makes of the file -/

section
variable (h : (normalize (Fields.mergeDefaults v.fields defaults)).2 = true)
include h

/-- **Every known field** is read from what the document has in its place. -/
theorem value?_normalize : ∀ f ∈ KnownField.all,
    f.value? (.object (normalize (Fields.mergeDefaults v.fields defaults)).1) =
      some (f.kind.read ((f.value? v).getD f.kind.default)) := by
  obtain ⟨inner, outer, hinner, houter, hsettings, heditor, hwindow⟩ := get?_normalize h
  have htyping : ∀ f ∈ KnownField.typing, f.object = "easy_typing" := by decide
  have heditor' : ∀ f ∈ KnownField.editor, f.object = "editor" := by decide
  have hwindow' : ∀ f ∈ KnownField.window, f.object = "window" := by decide
  intro f hf
  rcases List.mem_append.1 hf with hf | hf
  · rcases List.mem_append.1 hf with hf | hf
    · have hobject := htyping f hf
      have hmerged := field?_merged KnownField.get?_defaults_typing
        (KnownField.map_fst_defaults _ ▸ KnownField.nodup_typing)
        (KnownField.get?_defaults KnownField.nodup_typing hf) f.kind.isObject_default v
      rw [KnownField.value?_of_get? hobject hsettings, get?_toFields_normalize _ f hf,
        hmerged, KnownField.value?, KnownField.way, hobject]
    · have hobject := heditor' f hf
      have hread := (readFrom_of_editor? hinner).at? KnownField.get?_defaults_editor (by decide)
      rw [KnownField.value?_of_get? hobject heditor, hread.1 f hf, KnownField.value?,
        KnownField.way, hobject]
  · have hobject := hwindow' f hf
    have hread := (readFrom_of_window? houter).at? KnownField.get?_defaults_window (by decide)
    rw [KnownField.value?_of_get? hobject hwindow, hread.1 f hf, KnownField.value?,
      KnownField.way, hobject]

/-- The typing settings have the known names. -/
theorem names_typing_normalize : ∃ inner,
    Assoc.get? ↑"easy_typing" (normalize (Fields.mergeDefaults v.fields defaults)).1 =
      some (.object inner) ∧ inner.map Prod.fst = KnownField.typing.map KnownField.name := by
  obtain ⟨-, -, -, -, hsettings, -⟩ := get?_normalize h
  exact ⟨_, hsettings, rfl⟩

/-- A field that is not known is left alone in the file. -/
theorem get?_normalize_of_unknown (hk : k ∉ defaults.map Prod.fst) :
    Assoc.get? k (normalize (Fields.mergeDefaults v.fields defaults)).1 =
      Assoc.get? k v.fields := by
  obtain ⟨inner, outer, -, -, hnormalize⟩ := normalize_eq h
  have hmerge := Fields.get?_mergeDefaults_of_none (Assoc.get?_eq_none_iff.2 hk) v.fields
  simp only [defaults, List.map_cons, List.map_nil, List.mem_cons, List.not_mem_nil, or_false,
    not_or] at hk
  obtain ⟨hsettings, heditor, hwindow, hbindings⟩ := hk
  rw [hnormalize, Assoc.get?_put_of_ne hwindow, Assoc.get?_put_of_ne heditor,
    Assoc.get?_put_of_ne hbindings, Assoc.get?_put_of_ne hsettings, hmerge]

/-- So it is in the objects of the editor and the window. -/
theorem at?_normalize_of_unknown {name : Str} (hname : name ∈ (["editor", "window"] : List Str))
    (hk : [name, k] ∉ KnownField.all.map KnownField.way) :
    (Value.object (normalize (Fields.mergeDefaults v.fields defaults)).1).at? [name, k] =
      v.at? [name, k] := by
  obtain ⟨inner, outer, hinner, houter, -, heditor, hwindow⟩ := get?_normalize h
  have hunknown : ∀ known ⊆ KnownField.all, (∀ f ∈ known, f.object = name) →
      k ∉ known.map KnownField.name := by
    rintro known hsub hobject hmem
    obtain ⟨f, hf, rfl⟩ := List.mem_map.1 hmem
    exact hk (List.mem_map.2 ⟨f, hsub hf, by rw [KnownField.way, hobject f hf]⟩)
  simp only [List.mem_cons, List.not_mem_nil, or_false] at hname
  rcases hname with rfl | rfl
  · have hread := (readFrom_of_editor? hinner).at? KnownField.get?_defaults_editor (by decide)
    rw [Value.at?_pair heditor]
    exact hread.2 k (hunknown _ (by decide) (by decide))
  · have hread := (readFrom_of_window? houter).at? KnownField.get?_defaults_window (by decide)
    rw [Value.at?_pair hwindow]
    exact hread.2 k (hunknown _ (by decide) (by decide))

end

end AppFields

/-! ### What loading makes of it -/

open AppFields

/-- The fields of a settings file are in order, and are those of a document as far as these are
valid. -/
structure Preferences.Keeps (fs data : Fields) : Prop where
  /-- The typing settings are the known ones. -/
  typing : ∃ inner, Assoc.get? ↑"easy_typing" data = some (.object inner) ∧
    inner.map Prod.fst = KnownField.typing.map KnownField.name
  /-- Every known field has a value that it may have. -/
  accepts : ∀ f ∈ KnownField.all, ∃ v, f.value? (.object data) = some v ∧ f.kind.Accepts v
  /-- It is the one of the document, if the field may have that one. -/
  valid : ∀ f ∈ KnownField.all, ∀ v, f.value? (.object fs) = some v → f.kind.Accepts v →
    f.value? (.object data) = some v
  /-- Any other field of the file is as it was. -/
  unknown : ∀ k ∉ AppFields.defaults.map Prod.fst, Assoc.get? k data = Assoc.get? k fs
  /-- So is any other field of the editor and of the window. -/
  inside : ∀ name ∈ (["editor", "window"] : List Str), ∀ k,
    [name, k] ∉ KnownField.all.map KnownField.way →
      (Value.object data).at? [name, k] = (Value.object fs).at? [name, k]

theorem AppFields.keeps_normalize
    (h : (normalize (Fields.mergeDefaults fs defaults)).2 = true) :
    Preferences.Keeps fs (normalize (Fields.mergeDefaults fs defaults)).1 where
  typing := names_typing_normalize (v := .object fs) h
  accepts f hf := ⟨_, value?_normalize (v := .object fs) h f hf,
    FieldKind.accepts_read (KnownField.sound f hf) _⟩
  valid f hf v hv haccepts := by
    have hread := value?_normalize (v := .object fs) h f hf
    rwa [hv, Option.getD_some, FieldKind.read_of_accepts (KnownField.sound f hf) haccepts] at hread
  unknown k hk := get?_normalize_of_unknown (v := .object fs) h hk
  inside name hname k hk := at?_normalize_of_unknown (v := .object fs) h hname hk

namespace Preferences

variable {d : Disk}

/-- Saving has nothing to do with numbers. -/
theorem error_save_ne (p : Preferences) (d : Disk) : (p.save d).2.2 ≠ some .infiniteNumber := by
  intro h
  obtain ⟨e, -, he⟩ := Option.map_eq_some_iff.1 h
  cases e <;> cases he

/-- **Loading keeps what is valid.**  The file holds an object, and none of the whole numbers in it
is infinite.  Then nothing but writing the file can fail, and that does not fail if every text can
be written there and every string of the object is a text.  The settings keep all of the object that
is valid, whether writing fails or not. -/
theorem load_keeps {folder : Path} {fileName : String} {loaded : Loaded}
    (hfile : Store.readFile d (create folder fileName).store.path = .ok fs)
    (hfinite : ¬HasInfinite (.object fs))
    (hload : (create folder fileName).load d = loaded) :
    loaded.error ≠ some .infiniteNumber ∧
      (d.Writable (create folder fileName).store.path → (Value.object fs).Textual →
        loaded.error = none) ∧
      Keeps fs loaded.preferences.store.data := by
  have hp : (create folder fileName).store.persistent = true := rfl
  have hnew : (create folder fileName).store.data = [] := rfl
  have hdefaults : (create folder fileName).store.defaults = AppFields.defaults := rfl
  generalize create folder fileName = p at *
  subst hload
  have hdone : (p.taken fs).2 = true :=
    (done_iff_not_hasInfinite (v := .object fs) hdefaults).2 hfinite
  refine ⟨?_, ?_, ?_⟩
  · rw [load_of_readFile hp hfile, if_pos hdone]
    split_ifs
    · exact error_save_ne _ d
    · exact nofun
  · intro hwritable htextual
    obtain ⟨t, htext, hparse⟩ := Store.readText_of_readFile hfile
    exact error_load_of_writable hp hnew hdefaults htext hparse hdone hwritable htextual
  · rw [data_load hp hfile, taken, hdefaults]
    rw [taken, hdefaults] at hdone
    exact keeps_normalize hdone

/-- A file with valid values, with words for a switch and a number, with a list in the place of the
window, and with names that are not known. -/
def mixedFields : Fields :=
  [("easy_typing", .object [("AutoCapitalMode", .str "global"), ("AutoFormat", .bool false),
      ("colour", .null), ("debug", .str "Yes")]),
    ("editor", .object [("colour", .str "red"), ("font_size", .int 12), ("tab_width", .str "two")]),
    ("plugins", .list [.int 1]), ("window", .list [])]

/-- The valid ones stay. -/
theorem load_keeps_mixed :
    let loaded := atRoot.load (diskWith mixedFields)
    Store.readFile (diskWith mixedFields) atRoot.store.path = .ok mixedFields ∧
      ¬HasInfinite (.object mixedFields) ∧ (Value.object mixedFields).Textual ∧
      loaded.error = none ∧ Keeps mixedFields loaded.preferences.store.data := by
  intro loaded
  have htextual : (Value.object mixedFields).Textual := by decide +kernel
  have hfile : Store.readFile (diskWith mixedFields) atRoot.store.path = .ok mixedFields :=
    readFile_diskWith (by decide +kernel) htextual (by decide +kernel) rfl
  have hfinite : ¬HasInfinite (.object mixedFields) :=
    (done_iff_not_hasInfinite (p := atRoot) rfl).1 (by decide +kernel)
  have hload : atRoot.load (diskWith mixedFields) = loaded := rfl
  obtain ⟨-, herror, hkeeps⟩ := load_keeps hfile hfinite hload
  exact ⟨hfile, hfinite, htextual, herror (writable_diskWith mixedFields) htextual, hkeeps⟩

end Preferences

end TypingAid
