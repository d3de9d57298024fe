import TypingAid.Proofs.Json.Equality
import TypingAid.Proofs.Json.Printer
import TypingAid.Proofs.Json.Reader
import TypingAid.Proofs.Json.RoundTrip
import TypingAid.Proofs.Settings.App
import TypingAid.Proofs.Storage.Disk
import TypingAid.Settings.Preferences

/-!
# Loading the settings again

Loading normalizes what the settings file says and writes the file if that changed anything.  Then
the work is done: whoever loads the file after that gets the same settings and leaves the file alone
(`Preferences.load_again`).  The proof is in three steps.

* What was written is what is read (`Store.readFile_of_writeSafely`).
* What is read has been normalized, but for the order of fields, so normalizing it does nothing that
  counts as a change (`AppFields.Kept.normalize_sortFields`).
* So the second time nothing is written (`Preferences.writes`).

A chord that is the plus sign alone is the exception: it can be stored, but it is not read
(`Preferences.load_plus`).

That the text of a settings file says what was meant is a hypothesis of the theorem.  It holds of
all data that can be written, without fractional numbers and without whole numbers of thousands of
digits (`Value.parse?_pretty`).
-/

namespace TypingAid

variable {d d' : Disk} {fs gs : Fields} {s : Store}

namespace Store

theorem readText_of_readFile {path : Path} (h : readFile d path = .ok fs) :
    ∃ t, d.readText path = .ok t ∧ Value.parse? t = some (.object fs) := by
  rw [readFile] at h
  split at h
  · cases h
  · rename_i t ht
    split at h
    · cases h
    · rename_i hparse
      cases h
      exact ⟨t, ht, hparse⟩
    · cases h

/-- A file that holds an object is taken over, with the defaults that it lacks. -/
theorem load_of_readFile (hp : s.persistent = true) (h : readFile d s.path = .ok fs) :
    s.load d = ({ s with
      data := Fields.mergeDefaults fs s.defaults, dirty := false, lastError := none }, []) := by
  obtain ⟨t, ht, -⟩ := readText_of_readFile h
  rw [load, hp, Disk.holds_of_readText ht, h]
  rfl

/-- What has been saved has been written. -/
theorem save_ok (hp : s.persistent = true) (h : (s.save d).2.2 = none) :
    d.writeSafely s.path s.content = ((s.save d).2.1, none) ∧
      (s.save d).1 = { s with dirty := false, lastError := none } := by
  rw [save, hp] at h ⊢
  simp only [Bool.not_true, Bool.false_eq_true, if_false] at h ⊢
  split at h
  · cases h
  · rename_i hwrite
    rw [hwrite]
    exact ⟨rfl, rfl⟩

/-- Saving changes nothing of what is saved. -/
@[simp] theorem data_save (s : Store) (d : Disk) : (s.save d).1.data = s.data := by
  rw [save]
  split_ifs
  · rfl
  · split <;> rfl

theorem error_save (hp : s.persistent = true) :
    (s.save d).2.2 = (d.writeSafely s.path s.content).2 := by
  rw [save, hp]
  simp only [Bool.not_true, Bool.false_eq_true, if_false]
  split <;> rename_i hwrite <;> rw [hwrite]

/-- A value that has been written with care is read, if its text says what it is. -/
theorem readFile_of_writeSafely {path : Path} {v : Value}
    (h : d.writeSafely path v.pretty = (d', none))
    (hparse : v.pretty.text?.bind Value.parse? = some (.object gs)) :
    readFile d' path = .ok gs := by
  obtain ⟨t, ht, hparse⟩ := Option.bind_eq_some_iff.1 hparse
  rw [readFile, Disk.readText_writeSafely h ht (Value.return_not_mem_pretty ht)]
  dsimp only
  rw [hparse]

end Store

namespace Preferences

/-! ### One load -/

/-- Loading ends with writing the settings file: the file could be read and normalized, and there
is something to save. -/
def writes (p : Preferences) (d : Disk) : Bool :=
  let (p, changed) := (Preferences.mk (p.store.load d).1).normalize
  changed.isSome && p.store.lastError.isNone && p.store.dirty

variable {p q : Preferences}

/-- What normalizing makes of the fields of a file, and whether all is done. -/
def taken (p : Preferences) (fs : Fields) : Fields × Bool :=
  AppFields.normalize (Fields.mergeDefaults fs p.store.defaults)

/-- That is something else than what the file and the defaults say. -/
def changes (p : Preferences) (fs : Fields) : Bool :=
  !(Value.object (p.taken fs).1).looselyEqual (.object (Fields.mergeDefaults fs p.store.defaults))

/-- The settings after that, with or without something to save. -/
def holding (p : Preferences) (fs : Fields) (dirty : Bool) : Preferences :=
  ⟨{ p.store with data := (p.taken fs).1, dirty, lastError := none }⟩

@[simp] theorem data_holding (p : Preferences) (fs : Fields) (dirty : Bool) :
    (p.holding fs dirty).store.data = (p.taken fs).1 := rfl

theorem save_eq (p : Preferences) (d : Disk) : p.save d =
    (⟨(p.store.save d).1⟩, (p.store.save d).2.1, (p.store.save d).2.2.map .ofFileError) :=
  rfl

/-- What saving runs into where every text can be written. -/
theorem error_save_of_writable (hp : p.store.persistent = true)
    (hwritable : d.Writable p.store.path) : (p.save d).2.2 =
      if (Value.object p.store.data).Textual then none else some .notText := by
  rw [save_eq, Store.error_save hp, hwritable.error_writeSafely, Store.content]
  simp only [Value.isText_pretty_iff]
  split_ifs <;> rfl

section
variable (hp : p.store.persistent = true) (hfile : Store.readFile d p.store.path = .ok fs)
include hp hfile

/-- Loading a file that holds an object. -/
theorem load_of_readFile : p.load d =
    if (p.taken fs).2 then
      if p.changes fs then
        { preferences := ((p.holding fs true).save d).1
          disk := ((p.holding fs true).save d).2.1
          error := ((p.holding fs true).save d).2.2
          log := [⟨.debug, "settings normalized in " ++ p.store.path.text⟩] }
      else { preferences := p.holding fs false, disk := d }
    else { preferences := p.holding fs false, disk := d, error := some .infiniteNumber } := by
  unfold load
  rw [Store.load_of_readFile hp hfile, changes]
  simp only [normalize]
  rw [← taken]
  generalize Value.looselyEqual _ _ = same
  cases (p.taken fs).2 with
  | false => rfl
  | true => cases same <;> rfl

/-- Whatever comes of it, the data is what normalizing makes of the file. -/
theorem data_load : (p.load d).preferences.store.data = (p.taken fs).1 := by
  rw [load_of_readFile hp hfile]
  split_ifs
  · rw [save_eq, Store.data_save, data_holding]
  · rfl
  · rfl

/-- The file is written if all could be done and that changed something. -/
theorem writes_eq (hdone : (p.taken fs).2 = true) : p.writes d = p.changes fs := by
  rw [writes, Store.load_of_readFile hp hfile, changes]
  simp only [normalize]
  rw [← taken, hdone]
  rfl

/-- No load succeeds that leaves work undone. -/
theorem done_of_load (hok : (p.load d).error = none) : (p.taken fs).2 = true := by
  by_contra hdone
  rw [load_of_readFile hp hfile, if_neg hdone] at hok
  cases hok

variable (hdone : (p.taken fs).2 = true)
include hdone

/-- A load that changes nothing leaves the disk alone. -/
theorem load_of_not_changes (h : p.changes fs = false) :
    p.load d = { preferences := p.holding fs false, disk := d } := by
  rw [load_of_readFile hp hfile, if_pos hdone, if_neg (Bool.not_eq_true _ ▸ h)]

/-- A load that changes something writes it, if it succeeds. -/
theorem load_of_changes (h : p.changes fs = true) (hok : (p.load d).error = none) :
    d.writeSafely p.store.path (Value.object (p.taken fs).1).pretty =
        ((p.load d).disk, none) ∧ (p.load d).preferences = p.holding fs false := by
  rw [load_of_readFile hp hfile, if_pos hdone, if_pos h, save_eq] at hok ⊢
  obtain ⟨hwrite, hstore⟩ := Store.save_ok (s := (p.holding fs true).store) hp
    (Option.map_eq_none_iff.1 hok)
  exact ⟨hwrite, congrArg Preferences.mk hstore⟩

/-- A load that succeeds leaves nothing to save. -/
theorem preferences_load (hok : (p.load d).error = none) :
    (p.load d).preferences = p.holding fs false := by
  by_cases hchanges : p.changes fs = true
  · exact (load_of_changes hp hfile hdone hchanges hok).2
  · rw [load_of_not_changes hp hfile hdone (Bool.not_eq_true _ ▸ hchanges)]

/-- What such a load writes is read again, unless there are fractional numbers in it. -/
theorem reads_of_load (h : p.changes fs = true) (hok : (p.load d).error = none)
    (hplain : (Value.object (p.taken fs).1).Plain)
    (htextual : (Value.object (p.taken fs).1).Textual)
    (hdistinct : (Value.object (p.taken fs).1).Distinct) :
    (p.load d).preferences.store.content.text?.bind Value.parse? =
        some (Value.object (p.taken fs).1).sorted ∧
      Store.readFile (p.load d).disk p.store.path =
        .ok (Json.sortFields (Value.sortedFields (p.taken fs).1)) := by
  obtain ⟨hwritten, hpreferences⟩ := load_of_changes hp hfile hdone h hok
  have hparse := Value.parse?_pretty hplain htextual hdistinct
  refine ⟨?_, Store.readFile_of_writeSafely hwritten (by rw [hparse, Value.sorted])⟩
  rw [hpreferences]
  exact hparse

end

/-! ### A disk with nothing but a settings file -/

/-- A disk on which the settings file holds an object, and there is nothing else. -/
def diskWith (fs : Fields) : Disk :=
  { nodes := [([defaultFileName], .file (Utf8.encode ((Value.object fs).written 0)))] }

/-- The settings file that is loaded from there. -/
def atRoot : Preferences := create ⟨1, []⟩

theorem readText_diskWith (htextual : (Value.object fs).Textual) :
    (diskWith fs).readText atRoot.store.path = .ok ((Value.object fs).written 0) :=
  Disk.readText_of_read rfl (Value.return_not_mem_pretty (Value.text?_pretty htextual))

theorem readFile_diskWith (hplain : (Value.object fs).Plain)
    (htextual : (Value.object fs).Textual) (hdistinct : (Value.object fs).Distinct)
    (hsorted : (Value.object fs).sorted = .object fs) :
    Store.readFile (diskWith fs) atRoot.store.path = .ok fs := by
  have hparse := Value.parse?_pretty hplain htextual hdistinct
  rw [Value.text?_pretty htextual, Option.bind_some, hsorted] at hparse
  rw [Store.readFile, readText_diskWith htextual]
  dsimp only
  rw [hparse]

/-- There the file can be written. -/
theorem writable_diskWith (fs : Fields) : (diskWith fs).Writable atRoot.store.path := fun _ => rfl

theorem error_load_diskWith (hfile : Store.readFile (diskWith fs) atRoot.store.path = .ok fs)
    (hdone : (atRoot.taken fs).2 = true) (htextual : (Value.object (atRoot.taken fs).1).Textual) :
    (atRoot.load (diskWith fs)).error = none := by
  rw [load_of_readFile rfl hfile, if_pos hdone]
  split_ifs
  · have hsave := error_save_of_writable (p := atRoot.holding fs true) rfl (writable_diskWith fs)
    rw [data_holding, if_pos htextual] at hsave
    dsimp only
    exact hsave
  · rfl

/-- An object that binds a chord to a command. -/
def rebindFields (chord : String) : Fields :=
  [("keybindings", .object [(editorScope, .object [("action.format_article", .str chord)])])]

/-- The bindings with that chord. -/
def rebound (chord : Points) : Bindings :=
  Assoc.put "action.format_article" [chord] Bindings.default

/-- What loading makes of the object. -/
def reboundFields (chord : Points) : Fields :=
  [("keybindings", (rebound chord).toValue), ("easy_typing", ({} : Settings).toValue),
    ("editor", .object AppFields.editorDefaults), ("window", .object AppFields.windowDefaults)]

theorem readFile_rebind (chord : String) :
    Store.readFile (diskWith (rebindFields chord)) atRoot.store.path = .ok (rebindFields chord) :=
  readFile_diskWith (by simp [rebindFields, Value.Plain, Value.PlainFields])
    (by simp [rebindFields, Value.Textual, Value.strs, Value.strsFields])
    (by simp [rebindFields, Value.Distinct, Value.DistinctFields]) rfl

theorem load_rebind {chord : String} {t : Points} {first : Loaded}
    (htaken : atRoot.taken (rebindFields chord) = (reboundFields t, true))
    (htextual : (Value.object (reboundFields t)).Textual)
    (hfirst : atRoot.load (diskWith (rebindFields chord)) = first) :
    first.error = none ∧ first.preferences.store.data = reboundFields t := by
  subst hfirst
  have hfile := readFile_rebind chord
  exact ⟨error_load_diskWith hfile (by rw [htaken]) (by rwa [htaken]),
    by rw [data_load rfl hfile, htaken]⟩

/-! ### Two loads -/

/-- Two preferences come to the same: equal data up to the order of fields, equal settings and
equal bindings. -/
structure Same (p q : Preferences) : Prop where
  data : (Value.object p.store.data).sorted = (Value.object q.store.data).sorted
  settings : p.settings = q.settings
  bindings : p.bindings = q.bindings

theorem value_eq {name : Str} (h : name ≠ "" ∧ keyParts name = [name]) (p : Preferences) :
    p.value name = AppFields.field p.store.data name := by
  rw [value, Store.get?, Fields.at?, if_neg h.1, h.2, Value.at?]
  cases hget : Assoc.get? name p.store.data with
  | none => rw [Option.bind_none, AppFields.field, hget]
  | some v => rw [Option.bind_some, Value.at?, AppFields.field, hget]

/-- Without a chord that is the plus sign alone, the bindings that are stored are the ones that are
read. -/
theorem kept_holding (hdone : (p.taken fs).2 = true)
    (hplus : ∀ b : Bindings, (p.holding fs false).value "keybindings" = b.toValue →
      ∀ e ∈ b, [.char '+'] ∉ e.2) :
    AppFields.Kept (p.holding fs false).store.data ∧
      (p.holding fs false).value "keybindings" = (p.holding fs false).bindings.toValue := by
  have hkeys : (p.holding fs false).value "keybindings" = (Bindings.normalize
      (AppFields.field (Fields.mergeDefaults fs p.store.defaults) "keybindings")).toValue := by
    rw [value_eq (by decide)]
    exact AppFields.field_eq (AppFields.get?_keybindings_normalize hdone)
  have hplus' := hplus _ hkeys
  refine ⟨AppFields.kept_normalize hdone hplus', ?_⟩
  rw [bindings, hkeys, (Bindings.kept_normalize _).normalize_toValue hplus']

/-- What has been normalized and written is read as what it was, and is not written again. -/
theorem load_kept (hp : p.store.persistent = true)
    (hdefaults : p.store.defaults = AppFields.defaults) (hkept : AppFields.Kept q.store.data)
    (hgs : gs = Json.sortFields (Value.sortedFields q.store.data))
    (hdistinct : (Value.object gs).Distinct)
    (hfile : Store.readFile d p.store.path = .ok gs) :
    p.writes d = false ∧ ∃ q', Same q' q ∧ p.load d = { preferences := q', disk := d } := by
  obtain ⟨hs, htaken, hsorted, hsettings, hbindings, hequal⟩ := hkept.normalize_sortFields hgs
  rw [← hdefaults] at htaken hequal
  rw [← taken] at htaken
  have hdone : (p.taken gs).2 = true := by rw [htaken]
  have hchanges : p.changes gs = false := by
    rw [changes, htaken, hequal hdistinct, Bool.not_true]
  have hdata : (p.holding gs false).store.data = hs := by rw [data_holding, htaken]
  refine ⟨(writes_eq hp hfile hdone).trans hchanges, _, ⟨?_, ?_, ?_⟩,
    load_of_not_changes hp hfile hdone hchanges⟩
  · rw [hdata, hsorted]
  · rw [settings, settings, value_eq (by decide), value_eq (by decide), hdata, hsettings]
  · rw [bindings, bindings, value_eq (by decide), value_eq (by decide), hdata, hbindings]

/-- **The second load finds everything as the first one left it.**  The file holds an object, the
first load succeeds, and no chord that it stores is the plus sign alone.  Then the bindings that it
stores are the ones that it reads, and the second load succeeds, writes nothing and comes to the
same.  If the first load writes, then the text that it writes has to say what was meant. -/
theorem load_again {folder : Path} {fileName : String} {first second : Loaded}
    (hfile : ∃ fs, Store.readFile d (create folder fileName).store.path = .ok fs)
    (hfirst : (create folder fileName).load d = first) (hok : first.error = none)
    (htext : (create folder fileName).writes d = true →
      first.preferences.store.content.text?.bind Value.parse? =
        some (Value.object first.preferences.store.data).sorted)
    (hplus : ∀ b : Bindings, first.preferences.value "keybindings" = b.toValue →
      ∀ e ∈ b, [.char '+'] ∉ e.2)
    (hsecond : (create folder fileName).load first.disk = second) :
    first.preferences.value "keybindings" = first.preferences.bindings.toValue ∧
      second.error = none ∧ (create folder fileName).writes first.disk = false ∧
      second.disk = first.disk ∧ Same second.preferences first.preferences := by
  have hp : (create folder fileName).store.persistent = true := rfl
  have hdefaults : (create folder fileName).store.defaults = AppFields.defaults := rfl
  generalize create folder fileName = p at *
  subst hfirst hsecond
  obtain ⟨fs, hfile⟩ := hfile
  have hdone := done_of_load hp hfile hok
  have hwrites := writes_eq hp hfile hdone
  by_cases hchanges : p.changes fs = true
  · -- the first load has written what the second one reads
    rw [hchanges] at hwrites
    obtain ⟨hwritten, hpreferences⟩ := load_of_changes hp hfile hdone hchanges hok
    have hparse := htext hwrites
    rw [hpreferences] at hparse hplus ⊢
    obtain ⟨hkept, hkeys⟩ := kept_holding hdone hplus
    rw [Value.sorted] at hparse
    obtain ⟨_, -, hread⟩ := Option.bind_eq_some_iff.1 hparse
    obtain ⟨hwrites', q, hsame, hload⟩ := load_kept hp hdefaults hkept rfl
      (Value.distinct_of_parse? hread) (Store.readFile_of_writeSafely hwritten hparse)
    rw [hload]
    exact ⟨hkeys, rfl, hwrites', rfl, hsame⟩
  · -- the second load reads what the first one read
    rw [Bool.not_eq_true] at hchanges
    have hload := load_of_not_changes hp hfile hdone hchanges
    rw [hload] at hplus ⊢
    obtain ⟨-, hkeys⟩ := kept_holding hdone hplus
    rw [hload]
    exact ⟨hkeys, rfl, hwrites.trans hchanges, rfl, rfl, rfl, rfl⟩

/-- A chord in small letters is written in capital ones, once. -/
theorem load_again_rebind :
    let first := atRoot.load (diskWith (rebindFields "ctrl+k"))
    let second := atRoot.load first.disk
    first.error = none ∧ atRoot.writes (diskWith (rebindFields "ctrl+k")) = true ∧
      first.preferences.value "keybindings" = first.preferences.bindings.toValue ∧
        second.error = none ∧ atRoot.writes first.disk = false ∧ second.disk = first.disk ∧
          Same second.preferences first.preferences := by
  intro first second
  have hfile := readFile_rebind "ctrl+k"
  have htaken : atRoot.taken (rebindFields "ctrl+k") =
      (reboundFields (Str.points "Ctrl+K"), true) := by
    decide +kernel
  have hfirst : atRoot.load (diskWith (rebindFields "ctrl+k")) = first := rfl
  obtain ⟨hok, hdata⟩ := load_rebind htaken (by decide +kernel) hfirst
  have hchanges : atRoot.changes (rebindFields "ctrl+k") = true := by
    rw [changes, htaken]
    decide +kernel
  refine ⟨hok, (writes_eq rfl hfile (by rw [htaken])).trans hchanges,
    load_again ⟨_, hfile⟩ hfirst hok (fun _ => ?_) (fun b hb => ?_) rfl⟩
  · rw [Store.content, hdata]
    exact Value.parse?_pretty (by decide +kernel) (by decide +kernel) (by decide +kernel)
  · rw [value_eq (by decide), hdata] at hb
    have hrebound : (rebound (Str.points "Ctrl+K")).toValue = b.toValue := hb
    rw [← Bindings.toValue_injective hrebound]
    decide

/-- A file that binds the plus key: the chord is stored as the plus sign alone, it is not read, and
the second load writes the default in its place. -/
theorem load_plus :
    let first := atRoot.load (diskWith (rebindFields "++"))
    first.error = none ∧ first.preferences.store.lastError = none ∧
      first.preferences.value "keybindings" = (rebound [.char '+']).toValue ∧
        first.preferences.bindings = Bindings.default ∧ atRoot.writes first.disk = true ∧
          (atRoot.load first.disk).preferences.value "keybindings" = Bindings.default.toValue := by
  intro first
  have hfile := readFile_rebind "++"
  have htaken : atRoot.taken (rebindFields "++") = (reboundFields [.char '+'], true) := by
    decide +kernel
  have hdone : (atRoot.taken (rebindFields "++")).2 = true := by rw [htaken]
  have hfirst : atRoot.load (diskWith (rebindFields "++")) = first := rfl
  obtain ⟨hok, hdata⟩ := load_rebind htaken (by decide +kernel) hfirst
  have hchanges : atRoot.changes (rebindFields "++") = true := by
    rw [changes, htaken]
    decide +kernel
  have hstored : first.preferences.value "keybindings" = (rebound [.char '+']).toValue := by
    rw [value_eq (by decide), hdata]
    rfl
  have hfile' := (reads_of_load rfl hfile hdone hchanges hok (by rw [htaken]; decide +kernel)
    (by rw [htaken]; decide +kernel) (by rw [htaken]; decide +kernel)).2
  rw [htaken] at hfile'
  refine ⟨hok, ?_, hstored, ?_, ?_, ?_⟩
  · rw [(load_of_changes rfl hfile hdone hchanges hok).2, holding]
  · rw [bindings, hstored]
    decide +kernel
  · rw [writes_eq rfl hfile' (by decide +kernel)]
    decide +kernel
  · rw [value_eq (by decide), data_load rfl hfile']
    decide +kernel

end Preferences

end TypingAid
