import TypingAid.App.Action
import TypingAid.Proofs.Settings.Load

/-!
# Settings across a restart

While the program runs, its settings change in four places (`AppFields.changing`).  Preferences that
were loaded and have changed there alone are still usable (`Preferences.Since`), and typing settings
are stored in them in the written form.

* Whatever happens to a window, this remains so (`App.since_act`, `App.since_run`).  When the window
  is closed, the typing settings that are stored become those of the editor
  (`App.since_leaving`).  A store leaves a value alone if an equal one is there, but settings that
  are equal even loosely are the same (`Settings.eq_of_looselyEqual`).
* What has been saved is loaded without error, with the same typing settings.  Of all else, loading
  puts only the size of the window and the file opened last right (`Preferences.load_saved`).

So the next window starts with the typing settings that this one had at its end (`App.restart`).
-/

namespace TypingAid

open Fields

variable {fs gs inner : Fields} {k : Str} {v : Value}

namespace AppFields

/-- The places of a settings file that change while the program runs. -/
def changing : List (List Str) :=
  [["easy_typing"], ["window", "width"], ["window", "height"], ["window", "last_open_file"]]

namespace Usable

theorem setParts_typing (h : Usable fs) (s : Settings) :
    Usable (setParts fs ["easy_typing"] s.toValue) := by
  obtain ⟨-, ⟨b, hb, hbindings⟩, ⟨inner, hinner, heditor⟩, ⟨outer, houter, hwindow⟩⟩ := h
  refine ⟨⟨s, _, Assoc.get?_put_self _ _ _, rfl⟩, ⟨b, ?_, hbindings⟩, ⟨inner, ?_, heditor⟩,
    ⟨outer, ?_, hwindow⟩⟩
  all_goals rwa [setParts, Assoc.get?_put_of_ne (by decide)]

theorem setParts_window (h : Usable fs)
    (hv : ∀ e ∈ windowDefaults, e.1 = k → v.kindName = e.2.kindName) :
    Usable (setParts fs ["window", k] v) := by
  obtain ⟨⟨s, w, hw, hsorted⟩, ⟨b, hb, hbindings⟩, ⟨inner, hinner, heditor⟩,
    ⟨outer, houter, hwindow⟩⟩ := h
  rw [setParts_pair, under_of_get? houter, Value.fields]
  refine ⟨⟨s, w, ?_, hsorted⟩, ⟨b, ?_, hbindings⟩, ⟨inner, ?_, heditor⟩,
    ⟨_, Assoc.get?_put_self _ _ _, hwindow.put hv⟩⟩
  all_goals rwa [Assoc.get?_put_of_ne (by decide)]

/-- **Normalizing** changes nothing else, and reads the typing settings as they are. -/
theorem sameApart_normalize (h : Usable fs) : (AppFields.normalize fs).2 = true ∧
    SameApart changing fs (AppFields.normalize fs).1 ∧ ∃ (s : Settings) (v : Value),
      Assoc.get? ↑"easy_typing" fs = some v ∧ v.sorted = s.toValue.sorted ∧
      Assoc.get? ↑"easy_typing" (AppFields.normalize fs).1 = some s.toValue := by
  obtain ⟨s, v, inner, hv, hsorted, hinner, htyped, hnormalize⟩ := h.normalize
  obtain ⟨width, height, file, hwindow⟩ := htyped.window?_eq
  have hunder : under "window" (Assoc.put ↑"easy_typing" s.toValue fs) = inner :=
    under_of_get? ((Assoc.get?_put_of_ne (by decide) _ _).trans hinner)
  have htyping : (["easy_typing"] : List Str) ∈ changing := by decide
  have hwidth : (["window", "width"] : List Str) ∈ changing := by decide
  have hheight : (["window", "height"] : List Str) ∈ changing := by decide
  have hfile : (["window", "last_open_file"] : List Str) ∈ changing := by decide
  have hsame := ((((SameApart.refl changing fs).setParts htyping s.toValue).setParts hwidth
    (.int width)).setParts hheight (.int height)).setParts hfile (.str file)
  simp only [setParts_pair, setParts_singleton, under_put, Assoc.put_put, hunder] at hsame
  rw [hnormalize _ hwindow, putWindow]
  refine ⟨rfl, hsame, s, v, hv, hsorted, ?_⟩
  rw [Assoc.get?_put_of_ne (by decide), Assoc.get?_put_self]

end Usable

end AppFields

/-! ### One run of the program -/

namespace Store

/-- Setting a value does nothing if an equal one is there. -/
theorem set_cases {s : Store} {key : Str} (hkey : key ≠ "") (v : Value) :
    (∃ old, s.get? key = some old ∧ isSame old v = true ∧ s.set key v = s) ∨
      s.set key v = { s with data := setParts s.data (keyParts key) v, dirty := true } := by
  rw [set, set?]
  split_ifs with hsame
  · obtain ⟨old, hold, hsame⟩ := (Option.any_eq_true _ _).1 hsame
    exact .inl ⟨old, hold, hsame, rfl⟩
  · right
    rw [setAt?, if_neg hkey]
    rfl

end Store

namespace Preferences

open AppFields

/-- What has become of preferences while the program runs, and the typing settings that are stored
there. -/
structure Since (p q : Preferences) (s : Settings) : Prop where
  path : q.store.path = p.store.path
  persistent : q.store.persistent = p.store.persistent
  same : SameApart changing p.store.data q.store.data
  settings : Assoc.get? ↑"easy_typing" q.store.data = some s.toValue
  usable : Usable q.store.data

variable {p q : Preferences} {s : Settings}

/-- A number or a string of the window changes. -/
theorem Since.set_window (h : Since p q s) (key k : Str) (v : Value)
    (hkey : key ≠ "" ∧ keyParts key = [↑"window", k]) (hway : [↑"window", k] ∈ changing)
    (hv : ∀ e ∈ windowDefaults, e.1 = k → v.kindName = e.2.kindName) :
    Since p ⟨q.store.set key v⟩ s := by
  rcases Store.set_cases (s := q.store) hkey.1 v with ⟨-, -, -, hset⟩ | hset
  · rwa [hset]
  · rw [hset, hkey.2]
    refine ⟨h.path, h.persistent, h.same.setParts hway v, ?_,
      h.usable.setParts_window hv⟩
    rw [setParts_pair, Assoc.get?_put_of_ne (by decide), h.settings]

/-- Typing settings that are all given replace those that are there. -/
theorem updateSettings_toFields (p : Preferences) (s : Settings) :
    p.updateSettings s.toFields = (⟨p.store.set "easy_typing" s.toValue⟩, s) := by
  have hread : Settings.normalize (.object s.toFields) = s := s.normalize_toValue
  rw [updateSettings, show s.toFields.foldl _ p.settings.toFields = s.toFields from
    Settings.foldl_put_toFields s p.settings]
  simp only [hread]

theorem Since.updateSettings (h : Since p q s) (s' : Settings) :
    Since p (q.updateSettings s'.toFields).1 s' := by
  have hkey : (↑"easy_typing" : Str) ≠ "" ∧
      keyParts "easy_typing" = (["easy_typing"] : List Str) := by decide
  rw [updateSettings_toFields]
  dsimp only
  rcases Store.set_cases (s := q.store) hkey.1 s'.toValue with ⟨old, hold, hsame, hset⟩ | hset
  · -- nothing is set where the settings are equal, and then they are the same
    have hstored : q.store.get? "easy_typing" = some s.toValue := by
      rw [Store.get?, at?_of_ne hkey.1, hkey.2, Value.at?_singleton]
      exact h.settings
    obtain rfl := Option.some.inj (hstored.symm.trans hold)
    rw [Store.isSame, Bool.and_eq_true] at hsame
    obtain rfl := Settings.eq_of_looselyEqual hsame.1
    rwa [hset]
  · rw [hset, hkey.2]
    exact ⟨h.path, h.persistent, h.same.setParts (by decide) _,
      Assoc.get?_put_self _ _ _, h.usable.setParts_typing s'⟩

/-- Preferences that have been loaded. -/
theorem since_of_load {d : Disk} (hp : p.store.persistent = true)
    (hfile : Store.readFile d p.store.path = .ok fs) (hok : (p.load d).error = none)
    (hplus : ∀ b : Bindings, (p.load d).preferences.value "keybindings" = b.toValue →
      ∀ e ∈ b, [.char '+'] ∉ e.2) :
    (p.load d).preferences = p.holding fs false ∧
      ∃ s, Since (p.load d).preferences (p.load d).preferences s := by
  have hdone := done_of_load hp hfile hok
  have hpreferences := preferences_load hp hfile hdone hok
  rw [hpreferences] at hplus ⊢
  obtain ⟨hkept, -⟩ := kept_holding hdone hplus
  obtain ⟨-, -, -, -, hsettings, -⟩ := get?_normalize hdone
  exact ⟨rfl, _, rfl, rfl, SameApart.refl _ _, hsettings, hkept.usable⟩

/-- **Preferences that have been saved are loaded again** without error, with their typing settings,
and with all that does not change. -/
theorem load_saved {d d' : Disk} (hp : p.store.persistent = true) (hnew : p.store.data = [])
    (hdefaults : p.store.defaults = AppFields.defaults) (husable : Usable q.store.data)
    (hsettings : Assoc.get? ↑"easy_typing" q.store.data = some s.toValue)
    (hwrite : d.writeSafely p.store.path q.store.content = (d', none))
    (htext : q.store.content.text?.bind Value.parse? =
      some (Value.object q.store.data).sorted) :
    (p.load d').error = none ∧ (p.load d').preferences.settings = s ∧
      SameApart changing (Json.sortFields (Value.sortedFields q.store.data))
        (p.load d').preferences.store.data := by
  rw [Value.sorted] at htext
  have hfile := Store.readFile_of_writeSafely hwrite htext
  have hkept : Usable (Json.sortFields (Value.sortedFields q.store.data)) :=
    KeptWith.sortFields husable fun _ => WindowTyped.sortFields
  obtain ⟨hdone, hsame, s', v, hv, hsorted, hs'⟩ := hkept.sameApart_normalize
  have htaken : p.taken (Json.sortFields (Value.sortedFields q.store.data)) =
      AppFields.normalize (Json.sortFields (Value.sortedFields q.store.data)) := by
    rw [taken, hdefaults, hkept.mergeDefaults]
  rw [← htaken] at hdone hsame hs'
  refine ⟨?_, ?_, ?_⟩
  · -- what was written is a text
    obtain ⟨t, -, -, ht, -⟩ := Disk.writeSafely_ok hwrite
    have htextual : (Value.object q.store.data).Textual :=
      Value.isText_pretty_iff.1 (Option.isSome_iff_exists.2 ⟨t, ht⟩)
    obtain ⟨written, hwritten, hparse⟩ := Store.readText_of_readFile hfile
    exact error_load_of_writable hp hnew hdefaults hwritten hparse hdone
      (Disk.writable_of_writeSafely hwrite) (by simpa only [Value.sorted] using htextual.sorted)
  · rw [Value.get?_sorted, hsettings, Option.map_some] at hv
    obtain rfl := Option.some.inj hv
    rw [Value.sorted_sorted] at hsorted
    rw [settings, value_eq (by decide), data_load hp hfile, field_eq hs',
      Settings.normalize_of_sorted hsorted.symm]
  · rwa [data_load hp hfile]

end Preferences

/-! ### The window -/

namespace App

open Preferences AppFields

variable {p : Preferences} {s : Settings} {app : App}

theorem preferences_saveFile (app : App) : app.saveFile.preferences = app.preferences := by
  rw [saveFile]
  split_ifs
  · rfl
  · split <;> rfl

theorem preferences_strike (app : App) (chord : Points) :
    (app.strike chord).preferences = app.preferences := by
  have hfold : ∀ (cs : List Command) (app : App), (cs.foldl (fun app c =>
      if c = .save then app.saveFile else { app with editor := (app.editor.command c).1 })
        app).preferences = app.preferences := by
    intro cs
    induction cs with
    | nil => exact fun _ => rfl
    | cons c cs ih =>
      intro app
      rw [List.foldl_cons, ih]
      split_ifs
      · exact preferences_saveFile app
      · rfl
  exact hfold _ app

theorem preferences_perform (app : App) (op : Editor.Operation) :
    (app.perform op).1.preferences = app.preferences := by
  cases op with
  | strike chord => exact preferences_strike app chord
  | _ => rfl

/-- **One step** changes the preferences at most where they may change, and not the typing settings
in them. -/
theorem since_act (h : Since p app.preferences s) (a : Action) :
    Since p (app.act a).preferences s := by
  cases a with
  | edit op => rwa [act, preferences_perform]
  | saveFile => rwa [act, preferences_saveFile]
  | resize width height => exact h
  | disturb d => exact h
  | openFile path =>
    rw [act, openFile]
    split
    · exact h
    · exact h.set_window "window.last_open_file" "last_open_file" (.str path.text) (by decide)
        (by decide) (by simp [windowDefaults, Value.kindName])

/-- **So does a whole run.** -/
theorem since_run (h : Since p app.preferences s) (actions : List Action) :
    Since p (app.run actions).preferences s := by
  induction actions generalizing app with
  | nil => exact h
  | cons a actions ih => exact ih (since_act h a)

theorem preferences_close (app : App) :
    app.close.preferences = (app.leaving.save app.disk).1 := by
  unfold close
  rcases app.leaving.save app.disk with ⟨q, d, _ | _ | _⟩ <;> rfl

theorem disk_close (app : App) : app.close.disk = (app.leaving.save app.disk).2.1 := by
  unfold close
  rcases app.leaving.save app.disk with ⟨q, d, _ | _ | _⟩ <;> rfl

/-- When the window is closed, the typing settings become those of the editor. -/
theorem since_leaving (h : Since p app.preferences s) :
    Since p app.leaving app.editor.session.settings := by
  have hsettings := h.updateSettings app.editor.session.settings
  have hwidth := hsettings.set_window "window.width" "width" (.int app.width) (by decide)
    (by decide) (by simp [windowDefaults, Value.kindName])
  exact hwidth.set_window "window.height" "height" (.int app.height) (by decide) (by decide)
    (by simp [windowDefaults, Value.kindName])

/-- The editor of a window has the typing settings of the preferences. -/
theorem settings_window (p : Preferences) (d : Disk) :
    (window p d).editor.session.settings = p.settings := p.settings.normalize_toValue

/-- **The typing settings survive a restart.**  The file holds an object, it is loaded without error,
and no chord that is stored is the plus sign alone.  Then, whatever happens to the window, as long
as the settings are saved when it is closed and the text that is saved says what was meant: they are
loaded again without error, the next window has the typing settings that this one had, and nothing
has changed but the typing settings, the size of the window and the file opened last. -/
theorem restart {d : Disk} {folder : Path} {fileName : String} {first second : Loaded}
    {actions : List Action} {app : App}
    (hfile : ∃ fs, Store.readFile d (create folder fileName).store.path = .ok fs)
    (hfirst : (create folder fileName).load d = first) (hok : first.error = none)
    (hplus : ∀ b : Bindings, first.preferences.value "keybindings" = b.toValue →
      ∀ e ∈ b, [.char '+'] ∉ e.2)
    (happ : (window first.preferences first.disk).run actions = app)
    (hsave : (app.leaving.save app.disk).2.2 = none)
    (htext : app.close.preferences.store.content.text?.bind Value.parse? =
      some (Value.object app.close.preferences.store.data).sorted)
    (hsecond : (create folder fileName).load app.close.disk = second) :
    second.error = none ∧
      (window second.preferences second.disk).editor.session.settings =
        app.editor.session.settings ∧
      SameApart changing first.preferences.store.data app.close.preferences.store.data ∧
      ∀ way, (∀ way' ∈ changing, Apart way' way) →
        (Value.object second.preferences.store.data).at? way =
          ((Value.object first.preferences.store.data).at? way).map Value.sorted := by
  have hp : (create folder fileName).store.persistent = true := rfl
  have hnew : (create folder fileName).store.data = [] := rfl
  have hdefaults : (create folder fileName).store.defaults = AppFields.defaults := rfl
  generalize create folder fileName = p at *
  subst hfirst hsecond
  obtain ⟨fs, hfile⟩ := hfile
  -- what is saved
  obtain ⟨hholding, s, hsince⟩ := since_of_load hp hfile hok hplus
  have hrun : Since (p.load d).preferences app.preferences s := by
    have hstart : Since (p.load d).preferences
        (window (p.load d).preferences (p.load d).disk).preferences s := hsince
    rw [← happ]
    exact since_run hstart actions
  have hleaving := since_leaving hrun
  have hpath : app.leaving.store.path = p.store.path := by
    rw [hleaving.path, hholding]
    rfl
  have hpersistent : app.leaving.store.persistent = true := by
    rw [hleaving.persistent, hholding]
    exact hp
  have hdata : app.close.preferences.store.data = app.leaving.store.data := by
    rw [preferences_close, save_eq, Store.data_save]
  obtain ⟨hwrite, -⟩ := Store.save_ok hpersistent (Option.map_eq_none_iff.1 hsave)
  rw [hpath] at hwrite
  rw [preferences_close, save_eq, Store.content, Store.data_save] at htext
  obtain ⟨herror, hsettings, hsame⟩ := load_saved hp hnew hdefaults hleaving.usable
    hleaving.settings hwrite htext
  rw [disk_close, save_eq, settings_window]
  refine ⟨herror, hsettings, ?_, fun way hway => ?_⟩
  · rw [hdata]
    exact hleaving.same
  · rw [hsame way hway, ← Value.sorted, Value.at?_sorted, hleaving.same way hway]

/-- A settings file with one switch, and a field that is not known. -/
def switchFields : Fields :=
  [("easy_typing", .object [("AutoFormat", .bool true)]), ("plugins", .list [.int 1])]

/-- A disk with a document and nothing else. -/
def noteDisk : Disk := { nodes := [(["note.md"], .file (Utf8.encode "A note.".toList))] }

/-- Typing settings are given in words and tidying is switched off.  Then the settings file is lost
from the disk, a document is opened, and the window is made too small. -/
def switchRun : List Action :=
  [.edit (.updateSettings (.object [("AutoFormat", .int 1), ("debug", .str "yes")])),
    .edit (.command .toggleAutoFormat), .disturb noteDisk, .openFile ⟨1, ["note.md"]⟩,
    .resize 100 50]

/-- Tidying is still off, and the notes are still detailed. -/
theorem restart_switch :
    let first := atRoot.load (diskWith switchFields)
    let app := (window first.preferences first.disk).run switchRun
    let second := atRoot.load app.close.disk
    first.error = none ∧ (app.leaving.save app.disk).2.2 = none ∧
      app.editor.session.settings = { autoFormat := false, debug := true } ∧
      second.error = none ∧
      (window second.preferences second.disk).editor.session.settings =
        app.editor.session.settings ∧
      SameApart changing first.preferences.store.data app.close.preferences.store.data ∧
      ∀ way, (∀ way' ∈ changing, Apart way' way) →
        (Value.object second.preferences.store.data).at? way =
          ((Value.object first.preferences.store.data).at? way).map Value.sorted := by
  have hfile : Store.readFile (diskWith switchFields) atRoot.store.path = .ok switchFields :=
    readFile_diskWith (by decide +kernel) (by decide +kernel) (by decide +kernel) rfl
  have hdone : (atRoot.taken switchFields).2 = true := by decide +kernel
  intro first app second
  have hok : first.error = none := error_load_diskWith hfile hdone (by decide +kernel)
  have hloaded : first.preferences = atRoot.holding switchFields false :=
    preferences_load rfl hfile hdone hok
  have happ : app = (window (atRoot.holding switchFields false) first.disk).run switchRun := by
    rw [← hloaded]
  have hkeys : first.preferences.value "keybindings" = Bindings.default.toValue := by
    rw [hloaded]
    decide +kernel
  have hsave : (app.leaving.save app.disk).2.2 = none := by
    rw [happ]
    decide +kernel
  have hsettings : app.editor.session.settings = { autoFormat := false, debug := true } := by
    rw [happ]
    decide +kernel
  have htext : app.close.preferences.store.content.text?.bind Value.parse? =
      some (Value.object app.close.preferences.store.data).sorted := by
    rw [happ]
    exact Value.parse?_pretty (by decide +kernel) (by decide +kernel) (by decide +kernel)
  have hfirst : atRoot.load (diskWith switchFields) = first := rfl
  have hsecond : atRoot.load app.close.disk = second := rfl
  refine ⟨hok, hsave, hsettings,
    restart ⟨_, hfile⟩ hfirst hok (fun b hb => ?_) rfl hsave htext hsecond⟩
  rw [← Bindings.toValue_injective (hkeys.symm.trans hb)]
  decide

end App

end TypingAid
