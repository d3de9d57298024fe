import TypingAid.Storage.Disk
import TypingAid.Proofs.Assoc
import TypingAid.Proofs.Text.Str
import TypingAid.Proofs.Text.Utf8

/-!
# Reading a file that has been written

Only a place that is no folder is written, and a path goes through folders alone.  So whatever is
written, a path that led somewhere leads there still (`Disk.follow_put`), and a file that has been
written has the content that was written (`Disk.read_write`).

The same holds of a file that is written with care, by way of a draft that takes its place
(`Disk.readText_writeSafely`).  Such a file can be written with care again
(`Disk.writable_of_writeSafely`): only files come and go, and the folders on the way stay
(`Disk.Folders`).  Where every text can be written, a string cannot be written if and only if it is
not a text (`Disk.Writable.error_writeSafely`).
-/

namespace TypingAid

namespace Disk

variable {d d' : Disk} {p : Path} {place q : Place} {node : Node} {content : Bytes} {t : Text}
  {s : Str}

@[simp] theorem node?_put_self (h : q ≠ []) : (d.put q node).node? q = some node := by
  rw [node?, if_neg h, put, Assoc.get?_put_self]

theorem node?_put_of_ne (h : place ≠ q) : (d.put q node).node? place = d.node? place := by
  simp only [node?, put, Assoc.get?_put_of_ne h]

/-- The root is a folder. -/
theorem ne_nil_of_node? (h : d.node? q ≠ some .folder) : q ≠ [] := by
  rintro rfl
  exact h rfl

/-! ### Folders -/

/-- Every folder of this disk is a folder of that one. -/
def Folders (d d' : Disk) : Prop :=
  ∀ place, d.node? place = some .folder → d'.node? place = some .folder

theorem Folders.trans {d'' : Disk} (h : Folders d d') (h' : Folders d' d'') : Folders d d'' :=
  fun place hplace => h' place (h place hplace)

/-- A place that is no folder may be written. -/
theorem folders_put (h : d.node? q ≠ some .folder) (node : Node) : Folders d (d.put q node) := by
  intro place hplace
  have hne : place ≠ q := fun he => h (he ▸ hplace)
  rw [node?_put_of_ne hne, hplace]

/-- A file is no new folder. -/
theorem folders_of_put (hq : q ≠ []) (content : Bytes) : Folders (d.put q (.file content)) d := by
  intro place hplace
  by_cases he : place = q
  · rw [he, node?_put_self hq] at hplace
    cases hplace
  · rwa [node?_put_of_ne he] at hplace

/-- Where all folders stay, a path leads where it led before. -/
theorem follow_of_folders (h : Folders d d') (names : List String) (here : Place) :
    d.follow here names = .ok place → d'.follow here names = .ok place := by
  induction names generalizing here with
  | nil => exact id
  | cons name rest ih =>
    intro hfollow
    rw [follow] at hfollow
    split at hfollow
    · cases hfollow
    · cases hfollow
    · rename_i hhere
      rw [follow, h here hhere]
      exact ih _ hfollow

theorem follow_put (h : d.node? q ≠ some .folder) (names : List String) (here : Place) :
    d.follow here names = .ok place → (d.put q node).follow here names = .ok place :=
  follow_of_folders (folders_put h node) names here

/-- Only a folder leads on. -/
theorem follow_cons {here : Place} {name : String} {rest : List String}
    (h : d.follow here (name :: rest) = .ok place) : d.node? here = some .folder ∧
      d.follow (if name = Path.up then here.dropLast else here ++ [name]) rest = .ok place := by
  rw [follow] at h
  split at h
  · cases h
  · cases h
  · rename_i hhere
    exact ⟨hhere, h⟩

/-- A path leads on from where its beginning leads. -/
theorem follow_append {here : Place} {names rest : List String} :
    d.follow here (names ++ rest) = .ok place ↔
      ∃ q, d.follow here names = .ok q ∧ d.follow q rest = .ok place := by
  induction names generalizing here with
  | nil => simp [follow]
  | cons name names ih =>
    constructor
    · intro h
      obtain ⟨hhere, h⟩ := follow_cons h
      obtain ⟨q, hq, hrest⟩ := ih.1 h
      refine ⟨q, ?_, hrest⟩
      rw [follow, hhere]
      exact hq
    · rintro ⟨q, hq, hrest⟩
      obtain ⟨hhere, hq⟩ := follow_cons hq
      rw [List.cons_append, follow, hhere]
      exact ih.2 ⟨q, hq, hrest⟩

/-- Where a path leads does not depend on the disk. -/
theorem follow_unique {here : Place} {names : List String} (h : d.follow here names = .ok place)
    (h' : d'.follow here names = .ok q) : place = q := by
  induction names generalizing here with
  | nil =>
    cases h
    cases h'
    rfl
  | cons name rest ih => exact ih (follow_cons h).2 (follow_cons h').2

/-- Folders that have been made are there, and all others too. -/
theorem follow_addFolders {here : Place} {names : List String}
    (hhere : d.node? here = some .folder) (h : d.addFolders here names = .ok d') :
    Folders d d' ∧ d'.workDir = d.workDir ∧
      ∃ place, d'.follow here names = .ok place ∧ d'.node? place = some .folder := by
  induction names generalizing d here with
  | nil =>
    cases h
    exact ⟨fun _ => id, rfl, here, rfl, hhere⟩
  | cons name rest ih =>
    rw [addFolders] at h
    split at h
    · rename_i hnone
      have hnew : d.node? (if name = Path.up then here.dropLast else here ++ [name]) ≠
          some .folder := by
        rw [hnone]
        exact Option.some_ne_none _ |>.symm
      obtain ⟨hfolders, hdir, place, hfollow, hplace⟩ :=
        ih (node?_put_self (ne_nil_of_node? hnew)) h
      have hall := (folders_put hnew .folder).trans hfolders
      refine ⟨hall, hdir, place, ?_, hplace⟩
      rw [follow, hall here hhere]
      exact hfollow
    · rename_i hfolder
      obtain ⟨hfolders, hdir, place, hfollow, hplace⟩ := ih hfolder h
      refine ⟨hfolders, hdir, place, ?_, hplace⟩
      rw [follow, hfolders here hhere]
      exact hfollow
    · cases h

/-- Folders that are there are not made again. -/
theorem addFolders_of_follow {here : Place} {names : List String}
    (h : d.follow here names = .ok place) (hplace : d.node? place = some .folder) :
    d.addFolders here names = .ok d := by
  induction names generalizing here with
  | nil => rfl
  | cons name rest ih =>
    obtain ⟨-, h⟩ := follow_cons h
    have hnext : d.node? (if name = Path.up then here.dropLast else here ++ [name]) =
        some .folder := by
      cases rest with
      | nil =>
        cases h
        exact hplace
      | cons => exact (follow_cons h).1
    rw [addFolders, hnext]
    exact ih h

/-! ### Reading and writing -/

/-- What can be written is a place that the path leads to, and no folder. -/
theorem write_eq_ok (h : d.write p content = .ok d') :
    ∃ place, d.locate p = .ok place ∧ d.node? place ≠ some .folder ∧
      d' = d.put place (.file content) := by
  rw [write] at h
  split at h
  · cases h
  · rename_i place hplace
    split_ifs at h with hfolder
    cases h
    exact ⟨place, hplace, hfolder, rfl⟩

/-- **What was written is read.** -/
theorem read_write (h : d.write p content = .ok d') : d'.read p = .ok content := by
  obtain ⟨place, hplace, hfolder, rfl⟩ := write_eq_ok h
  have hlook : (d.put place (.file content)).look p = .ok (.file content) := by
    rw [look, locate, show (d.put place (.file content)).workDir = d.workDir from rfl,
      follow_put hfolder _ _ hplace]
    dsimp only
    rw [node?_put_self (ne_nil_of_node? hfolder)]
  rw [read, hlook]

theorem readText_of_read (h : d.read p = .ok (Utf8.encode t)) (ht : '\r' ∉ t) :
    d.readText p = .ok t := by
  rw [readText, h]
  dsimp only
  rw [Utf8.decode?_encode]
  dsimp only
  rw [Text.unifyBreaks_of_not_mem ht]

theorem write_of_locate (hplace : d.locate p = .ok place) (h : d.node? place ≠ some .folder)
    (content : Bytes) : d.write p content = .ok (d.put place (.file content)) := by
  rw [write, hplace]
  exact if_neg h

/-! ### Writing with care -/

theorem move_ok {source : Path} (h : d.move source p = .ok d') :
    ∃ content place, d.read source = .ok content ∧ d.locate source = .ok place ∧
      (d.clear place).write p content = .ok d' := by
  rw [move] at h
  split at h
  · rename_i content place _ hread hplace _
    exact ⟨content, place, hread, hplace, h⟩
  all_goals cases h

theorem move_of {source : Path} {emptied : Disk} (hread : d.read source = .ok content)
    (hplace : d.locate source = .ok place) (hwrite : d.write p [] = .ok emptied) :
    d.move source p = (d.clear place).write p content := by
  rw [move, hread, hplace, hwrite]

/-- The file that is written first. -/
def draft (p : Path) : Path := p.withName (draftName p.name)

/-- A text is written to a file that can be opened. -/
theorem writeString_ok (h : d.writeString p s = (d', none)) :
    ∃ t, s.text? = some t ∧ d.writeText p t = .ok d' := by
  rw [writeString] at h
  split at h
  · cases h
  · rename_i written hwritten
    obtain ⟨rfl, herror⟩ := Prod.mk.inj h
    split_ifs at herror with htext
    obtain ⟨t, ht⟩ := Option.isSome_iff_exists.1 htext
    rw [ht] at hwritten
    exact ⟨t, ht, hwritten⟩

theorem writeString_of_writeText {written : Disk}
    (h : d.writeText p (s.text?.getD []) = .ok written) :
    d.writeString p s = (written, if s.isText then none else some .unencodable) := by
  rw [writeString, h]

theorem writeSafely_ok (h : d.writeSafely p s = (d', none)) : ∃ t ready drafted,
    s.text? = some t ∧ d.makeFolder p.parent = .ok ready ∧
      ready.writeText (draft p) t = .ok drafted ∧ drafted.move (draft p) p = .ok d' := by
  rw [writeSafely, ← draft] at h
  split at h
  · cases h
  · rename_i ready hready
    split at h
    · cases h
    · rename_i drafted hdraft
      split at h
      · cases h
      · rename_i done hmove
        obtain ⟨rfl, -⟩ := Prod.mk.inj h
        obtain ⟨t, ht, hdraft⟩ := writeString_ok hdraft
        exact ⟨t, ready, drafted, ht, hready, hdraft, hmove⟩

/-- What has taken the place of another file is read there. -/
theorem read_move {source : Path} (hsource : d.read source = .ok content)
    (h : d.move source p = .ok d') : d'.read p = .ok content := by
  obtain ⟨content', place, hread, -, hwrite⟩ := move_ok h
  rw [hsource] at hread
  cases hread
  exact read_write hwrite

/-- **A text that was written with care is read**, if it has line breaks of one kind. -/
theorem readText_writeSafely (h : d.writeSafely p s = (d', none)) (hs : s.text? = some t)
    (ht : '\r' ∉ t) : d'.readText p = .ok t := by
  obtain ⟨_, ready, drafted, hs', -, hdraft, hmove⟩ := writeSafely_ok h
  cases hs.symm.trans hs'
  exact readText_of_read (read_move (read_write hdraft) hmove) ht

/-- What is not below a place stays when the place is cleared. -/
theorem node?_clear_of_not_below (h : ¬q <+: place) : (d.clear q).node? place = d.node? place := by
  have hclear : Assoc.get? place (d.clear q).nodes = Assoc.get? place d.nodes := by
    rw [clear, Assoc.get?_filter fun p => !q.isPrefixOf p, if_pos]
    rwa [Bool.not_eq_true', ← Bool.not_eq_true, List.isPrefixOf_iff_prefix]
  rw [node?, node?, hclear]

/-- What is below it goes. -/
theorem node?_clear_of_below (hq : q ≠ []) (h : q <+: place) : (d.clear q).node? place = none := by
  have hclear : Assoc.get? place (d.clear q).nodes = none := by
    rw [clear, Assoc.get?_filter fun p => !q.isPrefixOf p, if_neg]
    rwa [Bool.not_eq_true', Bool.not_eq_false, List.isPrefixOf_iff_prefix]
  have hplace : place ≠ [] := fun he => hq (List.prefix_nil.1 (he ▸ h))
  rw [node?, if_neg hplace, hclear]

/-- Clearing a place makes no folder, and takes none away that is not below it. -/
theorem folders_of_clear (hq : q ≠ []) : Folders (d.clear q) d := by
  intro place hplace
  by_cases hbelow : q <+: place
  · rw [node?_clear_of_below hq hbelow] at hplace
    cases hplace
  · rwa [node?_clear_of_not_below hbelow] at hplace

theorem folders_clear (h : ∀ place, q <+: place → d.node? place ≠ some .folder) :
    Folders d (d.clear q) := by
  intro place hplace
  rwa [node?_clear_of_not_below fun hbelow => h place hbelow hplace]

/-- The place of the draft of a file in a folder. -/
def draftPlace (p : Path) (here : Place) : Place := here ++ [draftName p.name]

theorem draftPlace_ne_nil (p : Path) (here : Place) : draftPlace p here ≠ [] :=
  List.append_ne_nil_of_right_ne_nil _ (List.cons_ne_nil _ _)

theorem names_append_draft (w p : Path) :
    (w ++ draft p).names = (w ++ p.parent).names ++ [draftName p.name] := by
  change (w.append (draft p)).names = (w.append p.parent).names ++ [draftName p.name]
  rw [Path.append, Path.append, draft, Path.withName, Path.parent]
  split_ifs
  · exact (List.append_assoc _ _ _).symm
  · rfl

theorem draftName_ne_up (name : String) : draftName name ≠ Path.up := by
  intro h
  have hlength := congrArg String.length h
  rw [draftName, String.length_append] at hlength
  have : ".tmp".length = 4 := rfl
  have : Path.up.length = 2 := rfl
  omega

/-- The draft is in the folder of the file. -/
theorem locate_draft (hfolder : d.follow [] (d.workDir ++ p.parent).names = .ok q)
    (hq : d.node? q = some .folder) : d.locate (draft p) = .ok (draftPlace p q) := by
  rw [locate, names_append_draft, follow_append]
  refine ⟨q, hfolder, ?_⟩
  rw [follow, hq, if_neg (draftName_ne_up _)]
  rfl

/-- The way to a file leads through the folder of the file. -/
theorem names_append_parent (w p : Path) :
    ∃ rest, (w ++ p).names = (w ++ p.parent).names ++ rest := by
  change ∃ rest, (w.append p).names = (w.append p.parent).names ++ rest
  obtain ⟨rest, hrest⟩ := List.dropLast_prefix p.names
  refine ⟨rest, ?_⟩
  rw [Path.append, Path.append, Path.parent]
  split_ifs
  · rw [List.append_assoc, hrest]
  · exact hrest.symm

/-- All that writing with care needs: the folder of the file is there, and neither the file nor the
draft is a folder, nor is anything below the draft. -/
structure Prepared (d : Disk) (p : Path) (here target : Place) : Prop where
  way : d.follow [] (d.workDir ++ p.parent).names = .ok here
  folder : d.node? here = some .folder
  draft : ∀ place, draftPlace p here <+: place → d.node? place ≠ some .folder
  locate : d.locate p = .ok target
  target : d.node? target ≠ some .folder

/-- Every text can be written to the file with care. -/
def Writable (d : Disk) (p : Path) : Prop := ∀ s : String, (d.writeSafely p s).2 = none

/-- **What cannot be written to such a file** are the strings that are not texts. -/
theorem Writable.error_writeSafely (h : d.Writable p) (s : Str) :
    (d.writeSafely p s).2 = if s.isText then none else some .unencodable := by
  cases s with
  | text s => exact h s
  | broken ps hps =>
    -- the draft can be opened, as it is for a text
    obtain ⟨d', hd'⟩ : ∃ d', d.writeSafely p (.text "") = (d', none) := ⟨_, Prod.ext rfl (h "")⟩
    obtain ⟨t, ready, drafted, ht, hready, hdraft, -⟩ := writeSafely_ok hd'
    cases ht
    rw [writeSafely, ← draft, hready]
    dsimp only
    rw [writeString_of_writeText (s := .broken ps hps) hdraft]
    rfl

theorem Prepared.writable {here target : Place} (h : Prepared d p here target) :
    d.Writable p := by
  intro s
  have hready : d.makeFolder p.parent = .ok d := addFolders_of_follow h.way h.folder
  -- the draft is written
  have hplace := locate_draft h.way h.folder
  have hnew := h.draft _ List.prefix_rfl
  have hdraft : d.writeText (Disk.draft p) s.toList = .ok _ := write_of_locate hplace hnew _
  have hstring : d.writeString (Disk.draft p) s = (_, none) := writeString_of_writeText hdraft
  have hput := folders_put hnew (.file (Utf8.encode s.toList))
  have hback := folders_of_put (d := d) (draftPlace_ne_nil p here) (Utf8.encode s.toList)
  -- it takes the place of the file
  have hclear := hput.trans (folders_clear fun place hbelow hfolder =>
    h.draft place hbelow (hback place hfolder))
  have hback' := (folders_of_clear (draftPlace_ne_nil p here)).trans hback
  have hmove := move_of (read_write hdraft) (follow_of_folders hput _ _ hplace)
    (write_of_locate (follow_of_folders hput _ _ h.locate) (mt (hback target) h.target) [])
  rw [writeSafely, ← Disk.draft, hready]
  dsimp only
  rw [hstring]
  dsimp only
  rw [hmove, write_of_locate (follow_of_folders hclear _ _ h.locate) (mt (hback' target) h.target)]

/-- Writing with care leaves a disk on which that can be done again. -/
theorem prepared_of_writeSafely (h : d.writeSafely p s = (d', none)) :
    ∃ here target, Prepared d' p here target := by
  obtain ⟨t, ready, drafted, -, hready, hdraft, hmove⟩ := writeSafely_ok h
  obtain ⟨-, hdir, here, hway, hhere⟩ := follow_addFolders rfl hready
  rw [← hdir] at hway
  have hne := draftPlace_ne_nil p here
  -- the draft has been written in the folder of the file, and has gone from there
  obtain ⟨place, hplace, hnew, rfl⟩ := write_eq_ok hdraft
  obtain rfl : draftPlace p here = place := by
    rw [locate_draft hway hhere] at hplace
    exact Except.ok.inj hplace
  have hput := folders_put hnew (.file (Utf8.encode t))
  obtain ⟨content, _, -, hplace', hwrite⟩ := move_ok hmove
  obtain rfl := Except.ok.inj (hplace'.symm.trans (follow_put hnew _ _ hplace))
  have hdir' : ((ready.put (draftPlace p here) (.file (Utf8.encode t))).clear
      (draftPlace p here)).workDir = ready.workDir := rfl
  have hnone : ∀ place, draftPlace p here <+: place → ((ready.put (draftPlace p here)
      (.file (Utf8.encode t))).clear (draftPlace p here)).node? place = none :=
    fun _ => node?_clear_of_below hne
  have hfolder : ((ready.put (draftPlace p here) (.file (Utf8.encode t))).clear
      (draftPlace p here)).node? here = some .folder := by
    have hbelow : ¬draftPlace p here <+: here := by
      intro hprefix
      have := hprefix.length_le
      rw [draftPlace, List.length_append, List.length_singleton] at this
      omega
    rw [node?_clear_of_not_below hbelow]
    exact hput here hhere
  generalize clear _ _ = emptied at *
  -- and the file has come
  obtain ⟨target, htarget, htargetNew, rfl⟩ := write_eq_ok hwrite
  have hlast := folders_put htargetNew (.file content)
  have hback := folders_of_put (d := emptied) (ne_nil_of_node? htargetNew) content
  refine ⟨here, target, ?_, hlast here hfolder, ?_, follow_put htargetNew _ _ htarget,
    mt (hback target) htargetNew⟩
  · obtain ⟨rest, hrest⟩ := names_append_parent emptied.workDir p
    have hfollow := htarget
    rw [locate, hrest, follow_append] at hfollow
    obtain ⟨here', hway', -⟩ := hfollow
    obtain rfl : here = here' := follow_unique hway (hdir' ▸ hway')
    exact follow_put htargetNew _ _ hway'
  · intro place hbelow hplace
    have hfolder := hback place hplace
    rw [hnone place hbelow] at hfolder
    cases hfolder

/-- **What was written with care can be written again.** -/
theorem writable_of_writeSafely (h : d.writeSafely p s = (d', none)) : d'.Writable p := by
  obtain ⟨here, target, hprepared⟩ := prepared_of_writeSafely h
  exact hprepared.writable

/-- A file that can be read is there. -/
theorem holds_of_readText (h : d.readText p = .ok t) : d.holds p = true := by
  rw [readText, read] at h
  rw [holds]
  cases hlook : d.look p with
  | ok node => rfl
  | error e =>
    rw [hlook] at h
    cases h

end Disk

end TypingAid
