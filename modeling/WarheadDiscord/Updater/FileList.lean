import Mathlib.Data.List.Perm.Basic
import WarheadDiscord.Common.Config
import WarheadDiscord.Common.Util
import WarheadDiscord.Lib.KeyOrder
import WarheadDiscord.Updater.UpdateFetcher

/-!
# The update files on disk

`GetFileList` goes through the directories that the table `updates_include` names, or the
directories of modules, and puts every SQL file below them into a set that is ordered by the
names of the files.  A name that is met twice ends the update with an exception.

`FillFileListRecursively` is recursive in the directories, and links can lead it in a circle.  What
ends it is `MAX_DEPTH`.  A disk is therefore a graph of directories here, and the recursion is on the
levels that are left.  The order in which a directory gives its items is up to the file system,
and so is the order of the rows of a table without `ORDER BY`; neither shows in the result
(`getFileList_congr`).

## Main definitions

* `Disk`, `DirectoryItem` — directories and files.
* `fillFileListRecursively`, `receiveIncludedDirectories`, `getFileList` — the code.
* `receiveAppliedFiles` — the copy of the table `updates`.
* `Disk.Below`, `Included` — what belongs into the list.
-/

namespace WarheadDiscord

inductive DirectoryItem (δ γ : Type)
  /-- A directory, or a link to one. -/
  | directory (path : δ)
  | file (name : String) (content : γ)
  deriving DecidableEq, Repr

/-- A disk, with the directories as they are found from the text of a path. -/
structure Disk (δ γ : Type) where
  isDirectory : Text → Option δ
  /-- `directory_iterator` -/
  items : δ → List (DirectoryItem δ γ)

/-- `path::extension` of a file name: from the last dot on, unless the name begins with it. -/
def extension (name : String) : List Char :=
  let behind := name.toList.reverse.takeWhile (· ≠ '.')
  if behind.length + 1 < name.toList.length ∧ name ≠ ".." then '.' :: behind.reverse else []

def isSql (name : String) : Bool := extension name = ['.', 's', 'q', 'l']

structure UpdateException where
  message : String
  deriving DecidableEq, Repr

def duplicateFilename : UpdateException := ⟨"Updating failed, see the log for details."⟩

namespace LocaleFileStorage
variable {γ : Type}

instance : EmptyCollection (LocaleFileStorage γ) := ⟨⟨[], List.Pairwise.nil⟩⟩

/-- The strict order of the names is the order without equal names. -/
theorem sorted_iff {files : List (LocaleFile γ)} :
    (files.Pairwise fun left right => left.name < right.name) ↔
      KeyOrder.Ordered LocaleFile.name files ∧ (files.map LocaleFile.name).Nodup := by
  rw [KeyOrder.Ordered, List.Nodup, List.pairwise_map, ← List.pairwise_and_iff]
  exact List.Pairwise.iff fun {_ _} => lt_iff_le_and_ne

/-- `find` and `insert`; the set compares the names. -/
def add (storage : LocaleFileStorage γ) (file : LocaleFile γ) :
    Except UpdateException (LocaleFileStorage γ) :=
  if h : file.name ∈ storage.files.map LocaleFile.name then .error duplicateFilename
  else .ok
    { files := KeyOrder.insertByKey LocaleFile.name file storage.files
      sorted := by
        obtain ⟨hordered, hnodup⟩ := sorted_iff.mp storage.sorted
        refine sorted_iff.mpr ⟨KeyOrder.ordered_insertByKey hordered file, ?_⟩
        rw [((KeyOrder.perm_insertByKey LocaleFile.name file storage.files).map _).nodup_iff]
        exact List.nodup_cons.mpr ⟨h, hnodup⟩ }

end LocaleFileStorage

def MAX_DEPTH : ℕ := 10

section
variable {δ γ : Type}

/-- One item of a directory; `enter` goes into another one. -/
def fillItem (state : UpdateState)
    (enter : δ → LocaleFileStorage γ → Except UpdateException (LocaleFileStorage γ))
    (storage : LocaleFileStorage γ) :
    DirectoryItem δ γ → Except UpdateException (LocaleFileStorage γ)
  | .directory path => enter path storage
  | .file name content =>
      if isSql name then storage.add ⟨name, content, state⟩ else .ok storage

/-- `FillFileListRecursively` with the number of levels up to `MAX_DEPTH` that are left. -/
def fillFileListRecursively (disk : Disk δ γ) (state : UpdateState) :
    ℕ → δ → LocaleFileStorage γ → Except UpdateException (LocaleFileStorage γ)
  | 0, path, storage => (disk.items path).foldlM (fillItem state fun _ s => .ok s) storage
  | levels + 1, path, storage =>
      (disk.items path).foldlM
        (fillItem state fun p s => fillFileListRecursively disk state levels p s) storage

/-- `GetFileList` for the directories, each with its state; the first level is level 1. -/
def getFileList (disk : Disk δ γ) (directories : List (δ × UpdateState)) :
    Except UpdateException (LocaleFileStorage γ) :=
  directories.foldlM (fun storage e =>
    fillFileListRecursively disk e.2 (MAX_DEPTH - 1) e.1 storage) ∅

end

/-! ## The directories and the table -/

/-- `StateConvert` from a text. -/
def stateConvert (state : Text) : UpdateState :=
  if state = ascii "RELEASED" then .released
  else if state = ascii "CUSTOM" then .custom
  else if state = ascii "MODULE" then .module
  else .archived

/-- `StateConvert` to a text. -/
def UpdateState.toText : UpdateState → Text
  | .released => ascii "RELEASED"
  | .custom => ascii "CUSTOM"
  | .module => ascii "MODULE"
  | .archived => ascii "ARCHIVED"

/-- The fields of an `UpdateFetcher` that decide where it looks. -/
structure IncludeConfig where
  sourceDirectory : Text
  dbModuleName : Text
  setDirectories : Option (List Text)
  modulesList : Text

/-- `ReceiveIncludedDirectories` with the rows of `updates_include`; no rows is no result, and then
the modules are not looked at either. -/
def receiveIncludedDirectories {δ γ : Type} (disk : Disk δ γ) (config : IncludeConfig)
    (rows : List (Text × Text)) : List (δ × UpdateState) :=
  match config.setDirectories with
  | some directories =>
      directories.filterMap fun itr =>
        (disk.isDirectory (config.sourceDirectory ++ itr)).map fun p => (p, stateConvert (ascii "MODULE"))
  | none =>
      if rows = [] then []
      else
        (rows.filterMap fun row =>
          let path := if row.1.take 1 = ascii "$" then config.sourceDirectory ++ row.1.drop 1
            else row.1
          (disk.isDirectory path).map fun p => (p, stateConvert row.2)) ++
        (tokenize config.modulesList 0x2c true).filterMap fun itr =>
          (disk.isDirectory (config.sourceDirectory ++ ascii "/modules/" ++ itr ++ ascii "/sql/" ++
            config.dbModuleName)).map fun p => (p, .module)

/-- A row of the `SELECT` on `updates`. -/
structure UpdatesRow where
  name : String
  hash : String
  state : Text
  deriving DecidableEq, Repr

/-- `ReceiveAppliedFiles`; `emplace` keeps the row that came first. -/
def receiveAppliedFiles (rows : List UpdatesRow) : AppliedFileStorage :=
  rows.foldl (fun map row =>
    if row.name ∈ map then map
    else AList.insert row.name ⟨row.hash, stateConvert row.state⟩ map) ∅

/-! ## What belongs into the list -/

section
variable {δ γ : Type} {disk : Disk δ γ} {directories : List (δ × UpdateState)}

/-- The SQL files that an item stands for. -/
def itemFiles (state : UpdateState) (below : δ → List (LocaleFile γ)) :
    DirectoryItem δ γ → List (LocaleFile γ)
  | .directory path => below path
  | .file name content => if isSql name then [⟨name, content, state⟩] else []

/-- The SQL files in the order in which they are met. -/
def filesBelow (disk : Disk δ γ) (state : UpdateState) : ℕ → δ → List (LocaleFile γ)
  | 0, path => (disk.items path).flatMap (itemFiles state fun _ => [])
  | levels + 1, path =>
      (disk.items path).flatMap (itemFiles state fun p => filesBelow disk state levels p)

def allFiles (disk : Disk δ γ) (directories : List (δ × UpdateState)) : List (LocaleFile γ) :=
  directories.flatMap fun e => filesBelow disk e.2 (MAX_DEPTH - 1) e.1

theorem foldlM_flatMap {σ ε α β : Type} (f : α → List β) (g : σ → β → Except ε σ) (l : List α)
    (s : σ) : (l.flatMap f).foldlM g s = l.foldlM (fun s a => (f a).foldlM g s) s := by
  induction l generalizing s with
  | nil => rfl
  | cons a l ih =>
      rw [List.flatMap_cons, List.foldlM_append, List.foldlM_cons]
      congr 1
      funext t
      exact ih t

theorem fillItem_eq {state : UpdateState} {below : δ → List (LocaleFile γ)}
    {enter : δ → LocaleFileStorage γ → Except UpdateException (LocaleFileStorage γ)}
    (henter : ∀ path storage, enter path storage =
      (below path).foldlM LocaleFileStorage.add storage)
    (storage : LocaleFileStorage γ) (item : DirectoryItem δ γ) :
    fillItem state enter storage item =
      (itemFiles state below item).foldlM LocaleFileStorage.add storage := by
  cases item with
  | directory path => exact henter path storage
  | file name content =>
      rw [fillItem, itemFiles]
      split
      · rw [List.foldlM_cons]
        cases storage.add ⟨name, content, state⟩ <;> rfl
      · rfl

theorem fillFileListRecursively_eq (state : UpdateState) (levels : ℕ) (path : δ)
    (storage : LocaleFileStorage γ) :
    fillFileListRecursively disk state levels path storage =
      (filesBelow disk state levels path).foldlM LocaleFileStorage.add storage := by
  induction levels generalizing path storage with
  | zero =>
      rw [fillFileListRecursively, filesBelow, foldlM_flatMap]
      congr 1
      funext s item
      refine fillItem_eq ?_ s item
      intro _ _
      rfl
  | succ levels ih =>
      rw [fillFileListRecursively, filesBelow, foldlM_flatMap]
      congr 1
      funext s item
      exact fillItem_eq ih s item

theorem getFileList_eq : getFileList disk directories =
    (allFiles disk directories).foldlM LocaleFileStorage.add ∅ := by
  simp only [getFileList, allFiles, foldlM_flatMap, fillFileListRecursively_eq]

/-! ## The set -/

namespace LocaleFileStorage
variable {storage t : LocaleFileStorage γ}

/-- Two sets with the same files are equal. -/
theorem eq_of_perm (h : storage.files.Perm t.files) : storage = t := by
  have hfiles : storage.files = t.files := by
    refine h.eq_of_pairwise ?_ storage.sorted t.sorted
    intro a b _ _ hab hba
    exact absurd hab (lt_asymm hba)
  cases storage
  cases t
  simpa using hfiles

theorem exists_add {file : LocaleFile γ} (h : file.name ∉ storage.files.map LocaleFile.name) :
    ∃ t, storage.add file = .ok t ∧ t.files.Perm (file :: storage.files) := by
  rw [add, dif_neg h]
  exact ⟨_, rfl, KeyOrder.perm_insertByKey _ _ _⟩

/-- **The files are put in one after the other** unless a name comes twice. -/
theorem foldlM_add (files : List (LocaleFile γ)) (storage : LocaleFileStorage γ) :
    (((storage.files ++ files).map LocaleFile.name).Nodup ∧
      ∃ t, files.foldlM add storage = .ok t ∧ t.files.Perm (storage.files ++ files)) ∨
    (¬ ((storage.files ++ files).map LocaleFile.name).Nodup ∧
      files.foldlM add storage = .error duplicateFilename) := by
  induction files generalizing storage with
  | nil =>
      refine .inl ⟨?_, storage, rfl, by simp⟩
      rw [List.append_nil]
      exact (sorted_iff.mp storage.sorted).2
  | cons file files ih =>
      rw [List.foldlM_cons]
      by_cases hmem : file.name ∈ storage.files.map LocaleFile.name
      · refine .inr ⟨?_, by rw [add, dif_pos hmem]; rfl⟩
        rw [List.map_append, List.map_cons, List.nodup_append]
        rintro ⟨-, -, hdisjoint⟩
        exact hdisjoint _ hmem _ List.mem_cons_self rfl
      · obtain ⟨t, hadd, hperm⟩ := exists_add hmem
        have hall : (t.files ++ files).Perm (storage.files ++ file :: files) :=
          (hperm.append_right files).trans List.perm_middle.symm
        rw [hadd, ← (hall.map LocaleFile.name).nodup_iff]
        rcases ih t with ⟨hnodup, u, hu, huperm⟩ | ⟨hnodup, hu⟩
        · exact .inl ⟨hnodup, u, hu, huperm.trans hall⟩
        · exact .inr ⟨hnodup, hu⟩

end LocaleFileStorage

/-- The directories have the same items, each in an order of its own. -/
structure Disk.SameItems (disk disk' : Disk δ γ) : Prop where
  isDirectory : disk.isDirectory = disk'.isDirectory
  items : ∀ d, (disk.items d).Perm (disk'.items d)

variable {disk' : Disk δ γ}

theorem perm_itemFiles {state : UpdateState} {below below' : δ → List (LocaleFile γ)}
    (h : ∀ d, (below d).Perm (below' d)) (item : DirectoryItem δ γ) :
    (itemFiles state below item).Perm (itemFiles state below' item) := by
  cases item with
  | directory path => exact h path
  | file name content => exact .refl _

theorem perm_filesBelow (h : disk.SameItems disk') (state : UpdateState) (levels : ℕ) (d : δ) :
    (filesBelow disk state levels d).Perm (filesBelow disk' state levels d) := by
  induction levels generalizing d with
  | zero => exact (h.items d).flatMap_right _
  | succ levels ih =>
      rw [filesBelow, filesBelow]
      exact (h.items d).flatMap fun item _ => perm_itemFiles ih item

theorem getFileList_congr (h : disk.SameItems disk') {directories' : List (δ × UpdateState)}
    (hdirs : directories.Perm directories') :
    getFileList disk directories = getFileList disk' directories' := by
  have hall : (allFiles disk directories).Perm (allFiles disk' directories') :=
    hdirs.flatMap fun e _ => perm_filesBelow h e.2 _ e.1
  rw [getFileList_eq, getFileList_eq]
  have hempty (files : List (LocaleFile γ)) :
      (∅ : LocaleFileStorage γ).files ++ files = files := rfl
  rcases LocaleFileStorage.foldlM_add (allFiles disk directories) ∅ with
      ⟨hnodup, u, hu, hperm⟩ | ⟨hnodup, hu⟩ <;>
    rcases LocaleFileStorage.foldlM_add (allFiles disk' directories') ∅ with
      ⟨hnodup', u', hu', hperm'⟩ | ⟨hnodup', hu'⟩ <;>
    rw [hempty] at hnodup hnodup'
  · rw [hu, hu', LocaleFileStorage.eq_of_perm (hperm.trans (hall.trans hperm'.symm))]
  · exact absurd ((hall.map _).nodup_iff.mp hnodup) hnodup'
  · exact absurd ((hall.map _).nodup_iff.mpr hnodup') hnodup
  · rw [hu, hu']

/-- **The order in which a disk and the database give their answers** does not show in the list
of the files, nor in whether there is one. -/
theorem getFileList_receiveIncludedDirectories_congr (h : disk.SameItems disk')
    (config : IncludeConfig) {rows rows' : List (Text × Text)} (hrows : rows.Perm rows') :
    getFileList disk (receiveIncludedDirectories disk config rows) =
      getFileList disk' (receiveIncludedDirectories disk' config rows') := by
  refine getFileList_congr h ?_
  rw [receiveIncludedDirectories, receiveIncludedDirectories, h.isDirectory]
  cases config.setDirectories with
  | some directories => exact .refl _
  | none =>
      have hnil : rows = [] ↔ rows' = [] := by
        rw [← List.length_eq_zero_iff, ← List.length_eq_zero_iff, hrows.length_eq]
      by_cases hempty : rows = []
      · simp [hempty, hnil.mp hempty]
      · have hempty' : rows' ≠ [] := fun h => hempty (hnil.mpr h)
        simp only [hempty, hempty', if_false]
        exact (hrows.filterMap _).append_right _

/-- Two directories, of which the first one gives its items in one order or in the other. -/
def nestedDisk (items : List (DirectoryItem ℕ ℕ)) : Disk ℕ ℕ where
  isDirectory path := if path = ascii "/sql" then some 0 else none
  items d := if d = 0 then items else if d = 1 then [.file "a.sql" 5] else []

theorem getFileList_congr_nestedDisk :
    getFileList (nestedDisk [.directory 1, .file "b.sql" 7])
        (receiveIncludedDirectories (nestedDisk [.directory 1, .file "b.sql" 7])
          ⟨ascii "/", [], none, []⟩ [(ascii "$sql", ascii "CUSTOM"), (ascii "/old", [])]) =
      getFileList (nestedDisk [.file "b.sql" 7, .directory 1])
        (receiveIncludedDirectories (nestedDisk [.file "b.sql" 7, .directory 1])
          ⟨ascii "/", [], none, []⟩ [(ascii "/old", []), (ascii "$sql", ascii "CUSTOM")]) := by
  have hsame : (nestedDisk [.directory 1, .file "b.sql" 7]).SameItems
      (nestedDisk [.file "b.sql" 7, .directory 1]) := by
    refine ⟨rfl, fun d => ?_⟩
    simp only [nestedDisk]
    split
    · exact .swap _ _ _
    · exact .refl _
  exact getFileList_receiveIncludedDirectories_congr hsame _ (.swap _ _ _)

end

/-! ## The copy of the table -/

/-- A row of the table as the `SELECT` gives it. -/
def UpdatesRow.ofEntry (row : Sigma fun _ : String => AppliedFileEntry) : UpdatesRow :=
  ⟨row.1, row.2.hash, row.2.state.toText⟩

def UpdatesRow.entry (row : UpdatesRow) : Sigma fun _ : String => AppliedFileEntry :=
  ⟨row.name, row.hash, stateConvert row.state⟩

theorem stateConvert_toText (state : UpdateState) : stateConvert state.toText = state := by
  cases state <;> decide

theorem UpdatesRow.entry_ofEntry (row : Sigma fun _ : String => AppliedFileEntry) :
    (UpdatesRow.ofEntry row).entry = row := by
  rw [entry, ofEntry, stateConvert_toText]

theorem perm_foldl_receive {rows : List UpdatesRow} (hnodup : (rows.map UpdatesRow.name).Nodup)
    (map : AppliedFileStorage) (hnew : ∀ row ∈ rows, row.name ∉ map) :
    (rows.foldl (fun map row =>
      if row.name ∈ map then map
      else AList.insert row.name ⟨row.hash, stateConvert row.state⟩ map) map).entries.Perm
      (rows.map UpdatesRow.entry ++ map.entries) := by
  induction rows generalizing map with
  | nil => exact .refl _
  | cons row rows ih =>
      rw [List.map_cons, List.nodup_cons] at hnodup
      have hrow := hnew row List.mem_cons_self
      rw [List.foldl_cons, if_neg hrow]
      refine (ih hnodup.2 _ ?_).trans ?_
      · intro other hother hmem
        rcases (AList.mem_insert map).mp hmem with heq | hmem
        · exact hnodup.1 (heq ▸ List.mem_map_of_mem hother)
        · exact hnew other (List.mem_cons_of_mem _ hother) hmem
      · rw [AList.insert_of_notMem hrow]
        exact List.perm_middle

/-- **The copy of the table is the table**, in some order, states included. -/
theorem receiveAppliedFiles_perm (t : AppliedFileStorage) {rows : List UpdatesRow}
    (h : rows.Perm (t.entries.map UpdatesRow.ofEntry)) :
    (receiveAppliedFiles rows).entries.Perm t.entries := by
  have hnames : (rows.map UpdatesRow.name).Nodup := by
    rw [(h.map UpdatesRow.name).nodup_iff, List.map_map]
    exact t.nodupKeys
  refine (perm_foldl_receive hnames ∅ fun _ _ => AList.notMem_empty _).trans ?_
  rw [AList.empty_entries, List.append_nil]
  refine (h.map UpdatesRow.entry).trans ?_
  rw [List.map_map]
  have hid : UpdatesRow.entry ∘ UpdatesRow.ofEntry = id := funext UpdatesRow.entry_ofEntry
  rw [hid, List.map_id]

end WarheadDiscord
