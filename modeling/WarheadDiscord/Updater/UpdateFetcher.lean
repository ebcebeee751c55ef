import Mathlib.Data.Int.Notation
import Mathlib.Data.String.Basic
import WarheadDiscord.Lib.CollatedTable

/-!
# `UpdateFetcher`: which update files are applied

The table `updates` has a row for every file that was applied: its name, which is the
key, the hash of its contents, and the kind of directory it was found in.  `Update`
goes through the files on disk and compares each with its row.  A file without a row
may be an old one under a new name: then the row with its hash is renamed.  What is
left of the table in the end belongs to no file, and may be deleted.

`Update` works on a copy of the table that loses a row with every file it has dealt with,
and on an index from hashes to names that is made once, at the start, and not kept up
to date.

The copy, the index and the list of files compare names as strings.  The table compares
them by the collation of the column, which is a parameter; that of `utf8mb4` takes
`A.sql` and `a.sql` for one name.  A name is one that the statements can carry: it fits
the column, and has nothing in it that would have to be escaped.  The times that the
table also records decide nothing and are left out, and so is whatever a file that is
applied does to the rest of the database.

## Main definitions

* `LocaleFileStorage` — the files on disk, in the order of their names.
* `UpdatesTable` — the table.
* `AppliedFileStorage` — the copy.
* `UpdateFetcher.applyUpdateFile`, `UpdateFetcher.update` — the functions of the source.
-/

namespace WarheadDiscord

/-- The directory an update comes from. -/
inductive UpdateState
  | released
  | custom
  | «module»
  | archived
  deriving DecidableEq, Repr

/-- An update file. -/
structure LocaleFile (γ : Type) where
  name : String
  content : γ
  state : UpdateState

/-- The files on disk: a set ordered by `PathCompare`, which compares names. -/
structure LocaleFileStorage (γ : Type) where
  files : List (LocaleFile γ)
  sorted : files.Pairwise fun left right => left.name < right.name

/-- A row of `updates`, without its name. -/
structure AppliedFileEntry where
  hash : String
  state : UpdateState
  deriving DecidableEq, Repr

/-- Rows by name, as strings. -/
abbrev AppliedFileStorage := AList fun _ : String => AppliedFileEntry

/-- The table `updates`: rows by name, compared by the collation of the column. -/
abbrev UpdatesTable {κ : Type} (collate : String → κ) := CollatedTable collate AppliedFileEntry

namespace UpdatesTable
variable {κ : Type} [DecidableEq κ] {collate : String → κ}

/-- `UpdateEntry` -/
def updateEntry (t : UpdatesTable collate) (name : String) (entry : AppliedFileEntry) :
    UpdatesTable collate :=
  t.replace name entry

/-- `RenameEntry` -/
def renameEntry (t : UpdatesTable collate) (source target : String) : UpdatesTable collate :=
  t.rename source target

/-- `UpdateState` -/
def updateState (t : UpdatesTable collate) (name : String) (state : UpdateState) :
    UpdatesTable collate :=
  t.modify name fun entry => { entry with state := state }

/-- `CleanUp` -/
def cleanUp (t : UpdatesTable collate) (names : List String) : UpdatesTable collate :=
  t.deleteAll names

end UpdatesTable

namespace AppliedFileStorage

/-- The index from hashes to names: of two rows with the same hash, the one that comes
first is in it. -/
def hashToName (t : AppliedFileStorage) (hash : String) : Option String :=
  (t.entries.find? fun row => row.2.hash = hash).map Sigma.fst

end AppliedFileStorage

/-- What an `UpdateFetcher` works with, and the arguments of `Update`. -/
structure UpdateFetcher (γ : Type) where
  available : LocaleFileStorage γ
  /-- `_setDirectories` is not null. -/
  setDirectories : Bool
  redundancyChecks : Bool
  allowRehash : Bool
  archivedRedundancy : Bool
  cleanDeadReferencesMaxCount : ℤ
  /-- The digest of a file, in hexadecimal. -/
  sha1 : γ → String

/-- The state of a call of `Update`. -/
structure UpdateRun {κ : Type} (collate : String → κ) where
  /-- The table in the database. -/
  updates : UpdatesTable collate
  /-- The copy. -/
  applied : AppliedFileStorage
  /-- The files applied so far. -/
  imported : List String := []

structure UpdateResult where
  updated : ℕ := 0
  recent : ℕ := 0
  archived : ℕ := 0
  deriving DecidableEq, Repr

inductive UpdateMode
  | apply
  | rehash
  deriving DecidableEq, Repr

namespace UpdateFetcher
variable {γ κ : Type} [DecidableEq κ] {collate : String → κ}

/-- The names of the files on disk. -/
def names (u : UpdateFetcher γ) : List String := u.available.files.map LocaleFile.name

/-- The row of a file that has just been applied. -/
def entry (u : UpdateFetcher γ) (file : LocaleFile γ) : AppliedFileEntry :=
  ⟨u.sha1 file.content, file.state⟩

/-- The end of `ApplyUpdateFile`.  `applyFile` tells whether the file can be applied; if
not, `Update` is left with an exception, and the table stays as it is. -/
def finish (u : UpdateFetcher γ) (applyFile : LocaleFile γ → Bool) (mode : UpdateMode)
    (file : LocaleFile γ) (s : UpdateRun collate) :
    Except (UpdateRun collate) (UpdateRun collate) :=
  let s' : UpdateRun collate :=
    { s with
      updates := s.updates.updateEntry file.name (u.entry file)
      applied := AList.erase file.name s.applied }
  match mode with
  | .apply =>
      if applyFile file then .ok { s' with imported := s.imported ++ [file.name] } else .error s
  | .rehash => .ok s'

/-- `ApplyUpdateFile` -/
def applyUpdateFile (u : UpdateFetcher γ) (applyFile : LocaleFile γ → Bool)
    (hashToName : String → Option String) (s : UpdateRun collate) (file : LocaleFile γ) :
    Except (UpdateRun collate) (UpdateRun collate) :=
  let skipped : UpdateRun collate := { s with applied := AList.erase file.name s.applied }
  match s.applied.lookup file.name with
  | some row =>
      if u.redundancyChecks = false then .ok skipped
      else if u.archivedRedundancy = false ∧ row.state = .archived ∧ file.state = .archived then
        .ok skipped
      else if u.allowRehash = true ∧ row.hash = "" then u.finish applyFile .rehash file s
      else if row.hash ≠ u.sha1 file.content then u.finish applyFile .apply file s
      else if row.state ≠ file.state then
        .ok { skipped with updates := s.updates.updateState file.name file.state }
      else .ok skipped
  | none =>
      match hashToName (u.sha1 file.content) with
      | some old =>
          -- the old file is still there: it was copied, not renamed
          if old ∈ u.names then u.finish applyFile .apply file s
          else
            .ok { s with
              updates := s.updates.renameEntry old file.name
              applied := AList.erase old s.applied }
      | none => u.finish applyFile .apply file s

/-- The deletion of rows that belong to no file. -/
def cleanUpDeadReferences (u : UpdateFetcher γ) (s : UpdateRun collate) : UpdateRun collate :=
  let doCleanup := u.cleanDeadReferencesMaxCount < 0 ∨
    s.applied.entries.length ≤ u.cleanDeadReferencesMaxCount.toNat
  if u.setDirectories = false ∧ doCleanup then
    { s with
      updates := s.updates.cleanUp
        ((s.applied.entries.filter fun row => row.2.state ≠ .module).map Sigma.fst) }
  else s

/-- `Update`, on a table and the copy of it, which has the rows in some order.  The
exception carries what was done before it. -/
def update (u : UpdateFetcher γ) (applyFile : LocaleFile γ → Bool)
    (updates : UpdatesTable collate) (applied : AppliedFileStorage) :
    Except (UpdateRun collate) (UpdateRun collate × UpdateResult) :=
  let files := u.available.files
  if u.setDirectories = true ∧ files.isEmpty then .ok (⟨updates, applied, []⟩, {})
  else do
    let apply := u.applyUpdateFile applyFile applied.hashToName
    let s ← (files.filter fun f => f.state = .released ∨ f.state = .archived).foldlM apply
      ⟨updates, applied, []⟩
    let s ← (files.filter fun f => f.state = .custom).foldlM apply s
    let s ← (files.filter fun f => f.state = .module).foldlM apply s
    return (u.cleanUpDeadReferences s,
      { updated := s.imported.length
        recent := applied.entries.countP fun row => row.2.state = .released
        archived := applied.entries.countP fun row => row.2.state ≠ .released })

end UpdateFetcher

/-! ## The copy -/

namespace AppliedFileStorage

theorem lookup_erase (t : AppliedFileStorage) (name n : String) :
    (AList.erase name t).lookup n = if n = name then none else t.lookup n := by
  split
  · rename_i h
    rw [h, AList.lookup_erase]
  · rename_i h
    rw [AList.lookup_erase_ne h]

/-- The index leads to a row with the hash. -/
theorem lookup_of_hashToName {t : AppliedFileStorage} {hash name : String}
    (h : t.hashToName hash = some name) : ∃ row, t.lookup name = some row ∧ row.hash = hash := by
  rw [hashToName, Option.map_eq_some_iff] at h
  obtain ⟨⟨n, row⟩, hfind, rfl⟩ := h
  refine ⟨row, AList.mem_lookup_iff.mpr (List.mem_of_find?_eq_some hfind), ?_⟩
  simpa using List.find?_some hfind

/-- A row leads the index to a row with the same hash. -/
theorem hashToName_isSome {t : AppliedFileStorage} {name : String} {row : AppliedFileEntry}
    (h : t.lookup name = some row) : ∃ n, t.hashToName row.hash = some n := by
  have hmem : (⟨name, row⟩ : Sigma fun _ : String => AppliedFileEntry) ∈ t.entries :=
    AList.mem_lookup_iff.mp h
  have hfind : (t.entries.find? fun r => r.2.hash = row.hash).isSome := by
    rw [List.find?_isSome]
    exact ⟨_, hmem, by simp⟩
  obtain ⟨r, hr⟩ := Option.isSome_iff_exists.mp hfind
  exact ⟨r.1, by rw [hashToName, hr]; rfl⟩

end AppliedFileStorage
end WarheadDiscord
