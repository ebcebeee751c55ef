import Mathlib.Data.List.AList

/-!
# A table with a key that is compared by a collation

A database compares the names that are the key of a table by the collation of the column,
which need not tell all names apart: two names that differ only in case may be one key.
A `CollatedTable key ρ` has at most one row for each value of `key`, with the name under
which it was written and its other columns.

The statements find a row by the key of the name that they are given.  Who has read the
rows and goes on with their exact names sees the table through `lookup`.

## Main definitions

* `CollatedTable key ρ` — the table.
* `find`, `lookup` — the row with a key, and the row with exactly this name.
* `replace`, `delete`, `rename`, `modify`, `deleteAll` — `REPLACE INTO`, `DELETE`, and
  `UPDATE` of the name or of the other columns.
* `byName` — the rows, by their exact names.
-/

namespace WarheadDiscord

universe u v w

/-- Rows by key, each with its name and the other columns. -/
structure CollatedTable {ν : Type u} {κ : Type v} (key : ν → κ) (ρ : Type w) where
  rows : AList fun _ : κ => ν × ρ
  key_name : ∀ row ∈ rows.entries, key row.2.1 = row.1

namespace CollatedTable
variable {ν : Type u} {κ : Type v} {key : ν → κ} {ρ : Type w}

instance : EmptyCollection (CollatedTable key ρ) := ⟨⟨∅, by simp⟩⟩

/-- The rows, by their exact names. -/
def byName (t : CollatedTable key ρ) : AList fun _ : ν => ρ where
  entries := t.rows.entries.map fun row => ⟨row.2.1, row.2.2⟩
  nodupKeys := by
    -- names with different keys are different
    have hkeys : (t.rows.entries.map fun row => key row.2.1) = t.rows.keys :=
      List.map_congr_left t.key_name
    rw [List.NodupKeys, List.keys, List.map_map]
    refine List.Nodup.of_map key ?_
    rw [List.map_map]
    exact hkeys ▸ t.rows.keys_nodup

variable [DecidableEq κ]

/-- The row with this key. -/
def find (t : CollatedTable key ρ) (k : κ) : Option (ν × ρ) := t.rows.lookup k

/-- `REPLACE INTO` -/
def replace (t : CollatedTable key ρ) (name : ν) (r : ρ) : CollatedTable key ρ where
  rows := AList.insert (key name) (name, r) t.rows
  key_name := by
    intro row hrow
    rw [AList.entries_insert, List.mem_cons] at hrow
    rcases hrow with rfl | hrow
    · rfl
    · exact t.key_name row ((List.kerase_sublist _ _).subset hrow)

/-- `DELETE` of the row of a name. -/
def delete (t : CollatedTable key ρ) (name : ν) : CollatedTable key ρ where
  rows := AList.erase (key name) t.rows
  key_name := fun row hrow => t.key_name row ((List.kerase_sublist _ _).subset hrow)

/-- The row of `target` is deleted, then the row of `source` gets this name. -/
def rename (t : CollatedTable key ρ) (source target : ν) : CollatedTable key ρ :=
  match (t.delete target).find (key source) with
  | some row => ((t.delete target).delete source).replace target row.2
  | none => t.delete target

/-- `UPDATE` of the other columns of the row of a name. -/
def modify (t : CollatedTable key ρ) (name : ν) (f : ρ → ρ) : CollatedTable key ρ :=
  match t.find (key name) with
  | some row => t.replace row.1 (f row.2)
  | none => t

/-- `DELETE` of the rows of several names. -/
def deleteAll (t : CollatedTable key ρ) (names : List ν) : CollatedTable key ρ :=
  names.foldl delete t

section Find
variable (t : CollatedTable key ρ) {name : ν} {k : κ}

@[simp] theorem find_empty : (∅ : CollatedTable key ρ).find k = none := AList.lookup_empty k

theorem find_replace (r : ρ) :
    (t.replace name r).find k = if k = key name then some (name, r) else t.find k := by
  split
  · rename_i h
    rw [h]
    exact AList.lookup_insert t.rows
  · rename_i h
    exact AList.lookup_insert_ne h

theorem find_delete : (t.delete name).find k = if k = key name then none else t.find k := by
  split
  · rename_i h
    rw [h]
    exact AList.lookup_erase _ t.rows
  · rename_i h
    exact AList.lookup_erase_ne h

theorem key_of_find {row : ν × ρ} (h : t.find k = some row) : key row.1 = k :=
  t.key_name ⟨k, row⟩ (AList.mem_lookup_iff.mp h)

theorem find_modify (f : ρ → ρ) :
    (t.modify name f).find k =
      if k = key name then (t.find k).map fun row => (row.1, f row.2) else t.find k := by
  rw [modify]
  cases h : t.find (key name) with
  | none =>
      by_cases hk : k = key name
      · simp [hk, h]
      · simp [hk]
  | some row =>
      have hrow := t.key_of_find h
      simp only [find_replace, hrow]
      by_cases hk : k = key name
      · simp [hk, h]
      · simp [hk]

theorem find_rename {source target : ν} :
    (t.rename source target).find k =
      if k = key target then
        if key source = key target then none
        else (t.find (key source)).map fun row => (target, row.2)
      else if k = key source then none
      else t.find k := by
  have hsource : (t.delete target).find (key source) =
      if key source = key target then none else t.find (key source) := t.find_delete
  rw [rename, hsource]
  by_cases hsame : key source = key target
  · simp only [hsame, if_true, find_delete]
    split_ifs <;> rfl
  · cases h : t.find (key source) with
    | none =>
        simp only [if_neg hsame, find_delete, Option.map_none]
        by_cases hk : k = key source <;> simp [hk, h]
    | some row =>
        simp only [if_neg hsame, find_replace, find_delete, Option.map_some]
        split_ifs <;> rfl

theorem find_deleteAll (names : List ν) :
    (t.deleteAll names).find k = if k ∈ names.map key then none else t.find k := by
  induction names generalizing t with
  | nil => simp [deleteAll]
  | cons name names ih =>
      have hcons : t.deleteAll (name :: names) = (t.delete name).deleteAll names := rfl
      rw [hcons, ih, find_delete]
      by_cases hk : k = key name <;> simp [hk]

end Find

variable [DecidableEq ν]

/-- The row with exactly this name. -/
def lookup (t : CollatedTable key ρ) (name : ν) : Option ρ :=
  (t.find (key name)).bind fun row => if row.1 = name then some row.2 else none

section Lookup
variable {t : CollatedTable key ρ} {name name' : ν} {r r' : ρ}

theorem lookup_eq_some : t.lookup name = some r ↔ t.find (key name) = some (name, r) := by
  rw [lookup]
  cases t.find (key name) with
  | none => simp
  | some row => simp [Prod.ext_iff]

theorem lookup_of_find {k : κ} (h : t.find k = some (name, r)) : t.lookup name = some r := by
  rw [lookup_eq_some, t.key_of_find h]
  exact h

/-- **A key has one row.** -/
theorem eq_of_key_eq (h : t.lookup name = some r) (h' : t.lookup name' = some r')
    (hkey : key name = key name') : name = name' := by
  rw [lookup_eq_some] at h h'
  rw [hkey, h'] at h
  exact (congrArg Prod.fst (Option.some.inj h)).symm

theorem lookup_congr {t' : CollatedTable key ρ} (h : t'.find (key name) = t.find (key name)) :
    t'.lookup name = t.lookup name := by
  rw [lookup, lookup, h]

theorem lookup_replace (t : CollatedTable key ρ) (n : ν) (r : ρ) :
    (t.replace name r).lookup n =
      if n = name then some r else if key n = key name then none else t.lookup n := by
  rw [lookup, find_replace]
  by_cases hkey : key n = key name
  · rw [if_pos hkey, if_pos hkey]
    by_cases hn : n = name
    · simp [hn]
    · simp [hn, Ne.symm hn]
  · have hn : n ≠ name := fun h => hkey (h ▸ rfl)
    rw [if_neg hkey, if_neg hkey, if_neg hn, lookup]

theorem lookup_modify (t : CollatedTable key ρ) (n : ν) (f : ρ → ρ) :
    (t.modify name f).lookup n =
      if key n = key name then (t.lookup n).map f else t.lookup n := by
  rw [lookup, find_modify]
  by_cases hkey : key n = key name
  · rw [if_pos hkey, if_pos hkey, lookup]
    cases t.find (key n) with
    | none => rfl
    | some row => by_cases hn : row.1 = n <;> simp [hn]
  · rw [if_neg hkey, if_neg hkey, lookup]

/-- The new name has the row of the old one, unless they have one key. -/
theorem lookup_rename_target (t : CollatedTable key ρ) (source target : ν) :
    (t.rename source target).lookup target =
      if key source = key target then none else (t.find (key source)).map Prod.snd := by
  rw [lookup, find_rename, if_pos rfl]
  by_cases hsame : key source = key target
  · simp [hsame]
  · rw [if_neg hsame, if_neg hsame]
    cases t.find (key source) <;> simp

theorem lookup_rename_of_ne (t : CollatedTable key ρ) {source target n : ν} (hn : n ≠ target) :
    (t.rename source target).lookup n =
      if key n = key target ∨ key n = key source then none else t.lookup n := by
  rw [lookup, find_rename]
  by_cases htarget : key n = key target
  · have hor : key n = key target ∨ key n = key source := .inl htarget
    rw [if_pos htarget, if_pos hor]
    by_cases hsame : key source = key target
    · simp [hsame]
    · rw [if_neg hsame]
      cases t.find (key source) <;> simp [Ne.symm hn]
  · by_cases hsource : key n = key source
    · simp [hsource, hsource ▸ htarget]
    · simp [htarget, hsource, lookup]

theorem lookup_byName (t : CollatedTable key ρ) (name : ν) :
    t.byName.lookup name = t.lookup name := by
  ext r
  rw [← Option.mem_def, AList.mem_lookup_iff, lookup_eq_some, byName, find, ← Option.mem_def,
    AList.mem_lookup_iff, List.mem_map]
  constructor
  · rintro ⟨⟨k, row⟩, hmem, heq⟩
    obtain rfl : key row.1 = k := t.key_name _ hmem
    cases heq
    exact hmem
  · intro hmem
    exact ⟨_, hmem, rfl⟩

end Lookup

end CollatedTable
end WarheadDiscord
