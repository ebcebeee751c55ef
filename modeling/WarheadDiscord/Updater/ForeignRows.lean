import WarheadDiscord.Updater.Idempotence

/-!
# The rows of other files in a run over set directories

A run that was given `_setDirectories` sees all rows, but only the files of these
directories.  A row whose name is not among them is foreign: its file may be there,
somewhere else.  The deletion of dead references knows this and does not take place.  The
search for renamed files does not know it: a new file with the hash of a foreign row takes
this row over.  Nor does the table: the row of a new file replaces a foreign row whose name
differs from that of the file only in case.

So the foreign rows are left alone exactly if no new file takes one over or has the key of
one (`foreign_rows_kept_iff`).
-/

namespace WarheadDiscord.UpdateFetcher
variable {γ κ : Type} [DecidableEq κ] {collate : String → κ} {u : UpdateFetcher γ}
  {updates : UpdatesTable collate} {applied : AppliedFileStorage}

/-- Without the deletion of dead references, a run is what was done about the files that it
reached. -/
theorem final_of_setDirectories (hset : u.setDirectories = true)
    (applyFile : LocaleFile γ → Bool) (updates : UpdatesTable collate)
    (applied : AppliedFileStorage) :
    final (u.update applyFile updates applied) =
      u.performAll applied (u.reached applyFile applied) ⟨updates, applied, []⟩ := by
  rcases update_cases (u := u) applyFile updates applied with ⟨-, heq⟩ | ⟨hstop, result, heq⟩
  · rw [heq, final]
  · rw [heq, final, reached_eq_order hstop, cleanUpDeadReferences]
    simp [hset]

/-- A file that clears the key of a foreign row is new, and takes the row over or has its key. -/
theorem Clears.foreign (hrows : ∀ n, applied.lookup n = updates.lookup n) {f : LocaleFile γ}
    (hf : f ∈ u.available.files) {n : String} (hn : n ∉ u.names) (hrow : updates.lookup n ≠ none)
    (h : u.Clears collate applied f (collate n)) :
    applied.lookup f.name = none ∧
      (u.TakesRow applied f n ∨ collate n = collate f.name) := by
  have hne : n ≠ f.name := fun heq => hn (heq ▸ name_mem_names hf)
  obtain ⟨row, hrow⟩ := Option.ne_none_iff_exists'.mp hrow
  rw [← hrows] at hrow
  refine ⟨h.new hrows hrow hne, ?_⟩
  rcases h.cases with hkey | ⟨old, htakes, hkey⟩
  · exact .inr hkey.symm
  · obtain rfl := htakes.eq_of_collate_eq hrows hrow hkey
    exact .inl htakes

/-- **A run over set directories leaves all foreign rows alone exactly if no new file that it
reaches takes one over or has a name with the key of one.** -/
theorem foreign_rows_kept_iff (hset : u.setDirectories = true)
    (hperm : applied.entries.Perm updates.byName.entries) (applyFile : LocaleFile γ → Bool) :
    (∀ n, n ∉ u.names →
        (final (u.update applyFile updates applied)).updates.lookup n = updates.lookup n) ↔
      ∀ f ∈ u.reached applyFile applied, applied.lookup f.name = none →
        (∀ old, ¬ u.TakesRow applied f old) ∧
          ∀ n, n ∉ u.names → collate n = collate f.name → updates.lookup n = none := by
  have hrows : ∀ n, applied.lookup n = updates.lookup n := fun n =>
    (AList.perm_lookup hperm).trans (CollatedTable.lookup_byName updates n)
  rw [final_of_setDirectories hset]
  have hforeign {n : String} (hn : n ∉ u.names) := lookup_performAll_foreign hrows hn
    fun f (hf : f ∈ u.reached applyFile applied) => mem_files_of_reached hf
  constructor
  · intro hkept
    -- a row whose key is cleared is not what it was
    have hclears {f : LocaleFile γ} (hf : f ∈ u.reached applyFile applied) {n : String}
        (hn : n ∉ u.names) (hclears : u.Clears collate applied f (collate n)) :
        updates.lookup n = none := by
      rcases hforeign hn with ⟨hgone, -⟩ | ⟨-, hfree⟩
      · rw [← hkept n hn, hgone]
      · exact absurd hclears (hfree f hf)
    intro f hf hnew
    refine ⟨?_, ?_⟩
    · intro old htakes
      obtain ⟨row, hrow, -⟩ := AppliedFileStorage.lookup_of_hashToName htakes.index
      rw [hrows, hclears hf htakes.orphan (clears_of_takesRow htakes)] at hrow
      cases hrow
    · intro n hn hkey
      refine hclears hf hn ?_
      rw [hkey]
      exact clears_of_new hnew
  · intro hkeeps n hn
    rcases hforeign hn with ⟨hgone, hempty | ⟨f, hf, hclears⟩⟩ | ⟨hsame, -⟩
    · rw [hgone, hempty]
    · rw [hgone]
      by_contra hrow
      obtain ⟨hnew, htakes | hkey⟩ :=
        hclears.foreign hrows (mem_files_of_reached hf) hn (Ne.symm hrow)
      · exact (hkeeps f hf hnew).1 n htakes
      · exact Ne.symm hrow ((hkeeps f hf hnew).2 n hn hkey)
    · exact hsame

/-- A module with one update. -/
def moduleFetcher (name : String) : UpdateFetcher String :=
  { sampleFetcher ⟨[⟨name, "SELECT 1;", .module⟩], by simp⟩ with setDirectories := true }

theorem foreign_rows_kept_other_hash :
    (final ((moduleFetcher "mod.sql").update (fun _ => true)
      (sampleUpdates "base.sql" "B3BFA0DB4249DB876E4D12807F6D6748400A5F59")
      (sampleUpdates "base.sql" "B3BFA0DB4249DB876E4D12807F6D6748400A5F59").byName)).updates.lookup
        "base.sql" = some ⟨"B3BFA0DB4249DB876E4D12807F6D6748400A5F59", .released⟩ := by
  refine (foreign_rows_kept_iff rfl (List.Perm.refl _) _).mpr ?_ "base.sql" ?_
  · intro f hf _
    have hfile := List.mem_singleton.mp (mem_files_of_reached hf)
    rw [hfile]
    constructor
    · intro old htakes
      cases htakes.index
    · intro n _ hkey
      rw [CollatedTable.lookup, hkey]
      rfl
  · decide

/-- The row of `base.sql` becomes the row of the module's file, which is not applied.  And
it is replaced by the row of a module's file `Base.sql`. -/
theorem foreign_row_taken_over :
    ("base.sql" ∉ (moduleFetcher "mod.sql").names ∧
    (sampleRow "base.sql").lookup "base.sql" =
        some ⟨"517305648B7323BF7793BED05A4F527376715093", .released⟩ ∧
    ∃ s result, (moduleFetcher "mod.sql").update (fun _ => true) (sampleRow "base.sql")
        (sampleRow "base.sql").byName = .ok (s, result) ∧
      s.updates.lookup "base.sql" = none ∧ s.imported = []) ∧
    "base.sql" ∉ (moduleFetcher "Base.sql").names ∧
    (sampleUpdates "base.sql" "").lookup "base.sql" = some ⟨"", .released⟩ ∧
    ∃ s result, (moduleFetcher "Base.sql").update (fun _ => true) (sampleUpdates "base.sql" "")
        (sampleUpdates "base.sql" "").byName = .ok (s, result) ∧
      s.updates.lookup "base.sql" = none := by
  exact ⟨⟨by decide, rfl, _, _, rfl, rfl, rfl⟩, by decide, rfl, _, _, rfl, rfl⟩

end WarheadDiscord.UpdateFetcher
