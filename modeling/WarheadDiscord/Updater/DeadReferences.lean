import WarheadDiscord.Updater.FileAction

/-!
# The rows that are left in the end

When all files are dealt with, the copy has the rows of no file that no file has taken
over (`keys_performAll_order`).  Those that are not of a module are missing updates, and
their names are deleted from the table, unless there are too many rows left.

The table compares the names that are to be deleted by its collation.  A row that a file
was given in the meantime goes with a missing update if their names have one key
(`lookup_cleanUp`).

## Main definitions

* `leftover`, `missing` — what is left of the copy.
* `CleansUp` — the names are deleted.
* `Completes` — every file that is to be applied can be.
-/

namespace WarheadDiscord.UpdateFetcher
variable {γ κ : Type} [DecidableEq κ] {collate : String → κ}

/-- The rows of no file that no file takes over. -/
def leftover (u : UpdateFetcher γ) (t : AppliedFileStorage) : List String :=
  t.keys.filter fun n => n ∉ u.names ∧ ∀ f ∈ u.available.files, u.action t f ≠ .rename n

/-- Those that are not of a module. -/
def missing (u : UpdateFetcher γ) (t : AppliedFileStorage) : List String :=
  (u.leftover t).filter fun n => (t.lookup n).any fun row => row.state ≠ .module

/-- Dead references are deleted. -/
def CleansUp (u : UpdateFetcher γ) (t : AppliedFileStorage) : Prop :=
  u.setDirectories = false ∧ (u.cleanDeadReferencesMaxCount < 0 ∨
    (u.leftover t).length ≤ u.cleanDeadReferencesMaxCount.toNat)

instance (u : UpdateFetcher γ) (t : AppliedFileStorage) : Decidable (u.CleansUp t) :=
  inferInstanceAs (Decidable (_ ∧ _))

/-- Every file that is to be applied can be. -/
def Completes (u : UpdateFetcher γ) (applyFile : LocaleFile γ → Bool) (t : AppliedFileStorage) :
    Prop :=
  u.order.any (u.stops applyFile t) = false

/-- The row that leaves the copy when the file is dealt with. -/
def erasedName (u : UpdateFetcher γ) (t : AppliedFileStorage) (f : LocaleFile γ) : String :=
  match u.action t f with
  | .rename old => old
  | _ => f.name

variable {u : UpdateFetcher γ} {t : AppliedFileStorage} {s : UpdateRun collate}
  {files : List (LocaleFile γ)} {n : String} {applyFile : LocaleFile γ → Bool}
  {result : UpdateResult}

/-! ## What is left -/

theorem applied_perform (f : LocaleFile γ) (s : UpdateRun collate) :
    (u.perform f s (u.action t f)).applied = AList.erase (u.erasedName t f) s.applied := by
  rw [erasedName]
  cases u.action t f <;> rfl

theorem keys_performAll (files : List (LocaleFile γ)) (s : UpdateRun collate) :
    (u.performAll t files s).applied.keys =
      s.applied.keys.filter fun n => ∀ f ∈ files, n ≠ u.erasedName t f := by
  induction files generalizing s with
  | nil => simp [performAll]
  | cons f files ih =>
      rw [performAll_cons, ih, applied_perform, AList.keys_erase,
        s.applied.keys_nodup.erase_eq_filter, List.filter_filter]
      refine List.filter_congr ?_
      intro n _
      rw [Bool.eq_iff_iff]
      simp [and_comm]

theorem lookup_applied_performAll (h : ∀ f ∈ files, n ≠ u.erasedName t f) :
    (u.performAll t files s).applied.lookup n = s.applied.lookup n := by
  induction files generalizing s with
  | nil => rfl
  | cons f files ih =>
      rw [performAll_cons, ih fun g hg => h g (List.mem_cons_of_mem _ hg), applied_perform,
        AList.lookup_erase_ne (h f List.mem_cons_self)]

/-- What is erased is the names of all files, and the rows that are taken over. -/
theorem ne_erasedName_iff (hn : n ∈ t.keys) :
    (∀ f ∈ u.order, n ≠ u.erasedName t f) ↔
      n ∉ u.names ∧ ∀ f ∈ u.available.files, u.action t f ≠ .rename n := by
  constructor
  · intro h
    constructor
    · intro hmem
      obtain ⟨f, hf, rfl⟩ := List.mem_map.mp hmem
      -- a file with a row takes over no other
      have hrow : t.lookup f.name ≠ none := by
        rw [ne_eq, AList.lookup_eq_none, not_not]
        exact hn
      refine h f (mem_order.mpr hf) ?_
      rw [erasedName]
      cases haction : u.action t f with
      | rename old => exact absurd (action_eq_rename.mp haction).new hrow
      | _ => rfl
    · intro f hf haction
      refine h f (mem_order.mpr hf) ?_
      rw [erasedName, haction]
  · rintro ⟨hforeign, hkept⟩ f hf
    rw [mem_order] at hf
    rw [erasedName]
    cases haction : u.action t f with
    | rename old =>
        rintro rfl
        exact hkept f hf haction
    | _ =>
        rintro rfl
        exact hforeign (name_mem_names hf)

theorem keys_performAll_order (updates : UpdatesTable collate) (t : AppliedFileStorage) :
    (u.performAll t u.order ⟨updates, t, []⟩).applied.keys = u.leftover t := by
  rw [keys_performAll, leftover]
  refine List.filter_congr ?_
  intro n hn
  simp only [ne_erasedName_iff hn]

theorem mem_missing :
    n ∈ u.missing t ↔ n ∉ u.names ∧ (∀ f ∈ u.available.files, ¬ u.TakesRow t f n) ∧
      ∃ row, t.lookup n = some row ∧ row.state ≠ .module := by
  rw [missing, leftover, List.mem_filter, List.mem_filter]
  simp only [decide_eq_true_eq, ne_eq, action_eq_rename, Option.any_eq_true, and_assoc]
  constructor
  · rintro ⟨_, hforeign, hkept, hrow⟩
    exact ⟨hforeign, hkept, hrow⟩
  · rintro ⟨hforeign, hkept, row, hrow, hstate⟩
    refine ⟨?_, hforeign, hkept, row, hrow, hstate⟩
    rw [← AList.mem_keys, ← AList.lookup_isSome, hrow]
    rfl

/-! ## The deletion -/

/-- **The rows with the keys of the missing updates are deleted.** -/
theorem find_cleanUp (updates : UpdatesTable collate) (t : AppliedFileStorage) (k : κ) :
    (u.cleanUpDeadReferences (u.performAll t u.order ⟨updates, t, []⟩)).updates.find k =
      if u.CleansUp t ∧ k ∈ (u.missing t).map collate then none
      else (u.performAll t u.order ⟨updates, t, []⟩).updates.find k := by
  have hkeys := keys_performAll_order (u := u) updates t
  have hlength : (u.performAll t u.order ⟨updates, t, []⟩).applied.entries.length =
      (u.leftover t).length := by
    rw [← hkeys, AList.keys, List.keys, List.length_map]
  -- a row that is left is as it was
  have hrow : ∀ n ∈ u.leftover t,
      (u.performAll t u.order ⟨updates, t, []⟩).applied.lookup n = t.lookup n := by
    intro n hn
    have hkey : n ∈ t.keys := List.mem_of_mem_filter hn
    rw [leftover, List.mem_filter, decide_eq_true_eq, ← ne_erasedName_iff hkey] at hn
    exact lookup_applied_performAll hn.2
  have hnames (n : String) : n ∈ ((u.performAll t u.order ⟨updates, t, []⟩).applied.entries.filter
        fun row => row.2.state ≠ .module).map Sigma.fst ↔ n ∈ u.missing t := by
    rw [missing, List.mem_filter, Option.any_eq_true]
    simp only [List.mem_map, List.mem_filter, decide_eq_true_eq]
    constructor
    · rintro ⟨⟨m, row⟩, ⟨hmem, hstate⟩, rfl⟩
      have hleft : m ∈ u.leftover t := by
        rw [← hkeys]
        exact List.mem_keys_of_mem hmem
      refine ⟨hleft, row, ?_, hstate⟩
      rw [← hrow m hleft]
      exact AList.mem_lookup_iff.mpr hmem
    · rintro ⟨hleft, row, hlookup, hstate⟩
      rw [← hrow n hleft] at hlookup
      exact ⟨⟨n, row⟩, ⟨AList.mem_lookup_iff.mp hlookup, hstate⟩, rfl⟩
  have hmap : k ∈ (((u.performAll t u.order ⟨updates, t, []⟩).applied.entries.filter
        fun row => row.2.state ≠ .module).map Sigma.fst).map collate ↔
      k ∈ (u.missing t).map collate := by
    rw [List.mem_map, List.mem_map]
    simp only [hnames]
  rw [cleanUpDeadReferences]
  simp only [hlength]
  split
  · rename_i hclean
    have hclean : u.CleansUp t := hclean
    simp only [UpdatesTable.cleanUp, CollatedTable.find_deleteAll, hmap, hclean, true_and]
  · rename_i hclean
    have hclean : ¬ u.CleansUp t := hclean
    rw [if_neg fun h => hclean h.1]

theorem lookup_cleanUp (updates : UpdatesTable collate) (t : AppliedFileStorage) (n : String) :
    (u.cleanUpDeadReferences (u.performAll t u.order ⟨updates, t, []⟩)).updates.lookup n =
      if u.CleansUp t ∧ collate n ∈ (u.missing t).map collate then none
      else (u.performAll t u.order ⟨updates, t, []⟩).updates.lookup n := by
  rw [CollatedTable.lookup, find_cleanUp]
  split
  · rfl
  · rfl

theorem imported_cleanUpDeadReferences (s : UpdateRun collate) :
    (u.cleanUpDeadReferences s).imported = s.imported := by
  rw [cleanUpDeadReferences]
  split <;> rfl

/-! ## The end of a run -/

variable {updates : UpdatesTable collate}

theorem final_of_not_completes (h : ¬ u.Completes applyFile t) (updates : UpdatesTable collate) :
    final (u.update applyFile updates t) =
      u.performAll t (u.reached applyFile t) ⟨updates, t, []⟩ := by
  rcases update_cases (u := u) applyFile updates t with ⟨-, heq⟩ | ⟨hstop, -⟩
  · rw [heq, final]
  · exact absurd hstop h

theorem final_of_completes (h : u.Completes applyFile t) (updates : UpdatesTable collate) :
    final (u.update applyFile updates t) =
      u.cleanUpDeadReferences (u.performAll t u.order ⟨updates, t, []⟩) := by
  rcases update_cases (u := u) applyFile updates t with ⟨hstop, -⟩ | ⟨-, result, heq⟩
  · rw [Completes, hstop] at h
    cases h
  · rw [heq, final]

theorem completes_of_ok (h : u.update applyFile updates t = .ok (s, result)) :
    u.Completes applyFile t ∧
      s = u.cleanUpDeadReferences (u.performAll t u.order ⟨updates, t, []⟩) := by
  rcases update_cases (u := u) applyFile updates t with ⟨-, heq⟩ | ⟨hstop, result', heq⟩
  · rw [heq] at h
    cases h
  · rw [heq] at h
    cases h
    exact ⟨hstop, rfl⟩

theorem eq_of_error (h : u.update applyFile updates t = .error s) :
    s = u.performAll t (u.reached applyFile t) ⟨updates, t, []⟩ := by
  rcases update_cases (u := u) applyFile updates t with ⟨-, heq⟩ | ⟨-, result', heq⟩
  · rw [heq] at h
    cases h
    rfl
  · rw [heq] at h
    cases h

theorem update_ok_of_applyFile (h : ∀ f, applyFile f = true) (updates : UpdatesTable collate)
    (t : AppliedFileStorage) : ∃ s result, u.update applyFile updates t = .ok (s, result) := by
  rcases update_cases (u := u) applyFile updates t with ⟨hstop, -⟩ | ⟨-, result, heq⟩
  · simp [stops, h] at hstop
  · exact ⟨_, result, heq⟩

theorem imported_final (updates : UpdatesTable collate) :
    (final (u.update applyFile updates t)).imported =
      ((u.reached applyFile t).filter fun f => u.action t f = .apply).map LocaleFile.name := by
  by_cases hc : u.Completes applyFile t
  · rw [final_of_completes hc, imported_cleanUpDeadReferences, imported_performAll,
      reached_eq_order hc, List.nil_append]
  · rw [final_of_not_completes hc, imported_performAll, List.nil_append]

/-- A run that completes has applied what it decided to apply. -/
theorem imported_of_ok (h : u.update applyFile updates t = .ok (s, result)) :
    s.imported = (u.order.filter fun f => u.action t f = .apply).map LocaleFile.name := by
  rw [(completes_of_ok h).2, imported_cleanUpDeadReferences, imported_performAll,
    List.nil_append]

end WarheadDiscord.UpdateFetcher
