import WarheadDiscord.Updater.Idempotence

/-!
# The order of the updates, and which rows are deleted

The three loops of `Update` go through the files in the order of their names, so the files that a
run applies are in this order too, first the released and archived ones, then the custom ones,
then those of modules.

What is left of the copy in the end are the rows of no file.  Those of modules are never named in
the deletion, and the others are, unless there are too many.  But the number that is compared with
the limit is the number of all rows that are left, so a few rows of modules that are switched off
keep dead references from being deleted that are fewer than the limit.

Nor are the names that are deleted the only rows that go.  The table compares names by its
collation: the row of a new file replaces any row with the key of its name, and the deletion
takes every row with the key of a missing update.  `update_inOrder_cleansMissing_iff` says when
nothing of this happens; if all names have different keys, it comes down to the limit
(`cleansSafely_iff_of_apart`).

## Main definitions

* `GivenRow` — a file has or is given a row.
* `InOrder`, `CleansMissing` — what is promised of a run.
* `CleansSafely` — when the promise about the rows is kept.
-/

namespace WarheadDiscord.UpdateFetcher
variable {γ κ : Type} {collate : String → κ}

/-- There are not more missing updates than the limit. -/
def WithinLimit (u : UpdateFetcher γ) (t : AppliedFileStorage) : Prop :=
  u.cleanDeadReferencesMaxCount < 0 ∨
    (u.missing t).length ≤ u.cleanDeadReferencesMaxCount.toNat

/-- No file before `f` takes over the row `old`. -/
def FirstTakes (u : UpdateFetcher γ) (t : AppliedFileStorage) (before : List (LocaleFile γ))
    (f : LocaleFile γ) (old : String) : Prop :=
  u.TakesRow t f old ∧ ∀ g ∈ before, ¬ u.TakesRow t g old

/-- The file `f`, which comes after these, has a row at the start, or is given one: its own
when it is applied, or the row that is renamed. -/
def GivenRow (u : UpdateFetcher γ) (t : AppliedFileStorage) (before : List (LocaleFile γ))
    (f : LocaleFile γ) : Prop :=
  t.lookup f.name ≠ none ∨ u.action t f = .apply ∨ ∃ old, u.FirstTakes t before f old

/-- There was a row that was not renamed, or one was written for a file that was applied, or
one was renamed to this name, and there is none in the end. -/
structure Deleted (u : UpdateFetcher γ) (t : AppliedFileStorage) (s : UpdateRun collate)
    [DecidableEq κ] (n : String) : Prop where
  gone : s.updates.lookup n = none
  was : (t.lookup n ≠ none ∧ ∀ f ∈ u.available.files, ¬ u.TakesRow t f n) ∨ n ∈ s.imported ∨
    ∃ before f after old, u.order = before ++ f :: after ∧ f.name = n ∧
      u.FirstTakes t before f old

/-- Every file is applied at most once, and in the order of the kinds and of the names. -/
structure InOrder (u : UpdateFetcher γ) (imported : List String) : Prop where
  nodup : imported.Nodup
  order : ∃ released custom modules : List (LocaleFile γ),
    imported = (released ++ (custom ++ modules)).map LocaleFile.name ∧
    (∀ f ∈ released, f ∈ u.available.files ∧ (f.state = .released ∨ f.state = .archived)) ∧
    (∀ f ∈ custom, f ∈ u.available.files ∧ f.state = .custom) ∧
    (∀ f ∈ modules, f ∈ u.available.files ∧ f.state = .module) ∧
    ∀ files ∈ [released, custom, modules], files.Pairwise fun f g => f.name < g.name

/-- Only missing updates are deleted, all of them if there are not too many, and otherwise
none. -/
structure CleansMissing (u : UpdateFetcher γ) (t : AppliedFileStorage) (s : UpdateRun collate)
    [DecidableEq κ] : Prop where
  only : ∀ n, u.Deleted t s n → n ∈ u.missing t
  all : u.WithinLimit t → ∀ n ∈ u.missing t, u.Deleted t s n
  nothing : ¬ u.WithinLimit t → ∀ n, ¬ u.Deleted t s n

/-- A new file has a name with the key of `n`. -/
def Replaced (u : UpdateFetcher γ) (collate : String → κ) (t : AppliedFileStorage) (n : String) :
    Prop :=
  ∃ f ∈ u.available.files, t.lookup f.name = none ∧ collate f.name = collate n

/-- No file loses its row, no row of a module is replaced, and without the deletion the
missing updates are replaced exactly if they should be deleted. -/
structure CleansSafely (u : UpdateFetcher γ) (collate : String → κ) (t : AppliedFileStorage) :
    Prop where
  given : ∀ before f after, u.order = before ++ f :: after → u.GivenRow t before f →
    u.KeepsRow collate t before f after ∧
      (u.CleansUp t → collate f.name ∉ (u.missing t).map collate)
  modules : ∀ n ∈ u.leftover t, n ∉ u.missing t → ¬ u.Replaced collate t n
  missing : ¬ u.CleansUp t → ∀ n ∈ u.missing t, (u.Replaced collate t n ↔ u.WithinLimit t)

variable [DecidableEq κ] {u : UpdateFetcher γ} {t applied : AppliedFileStorage}
  {updates : UpdatesTable collate} {s : UpdateRun collate} {f g : LocaleFile γ}
  {before after : List (LocaleFile γ)} {applyFile : LocaleFile γ → Bool} {result : UpdateResult}
  {n : String}

/-! ## The order -/

omit [DecidableEq κ] in
theorem inOrder_filter (p : LocaleFile γ → Bool) :
    u.InOrder ((u.order.filter p).map LocaleFile.name) := by
  refine ⟨u.order_names_nodup.sublist (List.filter_sublist.map _), ?_⟩
  have hsorted (q : LocaleFile γ → Bool) :
      ((u.available.files.filter q).filter p).Pairwise fun f g => f.name < g.name :=
    (u.available.sorted.filter q).filter p
  refine ⟨_, _, _, by rw [order, List.filter_append, List.filter_append], ?_, ?_, ?_, ?_⟩
  · intro f hf
    simpa [and_assoc] using (List.mem_filter.mp (List.mem_filter.mp hf).1)
  · intro f hf
    simpa using (List.mem_filter.mp (List.mem_filter.mp hf).1)
  · intro f hf
    simpa using (List.mem_filter.mp (List.mem_filter.mp hf).1)
  · intro files hfiles
    simp only [List.mem_cons, List.not_mem_nil, or_false] at hfiles
    rcases hfiles with rfl | rfl | rfl
    · exact hsorted _
    · exact hsorted _
    · exact hsorted _

theorem inOrder_of_ok (h : u.update applyFile updates applied = .ok (s, result)) :
    u.InOrder s.imported := by
  rw [imported_of_ok h]
  exact inOrder_filter _

/-! ## The rows of no file -/

omit [DecidableEq κ] in
theorem mem_leftover :
    n ∈ u.leftover t ↔
      t.lookup n ≠ none ∧ n ∉ u.names ∧ ∀ f ∈ u.available.files, ¬ u.TakesRow t f n := by
  rw [leftover, List.mem_filter, decide_eq_true_eq, ne_eq, AList.lookup_eq_none, not_not,
    AList.mem_keys]
  simp only [ne_eq, action_eq_rename]

omit [DecidableEq κ] in
theorem missing_subset : u.missing t ⊆ u.leftover t := List.filter_subset_self _

section
variable (hrows : ∀ n, t.lookup n = updates.lookup n)
include hrows

/-- A row of no file that no file takes over is gone exactly if it is replaced. -/
theorem lookup_performAll_leftover (hn : n ∈ u.leftover t) :
    (u.performAll t u.order ⟨updates, t, []⟩).updates.lookup n = none ↔
      u.Replaced collate t n := by
  obtain ⟨hrow, hforeign, hkept⟩ := mem_leftover.mp hn
  have hclears (f : LocaleFile γ) (hf : f ∈ u.order) :
      u.Clears collate t f (collate n) ↔ t.lookup f.name = none ∧ collate f.name = collate n := by
    rw [mem_order] at hf
    obtain ⟨row, hrow⟩ := Option.ne_none_iff_exists'.mp hrow
    constructor
    · intro hclears
      have hne : n ≠ f.name := fun heq => hforeign (heq ▸ name_mem_names hf)
      refine ⟨hclears.new hrows hrow hne, ?_⟩
      rcases hclears.cases with hkey | ⟨old, htakes, hkey⟩
      · exact hkey
      · exact absurd (htakes.eq_of_collate_eq hrows hrow hkey ▸ htakes) (hkept f hf)
    · rintro ⟨hnew, hkey⟩
      rw [← hkey]
      exact clears_of_new hnew
  have hboth := lookup_performAll_foreign (u := u) hrows hforeign fun f hf => mem_order.mp hf
  constructor
  · intro hgone
    rcases hboth with ⟨-, hempty | ⟨f, hf, hclear⟩⟩ | ⟨hsame, -⟩
    · exact absurd ((hrows n).trans hempty) hrow
    · exact ⟨f, mem_order.mp hf, (hclears f hf).mp hclear⟩
    · exact absurd ((hrows n).trans (hsame.symm.trans hgone)) hrow
  · rintro ⟨f, hf, hreplaces⟩
    have hf := mem_order.mpr hf
    rcases hboth with ⟨hgone, -⟩ | ⟨-, hfree⟩
    · exact hgone
    · exact absurd ((hclears f hf).mpr hreplaces) (hfree f hf)

/-- In the end it is also gone if it is deleted as a missing update. -/
theorem lookup_cleanUp_leftover (hn : n ∈ u.leftover t) :
    (u.cleanUpDeadReferences (u.performAll t u.order ⟨updates, t, []⟩)).updates.lookup n = none ↔
      (u.CleansUp t ∧ n ∈ u.missing t) ∨ u.Replaced collate t n := by
  have hmem : collate n ∈ (u.missing t).map collate ↔ n ∈ u.missing t := by
    refine ⟨?_, List.mem_map_of_mem⟩
    intro hmem
    obtain ⟨m, hm, hkey⟩ := List.mem_map.mp hmem
    obtain ⟨row, hrow⟩ := Option.ne_none_iff_exists'.mp (mem_leftover.mp hn).1
    obtain ⟨row', hrow'⟩ :=
      Option.ne_none_iff_exists'.mp (mem_leftover.mp (missing_subset hm)).1
    rw [hrows] at hrow hrow'
    exact CollatedTable.eq_of_key_eq hrow' hrow hkey ▸ hm
  rw [lookup_cleanUp, ← lookup_performAll_leftover hrows hn, ← hmem]
  split
  · rename_i hclean
    exact ⟨fun _ => .inl hclean, fun _ => rfl⟩
  · rename_i hclean
    exact ⟨.inr, fun h => h.resolve_left hclean⟩

end

/-! ## The rows of the files -/

/-- If the files that are given a row have one in the end, the others never have. -/
theorem lookup_performAll_of_not_given
    (hgiven : ∀ before f after, u.order = before ++ f :: after → u.GivenRow t before f →
      (u.performAll t u.order ⟨updates, t, []⟩).updates.lookup f.name ≠ none)
    (horder : u.order = before ++ f :: after) (hnot : ¬ u.GivenRow t before f) :
    (u.performAll t (before ++ [f]) ⟨updates, t, []⟩).updates.lookup f.name = none := by
  -- by induction on the number of files before: such a file can only take the row of another
  induction hlength : before.length using Nat.strong_induction_on generalizing before f after with
  | _ length ih =>
    rw [GivenRow, not_or, not_or, not_not] at hnot
    obtain ⟨hnew, hkept, hfirst⟩ := hnot
    obtain ⟨old, htakes⟩ := (action_of_new hnew).resolve_left hkept
    obtain ⟨g, hg, htakes'⟩ : ∃ g ∈ before, u.TakesRow t g old := by
      by_contra hnone
      exact hfirst ⟨old, htakes, fun g hg htakes' => hnone ⟨g, hg, htakes'⟩⟩
    have hnames := u.order_names_nodup
    rw [horder] at hnames
    rw [performAll_append, performAll_cons, action_eq_rename.mpr htakes]
    change (u.perform f _ (.rename old)).updates.lookup f.name = none
    rw [lookup_perform_self]
    simp only [ite_eq_left_iff, Option.map_eq_none_iff]
    intro _
    by_contra hfind
    obtain ⟨row, hfind⟩ := Option.ne_none_iff_exists'.mp hfind
    obtain ⟨f', hf', hname⟩ := exists_of_find_of_clears hfind hg (clears_of_takesRow htakes')
    obtain ⟨before', mid, rfl⟩ := List.append_of_mem hf'
    have horder' : u.order = before' ++ f' :: (mid ++ f :: after) := by
      rw [horder]
      simp
    have hthere := CollatedTable.lookup_of_find hfind
    rw [← hname] at hthere
    by_cases hgiven' : u.GivenRow t before' f'
    · -- a file that was given a row loses it to `f`
      have hrow := hgiven before' f' _ horder' hgiven'
      rw [horder] at hrow
      refine not_clears_of_lookup_ne_none hnames hf' hrow ?_
      rw [hname, CollatedTable.key_of_find _ hfind]
      exact clears_of_takesRow htakes
    · have hnone := ih before'.length (by simp at hlength; omega) horder' hgiven' rfl
      have hnames' : f'.name ∉ mid.map LocaleFile.name := by
        rw [List.map_append, List.nodup_append'] at hnames
        exact (not_mem_names_of_split hnames.1).2
      rw [List.append_cons, performAll_append] at hthere
      exact ((lookup_performAll_ne_none_iff hnames').mp (by rw [hthere]; simp)).1 hnone

/-- **If the files that are given a row have one in the end, they keep it.** -/
theorem keepsRow_of_given
    (hgiven : ∀ before f after, u.order = before ++ f :: after → u.GivenRow t before f →
      (u.performAll t u.order ⟨updates, t, []⟩).updates.lookup f.name ≠ none)
    (horder : u.order = before ++ f :: after) (hf : u.GivenRow t before f) :
    u.KeepsRow collate t before f after := by
  have hnames := u.order_names_nodup
  have hrow := hgiven before f after horder hf
  rw [horder] at hnames hrow
  refine keepsRow_of_lookup_ne_none (s := ⟨updates, t, []⟩) hnames hrow ?_
  -- the row that is found for `f` is that of a file that was given one
  rintro old ⟨_, row⟩ - hfind g hg rfl
  obtain ⟨before', mid, rfl⟩ := List.append_of_mem hg
  have horder' : u.order = before' ++ g :: (mid ++ f :: after) := by
    rw [horder]
    simp
  rw [← horder]
  refine hgiven before' g _ horder' ?_
  by_contra hnot
  have hnone := lookup_performAll_of_not_given hgiven horder' hnot
  have hmid : g.name ∉ mid.map LocaleFile.name := by
    rw [List.map_append, List.nodup_append'] at hnames
    exact (not_mem_names_of_split hnames.1).2
  have hthere := CollatedTable.lookup_of_find hfind
  rw [List.append_cons, performAll_append] at hthere
  exact ((lookup_performAll_ne_none_iff hmid).mp (by rw [hthere]; simp)).1 hnone

/-! ## The rows that are deleted -/

/-- A file that is given a row, and has none in the end, is one whose row was deleted. -/
theorem deleted_of_given (h : u.update applyFile updates t = .ok (s, result))
    (horder : u.order = before ++ f :: after) (hf : u.GivenRow t before f)
    (hgone : s.updates.lookup f.name = none) : u.Deleted t s f.name := by
  have hmem : f ∈ u.available.files := mem_order.mp (horder ▸ by simp)
  refine ⟨hgone, ?_⟩
  rcases hf with hrow | haction | ⟨old, hfirst⟩
  · exact .inl ⟨hrow, fun g _ htakes => htakes.orphan (name_mem_names hmem)⟩
  · refine .inr (.inl ?_)
    rw [imported_of_ok h]
    refine List.mem_map_of_mem (List.mem_filter.mpr ⟨mem_order.mpr hmem, ?_⟩)
    exact decide_eq_true haction
  · exact .inr (.inr ⟨before, f, after, old, horder, rfl, hfirst⟩)

/-- A row that is deleted is that of such a file, or of no file. -/
theorem Deleted.cases (h : u.update applyFile updates t = .ok (s, result))
    (hdeleted : u.Deleted t s n) :
    (∃ before f after, u.order = before ++ f :: after ∧ u.GivenRow t before f ∧ f.name = n) ∨
      n ∈ u.leftover t := by
  have hfile {f : LocaleFile γ} (hf : f ∈ u.available.files) :
      ∃ before after, u.order = before ++ f :: after :=
    List.append_of_mem (mem_order.mpr hf)
  rcases hdeleted.was with
    ⟨hrow, hkept⟩ | himported | ⟨before, f, after, old, horder, hname, hfirst⟩
  · by_cases hn : n ∈ u.names
    · obtain ⟨f, hf, rfl⟩ := List.mem_map.mp hn
      obtain ⟨before, after, horder⟩ := hfile hf
      exact .inl ⟨before, f, after, horder, .inl hrow, rfl⟩
    · exact .inr (mem_leftover.mpr ⟨hrow, hn, hkept⟩)
  · rw [imported_of_ok h] at himported
    obtain ⟨f, hf, rfl⟩ := List.mem_map.mp himported
    rw [List.mem_filter, decide_eq_true_eq] at hf
    obtain ⟨before, after, horder⟩ := hfile (mem_order.mp hf.1)
    exact .inl ⟨before, f, after, horder, .inr (.inl hf.2), rfl⟩
  · exact .inl ⟨before, f, after, horder, .inr (.inr ⟨old, hfirst⟩), hname⟩

section
variable (hrows : ∀ n, applied.lookup n = updates.lookup n)
  (h : u.update applyFile updates applied = .ok (s, result))
include hrows h

theorem lookup_leftover_of_ok (hn : n ∈ u.leftover applied) :
    s.updates.lookup n = none ↔
      (u.CleansUp applied ∧ n ∈ u.missing applied) ∨ u.Replaced collate applied n := by
  rw [(completes_of_ok h).2]
  exact lookup_cleanUp_leftover hrows hn

theorem deleted_missing_iff (hn : n ∈ u.missing applied) :
    u.Deleted applied s n ↔ u.CleansUp applied ∨ u.Replaced collate applied n := by
  have hgone := lookup_leftover_of_ok hrows h (missing_subset hn)
  obtain ⟨hrow, -, hkept⟩ := mem_leftover.mp (missing_subset hn)
  constructor
  · intro hdeleted
    exact (hgone.mp hdeleted.gone).imp_left And.left
  · intro hwhy
    exact ⟨hgone.mpr (hwhy.imp_left fun hclean => ⟨hclean, hn⟩), .inl ⟨hrow, hkept⟩⟩

theorem CleansMissing.cleansSafely (hclean : u.CleansMissing applied s) :
    u.CleansSafely collate applied := by
  -- a file that is given a row has it in the end
  have hthere : ∀ before f after, u.order = before ++ f :: after → u.GivenRow applied before f →
      ¬ (u.CleansUp applied ∧ collate f.name ∈ (u.missing applied).map collate) ∧
        (u.performAll applied u.order ⟨updates, applied, []⟩).updates.lookup f.name ≠ none := by
    intro before f after horder hf
    have hrow : s.updates.lookup f.name ≠ none := by
      intro hnone
      have hmem := hclean.only _ (deleted_of_given h horder hf hnone)
      refine (mem_leftover.mp (missing_subset hmem)).2.1 (name_mem_names ?_)
      exact mem_order.mp (horder ▸ by simp)
    rw [(completes_of_ok h).2, lookup_cleanUp] at hrow
    split at hrow
    · exact absurd rfl hrow
    · rename_i hkept
      exact ⟨hkept, hrow⟩
  refine ⟨?_, ?_, ?_⟩
  · intro before f after horder hf
    exact ⟨keepsRow_of_given (fun before f after horder hf =>
      (hthere before f after horder hf).2) horder hf,
      fun hcleans hmem => (hthere before f after horder hf).1 ⟨hcleans, hmem⟩⟩
  · intro n hn hnot hreplaced
    obtain ⟨hrow, -, hkept⟩ := mem_leftover.mp hn
    have hgone := (lookup_leftover_of_ok hrows h hn).mpr (.inr hreplaced)
    exact hnot (hclean.only n ⟨hgone, .inl ⟨hrow, hkept⟩⟩)
  · intro hcleans n hn
    have hdeleted := deleted_missing_iff hrows h hn
    constructor
    · intro hreplaced
      by_contra hmany
      exact hclean.nothing hmany n (hdeleted.mpr (.inr hreplaced))
    · intro hfew
      exact (hdeleted.mp (hclean.all hfew n hn)).resolve_left hcleans

theorem CleansSafely.mem_missing (hsafe : u.CleansSafely collate applied)
    (hdeleted : u.Deleted applied s n) : n ∈ u.missing applied := by
  rcases hdeleted.cases h with ⟨before, f, after, horder, hf, rfl⟩ | hn
  · obtain ⟨hkeeps, hcleans⟩ := hsafe.given before f after horder hf
    have hnames := u.order_names_nodup
    rw [horder] at hnames
    obtain ⟨row, hrow, -⟩ := hkeeps.settled hrows hnames
    have hnone := hdeleted.gone
    rw [(completes_of_ok h).2, lookup_cleanUp, if_neg fun hclean => hcleans hclean.1 hclean.2,
      horder, hrow] at hnone
    cases hnone
  · by_contra hnot
    refine hsafe.modules n hn hnot ?_
    exact ((lookup_leftover_of_ok hrows h hn).mp hdeleted.gone).resolve_left fun hclean =>
      hnot hclean.2

theorem CleansSafely.cleansMissing (hsafe : u.CleansSafely collate applied) :
    u.CleansMissing applied s := by
  have hlimit : u.CleansUp applied → u.WithinLimit applied := fun hclean =>
    hclean.2.imp_right (List.length_filter_le _ _).trans
  refine ⟨fun n hdeleted => hsafe.mem_missing hrows h hdeleted, ?_, ?_⟩
  · intro hfew n hn
    rw [deleted_missing_iff hrows h hn, or_iff_not_imp_left]
    exact fun hcleans => (hsafe.missing hcleans n hn).mpr hfew
  · intro hmany n hdeleted
    have hn := hsafe.mem_missing hrows h hdeleted
    have hcleans : ¬ u.CleansUp applied := fun hclean => hmany (hlimit hclean)
    have hreplaced := ((deleted_missing_iff hrows h hn).mp hdeleted).resolve_left hcleans
    exact hmany ((hsafe.missing hcleans n hn).mp hreplaced)

end

/-- **A run applies the files in order and deletes the missing updates and nothing else exactly if
it cleans up safely.** -/
theorem update_inOrder_cleansMissing_iff (hperm : applied.entries.Perm updates.byName.entries)
    (h : u.update applyFile updates applied = .ok (s, result)) :
    u.InOrder s.imported ∧ u.CleansMissing applied s ↔ u.CleansSafely collate applied := by
  have hrows : ∀ n, applied.lookup n = updates.lookup n := fun n =>
    (AList.perm_lookup hperm).trans (CollatedTable.lookup_byName updates n)
  constructor
  · rintro ⟨-, hclean⟩
    exact hclean.cleansSafely hrows h
  · intro hsafe
    exact ⟨inOrder_of_ok h, hsafe.cleansMissing hrows h⟩

omit [DecidableEq κ] in
/-- **If the table tells all names apart, this is a matter of the limit**: there are no missing
updates, or no limit is exceeded by counting the rows of modules with them. -/
theorem cleansSafely_iff_of_apart (hset : u.setDirectories = false)
    (hapart : u.Apart collate t) :
    u.CleansSafely collate t ↔
      u.missing t = [] ∨ u.cleanDeadReferencesMaxCount < 0 ∨
        u.cleanDeadReferencesMaxCount.toNat < (u.missing t).length ∨
        (u.leftover t).length ≤ u.cleanDeadReferencesMaxCount.toNat := by
  have hkey {f : LocaleFile γ} (hf : f ∈ u.available.files) {n : String}
      (hn : n ∈ u.leftover t) : collate f.name ≠ collate n := by
    intro heq
    obtain ⟨hrow, hforeign, -⟩ := mem_leftover.mp hn
    have hkeys : n ∈ t.keys := by
      rwa [ne_eq, AList.lookup_eq_none, not_not] at hrow
    have hname := hapart _ (List.mem_append_left _ (name_mem_names hf)) _
      (List.mem_append_right _ hkeys) heq
    exact hforeign (hname ▸ name_mem_names hf)
  have hreplaced {n : String} (hn : n ∈ u.leftover t) : ¬ u.Replaced collate t n := by
    rintro ⟨f, hf, -, heq⟩
    exact hkey hf hn heq
  have hgiven : ∀ before f after, u.order = before ++ f :: after → u.GivenRow t before f →
      u.KeepsRow collate t before f after ∧
        (u.CleansUp t → collate f.name ∉ (u.missing t).map collate) := by
    intro before f after horder hf
    have hmem : ∀ g ∈ before ++ f :: after, g ∈ u.available.files := fun g hg =>
      mem_order.mp (horder ▸ hg)
    have hnames := u.order_names_nodup
    rw [horder] at hnames
    refine ⟨keepsRow_of_apart hapart hmem hnames ?_, ?_⟩
    · intro old htakes
      rcases hf with hrow | haction | ⟨old', htakes', hfirst⟩
      · exact absurd htakes.new hrow
      · rw [action_eq_rename.mpr htakes] at haction
        cases haction
      · rwa [htakes'.unique htakes]
    · intro _ hmem'
      obtain ⟨n, hn, heq⟩ := List.mem_map.mp hmem'
      exact hkey (hmem f (by simp)) (missing_subset hn) heq.symm
  have hsafe : u.CleansSafely collate t ↔
      (¬ u.CleansUp t → ∀ n ∈ u.missing t, ¬ u.WithinLimit t) := by
    constructor
    · intro h hcleans n hn hfew
      exact hreplaced (missing_subset hn) ((h.missing hcleans n hn).mpr hfew)
    · intro h
      refine ⟨hgiven, fun n hn _ => hreplaced hn, ?_⟩
      intro hcleans n hn
      exact iff_of_false (hreplaced (missing_subset hn)) (h hcleans n hn)
  rw [hsafe, CleansUp, WithinLimit]
  simp only [hset, true_and, not_or, not_lt, not_le]
  constructor
  · intro h
    by_cases hempty : u.missing t = []
    · exact .inl hempty
    obtain ⟨n, hn⟩ := List.exists_mem_of_ne_nil _ hempty
    by_cases hnegative : u.cleanDeadReferencesMaxCount < 0
    · exact .inr (.inl hnegative)
    by_cases hfew : (u.leftover t).length ≤ u.cleanDeadReferencesMaxCount.toNat
    · exact .inr (.inr (.inr hfew))
    exact .inr (.inr (.inl (h ⟨not_lt.mp hnegative, not_le.mp hfew⟩ n hn).2))
  · rintro hcondition ⟨hnegative, hmany⟩ n hn
    rcases hcondition with hempty | hnegative' | hmissing | hfew
    · rw [hempty] at hn
      cases hn
    · omega
    · exact ⟨hnegative, hmissing⟩
    · omega

/-! ## Examples -/

/-- A release and a module whose files are no longer there. -/
def staleUpdates : UpdatesTable ignoreCase :=
  UpdatesTable.updateEntry
    (sampleUpdates "old.sql" "B3BFA0DB4249DB876E4D12807F6D6748400A5F59") "mod.sql"
    ⟨"77DE68DAECD823BABBB58EDB1C8E14D7106E83BB", .module⟩

/-- One file, and a limit. -/
def limitedFetcher (max : ℤ) : UpdateFetcher String :=
  { sampleFetcher oneFile with cleanDeadReferencesMaxCount := max }

theorem update_inOrder_cleansMissing_two :
    ∃ s result, (limitedFetcher 2).update (fun _ => true) staleUpdates staleUpdates.byName =
        .ok (s, result) ∧
      (limitedFetcher 2).InOrder s.imported ∧
      (limitedFetcher 2).CleansMissing staleUpdates.byName s := by
  have hrun : (limitedFetcher 2).update (fun _ => true) staleUpdates staleUpdates.byName =
    .ok (_, _) := rfl
  refine ⟨_, _, hrun, (update_inOrder_cleansMissing_iff (List.Perm.refl _) hrun).mpr ?_⟩
  refine (cleansSafely_iff_of_apart rfl (by decide)).mpr (.inr (.inr (.inr ?_)))
  decide +kernel

/-- There is one missing update and one is allowed, but with the row of the module there are two
rows left, and it is not deleted.  And the row of a file that was applied is deleted with a
missing update. -/
theorem not_cleansMissing_one :
    (∃ s result, (limitedFetcher 1).update (fun _ => true) staleUpdates staleUpdates.byName =
        .ok (s, result) ∧
      (limitedFetcher 1).missing staleUpdates.byName = ["old.sql"] ∧
      ¬ ((limitedFetcher 1).InOrder s.imported ∧
        (limitedFetcher 1).CleansMissing staleUpdates.byName s)) ∧
    ∃ s result, (limitedFetcher 1).update (fun _ => true) (sampleUpdates "A.sql" "")
        (sampleUpdates "A.sql" "").byName = .ok (s, result) ∧
      s.imported = ["a.sql"] ∧
      ¬ ((limitedFetcher 1).InOrder s.imported ∧
        (limitedFetcher 1).CleansMissing (sampleUpdates "A.sql" "").byName s) := by
  have hmissing : (limitedFetcher 1).missing staleUpdates.byName = ["old.sql"] := by
    decide +kernel
  refine ⟨⟨_, _, rfl, hmissing, ?_⟩, _, _, rfl, rfl, ?_⟩
  · rintro ⟨-, hclean⟩
    have hlimit : (limitedFetcher 1).WithinLimit staleUpdates.byName := by
      rw [WithinLimit, hmissing]
      exact .inr (by decide)
    have hgone := (hclean.all hlimit "old.sql" (by rw [hmissing]; exact List.mem_cons_self)).gone
    cases hgone
  · rintro ⟨-, hclean⟩
    have hdeleted := hclean.only "a.sql" ⟨rfl, .inr (.inl List.mem_cons_self)⟩
    exact (mem_missing.mp hdeleted).1 (by decide)

end WarheadDiscord.UpdateFetcher
