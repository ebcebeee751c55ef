import WarheadDiscord.Updater.Idempotence

/-!
# Resuming an interrupted update

If a file cannot be applied, `Update` is left with an exception, and the table stays as
it is then: some rows are renamed, rewritten or new.  The next run makes its decisions
from this table.

The files that the first run is done with have rows that settle them, if these rows are
still there.  About the others the second run decides as the first run would have done, if
their rows are untouched: when no two files and no two rows have the same hash, the index
leads a file to a row of no file after the first run exactly if it did before.

Both can fail, since the table compares names by its collation.  A file whose name has the
key of the row that it is to take over deletes this row, and has none when the run is
interrupted; a run that is not interrupted would not have applied it.  A file also loses
its row to a later one whose name has the same key.  Only a row of no file with the hash
of the file, which the second run finds instead (`FindsRow`), makes up for that.

## Main definitions

* `DistinctHashes` — no two rows have the same hash, unless they have none.
* `FindsRow` — what the index leads a file without a row to after an interrupted run.
* `Resumable` — when the second run decides as one run would have done.
-/

namespace WarheadDiscord.UpdateFetcher
variable {γ κ : Type} {collate : String → κ}

/-- No two rows have the same hash, unless they have none. -/
def DistinctHashes (t : AppliedFileStorage) : Prop :=
  ∀ n n' row row', t.lookup n = some row → t.lookup n' = some row' → row.hash = row'.hash →
    row.hash ≠ "" → n = n'

/-- No two files have the same hash, and the hash of a file is not empty. -/
structure DistinctFiles (u : UpdateFetcher γ) : Prop where
  eq_of_sha1 : ∀ f ∈ u.available.files, ∀ g ∈ u.available.files,
    u.sha1 f.content = u.sha1 g.content → f = g
  sha1_ne : ∀ f ∈ u.available.files, u.sha1 f.content ≠ ""

/-- There is a row of no file with the hash of `f`, and no file that the run is done with
clears its key. -/
def FindsRow (u : UpdateFetcher γ) (collate : String → κ) (t : AppliedFileStorage)
    (done : List (LocaleFile γ)) (f : LocaleFile γ) : Prop :=
  ∃ n row, n ∉ u.names ∧ t.lookup n = some row ∧ row.hash = u.sha1 f.content ∧
    ∀ g ∈ done, ¬ u.Clears collate t g (collate n)

/-- With the rows `t` at the start, a run that was interrupted after the files `done` leaves
a table from which the next run goes on. -/
structure Resumable (u : UpdateFetcher γ) (collate : String → κ) (t : AppliedFileStorage)
    (done : List (LocaleFile γ)) : Prop where
  reached : ∀ before f after, done = before ++ f :: after →
    u.KeepsRow collate t before f after ∨ u.FindsRow collate t done f
  pending : ∀ f ∈ u.available.files, f ∉ done →
    (t.lookup f.name ≠ none ∧ ∀ g ∈ done, ¬ u.Clears collate t g (collate f.name)) ∨
      (u.action t f = .apply ↔ ¬ u.FindsRow collate t done f)

variable [DecidableEq κ] {u : UpdateFetcher γ} {t t' : AppliedFileStorage}
  {s : UpdateRun collate} {updates : UpdatesTable collate} {f g : LocaleFile γ} {old n : String}
  {row : AppliedFileEntry} {applyFile : LocaleFile γ → Bool}
  {before after done rest : List (LocaleFile γ)}

/-! ## Hashes -/

omit [DecidableEq κ] in
theorem DistinctHashes.hashToName_eq (h : DistinctHashes t)
    (hrow : t.lookup old = some row) (hne : row.hash ≠ "") : t.hashToName row.hash = some old := by
  obtain ⟨n, hn⟩ := AppliedFileStorage.hashToName_isSome hrow
  obtain ⟨row', hrow', hhash⟩ := AppliedFileStorage.lookup_of_hashToName hn
  rw [hn, h n old row' row hrow' hrow hhash (by rw [hhash]; exact hne)]

omit [DecidableEq κ] in
theorem DistinctHashes.congr (hhashes : DistinctHashes t) (h : ∀ n, t'.lookup n = t.lookup n) :
    DistinctHashes t' := by
  intro n n' row row'
  rw [h, h]
  exact hhashes n n' row row'

omit [DecidableEq κ] in
/-- With distinct hashes, the order of the copy says nothing. -/
theorem action_eq_of_distinctHashes (hhashes : DistinctHashes t)
    (hne : u.sha1 f.content ≠ "") (h : ∀ n, t'.lookup n = t.lookup n) :
    u.action t' f = u.action t f := by
  have hindex : t'.hashToName (u.sha1 f.content) = t.hashToName (u.sha1 f.content) := by
    cases hn : t.hashToName (u.sha1 f.content) with
    | some n =>
        obtain ⟨row, hrow, hhash⟩ := AppliedFileStorage.lookup_of_hashToName hn
        rw [← h] at hrow
        rw [← hhash] at hne ⊢
        exact (hhashes.congr h).hashToName_eq hrow hne
    | none =>
        by_contra hsome
        obtain ⟨n, hn'⟩ := Option.ne_none_iff_exists'.mp hsome
        obtain ⟨row, hrow, hhash⟩ := AppliedFileStorage.lookup_of_hashToName hn'
        rw [h] at hrow
        obtain ⟨m, hm⟩ := AppliedFileStorage.hashToName_isSome hrow
        rw [hhash, hn] at hm
        cases hm
  simp only [action, h, hindex]

omit [DecidableEq κ] in
/-- A file without a row takes over every row of no file with its hash. -/
theorem DistinctHashes.takesRow (h : DistinctHashes t) (hne : u.sha1 f.content ≠ "")
    (hnew : t.lookup f.name = none) (hn : n ∉ u.names) (hrow : t.lookup n = some row)
    (hhash : row.hash = u.sha1 f.content) : u.TakesRow t f n := by
  refine ⟨hnew, ?_, hn⟩
  rw [← hhash] at hne ⊢
  exact h.hashToName_eq hrow hne

/-- The row of a file that no other has interfered with has the hash that it had, or that of
the file. -/
theorem hash_lookup_performAll (hrows : ∀ n, t.lookup n = updates.lookup n)
    (hnames : ((before ++ f :: after).map LocaleFile.name).Nodup)
    (htaken : ∀ old, u.TakesRow t f old → ∀ g ∈ before, ¬ u.Clears collate t g (collate old))
    (hrow : (u.performAll t (before ++ f :: after) ⟨updates, t, []⟩).updates.lookup f.name =
      some row) :
    row.hash = u.sha1 f.content ∨ ∃ row', t.lookup f.name = some row' ∧ row'.hash = row.hash := by
  obtain ⟨hbefore, hafter⟩ := not_mem_names_of_split hnames
  rw [performAll_append, performAll_cons] at hrow
  -- it is as it was when the turn of the file was over
  obtain ⟨hturn, hlater⟩ :=
    (lookup_performAll_ne_none_iff hafter).mp (Option.ne_none_iff_exists'.mpr ⟨row, hrow⟩)
  obtain ⟨row₀, hrow₀⟩ := Option.ne_none_iff_exists'.mp hturn
  obtain ⟨row', hrow', hhash⟩ := lookup_performAll_of_not_clears hrow₀ hlater
  obtain rfl : row' = row := Option.some.inj (hrow'.symm.trans hrow)
  rw [hhash]
  have hown {row₁ : AppliedFileEntry}
      (hrow₁ : (u.performAll t before ⟨updates, t, []⟩).updates.lookup f.name = some row₁) :
      ∃ row', t.lookup f.name = some row' ∧ row'.hash = row₁.hash := by
    obtain ⟨hold, hearlier⟩ :=
      (lookup_performAll_ne_none_iff hbefore).mp (Option.ne_none_iff_exists'.mpr ⟨row₁, hrow₁⟩)
    obtain ⟨row₂, hrow₂⟩ := Option.ne_none_iff_exists'.mp hold
    obtain ⟨row₃, hrow₃, hhash₃⟩ :=
      lookup_performAll_of_not_clears (s := ⟨updates, t, []⟩) hrow₂ hearlier
    obtain rfl : row₃ = row₁ := Option.some.inj (hrow₃.symm.trans hrow₁)
    exact ⟨row₂, (hrows _).trans hrow₂, hhash₃.symm⟩
  rw [lookup_perform_self] at hrow₀
  cases haction : u.action t f with
  | skip =>
      rw [haction] at hrow₀
      exact .inr (hown hrow₀)
  | updateState =>
      rw [haction] at hrow₀
      obtain ⟨row₁, hrow₁, rfl⟩ := Option.map_eq_some_iff.mp hrow₀
      obtain ⟨row', hrow', hhash'⟩ := hown hrow₁
      exact .inr ⟨row', hrow', hhash'⟩
  | rehash =>
      rw [haction] at hrow₀
      cases hrow₀
      exact .inl rfl
  | apply =>
      rw [haction] at hrow₀
      cases hrow₀
      exact .inl rfl
  | rename old =>
      have htakes := action_eq_rename.mp haction
      obtain ⟨row₁, hrow₁, hhash₁⟩ := AppliedFileStorage.lookup_of_hashToName htakes.index
      rw [hrows] at hrow₁
      obtain ⟨row₂, hrow₂, hhash₂⟩ :=
        lookup_performAll_of_not_clears (s := ⟨updates, t, []⟩) hrow₁ (htaken old htakes)
      rw [CollatedTable.lookup_eq_some] at hrow₂
      rw [haction] at hrow₀
      simp only [hrow₂, Option.map_some, Option.ite_none_left_eq_some] at hrow₀
      obtain ⟨-, hrow₀⟩ := hrow₀
      cases hrow₀
      exact .inl (hhash₂.trans hhash₁)

/-! ## The rows after an interrupted run -/

/-- A run with the rows `t` was done with the files `done` when it was interrupted, and the
next run reads the rows `t'`. -/
structure Interrupted (u : UpdateFetcher γ) (t : AppliedFileStorage)
    (updates : UpdatesTable collate) (done : List (LocaleFile γ)) (t' : AppliedFileStorage) :
    Prop where
  distinctFiles : u.DistinctFiles
  distinctHashes : DistinctHashes t
  mem_files : ∀ g ∈ done, g ∈ u.available.files
  nodup : (done.map LocaleFile.name).Nodup
  rows : ∀ n, t.lookup n = updates.lookup n
  rows' : ∀ n, t'.lookup n = (u.performAll t done ⟨updates, t, []⟩).updates.lookup n

namespace Interrupted
variable (h : u.Interrupted t updates done t')
include h

theorem not_mem_names (hf : f ∈ u.available.files) (hnew : f ∉ done) :
    f.name ∉ done.map LocaleFile.name := by
  intro hmem
  obtain ⟨g, hg, hname⟩ := List.mem_map.mp hmem
  exact hnew (eq_of_name_eq (h.mem_files g hg) hf hname ▸ hg)

/-- The rows of no file are those that were not cleared. -/
theorem lookup_foreign (hn : n ∉ u.names) :
    t'.lookup n = some row ↔
      t.lookup n = some row ∧ ∀ g ∈ done, ¬ u.Clears collate t g (collate n) := by
  rw [h.rows', h.rows]
  rcases lookup_performAll_foreign h.rows hn h.mem_files with ⟨hgone, hwhy⟩ | ⟨hsame, hfree⟩
  · rw [hgone]
    constructor
    · intro hrow
      cases hrow
    · rintro ⟨hrow, hfree⟩
      rcases hwhy with hempty | ⟨g, hg, hclears⟩
      · rw [hempty] at hrow
        cases hrow
      · exact absurd hclears (hfree g hg)
  · rw [hsame]
    exact ⟨fun hrow => ⟨hrow, hfree⟩, And.left⟩

theorem pending_ne_none_iff (hf : f ∈ u.available.files) (hnew : f ∉ done) :
    t'.lookup f.name ≠ none ↔
      t.lookup f.name ≠ none ∧ ∀ g ∈ done, ¬ u.Clears collate t g (collate f.name) := by
  rw [h.rows', lookup_performAll_ne_none_iff (h.not_mem_names hf hnew), ← h.rows]

theorem pending_eq (hf : f ∈ u.available.files) (hnew : f ∉ done)
    (hrow : t'.lookup f.name ≠ none) : t'.lookup f.name = t.lookup f.name := by
  obtain ⟨hold, hfree⟩ := (h.pending_ne_none_iff hf hnew).mp hrow
  rw [h.rows', lookup_performAll_of_old h.rows hold (h.not_mem_names hf hnew) hfree, h.rows]

/-- A row that a file is led to is one that it finds. -/
theorem findsRow (htakes : u.TakesRow t' f n) : u.FindsRow collate t done f := by
  obtain ⟨row, hrow, hhash⟩ := AppliedFileStorage.lookup_of_hashToName htakes.index
  obtain ⟨hrow, hfree⟩ := (h.lookup_foreign htakes.orphan).mp hrow
  exact ⟨n, row, htakes.orphan, hrow, hhash, hfree⟩

/-- **A file without a row is led to a row of no file if it finds one**, as the rows of the
files have other hashes. -/
theorem takesRow_of_findsRow
    (hreached : ∀ before g after, done = before ++ g :: after →
      u.KeepsRow collate t before g after ∨ u.FindsRow collate t done g)
    (hf : f ∈ u.available.files) (hempty : t'.lookup f.name = none)
    (hfinds : u.FindsRow collate t done f) : ∃ n, u.TakesRow t' f n := by
  obtain ⟨m, row, hm, hrow, hhash, hfree⟩ := hfinds
  have hne := h.distinctFiles.sha1_ne f hf
  have hrow' := (h.lookup_foreign hm).mpr ⟨hrow, hfree⟩
  obtain ⟨n, hn⟩ := AppliedFileStorage.hashToName_isSome hrow'
  rw [hhash] at hn
  refine ⟨n, hempty, hn, ?_⟩
  intro hmem
  obtain ⟨g, hg, rfl⟩ := List.mem_map.mp hmem
  obtain ⟨row₁, hrow₁, hhash₁⟩ := AppliedFileStorage.lookup_of_hashToName hn
  -- the row of `g` at the start cannot have this hash, which is that of the row `m`
  have hother {row₀ : AppliedFileEntry} (hrow₀ : t.lookup g.name = some row₀)
      (heq : row₀.hash = u.sha1 f.content) : False := by
    have hname := h.distinctHashes g.name m row₀ row hrow₀ hrow (heq.trans hhash.symm)
      (by rw [heq]; exact hne)
    exact hm (hname ▸ name_mem_names hg)
  by_cases hdone : g ∈ done
  · obtain ⟨before, after, rfl⟩ := List.append_of_mem hdone
    have htaken : ∀ old, u.TakesRow t g old →
        ∀ g' ∈ before, ¬ u.Clears collate t g' (collate old) := by
      intro old htakes
      rcases hreached before g after rfl with hkeeps | ⟨m', row', hm', hrow', hhash', hfree'⟩
      · exact (hkeeps.taken old htakes).2
      · -- the row that `g` finds would be the one that it has taken
        have htakes' := h.distinctHashes.takesRow (h.distinctFiles.sha1_ne g hg) htakes.new hm'
          hrow' hhash'
        exact absurd (clears_of_takesRow htakes') (hfree' g hdone)
    rw [h.rows'] at hrow₁
    rcases hash_lookup_performAll h.rows h.nodup htaken hrow₁ with hown | ⟨row₀, hrow₀, hsame⟩
    · obtain rfl := h.distinctFiles.eq_of_sha1 g hg f hf (hown.symm.trans hhash₁)
      rw [h.rows', hrow₁] at hempty
      cases hempty
    · exact hother hrow₀ (hsame.trans hhash₁)
  · rw [h.pending_eq hg hdone (by rw [hrow₁]; exact Option.some_ne_none row₁)] at hrow₁
    exact hother hrow₁ hhash₁

/-- A file without a row is applied exactly if it finds none. -/
theorem action_eq_apply_iff_of_empty
    (hreached : ∀ before g after, done = before ++ g :: after →
      u.KeepsRow collate t before g after ∨ u.FindsRow collate t done g)
    (hf : f ∈ u.available.files) (hempty : t'.lookup f.name = none) :
    u.action t' f = .apply ↔ ¬ u.FindsRow collate t done f := by
  constructor
  · intro haction hfinds
    obtain ⟨n, htakes⟩ := h.takesRow_of_findsRow hreached hf hempty hfinds
    rw [action_eq_rename.mpr htakes] at haction
    cases haction
  · intro hnone
    exact action_eq_apply_of_new hempty fun n htakes => hnone (h.findsRow htakes)

/-! ## The decisions of the next run -/

/-- **From such a table, no file is applied again, and the others as before.** -/
theorem action_of_resumable (hresumable : u.Resumable collate t done) :
    (∀ f ∈ done, u.action t' f ≠ .apply) ∧
      ∀ f ∈ u.available.files, f ∉ done → (u.action t' f = .apply ↔ u.action t f = .apply) := by
  constructor
  · intro f hdone
    have hf := h.mem_files f hdone
    by_cases hempty : t'.lookup f.name = none
    · rw [ne_eq, h.action_eq_apply_iff_of_empty hresumable.reached hf hempty, not_not]
      obtain ⟨before, after, rfl⟩ := List.append_of_mem hdone
      refine (hresumable.reached before f after rfl).resolve_left ?_
      intro hkeeps
      obtain ⟨row, hrow, -⟩ := hkeeps.settled h.rows h.nodup
      rw [h.rows', hrow] at hempty
      cases hempty
    · obtain ⟨before, after, rfl⟩ := List.append_of_mem hdone
      have hkeeps : u.KeepsRow collate t before f after := by
        rcases hresumable.reached before f after rfl with hkeeps | ⟨m, row, hm, hrow, hhash, hfree⟩
        · exact hkeeps
        · -- it has not taken the row that it finds
          rw [h.rows'] at hempty
          refine keepsRow_of_lookup_ne_none h.nodup hempty ?_
          intro old _ htakes
          have htakes' := h.distinctHashes.takesRow (h.distinctFiles.sha1_ne f hf) htakes.new hm
            hrow hhash
          exact absurd (clears_of_takesRow htakes') (hfree f hdone)
      obtain ⟨row, hrow, hsettled⟩ := hkeeps.settled h.rows h.nodup
      exact action_ne_apply_of_settled ((h.rows' _).trans hrow) hsettled
  · intro f hf hnew
    by_cases hempty : t'.lookup f.name = none
    · rw [h.action_eq_apply_iff_of_empty hresumable.reached hf hempty]
      refine ((hresumable.pending f hf hnew).resolve_left ?_).symm
      exact fun hthere => (h.pending_ne_none_iff hf hnew).mpr hthere hempty
    · rw [action_eq_of_lookup (h.pending_eq hf hnew hempty)
        ((h.pending_ne_none_iff hf hnew).mp hempty).1]

/-- A new file that the first run is done with has its row, or is applied. -/
theorem lookup_ne_none_of_new (hdone : f ∈ done) (hnew : t.lookup f.name = none)
    (haction : u.action t' f ≠ .apply) : t'.lookup f.name ≠ none := by
  intro hempty
  refine haction (action_eq_apply_of_new hempty ?_)
  intro n htakes
  obtain ⟨m, row, hm, hrow, hhash, hfree⟩ := h.findsRow htakes
  have hne := h.distinctFiles.sha1_ne f (h.mem_files f hdone)
  have htakes' := h.distinctHashes.takesRow hne hnew hm hrow hhash
  exact hfree f hdone (clears_of_takesRow htakes')

/-- And only such a table leads to these decisions. -/
theorem resumable_of_action (hdone : ∀ f ∈ done, u.action t' f ≠ .apply)
    (hrest : ∀ f ∈ u.available.files, f ∉ done →
      (u.action t' f = .apply ↔ u.action t f = .apply)) : u.Resumable collate t done := by
  have hreached : ∀ before f after, done = before ++ f :: after →
      u.KeepsRow collate t before f after ∨ u.FindsRow collate t done f := by
    rintro before f after rfl
    have hmem : f ∈ before ++ f :: after := by simp
    by_cases hempty : t'.lookup f.name = none
    · right
      by_contra hnone
      exact hdone f hmem (action_eq_apply_of_new hempty fun n htakes => hnone (h.findsRow htakes))
    · left
      rw [h.rows'] at hempty
      refine keepsRow_of_lookup_ne_none h.nodup hempty ?_
      -- a file with the key of the row that `f` takes over is new
      rintro old ⟨_, row⟩ htakes hfind g hg rfl
      have hg' : g ∈ before ++ f :: after := List.mem_append_left _ hg
      rw [← h.rows']
      refine h.lookup_ne_none_of_new hg' ?_ (hdone g hg')
      by_contra hold
      obtain ⟨row₀, hrow₀, -⟩ := AppliedFileStorage.lookup_of_hashToName htakes.index
      refine htakes.ne (h.mem_files g hg') (name_eq_of_collate_eq h.rows hrow₀ hold ?_)
      exact CollatedTable.key_of_find _ hfind
  refine ⟨hreached, ?_⟩
  intro f hf hnew
  by_cases hempty : t'.lookup f.name = none
  · exact .inr ((hrest f hf hnew).symm.trans (h.action_eq_apply_iff_of_empty hreached hf hempty))
  · exact .inl ((h.pending_ne_none_iff hf hnew).mp hempty)

end Interrupted

omit [DecidableEq κ] in
variable (u t t') in
/-- What the first run has applied, followed by what the second run will apply. -/
theorem map_name_filter_append_iff (hnames : ((done ++ rest).map LocaleFile.name).Nodup) :
    (done.filter fun f => u.action t f = .apply).map LocaleFile.name ++
          ((done ++ rest).filter fun f => u.action t' f = .apply).map LocaleFile.name =
        ((done ++ rest).filter fun f => u.action t f = .apply).map LocaleFile.name ↔
      (∀ f ∈ done, u.action t' f ≠ .apply) ∧
        ∀ f ∈ rest, (u.action t' f = .apply ↔ u.action t f = .apply) := by
  have hinj := List.inj_on_of_nodup_map hnames
  have hdisjoint := (List.nodup_append'.mp hnames.of_map).2.2
  simp only [List.filter_append, List.map_append, List.append_cancel_left_eq]
  constructor
  · intro heq
    have hdone : ∀ f ∈ done, u.action t' f ≠ .apply := by
      intro f hf haction
      have hmem : f.name ∈ (rest.filter fun f => u.action t f = .apply).map LocaleFile.name := by
        rw [← heq]
        exact List.mem_append_left _ (List.mem_map_of_mem (by simp [hf, haction]))
      obtain ⟨g, hg, hname⟩ := List.mem_map.mp hmem
      have hrest := List.mem_of_mem_filter hg
      obtain rfl := hinj (List.mem_append_right _ hrest) (List.mem_append_left _ hf) hname
      exact hdisjoint hf hrest
    have hnil : (done.filter fun f => u.action t' f = .apply) = [] := by
      simpa using hdone
    rw [hnil, List.map_nil, List.nil_append] at heq
    have hmem (p : LocaleFile γ → Bool) {f : LocaleFile γ} (hf : f ∈ rest) :
        f.name ∈ (rest.filter p).map LocaleFile.name ↔ p f = true := by
      constructor
      · intro hmem
        obtain ⟨g, hg, hname⟩ := List.mem_map.mp hmem
        rw [List.mem_filter] at hg
        obtain rfl := hinj (List.mem_append_right _ hg.1) (List.mem_append_right _ hf) hname
        exact hg.2
      · intro hp
        exact List.mem_map_of_mem (List.mem_filter.mpr ⟨hf, hp⟩)
    refine ⟨hdone, ?_⟩
    intro f hf
    have hsame := hmem (fun f => u.action t' f = .apply) hf
    rw [heq, hmem _ hf] at hsame
    simpa using hsame.symm
  · rintro ⟨hdone, hrest⟩
    have hnil : (done.filter fun f => u.action t' f = .apply) = [] := by
      simpa using hdone
    rw [hnil, List.map_nil, List.nil_append]
    congr 1
    refine List.filter_congr ?_
    intro f hf
    simp only [hrest f hf]

/-! ## Both runs -/

omit [DecidableEq κ] in
theorem sha1_ne_of_length (hsha1 : ∀ content, (u.sha1 content).length = 40) (content : γ) :
    u.sha1 content ≠ "" := by
  intro hempty
  have hlength := hsha1 content
  rw [hempty] at hlength
  cases hlength

omit [DecidableEq κ] in
/-- The order is what a run is done with when it stops, and the rest. -/
theorem order_eq_reached (applyFile : LocaleFile γ → Bool) (t : AppliedFileStorage) :
    u.order = u.reached applyFile t ++ u.order.dropWhile fun f => !u.stops applyFile t f :=
  List.takeWhile_append_dropWhile.symm

omit [DecidableEq κ] in
theorem mem_dropWhile_stops :
    (f ∈ u.order.dropWhile fun f => !u.stops applyFile t f) ↔
      f ∈ u.available.files ∧ f ∉ u.reached applyFile t := by
  have hnodup := u.order_nodup
  rw [order_eq_reached applyFile t, List.nodup_append'] at hnodup
  constructor
  · intro hf
    exact ⟨mem_order.mp (List.dropWhile_subset _ hf), fun hdone => hnodup.2.2 hdone hf⟩
  · rintro ⟨hf, hdone⟩
    rw [← mem_order, order_eq_reached applyFile t, List.mem_append] at hf
    exact hf.resolve_left hdone

/-- A run that a file stops leaves the files before it as `Interrupted` says. -/
theorem interrupted_of_error {e : UpdateRun collate} (hdistinct : u.DistinctFiles)
    (hhashes : DistinctHashes t) (hrows : ∀ n, t.lookup n = updates.lookup n)
    (h : u.update applyFile updates t = .error e)
    (hperm : t'.entries.Perm e.updates.byName.entries) :
    u.Interrupted t updates (u.reached applyFile t) t' := by
  obtain rfl := eq_of_error h
  refine ⟨hdistinct, hhashes, fun _ => mem_files_of_reached, ?_, hrows, ?_⟩
  · exact u.order_names_nodup.sublist ((List.takeWhile_sublist _).map _)
  · intro n
    rw [AList.perm_lookup hperm, CollatedTable.lookup_byName]

/-- **When an interrupted run can be resumed.**  Without duplicates among the contents of the
files and among the hashes of the rows, what the interrupted run has applied and what
the next run applies is what one run would have applied exactly if the table that is left is
one to resume from. -/
theorem update_resumes_iff {applied applied' applied'' : AppliedFileStorage}
    {e : UpdateRun collate}
    (hsha1 : ∀ content, (u.sha1 content).length = 40)
    (hinjective : ∀ f ∈ u.available.files, ∀ g ∈ u.available.files,
      u.sha1 f.content = u.sha1 g.content → f.content = g.content)
    (hcontents : ∀ f ∈ u.available.files, ∀ g ∈ u.available.files, f.content = g.content → f = g)
    (hhashes : DistinctHashes updates.byName)
    (hperm : applied.entries.Perm updates.byName.entries)
    (h : u.update applyFile updates applied = .error e)
    (hperm' : applied'.entries.Perm e.updates.byName.entries)
    (hperm'' : applied''.entries.Perm updates.byName.entries) :
    ((∃ s' result', u.update (fun _ => true) e.updates applied' = .ok (s', result')) ∧
        ∀ applyFile' s' result', u.update applyFile' e.updates applied' = .ok (s', result') →
          ∀ applyFile'' s result, u.update applyFile'' updates applied'' = .ok (s, result) →
            e.imported ++ s'.imported = s.imported ∧ s.imported.Nodup) ↔
      u.Resumable collate applied (u.reached applyFile applied) := by
  have hrows : ∀ n, applied.lookup n = updates.lookup n := fun n =>
    (AList.perm_lookup hperm).trans (CollatedTable.lookup_byName updates n)
  have hrows'' : ∀ n, applied''.lookup n = applied.lookup n := fun n =>
    ((AList.perm_lookup hperm'').trans (CollatedTable.lookup_byName updates n)).trans
      (hrows n).symm
  have hdistinct : u.DistinctFiles :=
    ⟨fun f hf g hg heq => hcontents f hf g hg (hinjective f hf g hg heq),
      fun f _ => sha1_ne_of_length hsha1 f.content⟩
  have hhashes' : DistinctHashes applied := hhashes.congr fun n => AList.perm_lookup hperm
  have hresumed := interrupted_of_error hdistinct hhashes' hrows h hperm'
  obtain rfl := eq_of_error h
  have hone : (u.order.filter fun f => u.action applied'' f = .apply) =
      u.order.filter fun f => u.action applied f = .apply := by
    refine List.filter_congr ?_
    intro f hf
    rw [action_eq_of_distinctHashes hhashes' (hdistinct.sha1_ne f (mem_order.mp hf)) hrows'']
  have hnames := u.order_names_nodup
  rw [order_eq_reached applyFile applied] at hnames
  have hfiles := map_name_filter_append_iff u applied applied' hnames
  rw [← order_eq_reached] at hfiles
  constructor
  · intro ⟨⟨s', result', hrun'⟩, hboth⟩
    obtain ⟨s, result, hrun⟩ : ∃ s result, u.update (fun _ => true) updates applied'' =
        .ok (s, result) := update_ok_of_applyFile (fun _ => rfl) _ _
    have heq := (hboth _ s' result' hrun' _ s result hrun).1
    rw [imported_of_ok hrun', imported_of_ok hrun, hone, imported_performAll, List.nil_append,
      hfiles] at heq
    exact hresumed.resumable_of_action heq.1 fun f hf hnew =>
      heq.2 f (mem_dropWhile_stops.mpr ⟨hf, hnew⟩)
  · intro hresumable
    obtain ⟨hdone, hsame⟩ := hresumed.action_of_resumable hresumable
    refine ⟨update_ok_of_applyFile (fun _ => rfl) _ _, ?_⟩
    intro applyFile' s' result' hrun' applyFile'' s result hrun
    rw [imported_of_ok hrun', imported_of_ok hrun, hone, imported_performAll, List.nil_append,
      hfiles]
    refine ⟨⟨hdone, ?_⟩, u.order_names_nodup.sublist (List.filter_sublist.map _)⟩
    intro f hf
    rw [mem_dropWhile_stops] at hf
    exact hsame f hf.1 hf.2

omit [DecidableEq κ] in
/-- **If the table tells all names apart, every interrupted run can be resumed.** -/
theorem resumable_of_apart (hapart : u.Apart collate t) (hdistinct : u.DistinctFiles)
    (hhashes : DistinctHashes t)
    (hdone : ∀ g ∈ done, g ∈ u.available.files) (hnames : (done.map LocaleFile.name).Nodup) :
    u.Resumable collate t done := by
  -- no two files have the hash of one row
  have hunique {f g : LocaleFile γ} (hf : f ∈ u.available.files) (hg : g ∈ u.available.files)
      {old : String} (htakes : u.TakesRow t f old) (htakes' : u.TakesRow t g old) : f = g := by
    obtain ⟨row, hrow, hhash⟩ := AppliedFileStorage.lookup_of_hashToName htakes.index
    obtain ⟨row', hrow', hhash'⟩ := AppliedFileStorage.lookup_of_hashToName htakes'.index
    obtain rfl := Option.some.inj (hrow.symm.trans hrow')
    exact hdistinct.eq_of_sha1 f hf g hg (hhash.symm.trans hhash')
  refine ⟨?_, ?_⟩
  · rintro before f after rfl
    refine .inl (keepsRow_of_apart hapart hdone hnames ?_)
    intro old htakes g hg htakes'
    obtain rfl := hunique (hdone f (by simp)) (hdone g (by simp [hg])) htakes htakes'
    exact (not_mem_names_of_split hnames).1 (List.mem_map_of_mem hg)
  · intro f hf hpending
    cases hrow : t.lookup f.name with
    | some row =>
        refine .inl ⟨Option.some_ne_none row, ?_⟩
        intro g hg hclears
        have hname := List.mem_append_left t.keys (name_mem_names hf)
        rcases hclears.cases_of_apart hapart (hdone g hg) hname with heq | htakes
        · exact hpending (eq_of_name_eq (hdone g hg) hf heq ▸ hg)
        · exact htakes.orphan (name_mem_names hf)
    | none =>
        right
        constructor
        · rintro haction ⟨n, row, hn, hrow', hhash, -⟩
          have htakes := hhashes.takesRow (hdistinct.sha1_ne f hf) hrow hn hrow' hhash
          rw [action_eq_rename.mpr htakes] at haction
          cases haction
        · intro hnone
          refine action_eq_apply_of_new hrow ?_
          intro old htakes
          obtain ⟨row, hrow', hhash⟩ := AppliedFileStorage.lookup_of_hashToName htakes.index
          refine hnone ⟨old, row, htakes.orphan, hrow', hhash, ?_⟩
          intro g hg hclears
          have hold := List.mem_append_right u.names htakes.mem_keys
          rcases hclears.cases_of_apart hapart (hdone g hg) hold with heq | htakes'
          · exact htakes.ne (hdone g hg) heq
          · exact hpending (hunique hf (hdone g hg) htakes htakes' ▸ hg)

/-! ## Examples -/

/-- Two updates; of the digests, only the two that are needed. -/
def differentFiles : UpdateFetcher String where
  available := ⟨[⟨"a.sql", "SELECT 1;", .released⟩, ⟨"b.sql", "SELECT 2;", .released⟩], by
    rw [List.pairwise_pair, String.lt_iff_toList_lt]
    decide⟩
  setDirectories := false
  redundancyChecks := true
  allowRehash := true
  archivedRedundancy := false
  cleanDeadReferencesMaxCount := 3
  sha1 content :=
    if content = "SELECT 1;" then "517305648B7323BF7793BED05A4F527376715093"
    else "B3BFA0DB4249DB876E4D12807F6D6748400A5F59"

/-- The first run applies one file and fails at the other. -/
theorem update_resumes_differentFiles :
    ∃ e s' result', differentFiles.update (fun f => f.name ≠ "b.sql")
        (∅ : UpdatesTable ignoreCase) ∅ = .error e ∧
      e.imported = ["a.sql"] ∧
      differentFiles.update (fun _ => true) e.updates e.updates.byName = .ok (s', result') ∧
      ∃ s result, differentFiles.update (fun _ => true) (∅ : UpdatesTable ignoreCase) ∅ =
          .ok (s, result) ∧
        e.imported ++ s'.imported = s.imported ∧ s.imported.Nodup := by
  have hrun : differentFiles.update (fun f => f.name ≠ "b.sql") (∅ : UpdatesTable ignoreCase) ∅ =
    .error _ := rfl
  have hrun'' : differentFiles.update (fun _ => true) (∅ : UpdatesTable ignoreCase) ∅ =
    .ok (_, _) := rfl
  have hsha1 (content : String) : (differentFiles.sha1 content).length = 40 := by
    simp only [differentFiles]
    split <;> rfl
  have hnone : DistinctHashes (∅ : UpdatesTable ignoreCase).byName := by
    intro n n' row row' hrow
    cases hrow
  refine ⟨_, _, _, hrun, rfl, rfl, _, _, hrun'', ?_⟩
  refine ((update_resumes_iff hsha1 ?_ ?_ hnone (List.Perm.refl _) hrun (List.Perm.refl _)
    (List.Perm.refl _)).mpr ?_).2 (fun _ => true) _ _ rfl _ _ _ hrun''
  · simp [differentFiles]
  · simp [differentFiles]
  · refine resumable_of_apart (by decide)
      ⟨by simp [differentFiles], fun f _ => sha1_ne_of_length hsha1 f.content⟩ hnone
      (fun _ => mem_files_of_reached) ?_
    exact differentFiles.order_names_nodup.sublist ((List.takeWhile_sublist _).map _)

/-- A file that has the name of its row but for the case, and one that cannot be applied: the
row is deleted and the file is not applied, until the next run applies it.  A run that is
not interrupted does not. -/
theorem not_resumes_differentFiles :
    DistinctHashes (sampleRow "A.sql").byName ∧
    ∃ e s' result', differentFiles.update (fun f => f.name ≠ "b.sql") (sampleRow "A.sql")
        (sampleRow "A.sql").byName = .error e ∧
      e.imported = [] ∧
      differentFiles.update (fun _ => true) e.updates e.updates.byName = .ok (s', result') ∧
      s'.imported = ["a.sql", "b.sql"] ∧
      ∃ s result, differentFiles.update (fun _ => true) (sampleRow "A.sql")
          (sampleRow "A.sql").byName = .ok (s, result) ∧
        s.imported = ["b.sql"] := by
  refine ⟨?_, _, _, _, rfl, rfl, rfl, rfl, _, _, rfl, rfl⟩
  intro n n' row row' hrow hrow' _ _
  cases List.mem_singleton.mp (AList.mem_lookup_iff.mp hrow)
  cases List.mem_singleton.mp (AList.mem_lookup_iff.mp hrow')
  rfl

end WarheadDiscord.UpdateFetcher
