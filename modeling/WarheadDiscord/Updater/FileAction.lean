import Mathlib.Data.List.TakeWhile
import WarheadDiscord.Updater.UpdateFetcher

/-!
# What the updater does about each file

What `ApplyUpdateFile` does about a file is decided by the rows that the table had when
`Update` was called: the row of the file is still in the copy when its turn comes, and the
index is never changed.  `action` is this decision and `perform` is what follows from it;
a run is `performAll` of the files that it reaches (`foldlM_applyUpdateFile`), which are
all of them unless one that is to be applied cannot be.

In the table a file replaces the row that has the key of its name, whatever the name of
that row is, and one that takes over a row takes the row with the key of the old name.
`Clears` says which keys a file takes from the rows of other names, and
`lookup_performAll_ne_none_iff` that a row is still there as long as no file has done so.

## Main definitions

* `FileAction`, `action`, `perform` — the decision about a file, and its effect.
* `Settled` — the row of a file that will not be applied again.
* `TakesRow` — the file takes over the row of another name.
* `reached` — the files a run is done with when it ends.
* `UpdateFetcher.final` — the state a run ends in, by return or by exception.
* `Clears` — the rows of other names that a file removes.
-/

namespace WarheadDiscord

/-- What can be done about a file. -/
inductive FileAction
  | skip
  | updateState
  | rehash
  | apply
  | rename (old : String)
  deriving DecidableEq, Repr

namespace UpdateFetcher
variable {γ κ : Type} [DecidableEq κ] {collate : String → κ} (u : UpdateFetcher γ)

/-- With this row, the file is not applied. -/
def Settled (f : LocaleFile γ) (row : AppliedFileEntry) : Prop :=
  u.redundancyChecks = false ∨
    (u.archivedRedundancy = false ∧ row.state = .archived ∧ f.state = .archived) ∨
    row.hash = u.sha1 f.content

/-- With the rows `t` at the start, the file has none, and takes over the row `old`,
which belongs to no file. -/
structure TakesRow (t : AppliedFileStorage) (f : LocaleFile γ) (old : String) : Prop where
  new : t.lookup f.name = none
  index : t.hashToName (u.sha1 f.content) = some old
  orphan : old ∉ u.names

/-- The decision about a file, with the rows `t` at the start. -/
def action (t : AppliedFileStorage) (f : LocaleFile γ) : FileAction :=
  match t.lookup f.name with
  | some row =>
      if u.redundancyChecks = false then .skip
      else if u.archivedRedundancy = false ∧ row.state = .archived ∧ f.state = .archived then .skip
      else if u.allowRehash = true ∧ row.hash = "" then .rehash
      else if row.hash ≠ u.sha1 f.content then .apply
      else if row.state ≠ f.state then .updateState
      else .skip
  | none =>
      match t.hashToName (u.sha1 f.content) with
      | some old => if old ∈ u.names then .apply else .rename old
      | none => .apply

/-- The effect of a decision, if the file can be applied. -/
def perform (f : LocaleFile γ) (s : UpdateRun collate) : FileAction → UpdateRun collate
  | .skip => { s with applied := AList.erase f.name s.applied }
  | .updateState =>
      { s with
        updates := s.updates.updateState f.name f.state
        applied := AList.erase f.name s.applied }
  | .rehash =>
      { s with
        updates := s.updates.updateEntry f.name (u.entry f)
        applied := AList.erase f.name s.applied }
  | .apply =>
      { updates := s.updates.updateEntry f.name (u.entry f)
        applied := AList.erase f.name s.applied
        imported := s.imported ++ [f.name] }
  | .rename old =>
      { s with
        updates := s.updates.renameEntry old f.name
        applied := AList.erase old s.applied }

/-- The effect of the decisions about some files, in order. -/
def performAll (t : AppliedFileStorage) (files : List (LocaleFile γ)) (s : UpdateRun collate) :
    UpdateRun collate :=
  files.foldl (fun s f => u.perform f s (u.action t f)) s

/-- The files in the order in which the three loops come to them. -/
def order : List (LocaleFile γ) :=
  (u.available.files.filter fun f => f.state = .released ∨ f.state = .archived) ++
    ((u.available.files.filter fun f => f.state = .custom) ++
      u.available.files.filter fun f => f.state = .module)

/-- The file is to be applied and cannot be. -/
def stops (applyFile : LocaleFile γ → Bool) (t : AppliedFileStorage) (f : LocaleFile γ) : Bool :=
  u.action t f = .apply && !applyFile f

/-- The files in front of the first one that is to be applied and cannot be. -/
def reached (applyFile : LocaleFile γ → Bool) (t : AppliedFileStorage) : List (LocaleFile γ) :=
  u.order.takeWhile fun f => !u.stops applyFile t f

/-- The state a run ends in. -/
def final : Except (UpdateRun collate) (UpdateRun collate × UpdateResult) → UpdateRun collate
  | .error s => s
  | .ok (s, _) => s

/-- When the file is dealt with, a row of another name with this key is not there any
more. -/
def Clears (collate : String → κ) (t : AppliedFileStorage) (f : LocaleFile γ) (k : κ) : Prop :=
  match u.action t f with
  | .skip => False
  | .updateState => False
  | .rehash => collate f.name = k
  | .apply => collate f.name = k
  | .rename old => collate f.name = k ∨ collate old = k

variable {u} {t : AppliedFileStorage} {s s' : UpdateRun collate} {f g : LocaleFile γ}
  {old n : String} {k : κ} {applyFile : LocaleFile γ → Bool} {files : List (LocaleFile γ)}

/-! ## The order -/

theorem mem_order : f ∈ u.order ↔ f ∈ u.available.files := by
  simp only [order, List.mem_append, List.mem_filter, decide_eq_true_eq]
  cases f.state <;> simp

theorem name_mem_names (hf : f ∈ u.available.files) : f.name ∈ u.names :=
  List.mem_map.mpr ⟨f, hf, rfl⟩

theorem names_nodup (u : UpdateFetcher γ) : u.names.Nodup := by
  rw [names, List.Nodup, List.pairwise_map]
  exact u.available.sorted.imp fun h => ne_of_lt h

theorem eq_of_name_eq (hf : f ∈ u.available.files) (hg : g ∈ u.available.files)
    (h : f.name = g.name) : f = g :=
  List.inj_on_of_nodup_map u.names_nodup hf hg h

theorem order_names_nodup (u : UpdateFetcher γ) : (u.order.map LocaleFile.name).Nodup := by
  -- each loop has distinct names, and two loops have no file in common
  have hfilter (p : LocaleFile γ → Bool) :
      ((u.available.files.filter p).map LocaleFile.name).Nodup :=
    u.names_nodup.sublist (List.filter_sublist.map _)
  have hdisjoint {p q : LocaleFile γ → Bool} (hpq : ∀ f, p f = true → q f = true → False)
      (n : String) (hn : n ∈ (u.available.files.filter p).map LocaleFile.name)
      (hn' : n ∈ (u.available.files.filter q).map LocaleFile.name) : False := by
    obtain ⟨f, hf, rfl⟩ := List.mem_map.mp hn
    obtain ⟨g, hg, hname⟩ := List.mem_map.mp hn'
    rw [List.mem_filter] at hf hg
    obtain rfl := eq_of_name_eq hg.1 hf.1 hname
    exact hpq g hf.2 hg.2
  rw [order, List.map_append, List.map_append, List.nodup_append', List.nodup_append']
  refine ⟨hfilter _, ⟨hfilter _, hfilter _, ?_⟩, ?_⟩
  · exact hdisjoint (by intro f; cases f.state <;> simp)
  · intro n hn hn'
    rcases List.mem_append.mp hn' with hn' | hn'
    · exact hdisjoint (by intro f; cases f.state <;> simp) n hn hn'
    · exact hdisjoint (by intro f; cases f.state <;> simp) n hn hn'

theorem order_nodup (u : UpdateFetcher γ) : u.order.Nodup := u.order_names_nodup.of_map _

theorem reached_eq_order (h : u.order.any (u.stops applyFile t) = false) :
    u.reached applyFile t = u.order := by
  rw [reached, List.takeWhile_eq_self_iff]
  intro f hf
  rw [List.any_eq_false] at h
  simpa using h f hf

theorem mem_files_of_reached (hf : f ∈ u.reached applyFile t) : f ∈ u.available.files :=
  mem_order.mp (List.takeWhile_subset _ hf)

/-- The names in front of a file are those of other files. -/
theorem not_mem_names_of_split {before after : List (LocaleFile γ)}
    (h : ((before ++ f :: after).map LocaleFile.name).Nodup) :
    f.name ∉ before.map LocaleFile.name ∧ f.name ∉ after.map LocaleFile.name := by
  rw [List.map_append, List.map_cons, List.nodup_append', List.nodup_cons] at h
  exact ⟨fun hmem => h.2.2 hmem List.mem_cons_self, h.2.1.1⟩

/-! ## Decisions -/

theorem TakesRow.ne (h : u.TakesRow t g old) (hf : f ∈ u.available.files) : f.name ≠ old := by
  rintro rfl
  exact h.orphan (name_mem_names hf)

theorem TakesRow.unique {old' : String} (h : u.TakesRow t f old) (h' : u.TakesRow t f old') :
    old' = old := by
  have := h.index.symm.trans h'.index
  exact (Option.some.inj this).symm

theorem action_eq_rename : u.action t f = .rename old ↔ u.TakesRow t f old := by
  constructor
  · intro h
    rw [action] at h
    cases hrow : t.lookup f.name with
    | some row =>
        simp only [hrow] at h
        split_ifs at h
    | none =>
        simp only [hrow] at h
        cases hindex : t.hashToName (u.sha1 f.content) with
        | none => simp [hindex] at h
        | some old' =>
            simp only [hindex] at h
            split_ifs at h with hmem
            cases h
            exact ⟨hrow, hindex, hmem⟩
  · rintro ⟨hnew, hindex, horphan⟩
    rw [action]
    simp only [hnew, hindex, if_neg horphan]

/-- A new file is applied, unless it takes over a row. -/
theorem action_eq_apply_of_new (hnew : t.lookup f.name = none)
    (hkeeps : ∀ old, ¬ u.TakesRow t f old) : u.action t f = .apply := by
  rw [action]
  simp only [hnew]
  cases hindex : t.hashToName (u.sha1 f.content) with
  | none => rfl
  | some old =>
      have hmem : old ∈ u.names := by
        by_contra horphan
        exact hkeeps old ⟨hnew, hindex, horphan⟩
      simp only [if_pos hmem]

/-- The decision about a file that has a row is made from this row. -/
theorem action_eq_of_lookup {t' : AppliedFileStorage} (h : t'.lookup f.name = t.lookup f.name)
    (hrow : t.lookup f.name ≠ none) : u.action t' f = u.action t f := by
  obtain ⟨row, hrow⟩ := Option.ne_none_iff_exists'.mp hrow
  simp only [action, h, hrow]

theorem action_ne_apply_of_settled {row : AppliedFileEntry} (hrow : t.lookup f.name = some row)
    (h : u.Settled f row) : u.action t f ≠ .apply := by
  rw [action]
  simp only [hrow]
  split_ifs with hchecks harchived hrehash hhash hstate
  · simp
  · simp
  · simp
  · exact absurd ((h.resolve_left hchecks).resolve_left harchived) hhash
  · simp
  · simp

/-! ## One file, and all files -/

/-- `ApplyUpdateFile` carries out the decision. -/
theorem applyUpdateFile_eq (happlied : s.applied.lookup f.name = t.lookup f.name) :
    u.applyUpdateFile applyFile t.hashToName s f =
      if u.stops applyFile t f then .error s else .ok (u.perform f s (u.action t f)) := by
  rw [applyUpdateFile]
  cases hrow : t.lookup f.name with
  | some row =>
      simp only [happlied, hrow, stops, action, finish]
      split_ifs <;> simp_all [perform]
  | none =>
      simp only [happlied, hrow, stops, action, finish]
      cases hindex : t.hashToName (u.sha1 f.content) with
      | none => split_ifs <;> simp_all [perform]
      | some old =>
          simp only
          split_ifs <;> simp_all [perform]

theorem performAll_cons (t : AppliedFileStorage) (f : LocaleFile γ) (files : List (LocaleFile γ))
    (s : UpdateRun collate) :
    u.performAll t (f :: files) s = u.performAll t files (u.perform f s (u.action t f)) := rfl

/-- The copy keeps the rows of the other files. -/
theorem lookup_applied_perform (hg : g ∈ u.available.files) (hne : g.name ≠ f.name) :
    (u.perform f s (u.action t f)).applied.lookup g.name = s.applied.lookup g.name := by
  cases h : u.action t f with
  | rename old =>
      have hold := (action_eq_rename.mp h).ne hg
      simp only [perform, AppliedFileStorage.lookup_erase, if_neg hold]
  | _ => simp only [perform, AppliedFileStorage.lookup_erase, if_neg hne]

/-- The loop carries out the decisions up to the first file that cannot be applied. -/
theorem foldlM_applyUpdateFile (hfiles : ∀ f ∈ files, f ∈ u.available.files)
    (hnodup : (files.map LocaleFile.name).Nodup)
    (happlied : ∀ f ∈ files, s.applied.lookup f.name = t.lookup f.name) :
    files.foldlM (u.applyUpdateFile applyFile t.hashToName) s =
      if files.any (u.stops applyFile t) then
        .error (u.performAll t (files.takeWhile fun f => !u.stops applyFile t f) s)
      else .ok (u.performAll t files s) := by
  induction files generalizing s with
  | nil => rfl
  | cons f files ih =>
      rw [List.map_cons, List.nodup_cons] at hnodup
      rw [List.foldlM_cons, applyUpdateFile_eq (happlied f List.mem_cons_self)]
      cases hstop : u.stops applyFile t f with
      | true =>
          simp only [List.any_cons, hstop, Bool.true_or, if_true, List.takeWhile_cons,
            Bool.not_true, Bool.false_eq_true, if_false]
          rfl
      | false =>
          have hrest : ∀ g ∈ files, (u.perform f s (u.action t f)).applied.lookup g.name =
              t.lookup g.name := by
            intro g hg
            have hne : g.name ≠ f.name := by
              intro heq
              exact hnodup.1 (heq ▸ List.mem_map_of_mem hg)
            rw [lookup_applied_perform (hfiles g (List.mem_cons_of_mem _ hg)) hne]
            exact happlied g (List.mem_cons_of_mem _ hg)
          have := ih (fun g hg => hfiles g (List.mem_cons_of_mem _ hg)) hnodup.2 hrest
          simp only [List.any_cons, hstop, Bool.false_or, List.takeWhile_cons, Bool.not_false,
            if_true, performAll_cons]
          exact this

theorem imported_performAll (t : AppliedFileStorage) (files : List (LocaleFile γ))
    (s : UpdateRun collate) :
    (u.performAll t files s).imported =
      s.imported ++ (files.filter fun f => u.action t f = .apply).map LocaleFile.name := by
  induction files generalizing s with
  | nil => simp [performAll]
  | cons f files ih =>
      rw [performAll_cons, ih]
      cases h : u.action t f <;> simp [perform, h]

/-- A run that completes has gone through all files, and a run that does not has gone
through those it reached. -/
theorem update_cases (applyFile : LocaleFile γ → Bool) (updates : UpdatesTable collate)
    (applied : AppliedFileStorage) :
    (u.order.any (u.stops applyFile applied) = true ∧
        u.update applyFile updates applied =
          .error (u.performAll applied (u.reached applyFile applied) ⟨updates, applied, []⟩)) ∨
      (u.order.any (u.stops applyFile applied) = false ∧ ∃ result,
        u.update applyFile updates applied =
          .ok (u.cleanUpDeadReferences (u.performAll applied u.order ⟨updates, applied, []⟩),
            result)) := by
  have hloop : u.order.foldlM (u.applyUpdateFile applyFile applied.hashToName)
      (⟨updates, applied, []⟩ : UpdateRun collate) =
        if u.order.any (u.stops applyFile applied) then
          .error (u.performAll applied (u.reached applyFile applied) ⟨updates, applied, []⟩)
        else .ok (u.performAll applied u.order ⟨updates, applied, []⟩) :=
    foldlM_applyUpdateFile (fun f hf => mem_order.mp hf) u.order_names_nodup (fun _ _ => rfl)
  by_cases hempty : u.setDirectories = true ∧ u.available.files.isEmpty
  · have horder : u.order = [] := by
      have hnil : u.available.files = [] := by simpa using hempty.2
      simp [order, hnil]
    refine .inr ⟨by simp [horder], {}, ?_⟩
    rw [update, if_pos hempty, horder]
    simp [performAll, cleanUpDeadReferences, hempty.1]
  · have heq : u.update applyFile updates applied =
        u.order.foldlM (u.applyUpdateFile applyFile applied.hashToName) ⟨updates, applied, []⟩ >>=
          fun s => .ok (u.cleanUpDeadReferences s, ⟨s.imported.length,
            applied.entries.countP fun row => row.2.state = .released,
            applied.entries.countP fun row => row.2.state ≠ .released⟩) := by
      rw [update, if_neg hempty]
      simp only [order, List.foldlM_append, bind_assoc]
      rfl
    rw [heq, hloop]
    cases hstop : u.order.any (u.stops applyFile applied) with
    | true => exact .inl ⟨rfl, rfl⟩
    | false => exact .inr ⟨rfl, _, rfl⟩

/-! ## The table -/

theorem performAll_append (t : AppliedFileStorage) (files files' : List (LocaleFile γ))
    (s : UpdateRun collate) :
    u.performAll t (files ++ files') s = u.performAll t files' (u.performAll t files s) :=
  List.foldl_append

/-- The row of a file when its turn is over. -/
theorem lookup_perform_self (f : LocaleFile γ) (s : UpdateRun collate) (action : FileAction) :
    (u.perform f s action).updates.lookup f.name =
      match action with
      | .skip => s.updates.lookup f.name
      | .updateState => (s.updates.lookup f.name).map fun row => { row with state := f.state }
      | .rehash => some (u.entry f)
      | .apply => some (u.entry f)
      | .rename old =>
          if collate old = collate f.name then none
          else (s.updates.find (collate old)).map Prod.snd := by
  cases action with
  | skip => rfl
  | updateState => simp [perform, UpdatesTable.updateState, CollatedTable.lookup_modify]
  | rehash => simp [perform, UpdatesTable.updateEntry, CollatedTable.lookup_replace]
  | apply => simp [perform, UpdatesTable.updateEntry, CollatedTable.lookup_replace]
  | rename old => exact CollatedTable.lookup_rename_target _ _ _

/-- A row of another name is gone exactly if the file clears its key. -/
theorem lookup_perform_ne_none_iff (hn : n ≠ f.name) :
    (u.perform f s (u.action t f)).updates.lookup n ≠ none ↔
      s.updates.lookup n ≠ none ∧ ¬ u.Clears collate t f (collate n) := by
  rw [Clears]
  cases u.action t f with
  | skip => simp [perform]
  | updateState =>
      simp only [perform, UpdatesTable.updateState, CollatedTable.lookup_modify]
      split <;> simp
  | rehash =>
      simp only [perform, UpdatesTable.updateEntry, CollatedTable.lookup_replace, if_neg hn]
      split <;> simp_all [eq_comm]
  | apply =>
      simp only [perform, UpdatesTable.updateEntry, CollatedTable.lookup_replace, if_neg hn]
      split <;> simp_all [eq_comm]
  | rename old =>
      simp only [perform, UpdatesTable.renameEntry, CollatedTable.lookup_rename_of_ne _ hn]
      split <;> simp_all [eq_comm]

/-- **A row of a name that is not among the files is there as long as no file clears its
key.** -/
theorem lookup_performAll_ne_none_iff (hn : n ∉ files.map LocaleFile.name) :
    (u.performAll t files s).updates.lookup n ≠ none ↔
      s.updates.lookup n ≠ none ∧ ∀ f ∈ files, ¬ u.Clears collate t f (collate n) := by
  induction files generalizing s with
  | nil => simp [performAll]
  | cons f files ih =>
      rw [List.map_cons, List.mem_cons, not_or] at hn
      rw [performAll_cons, ih hn.2, lookup_perform_ne_none_iff hn.1, List.forall_mem_cons,
        and_assoc]

/-- The name and the hash of a row. -/
def label (row : String × AppliedFileEntry) : String × String := (row.1, row.2.hash)

/-- A file that does not clear a key changes nothing but the state of its row. -/
theorem label_find_perform (h : ¬ u.Clears collate t f k) :
    ((u.perform f s (u.action t f)).updates.find k).map label = (s.updates.find k).map label := by
  rw [Clears] at h
  cases haction : u.action t f with
  | skip => rfl
  | updateState =>
      simp only [perform, UpdatesTable.updateState, CollatedTable.find_modify]
      split
      · cases s.updates.find k <;> rfl
      · rfl
  | rehash =>
      rw [haction] at h
      simp [perform, UpdatesTable.updateEntry, CollatedTable.find_replace, Ne.symm h]
  | apply =>
      rw [haction] at h
      simp [perform, UpdatesTable.updateEntry, CollatedTable.find_replace, Ne.symm h]
  | rename old =>
      rw [haction] at h
      simp only [not_or] at h
      simp [perform, UpdatesTable.renameEntry, CollatedTable.find_rename, Ne.symm h.1,
        Ne.symm h.2]

theorem label_find_performAll (h : ∀ f ∈ files, ¬ u.Clears collate t f k) :
    ((u.performAll t files s).updates.find k).map label = (s.updates.find k).map label := by
  induction files generalizing s with
  | nil => rfl
  | cons f files ih =>
      rw [performAll_cons, ih fun g hg => h g (List.mem_cons_of_mem _ hg),
        label_find_perform (h f List.mem_cons_self)]

/-- Nor the state, if the key is not that of its own row. -/
theorem find_performAll (h : ∀ f ∈ files, ¬ u.Clears collate t f k ∧
    (u.action t f = .updateState → collate f.name ≠ k)) :
    (u.performAll t files s).updates.find k = s.updates.find k := by
  induction files generalizing s with
  | nil => rfl
  | cons f files ih =>
      obtain ⟨hclears, hstate⟩ := h f List.mem_cons_self
      rw [performAll_cons, ih fun g hg => h g (List.mem_cons_of_mem _ hg)]
      rw [Clears] at hclears
      cases haction : u.action t f with
      | skip => rfl
      | updateState =>
          simp [perform, UpdatesTable.updateState, CollatedTable.find_modify,
            Ne.symm (hstate haction)]
      | rehash =>
          rw [haction] at hclears
          simp [perform, UpdatesTable.updateEntry, CollatedTable.find_replace, Ne.symm hclears]
      | apply =>
          rw [haction] at hclears
          simp [perform, UpdatesTable.updateEntry, CollatedTable.find_replace, Ne.symm hclears]
      | rename old =>
          rw [haction] at hclears
          simp only [not_or] at hclears
          simp [perform, UpdatesTable.renameEntry, CollatedTable.find_rename,
            Ne.symm hclears.1, Ne.symm hclears.2]

/-! ## What the files clear -/

theorem action_of_new (hnew : t.lookup f.name = none) :
    u.action t f = .apply ∨ ∃ old, u.TakesRow t f old := by
  by_cases htakes : ∃ old, u.TakesRow t f old
  · exact .inr htakes
  · exact .inl (action_eq_apply_of_new hnew (not_exists.mp htakes))

omit [DecidableEq κ] in
theorem clears_of_new (hnew : t.lookup f.name = none) :
    u.Clears collate t f (collate f.name) := by
  rw [Clears]
  rcases action_of_new (u := u) hnew with h | ⟨old, htakes⟩
  · rw [h]
  · rw [action_eq_rename.mpr htakes]
    exact .inl rfl

omit [DecidableEq κ] in
theorem clears_of_takesRow (h : u.TakesRow t f old) : u.Clears collate t f (collate old) := by
  rw [Clears, action_eq_rename.mpr h]
  exact .inr rfl

omit [DecidableEq κ] in
/-- A key is cleared by the file that has it, or by one that takes over its row. -/
theorem Clears.cases (h : u.Clears collate t f k) :
    collate f.name = k ∨ ∃ old, u.TakesRow t f old ∧ collate old = k := by
  rw [Clears] at h
  cases haction : u.action t f with
  | skip => rw [haction] at h; exact h.elim
  | updateState => rw [haction] at h; exact h.elim
  | rehash => rw [haction] at h; exact .inl h
  | apply => rw [haction] at h; exact .inl h
  | rename old =>
      rw [haction] at h
      exact h.imp_right fun hk => ⟨old, action_eq_rename.mp haction, hk⟩

section
variable {updates : UpdatesTable collate} (hrows : ∀ n, t.lookup n = updates.lookup n)
include hrows

/-- The key of a row is that of a file with a row only if the row is its own. -/
theorem name_eq_of_collate_eq {row : AppliedFileEntry} (hrow : t.lookup n = some row)
    (hold : t.lookup f.name ≠ none) (hkey : collate f.name = collate n) : f.name = n := by
  obtain ⟨row', hrow'⟩ := Option.ne_none_iff_exists'.mp hold
  rw [hrows] at hrow hrow'
  exact CollatedTable.eq_of_key_eq hrow' hrow hkey

/-- Who clears the key of a row of another name is new. -/
theorem Clears.new {row : AppliedFileEntry} (h : u.Clears collate t f (collate n))
    (hrow : t.lookup n = some row) (hn : n ≠ f.name) : t.lookup f.name = none := by
  by_contra hold
  rcases h.cases with hkey | ⟨old, htakes, -⟩
  · exact hn (name_eq_of_collate_eq hrows hrow hold hkey).symm
  · exact hold htakes.new

/-- The key of a row that is taken over is only that of this row. -/
theorem TakesRow.eq_of_collate_eq {row : AppliedFileEntry} (h : u.TakesRow t f old)
    (hrow : t.lookup n = some row) (hkey : collate old = collate n) : old = n := by
  obtain ⟨row', hrow', -⟩ := AppliedFileStorage.lookup_of_hashToName h.index
  rw [hrows] at hrow hrow'
  exact CollatedTable.eq_of_key_eq hrow' hrow hkey

/-- **A row of no file is as it was, unless a file has cleared its key.** -/
theorem lookup_performAll_foreign (hn : n ∉ u.names)
    (hfiles : ∀ f ∈ files, f ∈ u.available.files) :
    ((u.performAll t files ⟨updates, t, []⟩).updates.lookup n = none ∧
        (updates.lookup n = none ∨ ∃ f ∈ files, u.Clears collate t f (collate n))) ∨
      (u.performAll t files ⟨updates, t, []⟩).updates.lookup n = updates.lookup n ∧
        ∀ f ∈ files, ¬ u.Clears collate t f (collate n) := by
  have hnames : n ∉ files.map LocaleFile.name := by
    intro hmem
    obtain ⟨f, hf, rfl⟩ := List.mem_map.mp hmem
    exact hn (name_mem_names (hfiles f hf))
  have hiff := lookup_performAll_ne_none_iff (u := u) (t := t) (s := ⟨updates, t, []⟩) hnames
  by_cases hclears : ∀ f ∈ files, ¬ u.Clears collate t f (collate n)
  · cases hrow : updates.lookup n with
    | none =>
        refine .inl ⟨?_, .inl rfl⟩
        by_contra hne
        exact (hiff.mp hne).1 hrow
    | some row =>
        refine .inr ⟨?_, hclears⟩
        rw [← hrow]
        refine CollatedTable.lookup_congr (find_performAll fun f hf => ⟨hclears f hf, ?_⟩)
        -- a file whose state is updated has a row of its own
        intro haction hkey
        have hold : t.lookup f.name ≠ none := by
          intro hnew
          have hclear : u.Clears collate t f (collate f.name) := clears_of_new hnew
          rw [Clears, haction] at hclear
          exact hclear
        exact hnames (name_eq_of_collate_eq hrows ((hrows n).trans hrow) hold hkey ▸
          List.mem_map_of_mem hf)
  · refine .inl ⟨?_, .inr (by simpa using hclears)⟩
    by_contra hne
    exact hclears (hiff.mp hne).2

end

end UpdateFetcher
end WarheadDiscord
