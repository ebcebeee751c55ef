import WarheadDiscord.Updater.DeadReferences

/-!
# When running the updater twice is running it once

A file that has been dealt with has a row that says so (`Settled`), and a second run will
not apply it, as long as the row stays.  There are three ways to lose it.

A new file with the hash of a row that belongs to no file any more takes this row over.
A second such file does the same: the index still leads to the old name, there is nothing
left under this name to rename, and the file ends up without a row and without having been
applied.

The table compares names by its collation.  A file whose name has the key of another row
takes the place of this row; if the other row is one that the file itself is to take over,
it is deleted before it can be renamed.

And the names that are deleted in the end are compared in the same way.

So the updater is idempotent exactly if every file gets a row and keeps it
(`update_idempotent_iff`).  If all names that occur have different keys, this says that no
two files take the same row (`keepsRows_iff_of_apart`).

## Main definitions

* `KeepsRow` — what the other files do not take away from a file.
* `KeepsRows` — every file keeps its row.
-/

namespace WarheadDiscord.UpdateFetcher
variable {γ κ : Type} {collate : String → κ}

/-- The file `f`, which comes between these files, has a row when all of them are dealt
with. -/
structure KeepsRow (u : UpdateFetcher γ) (collate : String → κ) (t : AppliedFileStorage)
    (before : List (LocaleFile γ)) (f : LocaleFile γ) (after : List (LocaleFile γ)) : Prop where
  later : ∀ g ∈ after, ¬ u.Clears collate t g (collate f.name)
  /-- A row that is left as it is has to be there. -/
  own : u.action t f = .skip ∨ u.action t f = .updateState →
    ∀ g ∈ before, ¬ u.Clears collate t g (collate f.name)
  /-- And so has a row that is to be taken over. -/
  taken : ∀ old, u.TakesRow t f old →
    collate old ≠ collate f.name ∧ ∀ g ∈ before, ¬ u.Clears collate t g (collate old)

/-- Every file has a row when all files are dealt with, and the deletion of dead references
does not name it. -/
structure KeepsRows (u : UpdateFetcher γ) (collate : String → κ) (t : AppliedFileStorage) :
    Prop where
  keeps : ∀ before f after, u.order = before ++ f :: after → u.KeepsRow collate t before f after
  cleaned : u.CleansUp t → ∀ f ∈ u.available.files,
    collate f.name ∉ (u.missing t).map collate

variable [DecidableEq κ] {u : UpdateFetcher γ} {t : AppliedFileStorage} {s : UpdateRun collate}
  {updates : UpdatesTable collate} {f g : LocaleFile γ} {old n : String} {k : κ}
  {before after files : List (LocaleFile γ)} {applyFile : LocaleFile γ → Bool}

/-! ## The row of one file -/

/-- A row keeps its hash while nobody clears its key. -/
theorem lookup_performAll_of_not_clears {row : AppliedFileEntry}
    (hrow : s.updates.lookup n = some row)
    (h : ∀ f ∈ files, ¬ u.Clears collate t f (collate n)) :
    ∃ row', (u.performAll t files s).updates.lookup n = some row' ∧ row'.hash = row.hash := by
  have hlabel := label_find_performAll (s := s) h
  rw [CollatedTable.lookup_eq_some] at hrow
  rw [hrow, Option.map_some, Option.map_eq_some_iff] at hlabel
  obtain ⟨⟨name, row'⟩, hfind, heq⟩ := hlabel
  obtain ⟨rfl, hhash⟩ := Prod.mk.inj heq
  exact ⟨row', CollatedTable.lookup_of_find hfind, hhash⟩

/-- And its state, if it is the row that the file had at the start. -/
theorem lookup_performAll_of_old (hrows : ∀ n, t.lookup n = updates.lookup n)
    (hold : t.lookup f.name ≠ none) (hname : f.name ∉ files.map LocaleFile.name)
    (h : ∀ g ∈ files, ¬ u.Clears collate t g (collate f.name)) :
    (u.performAll t files s).updates.lookup f.name = s.updates.lookup f.name := by
  refine CollatedTable.lookup_congr (find_performAll fun g hg => ⟨h g hg, ?_⟩)
  intro haction hkey
  obtain ⟨row, hrow⟩ := Option.ne_none_iff_exists'.mp hold
  have hgold : t.lookup g.name ≠ none := by
    intro hnew
    have hclears : u.Clears collate t g (collate g.name) := clears_of_new hnew
    rw [Clears, haction] at hclears
    exact hclears
  exact hname (name_eq_of_collate_eq hrows hrow hgold hkey ▸ List.mem_map_of_mem hg)

/-- A row that was found under a key that has been cleared is that of a file. -/
theorem exists_of_find_of_clears {row : String × AppliedFileEntry}
    (hfind : (u.performAll t files s).updates.find k = some row) (hg : g ∈ files)
    (h : u.Clears collate t g k) : ∃ f ∈ files, f.name = row.1 := by
  by_contra hno
  have hname : row.1 ∉ files.map LocaleFile.name := by
    intro hmem
    obtain ⟨f, hf, heq⟩ := List.mem_map.mp hmem
    exact hno ⟨f, hf, heq⟩
  have hrow : (u.performAll t files s).updates.lookup row.1 ≠ none := by
    rw [CollatedTable.lookup_of_find hfind]
    exact Option.some_ne_none _
  have hclears := ((lookup_performAll_ne_none_iff hname).mp hrow).2 g hg
  rw [CollatedTable.key_of_find _ hfind] at hclears
  exact hclears h

/-- The row of a file is not that of a name that is done with before. -/
theorem action_old (h : u.action t f = .skip ∨ u.action t f = .updateState) :
    t.lookup f.name ≠ none := by
  intro hnew
  rcases action_of_new (u := u) hnew with happly | ⟨old, htakes⟩
  · rw [happly] at h
    rcases h with h | h <;> cases h
  · rw [action_eq_rename.mpr htakes] at h
    rcases h with h | h <;> cases h

/-- With the row that decides it, a file that is left alone is settled. -/
theorem settled_of_action {row : AppliedFileEntry} (hrow : t.lookup f.name = some row)
    (h : u.action t f = .skip ∨ u.action t f = .updateState) :
    u.Settled f row ∧ (u.action t f = .updateState → row.hash = u.sha1 f.content) := by
  rw [action] at h ⊢
  simp only [hrow] at h ⊢
  rw [Settled]
  split_ifs at h ⊢ <;> simp_all

section
variable (hrows : ∀ n, t.lookup n = updates.lookup n)
  (hnames : ((before ++ f :: after).map LocaleFile.name).Nodup)
include hrows hnames

/-- **A file that keeps its row has one that settles it.** -/
theorem KeepsRow.settled (h : u.KeepsRow collate t before f after) :
    ∃ row, (u.performAll t (before ++ f :: after) ⟨updates, t, []⟩).updates.lookup f.name =
      some row ∧ u.Settled f row := by
  obtain ⟨hbefore, hafter⟩ := not_mem_names_of_split hnames
  rw [performAll_append, performAll_cons]
  have hself := lookup_perform_self (u := u) f (u.performAll t before ⟨updates, t, []⟩)
    (u.action t f)
  have hhash (row : AppliedFileEntry) (hrow : (u.perform f (u.performAll t before
      ⟨updates, t, []⟩) (u.action t f)).updates.lookup f.name = some row)
      (heq : row.hash = u.sha1 f.content) :
      ∃ row, (u.performAll t after (u.perform f (u.performAll t before ⟨updates, t, []⟩)
        (u.action t f))).updates.lookup f.name = some row ∧ u.Settled f row := by
    obtain ⟨row', hrow', heq'⟩ := lookup_performAll_of_not_clears hrow h.later
    exact ⟨row', hrow', .inr (.inr (heq'.trans heq))⟩
  cases haction : u.action t f with
  | skip =>
      have hold := action_old (.inl haction)
      obtain ⟨row, hrow⟩ := Option.ne_none_iff_exists'.mp hold
      refine ⟨row, ?_, (settled_of_action hrow (.inl haction)).1⟩
      rw [lookup_performAll_of_old hrows hold hafter h.later, ← haction, hself, haction,
        lookup_performAll_of_old hrows hold hbefore (h.own (.inl haction)), ← hrows, hrow]
  | updateState =>
      have hold := action_old (.inr haction)
      obtain ⟨row, hrow⟩ := Option.ne_none_iff_exists'.mp hold
      rw [← haction]
      refine hhash { row with state := f.state } ?_
        ((settled_of_action hrow (.inr haction)).2 haction)
      rw [hself, haction, lookup_performAll_of_old hrows hold hbefore (h.own (.inr haction)),
        ← hrows, hrow, Option.map_some]
  | rehash =>
      rw [haction] at hself
      rw [← haction]
      exact hhash _ (by rw [haction]; exact hself) rfl
  | apply =>
      rw [haction] at hself
      rw [← haction]
      exact hhash _ (by rw [haction]; exact hself) rfl
  | rename old =>
      have htakes := action_eq_rename.mp haction
      obtain ⟨hne, hfree⟩ := h.taken old htakes
      obtain ⟨row, hrow, heq⟩ := AppliedFileStorage.lookup_of_hashToName htakes.index
      rw [hrows] at hrow
      obtain ⟨row', hrow', heq'⟩ :=
        lookup_performAll_of_not_clears (s := ⟨updates, t, []⟩) hrow hfree
      rw [CollatedTable.lookup_eq_some] at hrow'
      rw [← haction]
      refine hhash row' ?_ (heq'.trans heq)
      rw [hself, haction]
      simp only [if_neg hne, hrow', Option.map_some]

end

/-- Who clears the key of a file that was there before takes its row away. -/
theorem not_clears_of_lookup_ne_none
    (hnames : ((before ++ f :: after).map LocaleFile.name).Nodup) (hg : g ∈ before)
    (h : (u.performAll t (before ++ f :: after) s).updates.lookup g.name ≠ none) :
    ¬ u.Clears collate t f (collate g.name) := by
  rw [List.map_append, List.nodup_append'] at hnames
  have hname : g.name ∉ (f :: after).map LocaleFile.name :=
    fun hmem => hnames.2.2 (List.mem_map_of_mem hg) hmem
  rw [performAll_append] at h
  exact ((lookup_performAll_ne_none_iff hname).mp h).2 f List.mem_cons_self

/-- **A file that has a row in the end keeps it**, if the files before it do. -/
theorem keepsRow_of_lookup_ne_none
    (hnames : ((before ++ f :: after).map LocaleFile.name).Nodup)
    (h : (u.performAll t (before ++ f :: after) s).updates.lookup f.name ≠ none)
    (hothers : ∀ old row, u.TakesRow t f old →
      (u.performAll t before s).updates.find (collate old) = some row →
      ∀ g ∈ before, g.name = row.1 →
        (u.performAll t (before ++ f :: after) s).updates.lookup g.name ≠ none) :
    u.KeepsRow collate t before f after := by
  obtain ⟨hbefore, hafter⟩ := not_mem_names_of_split hnames
  have hall := h
  rw [performAll_append, performAll_cons, lookup_performAll_ne_none_iff hafter] at h
  obtain ⟨hturn, hlater⟩ := h
  rw [lookup_perform_self] at hturn
  refine ⟨hlater, ?_, ?_⟩
  · intro haction
    have hrow : (u.performAll t before s).updates.lookup f.name ≠ none := by
      rcases haction with haction | haction
      · rwa [haction] at hturn
      · rw [haction] at hturn
        simpa using hturn
    exact ((lookup_performAll_ne_none_iff hbefore).mp hrow).2
  · intro old htakes
    rw [action_eq_rename.mpr htakes] at hturn
    simp only [ne_eq, ite_eq_left_iff, not_forall] at hturn
    obtain ⟨hne, hrow⟩ := hturn
    refine ⟨hne, ?_⟩
    rw [Option.map_eq_none_iff, ← ne_eq, Option.ne_none_iff_exists'] at hrow
    obtain ⟨row, hfind⟩ := hrow
    intro g hg hclears
    -- the row that was found there is that of a file, which loses it
    obtain ⟨g', hg', hname⟩ := exists_of_find_of_clears hfind hg hclears
    refine not_clears_of_lookup_ne_none hnames hg' (hothers old row htakes hfind g' hg' hname) ?_
    rw [hname, CollatedTable.key_of_find _ hfind]
    exact clears_of_takesRow htakes

/-! ## Both runs -/

/-- If all rows are settled, nothing is applied. -/
theorem update_of_settled (applyFile : LocaleFile γ → Bool) (updates : UpdatesTable collate)
    (h : ∀ f ∈ u.available.files, ∃ row, t.lookup f.name = some row ∧ u.Settled f row) :
    ∃ s result, u.update applyFile updates t = .ok (s, result) ∧ s.imported = [] := by
  have hskip : ∀ f ∈ u.order, u.action t f ≠ .apply := by
    intro f hf
    obtain ⟨row, hrow, hsettled⟩ := h f (mem_order.mp hf)
    exact action_ne_apply_of_settled hrow hsettled
  rcases update_cases (u := u) applyFile updates t with ⟨hstop, -⟩ | ⟨-, result, heq⟩
  · obtain ⟨f, hf, hstop⟩ := List.any_eq_true.mp hstop
    rw [stops, Bool.and_eq_true, decide_eq_true_eq] at hstop
    exact absurd hstop.1 (hskip f hf)
  · refine ⟨_, result, heq, ?_⟩
    rw [imported_of_ok heq, List.map_eq_nil_iff, List.filter_eq_nil_iff]
    intro f hf
    simpa using hskip f hf

/-- **The updater is idempotent exactly if every file gets a row and keeps it.** -/
theorem update_idempotent_iff {applied : AppliedFileStorage} {result : UpdateResult}
    (hperm : applied.entries.Perm updates.byName.entries)
    (h : u.update applyFile updates applied = .ok (s, result)) :
    ((∀ f ∈ u.available.files, ∃ row, s.updates.lookup f.name = some row) ∧
        ∀ (applyFile' : LocaleFile γ → Bool) (applied' : AppliedFileStorage),
          applied'.entries.Perm s.updates.byName.entries → ∃ s' result',
            u.update applyFile' s.updates applied' = .ok (s', result') ∧ s'.imported = []) ↔
      u.KeepsRows collate applied := by
  have hrows : ∀ n, applied.lookup n = updates.lookup n := fun n =>
    (AList.perm_lookup hperm).trans (CollatedTable.lookup_byName updates n)
  obtain rfl := (completes_of_ok h).2
  constructor
  · rintro ⟨hall, -⟩
    have hboth : ∀ f ∈ u.available.files,
        ¬ (u.CleansUp applied ∧ collate f.name ∈ (u.missing applied).map collate) ∧
          (u.performAll applied u.order ⟨updates, applied, []⟩).updates.lookup f.name ≠ none := by
      intro f hf
      obtain ⟨row, hrow⟩ := hall f hf
      rw [lookup_cleanUp] at hrow
      split at hrow
      · cases hrow
      · rename_i hclean
        exact ⟨hclean, by rw [hrow]; exact Option.some_ne_none row⟩
    refine ⟨?_, fun hclean f hf hmem => (hboth f hf).1 ⟨hclean, hmem⟩⟩
    intro before f after horder
    have hmem : ∀ g ∈ before ++ f :: after, g ∈ u.available.files := fun g hg =>
      mem_order.mp (horder ▸ hg)
    have hnames := u.order_names_nodup
    rw [horder] at hnames hboth
    refine keepsRow_of_lookup_ne_none (s := ⟨updates, applied, []⟩) hnames
      (hboth f (hmem f (by simp))).2 ?_
    intro old row _ _ g hg _
    exact (hboth g (hmem g (List.mem_append_left _ hg))).2
  · intro hkeeps
    have hsettled : ∀ f ∈ u.available.files, ∃ row,
        (u.cleanUpDeadReferences (u.performAll applied u.order
          ⟨updates, applied, []⟩)).updates.lookup f.name = some row ∧ u.Settled f row := by
      intro f hf
      obtain ⟨before, after, horder⟩ := List.append_of_mem (mem_order.mpr hf)
      have hnames := u.order_names_nodup
      rw [horder] at hnames
      rw [lookup_cleanUp, if_neg fun hclean => hkeeps.cleaned hclean.1 f hf hclean.2]
      have hrow := (hkeeps.keeps before f after horder).settled hrows hnames
      rwa [← horder] at hrow
    refine ⟨fun f hf => (hsettled f hf).imp fun _ => And.left, ?_⟩
    intro applyFile' applied' hperm'
    refine update_of_settled applyFile' _ ?_
    intro f hf
    rw [AList.perm_lookup hperm', CollatedTable.lookup_byName]
    exact hsettled f hf

/-! ## Names that the table tells apart -/

/-- The names of the files and of the rows have different keys. -/
def Apart (u : UpdateFetcher γ) (collate : String → κ) (t : AppliedFileStorage) : Prop :=
  ∀ n ∈ u.names ++ t.keys, ∀ n' ∈ u.names ++ t.keys, collate n = collate n' → n = n'

instance (u : UpdateFetcher γ) (collate : String → κ) (t : AppliedFileStorage) :
    Decidable (u.Apart collate t) :=
  inferInstanceAs (Decidable (∀ n ∈ u.names ++ t.keys, ∀ n' ∈ u.names ++ t.keys, _))

omit [DecidableEq κ] in
theorem TakesRow.mem_keys (h : u.TakesRow t f old) : old ∈ t.keys := by
  obtain ⟨row, hrow, -⟩ := AppliedFileStorage.lookup_of_hashToName h.index
  rw [← AList.mem_keys, ← AList.lookup_isSome, hrow]
  rfl

omit [DecidableEq κ] in
/-- Then a file clears its own key, and that of the row that it takes over. -/
theorem Clears.cases_of_apart (hapart : u.Apart collate t) (hf : f ∈ u.available.files)
    (hn : n ∈ u.names ++ t.keys) (h : u.Clears collate t f (collate n)) :
    f.name = n ∨ u.TakesRow t f n := by
  rcases h.cases with hkey | ⟨old, htakes, hkey⟩
  · exact .inl (hapart _ (List.mem_append_left _ (name_mem_names hf)) _ hn hkey)
  · have heq := hapart _ (List.mem_append_right _ htakes.mem_keys) _ hn hkey
    exact .inr (heq ▸ htakes)

omit [DecidableEq κ] in
/-- And keeps its row, if no file in front of it takes the same. -/
theorem keepsRow_of_apart (hapart : u.Apart collate t)
    (hmem : ∀ g ∈ before ++ f :: after, g ∈ u.available.files)
    (hnames : ((before ++ f :: after).map LocaleFile.name).Nodup)
    (hunique : ∀ old, u.TakesRow t f old → ∀ g ∈ before, ¬ u.TakesRow t g old) :
    u.KeepsRow collate t before f after := by
  have hf := hmem f (by simp)
  obtain ⟨hbefore, hafter⟩ := not_mem_names_of_split hnames
  have hname := List.mem_append_left t.keys (name_mem_names hf)
  have hfree {files : List (LocaleFile γ)} (hfiles : ∀ g ∈ files, g ∈ u.available.files)
      (hnot : f.name ∉ files.map LocaleFile.name) :
      ∀ g ∈ files, ¬ u.Clears collate t g (collate f.name) := by
    intro g hg hclears
    rcases hclears.cases_of_apart hapart (hfiles g hg) hname with heq | htakes
    · exact hnot (heq ▸ List.mem_map_of_mem hg)
    · exact htakes.orphan (name_mem_names hf)
  have hfree₁ := hfree (fun g hg => hmem g (List.mem_append_left _ hg)) hbefore
  refine ⟨hfree (fun g hg => hmem g (by simp [hg])) hafter, fun _ => hfree₁, ?_⟩
  intro old htakes
  have hold := List.mem_append_right u.names htakes.mem_keys
  refine ⟨fun hkey => htakes.ne hf (hapart _ hold _ hname hkey).symm, ?_⟩
  intro g hg hclears
  have hgmem := hmem g (List.mem_append_left _ hg)
  rcases hclears.cases_of_apart hapart hgmem hold with heq | htakes'
  · exact htakes.orphan (heq ▸ name_mem_names hgmem)
  · exact hunique old htakes g hg htakes'

omit [DecidableEq κ] in
/-- **If the table tells all names apart, every file keeps its row exactly if no two take
the same.** -/
theorem keepsRows_iff_of_apart (hapart : u.Apart collate t) :
    u.KeepsRows collate t ↔ ∀ f ∈ u.available.files, ∀ g ∈ u.available.files, ∀ old,
      u.TakesRow t f old → u.TakesRow t g old → f = g := by
  constructor
  · intro h f hf g hg old hftakes hgtakes
    by_contra hne
    have hbefore {f g : LocaleFile γ} (hg : g ∈ u.available.files) (hne : f ≠ g)
        (hftakes : u.TakesRow t f old) (hgtakes : u.TakesRow t g old)
        {before after : List (LocaleFile γ)} (horder : u.order = before ++ f :: after) :
        g ∈ after := by
      have hmem : g ∈ before ++ f :: after := horder ▸ mem_order.mpr hg
      rcases List.mem_append.mp hmem with hmem | hmem
      · exact absurd (clears_of_takesRow hgtakes)
          (((h.keeps before f after horder).taken old hftakes).2 g hmem)
      · exact (List.mem_cons.mp hmem).resolve_left (Ne.symm hne)
    obtain ⟨before, after, horder⟩ := List.append_of_mem (mem_order.mpr hf)
    obtain ⟨mid, after, rfl⟩ := List.append_of_mem (hbefore hg hne hftakes hgtakes horder)
    -- the second comes after the first, and the first after the second
    have horder' : u.order = (before ++ f :: mid) ++ g :: after := by
      rw [horder]
      simp
    have hafter := hbefore hf (Ne.symm hne) hgtakes hftakes horder'
    have hnodup := u.order_nodup
    rw [horder', List.nodup_append'] at hnodup
    exact hnodup.2.2 (by simp) (List.mem_cons_of_mem _ hafter)
  · intro hunique
    refine ⟨?_, ?_⟩
    · intro before f after horder
      have hmem : ∀ g ∈ before ++ f :: after, g ∈ u.available.files := fun g hg =>
        mem_order.mp (horder ▸ hg)
      have hnames := u.order_names_nodup
      rw [horder] at hnames
      refine keepsRow_of_apart hapart hmem hnames ?_
      intro old htakes g hg htakes'
      obtain rfl := hunique g (hmem g (List.mem_append_left _ hg)) f (hmem f (by simp)) old
        htakes' htakes
      exact (not_mem_names_of_split hnames).1 (List.mem_map_of_mem hg)
    · intro _ f hf hmem
      obtain ⟨n, hn, hkey⟩ := List.mem_map.mp hmem
      obtain ⟨hforeign, -, row, hrow, -⟩ := mem_missing.mp hn
      have hkeys : n ∈ t.keys := by
        rw [← AList.mem_keys, ← AList.lookup_isSome, hrow]
        rfl
      have heq := hapart _ (List.mem_append_right _ hkeys) _
        (List.mem_append_left _ (name_mem_names hf)) hkey
      exact hforeign (heq ▸ name_mem_names hf)

/-! ## Examples -/

/-- How names of ASCII characters are compared by default. -/
def ignoreCase (name : String) : List Char := name.toList.map Char.toLower

/-- An update with this content. -/
def sampleFile (name : String) : LocaleFile String := ⟨name, "SELECT 1;", .released⟩

/-- The default options; of the digests, only the one that is needed. -/
def sampleFetcher (available : LocaleFileStorage String) : UpdateFetcher String where
  available := available
  setDirectories := false
  redundancyChecks := true
  allowRehash := true
  archivedRedundancy := false
  cleanDeadReferencesMaxCount := 3
  sha1 content :=
    if content = "SELECT 1;" then "517305648B7323BF7793BED05A4F527376715093" else content

/-- A table with the row of one update. -/
def sampleUpdates (name hash : String) : UpdatesTable ignoreCase :=
  UpdatesTable.updateEntry ∅ name ⟨hash, .released⟩

/-- The row of the sample. -/
def sampleRow (name : String) : UpdatesTable ignoreCase :=
  sampleUpdates name "517305648B7323BF7793BED05A4F527376715093"

def oneFile : LocaleFileStorage String := ⟨[sampleFile "a.sql"], by simp⟩

def twoFiles : LocaleFileStorage String :=
  ⟨[sampleFile "a.sql", sampleFile "b.sql"], by
    rw [List.pairwise_pair, String.lt_iff_toList_lt]
    decide⟩

/-- One file that takes over the row of a file that is no longer there. -/
theorem update_idempotent_oneFile :
    ∃ s result, (sampleFetcher oneFile).update (fun _ => true) (sampleRow "old.sql")
        (sampleRow "old.sql").byName = .ok (s, result) ∧
      (∀ f ∈ oneFile.files, ∃ row, s.updates.lookup f.name = some row) ∧
        ∀ (applyFile' : LocaleFile String → Bool) (applied' : AppliedFileStorage),
          applied'.entries.Perm s.updates.byName.entries → ∃ s' result',
            (sampleFetcher oneFile).update applyFile' s.updates applied' = .ok (s', result') ∧
              s'.imported = [] := by
  have hrun : (sampleFetcher oneFile).update (fun _ => true) (sampleRow "old.sql")
    (sampleRow "old.sql").byName = .ok (_, _) := rfl
  have hapart : (sampleFetcher oneFile).Apart ignoreCase (sampleRow "old.sql").byName := by
    decide
  refine ⟨_, _, hrun, (update_idempotent_iff (List.Perm.refl _) hrun).mpr ?_⟩
  refine (keepsRows_iff_of_apart hapart).mpr ?_
  intro f hf g hg _ _ _
  rw [List.mem_singleton.mp hf, List.mem_singleton.mp hg]

/-- Two files that take the same row: the second has none, and is applied by the second
run.  And a file that is applied and whose row is deleted with that of another name. -/
theorem not_idempotent_twoFiles :
    (∃ s result, (sampleFetcher twoFiles).update (fun _ => true) (sampleRow "old.sql")
        (sampleRow "old.sql").byName = .ok (s, result) ∧
      s.updates.lookup "b.sql" = none ∧
      ∃ s' result', (sampleFetcher twoFiles).update (fun _ => true) s.updates s.updates.byName =
        .ok (s', result') ∧ s'.imported = ["b.sql"]) ∧
    ∃ s result, (sampleFetcher oneFile).update (fun _ => true) (sampleUpdates "A.sql" "")
        (sampleUpdates "A.sql" "").byName = .ok (s, result) ∧
      s.imported = ["a.sql"] ∧ s.updates.lookup "a.sql" = none := by
  exact ⟨⟨_, _, rfl, rfl, _, _, rfl, rfl⟩, _, _, rfl, rfl, rfl⟩

end WarheadDiscord.UpdateFetcher
