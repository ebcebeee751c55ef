import WarheadDiscord.Updater.RowOrder

/-!
# The row that comes first

In the order in which a row comes first (`promote`), the index leads every new file with its hash
to this row.  If the outcome is the same in any order, it is so in particular whichever of two
rows with the same hash comes first, and the two have to be interchangeable.

This needs that the new files and the rows that they may be led to have keys of their own
(`Distinguished`).  A file whose name has the same key may hide the difference, for instance by
replacing the row that was renamed in one order and the one that was left in the other.

## Main definitions

* `Distinguished` — the table tells the names apart that matter here.
* `promote` — the order in which a row comes first.
* `First` — the first new file with a hash.
* `SameInAnyOrder` — the outcome does not depend on the order of the rows.
-/

namespace WarheadDiscord.UpdateFetcher
variable {γ κ : Type} {collate : String → κ}

/-- A new file that may be led to a row of no file has a key of its own, and no file has the key
of the row. -/
def Distinguished (u : UpdateFetcher γ) (collate : String → κ) (applyFile : LocaleFile γ → Bool)
    (t : AppliedFileStorage) : Prop :=
  ∀ f ∈ u.visited applyFile t, t.lookup f.name = none → ∀ n, n ∉ u.names →
    HasHash t (u.sha1 f.content) n →
      u.Unnamed collate n ∧ (∀ g ∈ u.available.files, collate g.name = collate f.name → g = f) ∧
        ∀ m row, t.lookup m = some row → collate m ≠ collate f.name

variable {u : UpdateFetcher γ} {t : AppliedFileStorage} {f : LocaleFile γ} {n n' hash : String}
  {applyFile : LocaleFile γ → Bool}

/-! ## A row in front -/

/-- The rows in the order in which the row `n` comes first. -/
def promote (t : AppliedFileStorage) (n : String) (row : AppliedFileEntry) : AppliedFileStorage :=
  AList.insert n row t

section
variable {row row' : AppliedFileEntry}

theorem entries_promote (h : t.lookup n = some row) :
    ∃ l₁ l₂, t.entries = l₁ ++ ⟨n, row⟩ :: l₂ ∧
      (promote t n row).entries = ⟨n, row⟩ :: (l₁ ++ l₂) := by
  have hmem : n ∈ t.entries.keys := List.mem_keys_of_mem (AList.mem_lookup_iff.mp h)
  obtain ⟨row', l₁, l₂, -, hsplit, herase⟩ := List.exists_of_kerase hmem
  have hrow : t.lookup n = some row' := by
    refine AList.mem_lookup_iff.mpr ?_
    rw [hsplit]
    simp
  rw [h, Option.some.injEq] at hrow
  subst hrow
  exact ⟨l₁, l₂, hsplit, by rw [promote, AList.entries_insert, herase]⟩

theorem perm_promote (h : t.lookup n = some row) :
    (promote t n row).entries.Perm t.entries := by
  obtain ⟨l₁, l₂, ht, hp⟩ := entries_promote h
  rw [ht, hp]
  exact List.perm_middle.symm

theorem hashToName_promote (h : t.lookup n = some row) :
    (promote t n row).hashToName row.hash = some n := by
  obtain ⟨l₁, l₂, -, hp⟩ := entries_promote h
  rw [AppliedFileStorage.hashToName, hp]
  simp

theorem hashToName_promote_ne (h : t.lookup n = some row) (hne : hash ≠ row.hash) :
    (promote t n row).hashToName hash = t.hashToName hash := by
  obtain ⟨l₁, l₂, ht, hp⟩ := entries_promote h
  rw [AppliedFileStorage.hashToName, AppliedFileStorage.hashToName, hp, ht]
  simp [List.find?_append, hne.symm]

/-- The file is new, and has the hash. -/
def NewWith (u : UpdateFetcher γ) (t : AppliedFileStorage) (hash : String) (f : LocaleFile γ) :
    Prop :=
  t.lookup f.name = none ∧ u.sha1 f.content = hash

/-- The order makes a difference only to new files with the hash of the row. -/
theorem action_promote (h : t.lookup n = some row) (hf : ¬ u.NewWith t row.hash f) :
    u.action (promote t n row) f = u.action t f := by
  have hlookup : (promote t n row).lookup f.name = t.lookup f.name :=
    AList.perm_lookup (perm_promote h)
  cases hrow : t.lookup f.name with
  | some row' => exact action_eq_of_lookup hlookup (by rw [hrow]; simp)
  | none =>
      have hne : u.sha1 f.content ≠ row.hash := fun heq => hf ⟨hrow, heq⟩
      simp only [action, hlookup, hrow, hashToName_promote_ne h hne]

theorem takesRow_promote (h : t.lookup n = some row) (hn : n ∉ u.names)
    (hf : u.NewWith t row.hash f) : u.TakesRow (promote t n row) f n := by
  refine ⟨(AList.perm_lookup (perm_promote h)).trans hf.1, ?_, hn⟩
  rw [hf.2]
  exact hashToName_promote h

theorem apply_promote (h : t.lookup n = some row) (hn : n ∈ u.names)
    (hf : u.NewWith t row.hash f) : u.action (promote t n row) f = .apply := by
  have hlookup : (promote t n row).lookup f.name = none :=
    (AList.perm_lookup (perm_promote h)).trans hf.1
  have hindex : (promote t n row).hashToName (u.sha1 f.content) = some n := by
    rw [hf.2]
    exact hashToName_promote h
  simp only [action, hlookup, hindex, if_pos hn]

section
variable (h : t.lookup n = some row) (hn : n ∉ u.names)
  (hall : ∀ m, HasHash t row.hash m → m ∉ u.names)
include h hn hall

/-- If the rows with the hash belong to no files, the order makes a difference only to which
of them is taken over. -/
theorem action_promote_or_takesRow (f : LocaleFile γ) :
    u.action (promote t n row) f = u.action t f ∨
      (∃ old, u.TakesRow (promote t n row) f old) ∧ ∃ old, u.TakesRow t f old := by
  by_cases hf : u.NewWith t row.hash f
  · obtain ⟨m, hm⟩ := HasHash.hashToName_isSome ⟨row, h, rfl⟩
    refine .inr ⟨⟨n, takesRow_promote h hn hf⟩, m, hf.1, by rw [hf.2, hm], ?_⟩
    exact hall m (AppliedFileStorage.lookup_of_hashToName hm)
  · exact .inl (action_promote h hf)

theorem completes_promote_iff :
    u.Completes applyFile (promote t n row) ↔ u.Completes applyFile t := by
  have hstops : ∀ g, u.stops applyFile (promote t n row) g = u.stops applyFile t g := by
    intro g
    rcases action_promote_or_takesRow h hn hall g with heq | ⟨⟨old, htakes⟩, old', htakes'⟩
    · rw [stops, stops, heq]
    · simp [stops, action_eq_rename.mpr htakes, action_eq_rename.mpr htakes']
  rw [Completes, Completes, funext hstops]

theorem cleansUp_promote_iff : u.CleansUp (promote t n row) ↔ u.CleansUp t := by
  refine cleansUp_congr (length_leftover_eq (perm_promote h) (List.Perm.refl _) ?_)
  intro g _
  rcases action_promote_or_takesRow h hn hall g with heq | ⟨htakes, htakes'⟩
  · simp only [← action_eq_rename, heq]
  · exact ⟨fun _ => htakes', fun _ => htakes⟩

end

end

/-! ## The first new file -/

/-- The first new file with the hash, among those that a run comes to. -/
structure First (u : UpdateFetcher γ) (applyFile : LocaleFile γ → Bool) (t : AppliedFileStorage)
    (hash : String) (pre : List (LocaleFile γ)) (f : LocaleFile γ) (post : List (LocaleFile γ)) :
    Prop where
  order : u.order = pre ++ f :: post
  visited : f ∈ u.visited applyFile t
  newWith : u.NewWith t hash f
  before : ∀ g ∈ pre, ¬ u.NewWith t hash g
  passed : ∀ g ∈ pre, u.stops applyFile t g = false

theorem exists_first (hf : f ∈ u.visited applyFile t) (hnew : u.NewWith t hash f) :
    ∃ pre f post, u.First applyFile t hash pre f post := by
  classical
  have hsome : ((u.visited applyFile t).find? fun f => u.NewWith t hash f).isSome := by
    rw [List.find?_isSome]
    exact ⟨f, hf, by simpa using hnew⟩
  obtain ⟨f₁, hfind⟩ := Option.isSome_iff_exists.mp hsome
  rw [List.find?_eq_some_iff_append] at hfind
  obtain ⟨hnew₁, pre, post, hsplit, hpre⟩ := hfind
  rw [decide_eq_true_eq] at hnew₁
  refine ⟨pre, f₁, post ++ u.order.drop ((u.reached applyFile t).length + 1), ?_, ?_, hnew₁, ?_, ?_⟩
  · rw [← List.cons_append, ← List.append_assoc, ← hsplit, visited, List.take_append_drop]
  · rw [hsplit]
    simp
  · intro g hg
    simpa using hpre g hg
  · -- all files that the run comes to but the last are ones that it is done with
    intro g hg
    have hlen : pre.length ≤ (u.reached applyFile t).length := by
      have hle : (u.visited applyFile t).length ≤ (u.reached applyFile t).length + 1 :=
        List.length_take_le _ _
      rw [hsplit, List.length_append, List.length_cons] at hle
      omega
    have htaken : pre <+: u.reached applyFile t := by
      have hreached : u.reached applyFile t <+: u.order := List.takeWhile_prefix _
      refine List.prefix_of_prefix_length_le ?_ hreached hlen
      exact (List.prefix_append pre (f₁ :: post)).trans (hsplit ▸ List.take_prefix _ _)
    have hmem := List.mem_takeWhile_imp (htaken.subset hg)
    simpa using hmem

namespace First
variable {pre post : List (LocaleFile γ)} {row : AppliedFileEntry}

theorem mem_files (h : u.First applyFile t hash pre f post) : f ∈ u.available.files := by
  rw [← mem_order, h.order]
  simp

section
variable (h : u.First applyFile t row.hash pre f post) (hrow : t.lookup n = some row)
include h hrow

theorem reached_promote : u.reached applyFile (promote t n row) =
    pre ++ (f :: post).takeWhile fun g => !u.stops applyFile (promote t n row) g := by
  rw [reached, h.order, List.takeWhile_append_of_pos]
  intro g hg
  have hpassed := h.passed g hg
  rw [stops] at hpassed ⊢
  rw [action_promote hrow (h.before g hg), hpassed]
  rfl

/-- Led to a row of no file, the first file takes it over, and the run goes on. -/
theorem reached_takesRow (hn : n ∉ u.names) : u.reached applyFile (promote t n row) =
    pre ++ f :: post.takeWhile fun g => !u.stops applyFile (promote t n row) g := by
  have haction := action_eq_rename.mpr (takesRow_promote hrow hn h.newWith)
  rw [h.reached_promote hrow, List.takeWhile_cons]
  simp [stops, haction]

end

section
variable [DecidableEq κ] {updates : UpdatesTable collate}
  (h : u.First applyFile updates.byName row.hash pre f post)
  (hrow : updates.byName.lookup n = some row)
include h hrow

section
variable (hdistinct : u.Distinguished collate applyFile updates.byName) (hn : n ∉ u.names)
include hdistinct hn

omit [DecidableEq κ] in
theorem distinguished : u.Unnamed collate n ∧
    (∀ g ∈ u.available.files, collate g.name = collate f.name → g = f) ∧
      ∀ m row, updates.byName.lookup m = some row → collate m ≠ collate f.name :=
  hdistinct f h.visited h.newWith.1 n hn ⟨row, hrow, h.newWith.2.symm⟩

theorem lookup_takesRow :
    (final (u.update applyFile updates (promote updates.byName n row))).updates.lookup f.name =
      some row := by
  obtain ⟨hunnamed, hown, hother⟩ := h.distinguished hrow hdistinct hn
  have hperm := perm_promote hrow
  have hlookup : ∀ m, (promote updates.byName n row).lookup m = updates.byName.lookup m :=
    fun m => AList.perm_lookup hperm
  have hrows : ∀ m, (promote updates.byName n row).lookup m = updates.lookup m := fun m =>
    (hlookup m).trans (CollatedTable.lookup_byName updates m)
  have htakes := takesRow_promote hrow hn h.newWith
  have hreached := h.reached_takesRow hrow hn
  have hfiles : ∀ g ∈ u.reached applyFile (promote updates.byName n row),
      g ∈ u.available.files := fun _ => mem_files_of_reached
  have hnames : ((u.reached applyFile (promote updates.byName n row)).map LocaleFile.name).Nodup :=
    u.order_names_nodup.sublist ((List.takeWhile_sublist _).map _)
  -- when the loops are done, the file has the row
  have hdone : (u.performAll (promote updates.byName n row)
      (u.reached applyFile (promote updates.byName n row))
      ⟨updates, promote updates.byName n row, []⟩).updates.lookup f.name = some row := by
    rw [hreached] at hnames hfiles ⊢
    obtain ⟨-, hafter⟩ := not_mem_names_of_split hnames
    have hfind := find_of_kept hrows hunnamed ((hlookup n).trans hrow)
      (fun g hg => hfiles g (List.mem_append_left _ hg)) fun g hg htakes' =>
        h.before g hg ⟨(hlookup _).symm.trans htakes'.new,
          (htakes.sha1_eq htakes').trans h.newWith.2⟩
    have hself := lookup_perform_self (u := u) f
      (u.performAll (promote updates.byName n row) pre ⟨updates, promote updates.byName n row, []⟩)
      (.rename n)
    simp only [hfind, if_neg (Ne.symm (hunnamed f h.mem_files)), Option.map_some] at hself
    rw [performAll_append, performAll_cons, action_eq_rename.mpr htakes, ← hself]
    refine CollatedTable.lookup_congr (find_performAll fun g hg => ?_)
    have hg' := hfiles g (by simp [hg])
    have hkey : collate g.name ≠ collate f.name := fun hkey =>
      hafter (hown g hg' hkey ▸ List.mem_map_of_mem hg)
    refine ⟨?_, fun _ => hkey⟩
    intro hclears
    rcases hclears.cases with hkey' | ⟨old, htakes', hkey'⟩
    · exact hkey hkey'
    · obtain ⟨row', hrow', -⟩ := htakes'.hasHash
      exact hother old row' ((hlookup old).symm.trans hrow') hkey'
  by_cases hc : u.Completes applyFile (promote updates.byName n row)
  · rw [reached_eq_order hc] at hdone
    rw [final_of_completes hc, lookup_cleanUp, if_neg, hdone]
    rintro ⟨-, hmem⟩
    obtain ⟨m, hm, hkey⟩ := List.mem_map.mp hmem
    obtain ⟨-, -, row', hrow', -⟩ := mem_missing.mp hm
    exact hother m row' ((hlookup m).symm.trans hrow') hkey
  · rw [final_of_not_completes hc, hdone]

/-- Led to a row of no file, the first file takes it over and is not applied. -/
theorem outcome_rename :
    (final (u.update applyFile updates (promote updates.byName n row))).updates.lookup f.name =
        some row ∧
      (final (u.update applyFile updates (promote updates.byName n row))).updates.lookup n =
        none ∧
      f.name ∉ (final (u.update applyFile updates (promote updates.byName n row))).imported := by
  have htakes := takesRow_promote hrow hn h.newWith
  have hmem : f ∈ u.reached applyFile (promote updates.byName n row) := by
    rw [h.reached_takesRow hrow hn]
    simp
  refine ⟨h.lookup_takesRow hrow hdistinct hn, ?_, ?_⟩
  · have hgone : (u.performAll (promote updates.byName n row)
        (u.reached applyFile (promote updates.byName n row))
        ⟨updates, promote updates.byName n row, []⟩).updates.find (collate n) = none :=
      find_of_taken (h.distinguished hrow hdistinct hn).1 (fun _ => mem_files_of_reached) hmem
        htakes
    rw [CollatedTable.lookup]
    by_cases hc : u.Completes applyFile (promote updates.byName n row)
    · rw [reached_eq_order hc] at hgone
      rw [final_of_completes hc, find_cleanUp, hgone]
      simp
    · rw [final_of_not_completes hc, hgone]
      rfl
  · rw [imported_final, List.mem_map]
    rintro ⟨g, hg, hname⟩
    rw [List.mem_filter, decide_eq_true_eq] at hg
    have hgf := eq_of_name_eq (mem_files_of_reached hg.1) h.mem_files hname
    rw [hgf, action_eq_rename.mpr htakes] at hg
    exact absurd hg.2 (by simp)

end

/-- Led to a row of another file, the first file is applied, or stops the run. -/
theorem outcome_apply (hn : n ∈ u.names) :
    f.name ∈ (final (u.update applyFile updates (promote updates.byName n row))).imported ∨
      (final (u.update applyFile updates (promote updates.byName n row))).updates.lookup f.name =
        none := by
  have haction := apply_promote hrow hn h.newWith
  cases happly : applyFile f with
  | true =>
      refine .inl ?_
      rw [imported_final, List.mem_map]
      refine ⟨f, List.mem_filter.mpr ⟨?_, by simpa using haction⟩, rfl⟩
      rw [h.reached_promote hrow, List.takeWhile_cons]
      simp [stops, happly]
  | false =>
      refine .inr ?_
      have hstops : u.stops applyFile (promote updates.byName n row) f = true := by
        simp [stops, haction, happly]
      have hreached : u.reached applyFile (promote updates.byName n row) = pre := by
        rw [h.reached_promote hrow, List.takeWhile_cons]
        simp [hstops]
      have hc : ¬ u.Completes applyFile (promote updates.byName n row) := by
        rw [Completes, Bool.not_eq_false, List.any_eq_true]
        exact ⟨f, mem_order.mpr h.mem_files, hstops⟩
      have hnames := u.order_names_nodup
      rw [h.order] at hnames
      rw [final_of_not_completes hc, hreached]
      by_contra hthere
      refine ((lookup_performAll_ne_none_iff (not_mem_names_of_split hnames).1).mp hthere).1 ?_
      rw [← CollatedTable.lookup_byName]
      exact h.newWith.1

end

end First

section
variable [DecidableEq κ]

/-! ## All orders -/

/-- The outcome is the same in any order of the rows. -/
def SameInAnyOrder (u : UpdateFetcher γ) (applyFile : LocaleFile γ → Bool)
    (updates : UpdatesTable collate) : Prop :=
  ∀ applied applied' : AppliedFileStorage, applied.entries.Perm updates.byName.entries →
    applied'.entries.Perm updates.byName.entries →
      SameOutcome (final (u.update applyFile updates applied))
        (final (u.update applyFile updates applied'))

variable {updates : UpdatesTable collate}

section
variable (hdistinct : u.Distinguished collate applyFile updates.byName)
  (hsame : u.SameInAnyOrder applyFile updates) (hf : f ∈ u.visited applyFile updates.byName)
  (hnew : u.NewWith updates.byName hash f)
include hdistinct hsame hf hnew

/-- The rows that a new file may be led to belong all to files, or all to none. -/
theorem not_mem_names_of_hasHash (hn' : HasHash updates.byName hash n') (hforeign : n' ∉ u.names)
    (hn : HasHash updates.byName hash n) : n ∉ u.names := by
  intro hmem
  obtain ⟨row, hrow, rfl⟩ := hn
  obtain ⟨row', hrow', hhash⟩ := hn'
  obtain ⟨pre, f₁, post, hfirst⟩ := exists_first hf hnew
  have hfirst' : u.First applyFile updates.byName row'.hash pre f₁ post := by
    rw [hhash]
    exact hfirst
  obtain ⟨hlookup, -, himported⟩ := hfirst'.outcome_rename hrow' hdistinct hforeign
  have houtcome := hsame _ _ (perm_promote hrow) (perm_promote hrow')
  rcases hfirst.outcome_apply hrow hmem with happlied | hstopped
  · exact himported (houtcome.imported ▸ happlied)
  · rw [houtcome.updates, hlookup] at hstopped
    cases hstopped

/-- Of two rows of no file, the one that is left in one order is deleted in the end. -/
theorem cleansUp_of_sameInAnyOrder (hne : n ≠ n') (hn : HasHash updates.byName hash n)
    (hn' : HasHash updates.byName hash n') (hforeign : n ∉ u.names) (hforeign' : n' ∉ u.names) :
    u.Unnamed collate n ∧ u.Unnamed collate n' ∧
      updates.byName.lookup n = updates.byName.lookup n' ∧
      (∃ row, updates.byName.lookup n = some row ∧ row.state ≠ .module) ∧
      u.Completes applyFile updates.byName ∧ u.CleansUp updates.byName := by
  have hall : ∀ m, HasHash updates.byName hash m → m ∉ u.names := fun m =>
    not_mem_names_of_hasHash hdistinct hsame hf hnew hn hforeign
  obtain ⟨row, hrow, rfl⟩ := hn
  obtain ⟨row', hrow', hhash⟩ := hn'
  obtain ⟨pre, f₁, post, hfirst⟩ := exists_first hf hnew
  have hfirst' : u.First applyFile updates.byName row'.hash pre f₁ post := by
    rw [hhash]
    exact hfirst
  have hunnamed := (hfirst.distinguished hrow hdistinct hforeign).1
  have hunnamed' := (hfirst'.distinguished hrow' hdistinct hforeign').1
  obtain ⟨hlookup, hgone, -⟩ := hfirst.outcome_rename hrow hdistinct hforeign
  obtain ⟨hlookup', -, -⟩ := hfirst'.outcome_rename hrow' hdistinct hforeign'
  have hperm' := perm_promote hrow'
  have houtcome := hsame _ _ (perm_promote hrow) hperm'
  have hrows : row = row' := by
    rw [houtcome.updates, hlookup', Option.some.injEq] at hlookup
    exact hlookup.symm
  have hrow₁ : (promote updates.byName n' row').lookup n = some row :=
    (AList.perm_lookup hperm').trans hrow
  -- in the order with `n'` first, `n` is not taken over, and yet it is gone
  have hkept : ∀ g, ¬ u.TakesRow (promote updates.byName n' row') g n := by
    intro g htakes
    obtain ⟨row₀, hrow₀, hhash₀⟩ := htakes.hasHash
    rw [hrow₁, Option.some.injEq] at hrow₀
    subst hrow₀
    have hindex := htakes.index
    rw [← hhash₀, ← hhash, hashToName_promote hrow', Option.some.injEq] at hindex
    exact hne hindex.symm
  have hthere {done : List (LocaleFile γ)} (hdone : ∀ f ∈ done, f ∈ u.available.files) :
      (u.performAll (promote updates.byName n' row') done
        ⟨updates, promote updates.byName n' row', []⟩).updates.lookup n = some row := by
    rw [CollatedTable.lookup_eq_some]
    refine find_of_kept (fun m => ?_) hunnamed hrow₁ hdone fun g _ => hkept g
    exact (AList.perm_lookup hperm').trans (CollatedTable.lookup_byName updates m)
  have hall' : ∀ m, HasHash updates.byName row'.hash m → m ∉ u.names := by
    rw [hhash]
    exact hall
  rw [houtcome.updates] at hgone
  by_cases hc : u.Completes applyFile (promote updates.byName n' row')
  · rw [final_of_completes hc, lookup_cleanUp, hthere fun f hf => mem_order.mp hf] at hgone
    split at hgone
    · rename_i hcleans
      obtain ⟨hclean, hmem⟩ := hcleans
      obtain ⟨m, hm, hkey⟩ := List.mem_map.mp hmem
      obtain ⟨-, -, row₀, hrow₀, hstate⟩ := mem_missing.mp hm
      have hrow₀' : updates.byName.lookup m = some row₀ :=
        (AList.perm_lookup hperm').symm.trans hrow₀
      rw [CollatedTable.lookup_byName] at hrow₀'
      have hrow₂ := (CollatedTable.lookup_byName updates n).symm.trans hrow
      obtain rfl := CollatedTable.eq_of_key_eq hrow₀' hrow₂ hkey
      obtain rfl : row = row₀ := Option.some.inj (hrow₁.symm.trans hrow₀)
      -- the order of the table differs only in which of the rows is taken over
      refine ⟨hunnamed, hunnamed', by rw [hrow, hrow', hrows], ⟨row, hrow, hstate⟩, ?_, ?_⟩
      · exact (completes_promote_iff hrow' hforeign' hall').mp hc
      · exact (cleansUp_promote_iff hrow' hforeign' hall').mp hclean
    · cases hgone
  · rw [final_of_not_completes hc, hthere fun _ => mem_files_of_reached] at hgone
    cases hgone

end

/-- **The outcome does not depend on the order of the rows if the rows that a new file may be
led to are interchangeable, and only if they are**, unless the table confuses names. -/
theorem update_sameInAnyOrder_iff (u : UpdateFetcher γ) (applyFile : LocaleFile γ → Bool)
    (updates : UpdatesTable collate) :
    (u.OrderFree collate applyFile updates.byName → u.SameInAnyOrder applyFile updates) ∧
      (u.Distinguished collate applyFile updates.byName →
        (u.SameInAnyOrder applyFile updates ↔
          u.OrderFree collate applyFile updates.byName)) := by
  have henough (h : u.OrderFree collate applyFile updates.byName) :
      u.SameInAnyOrder applyFile updates := by
    intro applied applied' hperm hperm'
    have hfst := sameOutcome_of_orderFree h hperm
    have hsnd := sameOutcome_of_orderFree h hperm'
    exact ⟨hfst.imported.trans hsnd.imported.symm,
      fun n => (hfst.updates n).trans (hsnd.updates n).symm⟩
  refine ⟨henough, fun hdistinct => ⟨?_, henough⟩⟩
  intro hsame f hf hnew n n' hn hn'
  have hnewWith : u.NewWith updates.byName (u.sha1 f.content) f := ⟨hnew, rfl⟩
  by_cases hne : n = n'
  · exact .inl hne
  by_cases hmem : n ∈ u.names
  · by_cases hmem' : n' ∈ u.names
    · exact .inr (.inl ⟨hmem, hmem'⟩)
    · exact absurd hmem (not_mem_names_of_hasHash hdistinct hsame hf hnewWith hn' hmem' hn)
  · have hmem' : n' ∉ u.names :=
      not_mem_names_of_hasHash hdistinct hsame hf hnewWith hn hmem hn'
    exact .inr (.inr
      (cleansUp_of_sameInAnyOrder hdistinct hsame hf hnewWith hne hn hn' hmem hmem'))

end

/-! ## Example -/

/-- A file with its row, and a row of the same hash whose file is no longer there. -/
def copiedUpdates : UpdatesTable ignoreCase :=
  UpdatesTable.updateEntry (sampleRow "old.sql") "a.sql"
    ⟨"517305648B7323BF7793BED05A4F527376715093", .released⟩

/-- The new file `b.sql` is applied in one order, and takes over the row of `old.sql` in
the other. -/
theorem not_sameInAnyOrder_copy :
    ∃ s result s' result',
      (sampleFetcher twoFiles).update (fun _ => true) copiedUpdates copiedUpdates.byName =
        .ok (s, result) ∧
      (sampleFetcher twoFiles).update (fun _ => true) copiedUpdates
          (promote copiedUpdates.byName "old.sql"
            ⟨"517305648B7323BF7793BED05A4F527376715093", .released⟩) = .ok (s', result') ∧
      s.imported = ["b.sql"] ∧ s'.imported = [] ∧
      ¬ (sampleFetcher twoFiles).SameInAnyOrder (fun _ => true) copiedUpdates := by
  refine ⟨_, _, _, _, rfl, rfl, rfl, rfl, ?_⟩
  intro hsame
  have := (hsame copiedUpdates.byName (promote copiedUpdates.byName "old.sql"
    ⟨"517305648B7323BF7793BED05A4F527376715093", .released⟩) (List.Perm.refl _)
    (perm_promote rfl)).imported
  cases this

end WarheadDiscord.UpdateFetcher
