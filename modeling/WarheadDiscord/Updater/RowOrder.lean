import Mathlib.Data.Finset.Card
import WarheadDiscord.Updater.Idempotence

/-!
# When the order of the rows matters

The table is read in the order of the names, but the copy is an `unordered_map`, and the
index from hashes to names is filled in the order of the copy.  Of two rows with the same
hash the index has the one that comes first, so a new file may be led to either.  If one of
them belongs to a file and the other does not, the new file is applied in one order and
takes over a row in the other.  If neither does, one of the two rows is taken over and the
other is left.

`OrderFree` says when this makes no difference: the rows that a new file may be led to
all belong to files, or there is only one, or they are equal and what is left of them is
deleted in the end.  No file may have the key of such a row, as it would find it there in
one order and not in the other.

This is enough (`sameOutcome_of_orderFree`).

## Main definitions

* `SameOutcome` — the same files were applied, and the table has the same rows.
* `OrderFree` — the condition.
-/

namespace WarheadDiscord.UpdateFetcher
variable {γ κ : Type} {collate : String → κ}

/-- The same files were applied, and the table has the same rows. -/
structure SameOutcome [DecidableEq κ] (s s' : UpdateRun collate) : Prop where
  imported : s.imported = s'.imported
  updates : ∀ n, s.updates.lookup n = s'.updates.lookup n

/-- The files a run comes to: those it is done with, and the one that stops it. -/
def visited (u : UpdateFetcher γ) (applyFile : LocaleFile γ → Bool) (t : AppliedFileStorage) :
    List (LocaleFile γ) :=
  u.order.take ((u.reached applyFile t).length + 1)

/-- There is a row of this name and hash. -/
def HasHash (t : AppliedFileStorage) (hash n : String) : Prop :=
  ∃ row, t.lookup n = some row ∧ row.hash = hash

/-- No file has a name with the key of `n`. -/
def Unnamed (u : UpdateFetcher γ) (collate : String → κ) (n : String) : Prop :=
  ∀ f ∈ u.available.files, collate f.name ≠ collate n

/-- It makes no difference to which of the two rows a new file is led. -/
def Interchangeable (u : UpdateFetcher γ) (collate : String → κ)
    (applyFile : LocaleFile γ → Bool) (t : AppliedFileStorage) (n n' : String) : Prop :=
  n = n' ∨ (n ∈ u.names ∧ n' ∈ u.names) ∨
    (u.Unnamed collate n ∧ u.Unnamed collate n' ∧ t.lookup n = t.lookup n' ∧
      (∃ row, t.lookup n = some row ∧ row.state ≠ .module) ∧ u.Completes applyFile t ∧
      u.CleansUp t)

/-- The rows that a new file may be led to are interchangeable. -/
def OrderFree (u : UpdateFetcher γ) (collate : String → κ) (applyFile : LocaleFile γ → Bool)
    (t : AppliedFileStorage) : Prop :=
  ∀ f ∈ u.visited applyFile t, t.lookup f.name = none → ∀ n n',
    HasHash t (u.sha1 f.content) n → HasHash t (u.sha1 f.content) n' →
      u.Interchangeable collate applyFile t n n'

variable {u : UpdateFetcher γ} {base t a b : AppliedFileStorage} {f g : LocaleFile γ}
  {n n' old hash : String} {applyFile : LocaleFile γ → Bool} {files done : List (LocaleFile γ)}

theorem TakesRow.hasHash (h : u.TakesRow t f old) : HasHash t (u.sha1 f.content) old :=
  AppliedFileStorage.lookup_of_hashToName h.index

theorem HasHash.hashToName_isSome (h : HasHash t hash n) : ∃ n', t.hashToName hash = some n' := by
  obtain ⟨row, hrow, rfl⟩ := h
  exact AppliedFileStorage.hashToName_isSome hrow

theorem HasHash.of_perm (ha : a.entries.Perm t.entries) (h : HasHash a hash n) :
    HasHash t hash n := by
  obtain ⟨row, hrow, hhash⟩ := h
  exact ⟨row, (AList.perm_lookup ha).symm.trans hrow, hhash⟩

theorem Unnamed.not_mem_names (h : u.Unnamed collate n) : n ∉ u.names := by
  intro hn
  obtain ⟨f, hf, rfl⟩ := List.mem_map.mp hn
  exact h f hf rfl

/-! ## A row that no file has the key of -/

section
variable [DecidableEq κ] {updates : UpdatesTable collate} {row : AppliedFileEntry}
  (hrows : ∀ n, t.lookup n = updates.lookup n) (hn : u.Unnamed collate n)
  (hrow : t.lookup n = some row) (hdone : ∀ f ∈ done, f ∈ u.available.files)
include hrows hn hrow hdone

/-- It is there until it is taken over. -/
theorem find_of_kept (hkept : ∀ f ∈ done, ¬ u.TakesRow t f n) :
    (u.performAll t done ⟨updates, t, []⟩).updates.find (collate n) = some (n, row) := by
  have hfind : (u.performAll t done ⟨updates, t, []⟩).updates.find (collate n) =
      updates.find (collate n) := by
    refine find_performAll fun f hf => ⟨?_, fun _ => hn f (hdone f hf)⟩
    intro hclears
    rcases hclears.cases with hkey | ⟨old, htakes, hkey⟩
    · exact hn f (hdone f hf) hkey
    · exact hkept f hf (htakes.eq_of_collate_eq hrows hrow hkey ▸ htakes)
  rw [hfind, ← CollatedTable.lookup_eq_some, ← hrows]
  exact hrow

omit hrows hrow in
/-- And then nothing is there. -/
theorem find_of_taken (hf : f ∈ done) (htakes : u.TakesRow t f n) :
    (u.performAll t done ⟨updates, t, []⟩).updates.find (collate n) = none := by
  by_contra hfind
  obtain ⟨row, hfind⟩ := Option.ne_none_iff_exists'.mp hfind
  obtain ⟨g, hg, hname⟩ := exists_of_find_of_clears hfind hf (clears_of_takesRow htakes)
  refine hn g (hdone g hg) ?_
  rw [hname]
  exact CollatedTable.key_of_find _ hfind

end

/-! ## Two orders that agree -/

/-- In the two orders, the file takes over different rows, one of them `n`. -/
def Swaps (u : UpdateFetcher γ) (a b : AppliedFileStorage) (f : LocaleFile γ) (n : String) : Prop :=
  ∃ old old', u.TakesRow a f old ∧ u.TakesRow b f old' ∧ old ≠ old' ∧ (n = old ∨ n = old')

/-- Both orders lead to the same decision about the file, or to two rows that are equal. -/
def Agree (u : UpdateFetcher γ) (collate : String → κ) (a b : AppliedFileStorage)
    (f : LocaleFile γ) : Prop :=
  u.action a f = u.action b f ∨ ∃ old old', u.TakesRow a f old ∧ u.TakesRow b f old' ∧
    old ≠ old' ∧ b.lookup old = b.lookup old' ∧ u.Unnamed collate old ∧ u.Unnamed collate old'

theorem Agree.apply_iff (h : u.Agree collate a b f) :
    u.action a f = .apply ↔ u.action b f = .apply := by
  rcases h with heq | ⟨old, old', htakes, htakes', -⟩
  · rw [heq]
  · rw [action_eq_rename.mpr htakes, action_eq_rename.mpr htakes']
    simp

theorem Agree.stops_eq (h : u.Agree collate a b f) :
    u.stops applyFile a f = u.stops applyFile b f := by
  simp only [stops, h.apply_iff]

/-- Files with the same hash take over the same row. -/
theorem TakesRow.congr (h : u.TakesRow t f n) (hnew : t.lookup g.name = none)
    (hhash : u.sha1 g.content = u.sha1 f.content) : u.TakesRow t g n :=
  ⟨hnew, by rw [hhash]; exact h.index, h.orphan⟩

theorem TakesRow.sha1_eq (h : u.TakesRow t f n) (h' : u.TakesRow t g n) :
    u.sha1 g.content = u.sha1 f.content := by
  obtain ⟨row, hrow, hhash⟩ := h.hasHash
  obtain ⟨row', hrow', hhash'⟩ := h'.hasHash
  rw [hrow] at hrow'
  cases hrow'
  exact hhash'.symm.trans hhash

section
variable [DecidableEq κ] {updates : UpdatesTable collate}

/-- What is found when a file is dealt with depends on what was found under its key and under that
of the row that it takes over. -/
theorem find_perform_congr {s s' : UpdateRun collate} {action : FileAction} {k : κ}
    (h : s.updates.find k = s'.updates.find k)
    (hold : ∀ old, action = .rename old →
      s.updates.find (collate old) = s'.updates.find (collate old)) :
    (u.perform f s action).updates.find k = (u.perform f s' action).updates.find k := by
  cases action with
  | skip => exact h
  | updateState => simp only [perform, UpdatesTable.updateState, CollatedTable.find_modify, h]
  | rehash => simp only [perform, UpdatesTable.updateEntry, CollatedTable.find_replace, h]
  | apply => simp only [perform, UpdatesTable.updateEntry, CollatedTable.find_replace, h]
  | rename old =>
      simp only [perform, UpdatesTable.renameEntry, CollatedTable.find_rename, h, hold old rfl]

variable (ha : ∀ n, a.lookup n = updates.lookup n) (hb : ∀ n, b.lookup n = updates.lookup n)
include ha hb

/-- A row that both runs take over for a file is not swapped. -/
theorem ne_of_swaps {old : String} (htakes : u.TakesRow a f old) (htakes' : u.TakesRow b f old) :
    ∀ g n, u.Swaps a b g n → collate n ≠ collate old := by
  rintro g n ⟨m, m', hgtakes, hgtakes', hne, hnm⟩ hkey
  obtain ⟨row, hrow, -⟩ := htakes.hasHash
  rcases hnm with rfl | rfl
  · obtain rfl := hgtakes.eq_of_collate_eq ha hrow hkey
    have htwice := htakes'.congr hgtakes'.new (htakes.sha1_eq hgtakes)
    exact hne (hgtakes'.unique htwice)
  · have hrow' := (hb _).trans ((ha _).symm.trans hrow)
    obtain rfl := hgtakes'.eq_of_collate_eq hb hrow' hkey
    have htwice := htakes.congr hgtakes.new (htakes'.sha1_eq hgtakes')
    exact hne (htwice.unique hgtakes)

/-- The rows that are swapped for a file are both there, each in its run, or both taken over by the
same file before. -/
theorem find_of_swaps {old old' : String} (hdone : ∀ f ∈ done, f ∈ u.available.files)
    (htakes : u.TakesRow a f old) (htakes' : u.TakesRow b f old')
    (hequal : b.lookup old = b.lookup old') (hn : u.Unnamed collate old)
    (hn' : u.Unnamed collate old') :
    ((u.performAll a done ⟨updates, a, []⟩).updates.find (collate old)).map Prod.snd =
      ((u.performAll b done ⟨updates, b, []⟩).updates.find (collate old')).map Prod.snd := by
  have hsame (n : String) : a.lookup n = b.lookup n := (ha n).trans (hb n).symm
  obtain ⟨row, hrow, -⟩ := htakes.hasHash
  have hrow' : b.lookup old' = some row := hequal.symm.trans ((hsame old).symm.trans hrow)
  by_cases htaken : ∃ g ∈ done, u.TakesRow a g old
  · obtain ⟨g, hg, hgtakes⟩ := htaken
    have hgtakes' := htakes'.congr ((hsame _).symm.trans hgtakes.new) (htakes.sha1_eq hgtakes)
    rw [find_of_taken hn hdone hg hgtakes, find_of_taken hn' hdone hg hgtakes']
  · have hkept : ∀ g ∈ done, ¬ u.TakesRow a g old := fun g hg hgtakes => htaken ⟨g, hg, hgtakes⟩
    have hkept' : ∀ g ∈ done, ¬ u.TakesRow b g old' := by
      intro g hg hgtakes'
      exact hkept g hg (htakes.congr ((hsame _).trans hgtakes'.new) (htakes'.sha1_eq hgtakes'))
    rw [find_of_kept ha hn hrow hdone hkept, find_of_kept hb hn' hrow' hdone hkept']
    rfl

/-- **Both runs find the same, except under the keys of the rows that are swapped.** -/
theorem find_performAll_of_agree (hdone : ∀ f ∈ done, f ∈ u.available.files)
    (hagree : ∀ f ∈ done, u.Agree collate a b f) {k : κ}
    (hk : ∀ f ∈ done, ∀ n, u.Swaps a b f n → collate n ≠ k) :
    (u.performAll a done ⟨updates, a, []⟩).updates.find k =
      (u.performAll b done ⟨updates, b, []⟩).updates.find k := by
  induction done using List.reverseRecOn generalizing k with
  | nil => rfl
  | append_singleton done f ih =>
      have hdone' : ∀ g ∈ done, g ∈ u.available.files := fun g hg =>
        hdone g (List.mem_append_left _ hg)
      have ih {k : κ} (hk : ∀ g ∈ done, ∀ n, u.Swaps a b g n → collate n ≠ k) :=
        ih hdone' (fun g hg => hagree g (List.mem_append_left _ hg)) hk
      have hsame := ih fun g hg => hk g (List.mem_append_left _ hg)
      rw [performAll_append, performAll_append, performAll_cons, performAll_cons]
      change (u.perform f _ (u.action a f)).updates.find k =
        (u.perform f _ (u.action b f)).updates.find k
      rcases hagree f (by simp) with heq | ⟨old, old', htakes, htakes', hne, hequal, hn, hn'⟩
      · rw [heq]
        refine find_perform_congr hsame ?_
        intro old haction
        have htakes' := action_eq_rename.mp haction
        have htakes := action_eq_rename.mp (heq.trans haction)
        exact ih fun g _ n => ne_of_swaps ha hb htakes htakes' g n
      · have hrenamed := find_of_swaps ha hb hdone' htakes htakes' hequal hn hn'
        have hswaps := hk f (by simp)
        have hold := hswaps old ⟨old, old', htakes, htakes', hne, .inl rfl⟩
        have hold' := hswaps old' ⟨old, old', htakes, htakes', hne, .inr rfl⟩
        have hf := hdone f (by simp)
        rw [action_eq_rename.mpr htakes, action_eq_rename.mpr htakes']
        simp only [perform, UpdatesTable.renameEntry, CollatedTable.find_rename,
          if_neg (Ne.symm hold), if_neg (Ne.symm hold'), if_neg (Ne.symm (hn f hf)),
          if_neg (Ne.symm (hn' f hf)), hsame]
        split
        · have hmap := congrArg (Option.map (Prod.mk f.name)) hrenamed
          rw [Option.map_map, Option.map_map] at hmap
          exact hmap
        · rfl

end

/-- What stops two runs is the same file, if it is the same as far as one of them comes. -/
theorem takeWhile_eq_of_visited {α : Type} {p q : α → Bool} {l : List α}
    (h : ∀ x ∈ l.take ((l.takeWhile p).length + 1), q x = p x) :
    l.takeWhile q = l.takeWhile p := by
  induction l with
  | nil => rfl
  | cons x l ih =>
      have hx : q x = p x := h x (by simp)
      cases hp : p x with
      | true =>
          rw [List.takeWhile_cons, List.takeWhile_cons, hx, hp]
          simp only [if_true, List.cons.injEq, true_and]
          refine ih ?_
          intro y hy
          refine h y ?_
          rw [List.takeWhile_cons, hp]
          exact List.mem_cons_of_mem _ hy
      | false => simp [hx, hp]

theorem mem_visited_of_reached (hf : f ∈ u.reached applyFile t) : f ∈ u.visited applyFile t := by
  have htaken : u.reached applyFile t = u.order.take (u.reached applyFile t).length :=
    List.prefix_iff_eq_take.mp (List.takeWhile_prefix _)
  rw [htaken] at hf
  exact (List.take_prefix_take_left (Nat.le_succ _)).subset hf

/-- The rows of no file. -/
def foreignRows (u : UpdateFetcher γ) (base : AppliedFileStorage) : Finset String :=
  base.keys.toFinset.filter fun n => n ∉ u.names

/-- The rows that are taken over, with the copy in the order `t`. -/
def takenRows (u : UpdateFetcher γ) (base t : AppliedFileStorage) : Finset String :=
  (u.foreignRows base).filter fun n => ∃ f ∈ u.available.files, u.action t f = .rename n

theorem mem_foreignRows_of_takesRow (ha : a.entries.Perm base.entries)
    (h : u.TakesRow a f old) : old ∈ u.foreignRows base := by
  obtain ⟨row, hrow, -⟩ := h.hasHash
  rw [AList.perm_lookup ha] at hrow
  rw [foreignRows, Finset.mem_filter, List.mem_toFinset, ← AList.mem_keys, ← AList.lookup_isSome,
    hrow]
  exact ⟨rfl, h.orphan⟩

theorem length_leftover (ha : a.entries.Perm base.entries) :
    (u.takenRows base a).card + (u.leftover a).length = (u.foreignRows base).card := by
  have hnodup : (u.leftover a).Nodup := a.keys_nodup.filter _
  have hleft : (u.leftover a).toFinset = (u.foreignRows base).filter fun n =>
      ¬ ∃ f ∈ u.available.files, u.action a f = .rename n := by
    ext n
    have hkeys : n ∈ a.keys ↔ n ∈ base.keys := (ha.map Sigma.fst).mem_iff
    simp only [leftover, foreignRows, List.mem_toFinset, List.mem_filter, Finset.mem_filter,
      decide_eq_true_eq, hkeys, not_exists, not_and, and_assoc, ne_eq]
  rw [← List.toFinset_card_of_nodup hnodup, hleft, takenRows]
  exact Finset.card_filter_add_card_filter_not _

/-- The number of rows that are left depends only on which files take over rows. -/
theorem length_leftover_eq (ha : a.entries.Perm base.entries)
    (hb : b.entries.Perm base.entries)
    (htakes : ∀ f ∈ u.available.files,
      (∃ old, u.TakesRow a f old) ↔ ∃ old, u.TakesRow b f old) :
    (u.leftover a).length = (u.leftover b).length := by
  -- a row that is taken over is determined by its hash, which is that of the file
  let hash : String → Option String := fun n => (base.lookup n).map AppliedFileEntry.hash
  have hhash {t : AppliedFileStorage} (ht : t.entries.Perm base.entries) {f : LocaleFile γ}
      {n : String} (h : u.TakesRow t f n) : hash n = some (u.sha1 f.content) := by
    obtain ⟨row, hrow, hhash⟩ := h.hasHash
    rw [AList.perm_lookup ht] at hrow
    simp only [hash, hrow, Option.map_some, hhash]
  have himage {t t' : AppliedFileStorage} (ht : t.entries.Perm base.entries)
      (ht' : t'.entries.Perm base.entries)
      (h : ∀ f ∈ u.available.files, (∃ old, u.TakesRow t f old) → ∃ old, u.TakesRow t' f old) :
      (u.takenRows base t).image hash ⊆ (u.takenRows base t').image hash := by
    intro x hx
    obtain ⟨n, hn, rfl⟩ := Finset.mem_image.mp hx
    obtain ⟨-, f, hf, haction⟩ := Finset.mem_filter.mp hn
    have htakes := action_eq_rename.mp haction
    obtain ⟨n', htakes'⟩ := h f hf ⟨n, htakes⟩
    refine Finset.mem_image.mpr ⟨n', Finset.mem_filter.mpr ⟨?_, f, hf, ?_⟩, ?_⟩
    · exact mem_foreignRows_of_takesRow ht' htakes'
    · exact action_eq_rename.mpr htakes'
    · rw [hhash ht' htakes', hhash ht htakes]
  have hcard {t : AppliedFileStorage} (ht : t.entries.Perm base.entries) :
      ((u.takenRows base t).image hash).card = (u.takenRows base t).card := by
    refine Finset.card_image_of_injOn ?_
    intro n hn n' hn' heq
    obtain ⟨-, f, -, haction⟩ := Finset.mem_filter.mp hn
    obtain ⟨-, f', -, haction'⟩ := Finset.mem_filter.mp hn'
    have htakes := action_eq_rename.mp haction
    have htakes' := action_eq_rename.mp haction'
    change hash n = hash n' at heq
    rw [hhash ht htakes, hhash ht htakes', Option.some.injEq] at heq
    have hindex := htakes.index
    rw [heq, htakes'.index, Option.some.injEq] at hindex
    exact hindex.symm
  have hsame : (u.takenRows base a).card = (u.takenRows base b).card := by
    rw [← hcard ha, ← hcard hb]
    refine congrArg Finset.card (Finset.Subset.antisymm ?_ ?_)
    · exact himage ha hb fun f hf => (htakes f hf).mp
    · exact himage hb ha fun f hf => (htakes f hf).mpr
  have hla := length_leftover (u := u) ha
  have hlb := length_leftover (u := u) hb
  omega

theorem cleansUp_congr (h : (u.leftover a).length = (u.leftover b).length) :
    u.CleansUp a ↔ u.CleansUp b := by
  rw [CleansUp, CleansUp, h]

/-! ## The condition is enough -/

section
variable (h : u.OrderFree collate applyFile t) (ha : a.entries.Perm t.entries)
include h ha

/-- A file that swaps two rows has interchangeable ones. -/
theorem interchangeable_of_swaps (hf : f ∈ u.visited applyFile t) (hn : u.TakesRow a f n)
    (hn' : u.TakesRow t f n') : u.Interchangeable collate applyFile t n n' :=
  h f hf hn'.new n n' (hn.hasHash.of_perm ha) hn'.hasHash

theorem agree_of_orderFree (hf : f ∈ u.visited applyFile t) : u.Agree collate a t f := by
  have hla : ∀ n, a.lookup n = t.lookup n := fun n => AList.perm_lookup ha
  cases hrow : t.lookup f.name with
  | some row => exact .inl (action_eq_of_lookup (hla _) (by rw [hrow]; simp))
  | none =>
      have hnew : a.lookup f.name = none := (hla _).trans hrow
      cases hindex : a.hashToName (u.sha1 f.content) with
      | none =>
          cases hindex' : t.hashToName (u.sha1 f.content) with
          | none => exact .inl (by simp only [action, hnew, hrow, hindex, hindex'])
          | some n =>
              have hhash : HasHash t (u.sha1 f.content) n :=
                AppliedFileStorage.lookup_of_hashToName hindex'
              obtain ⟨n', hn'⟩ := (hhash.of_perm ha.symm).hashToName_isSome
              rw [hindex] at hn'
              cases hn'
      | some n =>
          have hhash : HasHash t (u.sha1 f.content) n :=
            HasHash.of_perm ha (AppliedFileStorage.lookup_of_hashToName hindex)
          obtain ⟨n', hindex'⟩ := hhash.hashToName_isSome
          by_cases hne : n = n'
          · exact .inl (by simp only [action, hnew, hrow, hindex, hindex', hne])
          rcases h f hf hrow n n' hhash (AppliedFileStorage.lookup_of_hashToName hindex') with
            heq | ⟨hmem, hmem'⟩ | ⟨hn, hn', hrows, -⟩
          · exact absurd heq hne
          · exact .inl (by simp only [action, hnew, hrow, hindex, hindex', if_pos hmem,
              if_pos hmem'])
          · exact .inr ⟨n, n', ⟨hnew, hindex, hn.not_mem_names⟩, ⟨hrow, hindex', hn'.not_mem_names⟩,
              hne, hrows, hn, hn'⟩

theorem reached_eq_of_orderFree : u.reached applyFile a = u.reached applyFile t :=
  takeWhile_eq_of_visited fun f hf => by rw [(agree_of_orderFree h ha hf).stops_eq]

theorem completes_iff_of_orderFree : u.Completes applyFile a ↔ u.Completes applyFile t := by
  have hiff (t : AppliedFileStorage) :
      u.Completes applyFile t ↔ u.reached applyFile t = u.order := by
    rw [Completes, reached, List.takeWhile_eq_self_iff, List.any_eq_false]
    simp
  rw [hiff, hiff, reached_eq_of_orderFree h ha]

omit h ha in
theorem mem_visited_of_completes (hc : u.Completes applyFile t) (hf : f ∈ u.available.files) :
    f ∈ u.visited applyFile t := by
  refine mem_visited_of_reached ?_
  rw [reached_eq_order hc]
  exact mem_order.mpr hf

theorem cleansUp_iff_of_orderFree (hc : u.Completes applyFile t) :
    u.CleansUp a ↔ u.CleansUp t := by
  refine cleansUp_congr (length_leftover_eq ha (List.Perm.refl _) ?_)
  intro f hf
  rcases agree_of_orderFree h ha (mem_visited_of_completes hc hf) with
    heq | ⟨old, old', htakes, htakes', -⟩
  · simp only [← action_eq_rename, heq]
  · exact ⟨fun _ => ⟨old', htakes'⟩, fun _ => ⟨old, htakes⟩⟩

/-- A row that is swapped goes in the end, and so does the other. -/
theorem Swaps.spec (hf : f ∈ u.visited applyFile t) (hswaps : u.Swaps a t f n) :
    u.Unnamed collate n ∧ (∃ row, t.lookup n = some row ∧ row.state ≠ .module) ∧
      u.Completes applyFile t ∧ u.CleansUp t := by
  obtain ⟨old, old', htakes, htakes', hne, hn⟩ := hswaps
  rcases interchangeable_of_swaps h ha hf htakes htakes' with
    heq | ⟨hmem, -⟩ | ⟨hunnamed, hunnamed', hrows, hrow, hcompletes, hclean⟩
  · exact absurd heq hne
  · exact absurd hmem htakes.orphan
  · rcases hn with rfl | rfl
    · exact ⟨hunnamed, hrow, hcompletes, hclean⟩
    · exact ⟨hunnamed', hrows ▸ hrow, hcompletes, hclean⟩

/-- Unless it is swapped, a missing update is one in both orders. -/
theorem mem_missing_iff_of_orderFree (hc : u.Completes applyFile t)
    (hn : ∀ f ∈ u.available.files, ¬ u.Swaps a t f n) : n ∈ u.missing a ↔ n ∈ u.missing t := by
  have htakes {f : LocaleFile γ} (hf : f ∈ u.available.files) :
      u.TakesRow a f n ↔ u.TakesRow t f n := by
    rcases agree_of_orderFree h ha (mem_visited_of_completes hc hf) with
      heq | ⟨old, old', htakes, htakes', hne, -⟩
    · rw [← action_eq_rename, ← action_eq_rename, heq]
    · have hswaps : n = old ∨ n = old' → False := fun heq =>
        hn f hf ⟨old, old', htakes, htakes', hne, heq⟩
      constructor
      · intro h
        exact (hswaps (.inl (htakes.unique h))).elim
      · intro h
        exact (hswaps (.inr (htakes'.unique h))).elim
  rw [mem_missing, mem_missing, AList.perm_lookup ha]
  have hkept : (∀ f ∈ u.available.files, ¬ u.TakesRow a f n) ↔
      ∀ f ∈ u.available.files, ¬ u.TakesRow t f n :=
    forall₂_congr fun f hf => not_congr (htakes hf)
  rw [hkept]

end

section
variable [DecidableEq κ] {updates : UpdatesTable collate}

/-- A row that is swapped is gone in the end. -/
theorem find_final_of_swaps {row : AppliedFileEntry} (hn : u.Unnamed collate n)
    (hrow : a.lookup n = some row) (hstate : row.state ≠ .module) (hclean : u.CleansUp a) :
    (u.cleanUpDeadReferences (u.performAll a u.order ⟨updates, a, []⟩)).updates.find (collate n) =
      none := by
  rw [find_cleanUp]
  split
  · rfl
  · rename_i hkept
    by_cases htaken : ∃ f ∈ u.order, u.TakesRow a f n
    · obtain ⟨f, hf, htakes⟩ := htaken
      exact find_of_taken hn (fun f hf => mem_order.mp hf) hf htakes
    · refine absurd ⟨hclean, List.mem_map_of_mem (mem_missing.mpr ?_)⟩ hkept
      exact ⟨hn.not_mem_names, fun f hf htakes => htaken ⟨f, mem_order.mpr hf, htakes⟩, row, hrow,
        hstate⟩

/-- If the rows are interchangeable, any order gives what the order of the table gives. -/
theorem sameOutcome_of_orderFree (h : u.OrderFree collate applyFile updates.byName)
    (ha : a.entries.Perm updates.byName.entries) :
    SameOutcome (final (u.update applyFile updates a))
      (final (u.update applyFile updates updates.byName)) := by
  have hla : ∀ n, a.lookup n = updates.byName.lookup n := fun n => AList.perm_lookup ha
  have hb : ∀ n, updates.byName.lookup n = updates.lookup n := CollatedTable.lookup_byName updates
  have ha' : ∀ n, a.lookup n = updates.lookup n := fun n => (hla n).trans (hb n)
  have hreached := reached_eq_of_orderFree h ha
  have hagree : ∀ f ∈ u.reached applyFile updates.byName,
      u.Agree collate a updates.byName f := fun f hf =>
    agree_of_orderFree h ha (mem_visited_of_reached hf)
  have hsame {k : κ} (hk : ∀ f ∈ u.reached applyFile updates.byName, ∀ n,
      u.Swaps a updates.byName f n → collate n ≠ k) :=
    find_performAll_of_agree ha' hb (fun f hf => mem_files_of_reached hf) hagree hk
  refine ⟨?_, fun n => CollatedTable.lookup_congr ?_⟩
  · rw [imported_final, imported_final, hreached]
    refine congrArg (List.map LocaleFile.name) (List.filter_congr ?_)
    intro f hf
    simp only [(hagree f hf).apply_iff]
  by_cases hc : u.Completes applyFile updates.byName
  · have hc' := (completes_iff_of_orderFree h ha).mpr hc
    rw [final_of_completes hc, final_of_completes hc']
    rw [reached_eq_order hc] at hsame
    by_cases hk : ∃ f ∈ u.order, ∃ m, u.Swaps a updates.byName f m ∧ collate m = collate n
    · -- a row that is swapped is gone in both orders
      obtain ⟨f, hf, m, hswaps, hkey⟩ := hk
      have hf := mem_visited_of_completes hc (mem_order.mp hf)
      obtain ⟨hm, ⟨row, hrow, hstate⟩, -, hclean⟩ := hswaps.spec h ha hf
      have hclean' := (cleansUp_iff_of_orderFree h ha hc).mpr hclean
      rw [← hkey, find_final_of_swaps hm ((hla m).trans hrow) hstate hclean',
        find_final_of_swaps hm hrow hstate hclean]
    · have hk : ∀ f ∈ u.order, ∀ m, u.Swaps a updates.byName f m → collate m ≠ collate n :=
        fun f hf m hswaps hkey => hk ⟨f, hf, m, hswaps, hkey⟩
      rw [find_cleanUp, find_cleanUp, hsame hk]
      have hmissing : collate n ∈ (u.missing a).map collate ↔
          collate n ∈ (u.missing updates.byName).map collate := by
        rw [List.mem_map, List.mem_map]
        refine exists_congr fun m => and_congr_left fun hkey => ?_
        refine mem_missing_iff_of_orderFree h ha hc fun f hf hswaps => ?_
        exact hk f (mem_order.mpr hf) m hswaps hkey
      simp only [cleansUp_iff_of_orderFree h ha hc, hmissing]
  · have hc' : ¬ u.Completes applyFile a := fun hc' =>
      hc ((completes_iff_of_orderFree h ha).mp hc')
    rw [final_of_not_completes hc, final_of_not_completes hc', hreached]
    refine hsame fun f hf m hswaps => ?_
    exact absurd (hswaps.spec h ha (mem_visited_of_reached hf)).2.2.1 hc

end

end WarheadDiscord.UpdateFetcher
