import WarheadDiscord.Database.PoolOpen

/-!
# Program order of asynchronous statements

`Execute` puts a statement in the queue of the pool and returns.  Each worker takes
statements off the queue on its own and runs them on its own connection, so the order
of two statements is the order in which their workers come to run them.

With one worker the tickets executed, the one in its hand and the queue are together
the tickets in the order they were given out (`InLine`), and everything a caller may
expect of the order follows.  With two workers the second statement can overtake the
first (`overtaken`).

How many workers there are is not what the configuration says: an attempt to open the
pool that fails at a synchronous connection leaves its workers behind, and the next
attempt adds its own (`workers_of_openedBy`).  After an attempt that fails at an
asynchronous connection the queue is shut down, and nothing is executed in any order
(`Stalled`).  `keepsProgramOrder_iff` puts all this together.

The statements are those of `BanMgr::BanAccount` and `AccountMgr::CreateAccount`; the
tables are as much of the database as these touch.

## Main definitions

* `Statement`, `Tables` — statements and what they do.
* `banAccount`, `createAccount` — what the two functions enqueue.
* `OpenedBy` — the states after some attempts to open the pool.
* `KeepsProgramOrder` — what callers rely on, for such a pool.
-/

namespace WarheadDiscord

/-- The statements that matter here. -/
inductive Statement
  /-- `DISCORD_DEL_BAN_ACCOUNT` -/
  | deleteAccountBan (accountID : ℕ)
  /-- `DISCORD_INS_ACCOUNT_BAN` -/
  | insertAccountBan (accountID duration : ℕ)
  /-- `DISCORD_INS_ACCOUNT` -/
  | insertAccount (name : String)
  /-- `DISCORD_SEL_ACCOUNT_ID_BY_USERNAME` -/
  | selectAccountID (name : String)
  /-- A statement that does not touch the two tables. -/
  | other
  deriving DecidableEq, Repr

/-- A row of `account_banned`. -/
structure AccountBan where
  id : ℕ
  bandate : ℕ
  unbandate : ℕ
  deriving DecidableEq, Repr

/-- `account_banned`, and the names in `account`. -/
structure Tables where
  accountBanned : List AccountBan
  accounts : List String
  deriving DecidableEq, Repr

/-- There is a row with this primary key. -/
def Tables.HasBan (tables : Tables) (accountID bandate : ℕ) : Prop :=
  ∃ row ∈ tables.accountBanned, row.id = accountID ∧ row.bandate = bandate

/-- What a statement does at `now`.  `id` and `bandate` are the primary key of
`account_banned`. -/
def Tables.execute (tables : Tables) (now : ℕ) : Statement → Tables
  | .deleteAccountBan accountID =>
      { tables with accountBanned := tables.accountBanned.filter fun row => row.id ≠ accountID }
  | .insertAccountBan accountID duration =>
      if ∃ row ∈ tables.accountBanned, row.id = accountID ∧ row.bandate = now then tables
      else
        { tables with
          accountBanned := tables.accountBanned ++ [⟨accountID, now, now + duration⟩] }
  | .insertAccount name => { tables with accounts := tables.accounts ++ [name] }
  | .selectAccountID _ => tables
  | .other => tables

namespace Pool

/-- The enqueues of `BanMgr::BanAccount`: `DeleteAccount` sends its statement only if a
ban of the account is remembered. -/
def banAccount (thread : ℕ) (remembered : Bool) (accountID duration : ℕ) :
    List (Label Statement) :=
  (if remembered then [.push thread (.deleteAccountBan accountID)] else []) ++
    [.push thread (.insertAccountBan accountID duration)]

/-- The enqueues of `AccountMgr::CreateAccount`. -/
def createAccount (thread : ℕ) (name : String) : List (Label Statement) :=
  [.push thread (.insertAccount name), .push thread (.selectAccountID name)]

section
variable {α : Type}

/-- The thread that enqueued a ticket. -/
def threadOf (s : Pool α) (ticket : ℕ) : Option ℕ := s.pushed[ticket]?.map Prod.fst

/-- Whatever was executed, the operations its thread had enqueued before had been
executed by then. -/
def InOrder (s : Pool α) : Prop :=
  ∀ pre t now post, s.executed = pre ++ (t, now) :: post →
    ∀ i < t, s.threadOf i = s.threadOf t → i ∈ pre.map Prod.fst

/-- The queue is empty and no worker is busy. -/
structure IsDrained (s : Pool α) : Prop where
  ops : s.ops = []
  workers : ∀ w ∈ s.workers, w.pc = .waiting

end

/-- The statement with a ticket. -/
def statement (s : Pool Statement) (ticket : ℕ) : Statement :=
  (s.pushed[ticket]?.map Prod.snd).getD .other

/-- The tables after a sequence of executions. -/
def tables (s : Pool Statement) (initial : Tables) (executed : List (ℕ × ℕ)) : Tables :=
  executed.foldl (fun tables e => tables.execute e.2 (s.statement e.1)) initial

/-- What callers expect of a ban with the ticket `j` that no later statement deletes. -/
structure BanKept (s : Pool Statement) (initial : Tables) (j accountID duration : ℕ) : Prop where
  /-- Once the queue is drained the ban was inserted, and the row is in the table as it was
  inserted; the primary key refuses it only if there was a row with its key at that time. -/
  drained : s.IsDrained → ∃ pre now post, s.executed = pre ++ (j, now) :: post ∧
    ((s.tables initial pre).HasBan accountID now ∨
      ⟨accountID, now, now + duration⟩ ∈ (s.tables initial s.executed).accountBanned)
  /-- There is no such row if the same thread enqueued a `DELETE` for the account before, and no
  other ban of the account was enqueued in between. -/
  free : ∀ i < j, s.threadOf i = s.threadOf j → s.statement i = .deleteAccountBan accountID →
    (∀ k, i < k → k < j → ∀ duration, s.statement k ≠ .insertAccountBan accountID duration) →
    ∀ pre now post, s.executed = pre ++ (j, now) :: post →
      ¬(s.tables initial pre).HasBan accountID now

def BansKept (s : Pool Statement) (initial : Tables) : Prop :=
  ∀ j accountID duration, s.statement j = .insertAccountBan accountID duration →
    (∀ k > j, s.statement k ≠ .deleteAccountBan accountID) →
    s.BanKept initial j accountID duration

/-- A `SELECT` sees the account that its thread inserted before. -/
def AccountsSeen (s : Pool Statement) (initial : Tables) : Prop :=
  ∀ i j name, i < j → s.threadOf i = s.threadOf j → s.statement i = .insertAccount name →
    s.statement j = .selectAccountID name →
    ∀ pre now post, s.executed = pre ++ (j, now) :: post → name ∈ (s.tables initial pre).accounts

/-- A step while the pool is being opened: nothing is enqueued yet. -/
def Label.IsOpening {α : Type} : Label α → Prop
  | .open _ => True
  | .main => True
  | .worker _ _ => True
  | _ => False

/-- The attempts to open the pool, in order. -/
def attempts {α : Type} : List (Label α) → List Attempt
  | [] => []
  | .open attempt :: ls => attempt :: attempts ls
  | _ :: ls => attempts ls

/-- The state is reached by these attempts, and all of them have returned. -/
def OpenedBy {α : Type} (n m : ℕ) (tries : List Attempt) (s : Pool α) : Prop :=
  ∃ ls : List (Label α), (∀ l ∈ ls, l.IsOpening) ∧ attempts ls = tries ∧
    Machine.run next (new n m) ls = some s ∧ s.main = []

/-- What callers of `Execute` rely on, for a pool with `n` worker threads in the configuration and
`m` synchronous connections, after these attempts to open it. -/
def KeepsProgramOrder (n m : ℕ) (tries : List Attempt) : Prop :=
  ∀ (initial : Tables) (s₀ : Pool Statement) (ls : List (Label Statement)) (s : Pool Statement),
    OpenedBy n m tries s₀ → (∀ l ∈ ls, l.IsService) → Machine.run next s₀ ls = some s →
    s.InOrder ∧ s.BansKept initial ∧ s.AccountsSeen initial

/-! ## One worker -/

section
variable {α : Type} {s s' : Pool α} {i : ℕ}

/-- The ticket in a worker's hand. -/
def inHand : WorkerPc → List ℕ
  | .popped (some t) => [t]
  | .running t => [t]
  | _ => []

/-- At most one worker, and the tickets executed, in hand and in the queue are all
tickets in order. -/
structure InLine (s : Pool α) : Prop where
  serving : s.Serving
  length_le : s.workers.length ≤ 1
  tickets : s.executed.map Prod.fst ++ s.workers.flatMap (fun w => inHand w.pc) ++ s.ops =
    List.range s.pushed.length

theorem workers_eq_of_length_le {w : Worker} (h : s.workers.length ≤ 1)
    (hw : s.workers[i]? = some w) : s.workers = [w] ∧ i = 0 := by
  have hi : i < s.workers.length := (List.getElem?_eq_some_iff.mp hw).1
  obtain rfl : i = 0 := by omega
  cases hs : s.workers with
  | nil => simp [hs] at hw
  | cons v workers =>
      rw [hs] at hw h
      simp only [List.getElem?_cons_zero, Option.some.injEq, List.length_cons] at hw h
      obtain rfl : workers = [] := List.eq_nil_of_length_eq_zero (by omega)
      exact ⟨by rw [hw], rfl⟩

/-- The next ticket is the next in line, and it is done before another is taken. -/
theorem inLine_workerStep (h : s.InLine) (hst : WorkerStep s i s') : s'.InLine := by
  have hserving := (serving_workerStep h.serving hst).1
  have htickets := h.tickets
  cases hst with
  | tookNothing _ _ hshutdown => rw [h.serving.shutdown] at hshutdown; cases hshutdown
  | took hw hpc _ hops =>
      obtain ⟨hs, rfl⟩ := workers_eq_of_length_le h.length_le hw
      refine ⟨hserving, by simp [hs], ?_⟩
      simp only [hs, hpc, hops, inHand, List.flatMap_cons, List.flatMap_nil, List.append_nil,
        List.set_cons_zero] at htickets ⊢
      rw [← htickets, List.append_assoc, List.singleton_append]
  | left hw hpc => exact absurd hpc (h.serving.workers _ (List.mem_of_getElem? hw)).pc.1
  | dropped hw _ htoken =>
      rw [(h.serving.workers _ (List.mem_of_getElem? hw)).token] at htoken
      cases htoken
  | began hw hpc _ =>
      obtain ⟨hs, rfl⟩ := workers_eq_of_length_le h.length_le hw
      refine ⟨hserving, by simp [hs], ?_⟩
      simp only [hs, hpc, inHand, List.flatMap_cons, List.flatMap_nil, List.append_nil,
        List.set_cons_zero] at htickets ⊢
      exact htickets
  | executed now hw hpc =>
      obtain ⟨hs, rfl⟩ := workers_eq_of_length_le h.length_le hw
      refine ⟨hserving, by simp [hs], ?_⟩
      simp only [hs, hpc, inHand, List.flatMap_cons, List.flatMap_nil, List.append_nil,
        List.set_cons_zero, List.map_append, List.map_cons, List.map_nil] at htickets ⊢
      exact htickets

theorem inLine_enqueue (h : s.InLine) (thread : ℕ) (op : α) : (s.enqueue thread op).InLine := by
  refine ⟨⟨h.serving.shutdown, h.serving.workers⟩, h.length_le, ?_⟩
  simp only [enqueue, List.length_append, List.length_singleton]
  rw [List.range_succ, ← h.tickets, List.append_assoc _ s.ops]

theorem inLine_next {l : Label α} (h : s.InLine) (hl : l.IsService) (hn : s.next l = some s') :
    s'.InLine := by
  cases next_cases hn with
  | opened _ => exact hl.elim
  | closed _ => exact hl.elim
  | main _ => exact hl.elim
  | enqueued => exact inLine_enqueue h _ _
  | worker hst => exact inLine_workerStep h hst

theorem inLine_run {s₀ : Pool α} {ls : List (Label α)} (h : s₀.InLine)
    (hls : ∀ l ∈ ls, l.IsService) (hrun : Machine.run next s₀ ls = some s) : s.InLine :=
  Machine.run_induction_of (fun _ _ _ => inLine_next) (Machine.along_of_forall hls _) h hrun

/-- What comes before a number in a range is what is smaller. -/
theorem eq_range_of_append {xs ys : List ℕ} {t n : ℕ} (h : xs ++ t :: ys = List.range n) :
    xs = List.range t := by
  have hlt : xs.length < n := by
    have := congrArg List.length h
    simp only [List.length_append, List.length_cons, List.length_range] at this
    omega
  have ht : t = xs.length := by
    have := congrArg (fun l => l[xs.length]?) h
    simpa [hlt] using this
  have htake := congrArg (List.take xs.length) h
  rw [List.take_left', List.take_range, Nat.min_eq_left hlt.le] at htake
  · rw [htake, ← ht]
  · rfl

/-- Before a ticket, exactly the smaller ones were executed. -/
theorem InLine.executed_before (h : s.InLine) {pre post : List (ℕ × ℕ)} {t now : ℕ}
    (he : s.executed = pre ++ (t, now) :: post) : pre.map Prod.fst = List.range t := by
  have htickets := h.tickets
  rw [he, List.map_append, List.map_cons, List.append_assoc, List.append_assoc,
    List.cons_append] at htickets
  exact eq_range_of_append htickets

theorem InLine.inOrder (h : s.InLine) : s.InOrder := by
  intro pre t now post he i hi _
  rw [h.executed_before he]
  exact List.mem_range.mpr hi

/-- Once the queue is drained, everything was executed, in order. -/
theorem InLine.executed_of_isDrained (h : s.InLine) (hd : s.IsDrained) :
    s.executed.map Prod.fst = List.range s.pushed.length := by
  have hhand : s.workers.flatMap (fun w => inHand w.pc) = [] := by
    rw [List.flatMap_eq_nil_iff]
    intro w hw
    rw [hd.workers w hw]
    rfl
  have htickets := h.tickets
  rwa [hhand, hd.ops, List.append_nil, List.append_nil] at htickets

end

/-! ## What the statements leave in the tables -/

section
variable {s : Pool Statement} {initial : Tables}

theorem tables_append (pre post : List (ℕ × ℕ)) :
    s.tables initial (pre ++ post) = s.tables (s.tables initial pre) post :=
  List.foldl_append

theorem tables_cons (e : ℕ × ℕ) (executed : List (ℕ × ℕ)) :
    s.tables initial (e :: executed) =
      s.tables (initial.execute e.2 (s.statement e.1)) executed := rfl

/-- Only a `DELETE` for the account removes a ban. -/
theorem mem_accountBanned_execute {tables : Tables} {row : AccountBan} {now : ℕ}
    {statement : Statement} (hrow : row ∈ tables.accountBanned)
    (h : statement ≠ .deleteAccountBan row.id) :
    row ∈ (tables.execute now statement).accountBanned := by
  cases statement with
  | deleteAccountBan accountID =>
      have hne : row.id ≠ accountID := by
        intro heq
        exact h (by rw [heq])
      simp [Tables.execute, hrow, hne]
  | insertAccountBan accountID duration =>
      simp only [Tables.execute]
      split
      · exact hrow
      · simp [hrow]
  | insertAccount name => exact hrow
  | selectAccountID name => exact hrow
  | other => exact hrow

theorem mem_accountBanned_tables {row : AccountBan} {executed : List (ℕ × ℕ)}
    (hrow : row ∈ initial.accountBanned)
    (h : ∀ e ∈ executed, s.statement e.1 ≠ .deleteAccountBan row.id) :
    row ∈ (s.tables initial executed).accountBanned := by
  induction executed generalizing initial with
  | nil => exact hrow
  | cons e executed ih =>
      rw [tables_cons]
      refine ih (mem_accountBanned_execute hrow (h e List.mem_cons_self)) ?_
      intro e' he'
      exact h e' (List.mem_cons_of_mem _ he')

/-- An `INSERT` has its row, or there was one with its key. -/
theorem hasBan_or_mem_execute (tables : Tables) (now accountID duration : ℕ) :
    tables.HasBan accountID now ∨ (⟨accountID, now, now + duration⟩ : AccountBan) ∈
      (tables.execute now (.insertAccountBan accountID duration)).accountBanned := by
  by_cases h : tables.HasBan accountID now
  · exact .inl h
  · refine .inr ?_
    rw [Tables.HasBan] at h
    simp [Tables.execute, h]

/-- There is no row of the account after a `DELETE`, until a ban is inserted. -/
theorem forall_id_ne_tables {accountID : ℕ} {executed : List (ℕ × ℕ)}
    (hnone : ∀ row ∈ initial.accountBanned, row.id ≠ accountID)
    (h : ∀ e ∈ executed, ∀ duration, s.statement e.1 ≠ .insertAccountBan accountID duration) :
    ∀ row ∈ (s.tables initial executed).accountBanned, row.id ≠ accountID := by
  induction executed generalizing initial with
  | nil => exact hnone
  | cons e executed ih =>
      rw [tables_cons]
      refine ih ?_ fun e' he' => h e' (List.mem_cons_of_mem _ he')
      have hinsert := h e List.mem_cons_self
      cases hstatement : s.statement e.1 with
      | deleteAccountBan accountID' =>
          intro row hrow
          exact hnone row (List.mem_of_mem_filter hrow)
      | insertAccountBan accountID' duration =>
          have hne : accountID' ≠ accountID := by
            rintro rfl
            exact hinsert duration hstatement
          simp only [Tables.execute]
          split
          · exact hnone
          · intro row hrow
            rcases List.mem_append.mp hrow with hrow | hrow
            · exact hnone row hrow
            · rw [List.mem_singleton.mp hrow]
              exact hne
      | insertAccount name => exact hnone
      | selectAccountID name => exact hnone
      | other => exact hnone

/-- No statement removes an account. -/
theorem mem_accounts_execute {tables : Tables} {name : String} (hname : name ∈ tables.accounts)
    (now : ℕ) (statement : Statement) : name ∈ (tables.execute now statement).accounts := by
  cases statement with
  | insertAccountBan accountID duration =>
      simp only [Tables.execute]
      split <;> exact hname
  | insertAccount name' => simp [Tables.execute, hname]
  | _ => exact hname

theorem mem_accounts_tables {name : String} (executed : List (ℕ × ℕ))
    (hname : name ∈ initial.accounts) : name ∈ (s.tables initial executed).accounts := by
  induction executed generalizing initial with
  | nil => exact hname
  | cons e executed ih => exact ih (mem_accounts_execute hname _ _)

/-- What is executed after a ticket has a larger one. -/
theorem InLine.lt_of_mem_post (h : s.InLine) {pre post : List (ℕ × ℕ)} {t now : ℕ}
    (he : s.executed = pre ++ (t, now) :: post) {e : ℕ × ℕ} (hpost : e ∈ post) : t < e.1 := by
  obtain ⟨mid, post', rfl⟩ := List.append_of_mem hpost
  have he' : s.executed = (pre ++ (t, now) :: mid) ++ (e.1, e.2) :: post' := by
    rw [he]
    simp
  have hmem : t ∈ List.range e.1 := by
    rw [← h.executed_before he']
    simp
  exact List.mem_range.mp hmem

theorem InLine.bansKept (h : s.InLine) : s.BansKept initial := by
  intro j accountID duration hj hlater
  refine ⟨?_, ?_⟩
  · intro hd
    have hlt : j < s.pushed.length := by
      by_contra hge
      rw [statement, List.getElem?_eq_none (by omega)] at hj
      cases hj
    obtain ⟨⟨t, now⟩, hmem, rfl⟩ : ∃ e ∈ s.executed, e.1 = j := by
      rw [← List.mem_map, h.executed_of_isDrained hd]
      exact List.mem_range.mpr hlt
    obtain ⟨pre, post, he⟩ := List.append_of_mem hmem
    refine ⟨pre, now, post, he, ?_⟩
    refine (hasBan_or_mem_execute (s.tables initial pre) now accountID duration).imp_right ?_
    intro hrow
    rw [he, tables_append, tables_cons, hj]
    exact mem_accountBanned_tables hrow fun e hpost => hlater e.1 (h.lt_of_mem_post he hpost)
  · rintro i hij - hdelete hbetween pre now post he ⟨row, hrow, hid, -⟩
    obtain ⟨⟨t, now'⟩, hmem, rfl⟩ : ∃ e ∈ pre, e.1 = i := by
      rw [← List.mem_map, h.executed_before he]
      exact List.mem_range.mpr hij
    obtain ⟨pre', mid, rfl⟩ := List.append_of_mem hmem
    have he' : s.executed = pre' ++ (t, now') :: (mid ++ (j, now) :: post) := by
      rw [he]
      simp
    rw [tables_append, tables_cons, hdelete] at hrow
    refine forall_id_ne_tables ?_ ?_ row hrow hid
    · intro row hrow
      simpa using (List.mem_filter.mp hrow).2
    · -- what is executed in between was enqueued in between
      intro e he₁
      refine hbetween e.1 (h.lt_of_mem_post he' (List.mem_append_left _ he₁)) ?_
      have hmem : e.1 ∈ List.range j := by
        rw [← h.executed_before he]
        exact List.mem_map_of_mem (List.mem_append_right _ (List.mem_cons_of_mem _ he₁))
      exact List.mem_range.mp hmem

theorem InLine.accountsSeen (h : s.InLine) : s.AccountsSeen initial := by
  intro i j name hij _ hi _ pre now post he
  obtain ⟨⟨t, now'⟩, hmem, rfl⟩ : ∃ e ∈ pre, e.1 = i := by
    rw [← List.mem_map, h.executed_before he]
    exact List.mem_range.mpr hij
  obtain ⟨pre', mid, rfl⟩ := List.append_of_mem hmem
  rw [tables_append, tables_cons, hi]
  exact mem_accounts_tables mid (by simp [Tables.execute])

end

/-! ## Opening the pool -/

section
variable {α : Type} {s s' : Pool α} {l : Label α} {n m : ℕ} {tries : List Attempt}

/-- Nothing was enqueued, and no worker has anything in its hand. -/
structure Untouched (s : Pool α) : Prop where
  ops : s.ops = []
  pushed : s.pushed = []
  executed : s.executed = []
  hands : ∀ w ∈ s.workers, inHand w.pc = []

theorem untouched_workerStep {i : ℕ} (h : s.Untouched) (hst : WorkerStep s i s') :
    s'.Untouched := by
  have hset {w : Worker} {pc : WorkerPc} (hpc : inHand pc = []) :
      ∀ v ∈ s.workers.set i { w with pc := pc }, inHand v.pc = [] := by
    intro v hv
    rcases List.mem_or_eq_of_mem_set hv with hmem | rfl
    · exact h.hands v hmem
    · exact hpc
  have hempty {w : Worker} {ticket : ℕ} (hw : s.workers[i]? = some w)
      (hpc : inHand w.pc = [ticket]) : False := by
    rw [h.hands w (List.mem_of_getElem? hw)] at hpc
    cases hpc
  cases hst with
  | tookNothing _ _ _ => exact ⟨h.ops, h.pushed, h.executed, hset rfl⟩
  | took _ _ _ hops =>
      rw [h.ops] at hops
      cases hops
  | left _ _ => exact ⟨h.ops, h.pushed, h.executed, hset rfl⟩
  | dropped hw hpc _ => exact (hempty hw (by rw [hpc]; rfl)).elim
  | began hw hpc _ => exact (hempty hw (by rw [hpc]; rfl)).elim
  | executed _ hw hpc => exact (hempty hw (by rw [hpc]; rfl)).elim

theorem untouched_mainStep (h : s.Untouched) (hst : MainStep s s') : s'.Untouched := by
  cases hst with
  | spawned _ =>
      refine ⟨h.ops, h.pushed, h.executed, ?_⟩
      intro w hw
      rcases List.mem_append.mp hw with hw | hw
      · exact h.hands w hw
      · rw [List.mem_singleton.mp hw]
        rfl
  | @tokenSet i _ _ =>
      refine ⟨h.ops, h.pushed, h.executed, ?_⟩
      intro w hw
      obtain ⟨k, hk⟩ := List.mem_iff_getElem?.mp hw
      rw [List.getElem?_modify, Option.map_eq_map, Option.map_eq_some_iff] at hk
      obtain ⟨v, hv, rfl⟩ := hk
      have hhand := h.hands v (List.mem_of_getElem? hv)
      split <;> exact hhand
  | cancelled _ => exact ⟨rfl, h.pushed, h.executed, h.hands⟩
  | _ => exact ⟨h.ops, h.pushed, h.executed, h.hands⟩

theorem untouched_next (h : s.Untouched) (hl : l.IsOpening) (hn : s.next l = some s') :
    s'.Untouched := by
  cases next_cases hn with
  | opened _ => exact ⟨h.ops, h.pushed, h.executed, h.hands⟩
  | closed _ => exact hl.elim
  | main hst => exact untouched_mainStep h hst
  | enqueued => exact hl.elim
  | worker hst => exact untouched_workerStep h hst

theorem untouched_of_openedBy (h : OpenedBy n m tries s) : s.Untouched := by
  obtain ⟨ls, hls, -, hrun, -⟩ := h
  exact Machine.run_induction_of (fun _ _ _ => untouched_next) (Machine.along_of_forall hls _)
    ⟨rfl, rfl, rfl, by simp [new]⟩ hrun

theorem mem_attempts {attempt : Attempt} {ls : List (Label α)} :
    attempt ∈ attempts ls ↔ .open attempt ∈ ls := by
  induction ls with
  | nil => simp [attempts]
  | cons l ls ih => cases l <;> simp [attempts, ih]

/-- The workers that the thread has still to start. -/
def spawns (ops : List MainOp) : ℕ := ops.count .spawn

theorem spawns_openAsync (n : ℕ) (rest : List MainOp) :
    spawns (Attempt.openAsync n ++ rest) = n + spawns rest := by
  induction n with
  | zero => simp [Attempt.openAsync]
  | succ n ih =>
      have hcons : Attempt.openAsync (n + 1) ++ rest =
          .spawn :: .keepAsync :: (Attempt.openAsync n ++ rest) := rfl
      rw [hcons, spawns, List.count_cons_self, List.count_cons_of_ne (by decide)]
      rw [spawns] at ih
      omega

theorem spawns_openSync (m : ℕ) (rest : List MainOp) :
    spawns (Attempt.openSync m ++ rest) = spawns rest := by
  rw [spawns, List.count_append, Attempt.openSync, List.count_replicate, if_neg (by decide),
    Nat.zero_add, spawns]

/-- An attempt that does not fail at an asynchronous connection starts all workers. -/
theorem spawns_program {attempt : Attempt} (h : ¬attempt.FailsAsync) (n m : ℕ) :
    spawns (attempt.program n m) = n := by
  cases attempt with
  | success =>
      rw [Attempt.program, List.append_assoc, spawns_openAsync, spawns_openSync]
      rfl
  | asyncError i code => exact absurd trivial h
  | asyncVersion i => exact absurd trivial h
  | syncError i code =>
      rw [Attempt.program, List.append_assoc, spawns_openAsync, spawns_openSync]
      rfl
  | syncVersion i =>
      rw [Attempt.program, List.append_assoc, spawns_openAsync, spawns_openSync]
      rfl

/-- How many workers there are and will be, with the attempts still to come. -/
def workersDue (s : Pool α) (ls : List (Label α)) : ℕ :=
  s.workers.length + spawns s.main + s.asyncThreads * (attempts ls).length

theorem workersDue_mainStep (hmain : ∀ op ∈ s.main, IsHarmless op) (hst : MainStep s s')
    (ls : List (Label α)) : s'.workersDue ls = s.workersDue ls := by
  cases hst with
  | spawned h =>
      simp only [workersDue, h, spawns, List.length_append, List.length_singleton,
        List.count_cons_self]
      omega
  | asyncKept h => simp [workersDue, h, spawns]
  | openingDropped h => exact (forall_main hmain h).1.elim
  | asyncCleared h => exact (forall_main hmain h).1.elim
  | syncKept h => simp [workersDue, h, spawns]
  | syncCleared h => simp [workersDue, h, spawns]
  | tokenSet h => exact (forall_main hmain h).1.elim
  | cancelled h => exact (forall_main hmain h).1.elim
  | joined h _ => exact (forall_main hmain h).1.elim
  | returned h => simp [workersDue, h, spawns]

theorem workersDue_next (hu : s.Unharmed) {ls : List (Label α)} (hl : l.IsOpening)
    (hgentle : IsGentle l) (hn : s.next l = some s') :
    s'.workersDue ls = s.workersDue (l :: ls) := by
  cases next_cases hn with
  | opened hidle =>
      have hspawns := spawns_program hgentle s.asyncThreads s.synchThreads
      simp only [workersDue, hspawns, hidle, attempts, List.length_cons, Nat.mul_succ]
      simp only [spawns, List.count_nil]
      omega
  | closed _ => exact hl.elim
  | main hst => exact workersDue_mainStep hu.main hst ls
  | enqueued => exact hl.elim
  | worker hst => cases hst <;> simp [workersDue, attempts]

/-- Every attempt adds its workers. -/
theorem length_workers_run {ls : List (Label α)} (hu : s.Unharmed)
    (hls : ∀ l ∈ ls, l.IsOpening ∧ IsGentle l) (hrun : Machine.run next s ls = some s')
    (hmain : s'.main = []) : s'.workers.length = s.workersDue ls := by
  induction ls generalizing s with
  | nil =>
      cases hrun
      simp [workersDue, hmain, spawns, attempts]
  | cons l ls ih =>
      rw [Machine.run_cons, Option.bind_eq_some_iff] at hrun
      obtain ⟨u, hstep, hrun⟩ := hrun
      obtain ⟨hopening, hgentle⟩ := hls l List.mem_cons_self
      rw [ih (unharmed_next hu hgentle hstep) (fun l hl => hls l (List.mem_cons_of_mem _ hl)) hrun,
        workersDue_next hu hopening hgentle hstep]

/-- **A pool has the workers of all attempts**, if none of them failed at an asynchronous
connection. -/
theorem workers_of_openedBy (h : OpenedBy n m tries s)
    (hgentle : ∀ attempt ∈ tries, ¬attempt.FailsAsync) :
    s.Serving ∧ s.workers.length = n * tries.length := by
  obtain ⟨ls, hls, rfl, hrun, hmain⟩ := h
  have hall : ∀ l ∈ ls, l.IsOpening ∧ IsGentle l := by
    intro l hl
    refine ⟨hls l hl, ?_⟩
    cases l with
    | «open» attempt => exact hgentle attempt (mem_attempts.mpr hl)
    | close => exact hls _ hl
    | _ => trivial
  refine ⟨(Machine.run_induction_of (fun _ _ _ => unharmed_next)
    (Machine.along_of_forall (fun l hl => (hall l hl).2) _) (unharmed_new n m) hrun).serving, ?_⟩
  rw [length_workers_run (unharmed_new n m) hall hrun hmain]
  simp [workersDue, new, spawns]

theorem inLine_of_openedBy (h : OpenedBy n m tries s)
    (hgentle : ∀ attempt ∈ tries, ¬attempt.FailsAsync) (hle : n * tries.length ≤ 1) :
    s.InLine := by
  obtain ⟨hserving, hlength⟩ := workers_of_openedBy h hgentle
  have hu := untouched_of_openedBy h
  refine ⟨hserving, by omega, ?_⟩
  rw [hu.executed, hu.ops, hu.pushed, List.flatMap_eq_nil_iff.mpr hu.hands]
  rfl

/-! ## A queue that is shut down -/

/-- What is enqueued stays in the queue. -/
structure Stalled (s : Pool α) : Prop where
  shutdown : s.shutdown = true
  executed : s.executed = []
  hands : ∀ w ∈ s.workers, inHand w.pc = []
  length_ops : s.ops.length = s.pushed.length

theorem stalled_next (h : s.Stalled) (hl : l.IsService) (hn : s.next l = some s') :
    s'.Stalled := by
  cases next_cases hn with
  | opened _ => exact hl.elim
  | closed _ => exact hl.elim
  | main _ => exact hl.elim
  | enqueued =>
      refine ⟨h.shutdown, h.executed, h.hands, ?_⟩
      simp [enqueue, h.length_ops]
  | @worker i now s' hst =>
      have hset {w : Worker} {pc : WorkerPc} (hpc : inHand pc = []) :
          ∀ v ∈ s.workers.set i { w with pc := pc }, inHand v.pc = [] := by
        intro v hv
        rcases List.mem_or_eq_of_mem_set hv with hmem | rfl
        · exact h.hands v hmem
        · exact hpc
      have hempty {w : Worker} {ticket : ℕ} (hw : s.workers[i]? = some w)
          (hpc : inHand w.pc = [ticket]) : False := by
        rw [h.hands w (List.mem_of_getElem? hw)] at hpc
        cases hpc
      cases hst with
      | tookNothing _ _ _ => exact ⟨h.shutdown, h.executed, hset rfl, h.length_ops⟩
      | took _ _ hshutdown _ =>
          rw [h.shutdown] at hshutdown
          cases hshutdown
      | left _ _ => exact ⟨h.shutdown, h.executed, hset rfl, h.length_ops⟩
      | dropped hw hpc _ => exact (hempty hw (by rw [hpc]; rfl)).elim
      | began hw hpc _ => exact (hempty hw (by rw [hpc]; rfl)).elim
      | executed _ hw hpc => exact (hempty hw (by rw [hpc]; rfl)).elim

theorem stalled_of_openedBy (h : OpenedBy n m tries s) {attempt : Attempt}
    (hmem : attempt ∈ tries) (hfails : attempt.FailsAsync) : s.Stalled := by
  have hu := untouched_of_openedBy h
  obtain ⟨ls, -, rfl, hrun, hmain⟩ := h
  refine ⟨?_, hu.executed, hu.hands, by rw [hu.ops, hu.pushed]; rfl⟩
  rcases doomed_run (mem_attempts.mp hmem) hfails hrun with hdoomed | hdoomed
  · exact hdoomed
  · rw [hmain] at hdoomed
    cases hdoomed

end

section
variable {s : Pool Statement} {initial : Tables}

/-- Where nothing is executed, nothing is out of order. -/
theorem Stalled.inOrder (h : s.Stalled) : s.InOrder := by
  intro pre t now post he
  rw [h.executed] at he
  simp at he

theorem Stalled.bansKept (h : s.Stalled) : s.BansKept initial := by
  intro j accountID duration hj _
  refine ⟨?_, ?_⟩
  · -- the queue is never drained
    intro hd
    have hlength := h.length_ops
    rw [hd.ops, List.length_nil] at hlength
    rw [statement, List.eq_nil_of_length_eq_zero hlength.symm] at hj
    cases hj
  · intro i _ _ _ _ pre now post he
    rw [h.executed] at he
    simp at he

theorem Stalled.accountsSeen (h : s.Stalled) : s.AccountsSeen initial := by
  intro i j name _ _ _ _ pre now post he
  rw [h.executed] at he
  simp at he

end

/-! ## Two workers -/

section
variable {α : Type} {s : Pool α} {n m : ℕ} {tries : List Attempt}

/-- No program is running, and no connection is being opened. -/
structure Idle (n m : ℕ) (s : Pool α) : Prop where
  asyncThreads : s.asyncThreads = n
  synchThreads : s.synchThreads = m
  opening : s.opening = none
  main : s.main = []

/-- Up to the last step or two, an attempt that gets to the synchronous connections is the
same whatever it comes to. -/
theorem run_connections {i : ℕ} {rest : List MainOp}
    (hmain : s.main = Attempt.openAsync n ++ Attempt.openSync i ++ rest)
    (hopening : s.opening = none) :
    Machine.run next s (List.replicate (2 * n) .main ++ List.replicate i .main) =
      some { s with
        workers := s.workers ++ List.replicate n {}
        async := s.async ++ List.range' s.workers.length n
        sync := s.sync + i
        main := rest } := by
  rw [List.append_assoc] at hmain
  rw [Machine.run_append, run_openAsync hmain hopening, Option.bind_some, run_openSync rfl]

/-- An attempt that does not fail at an asynchronous connection returns. -/
theorem exists_run_attempt {attempt : Attempt} (h : s.Idle n m) (hpossible : attempt.Possible n m)
    (hgentle : ¬attempt.FailsAsync) :
    ∃ ls s', (∀ l ∈ ls, l.IsOpening) ∧ attempts ls = [attempt] ∧
      Machine.run next s ls = some s' ∧ s'.Idle n m := by
  obtain ⟨i, rest, hprogram, s', hrest, hidle⟩ : ∃ i rest,
      attempt.program n m = Attempt.openAsync n ++ Attempt.openSync i ++ rest ∧
      ∃ s', Machine.run next
        { s with
          result := none
          workers := s.workers ++ List.replicate n {}
          async := s.async ++ List.range' s.workers.length n
          sync := s.sync + i
          main := rest } (List.replicate rest.length .main) = some s' ∧ s'.Idle n m := by
    cases attempt with
    | success => exact ⟨m, [.ret 0], rfl, _, rfl, h.asyncThreads, h.synchThreads, h.opening, rfl⟩
    | asyncError i code => exact absurd trivial hgentle
    | asyncVersion i => exact absurd trivial hgentle
    | syncError i code =>
        exact ⟨i, [.clearSync, .ret code], rfl, _, rfl, h.asyncThreads, h.synchThreads,
          h.opening, rfl⟩
    | syncVersion i =>
        exact ⟨i, [.ret 1], rfl, _, rfl, h.asyncThreads, h.synchThreads, h.opening, rfl⟩
  let u : Pool α :=
    { s with result := none, main := Attempt.openAsync n ++ Attempt.openSync i ++ rest }
  have hopen : s.next (.open attempt) = some u := by
    have hprogram : attempt.program s.asyncThreads s.synchThreads =
        Attempt.openAsync n ++ Attempt.openSync i ++ rest := by
      rw [h.asyncThreads, h.synchThreads, hprogram]
    have hpossible : attempt.Possible s.asyncThreads s.synchThreads := by
      rwa [h.asyncThreads, h.synchThreads]
    rw [next, if_pos ⟨h.main, hpossible⟩, hprogram]
  refine ⟨.open attempt :: ((List.replicate (2 * n) .main ++ List.replicate i .main) ++
    List.replicate rest.length .main), s', ?_, ?_, ?_, hidle⟩
  · simp [Label.IsOpening]
  · have hmains (k : ℕ) (ls : List (Label α)) :
        attempts (List.replicate k .main ++ ls) = attempts ls := by
      induction k with
      | zero => rfl
      | succ k ih => exact ih
    rw [attempts, List.append_assoc, hmains, hmains]
    simpa [attempts] using hmains rest.length []
  · rw [Machine.run_cons, hopen, Option.bind_some, Machine.run_append,
      run_connections (s := u) rfl h.opening, Option.bind_some]
    exact hrest

theorem attempts_append (ls ls' : List (Label α)) :
    attempts (ls ++ ls') = attempts ls ++ attempts ls' := by
  induction ls with
  | nil => rfl
  | cons l ls ih => cases l <;> simp [attempts, ih]

/-- Such attempts can be made one after the other. -/
theorem exists_openedBy (hpossible : ∀ attempt ∈ tries, attempt.Possible n m)
    (hgentle : ∀ attempt ∈ tries, ¬attempt.FailsAsync) :
    ∃ s : Pool α, OpenedBy n m tries s := by
  have hrun : ∀ s : Pool α, s.Idle n m → ∃ ls s', (∀ l ∈ ls, l.IsOpening) ∧
      attempts ls = tries ∧ Machine.run next s ls = some s' ∧ s'.Idle n m := by
    induction tries with
    | nil =>
        intro s h
        exact ⟨[], s, by simp, rfl, rfl, h⟩
    | cons attempt tries ih =>
        intro s h
        obtain ⟨ls, u, hls, hattempts, hrun, hu⟩ :=
          exists_run_attempt h (hpossible attempt List.mem_cons_self)
            (hgentle attempt List.mem_cons_self)
        obtain ⟨ls', s', hls', hattempts', hrun', hs'⟩ :=
          ih (fun a ha => hpossible a (List.mem_cons_of_mem _ ha))
            (fun a ha => hgentle a (List.mem_cons_of_mem _ ha)) u hu
        refine ⟨ls ++ ls', s', ?_, ?_, ?_, hs'⟩
        · intro l hl
          exact (List.mem_append.mp hl).elim (hls l) (hls' l)
        · rw [attempts_append, hattempts, hattempts', List.singleton_append]
        · rw [Machine.run_append, hrun, Option.bind_some, hrun']
  obtain ⟨ls, s, hls, hattempts, hrun, hs⟩ := hrun (new n m) ⟨rfl, rfl, rfl, rfl⟩
  exact ⟨s, ls, hls, hattempts, hrun, hs.main⟩

/-- The workers of a pool just opened all wait. -/
theorem eq_default_of_openedBy (h : OpenedBy n m tries s)
    (hgentle : ∀ attempt ∈ tries, ¬attempt.FailsAsync) {w : Worker} (hw : w ∈ s.workers) :
    w = {} := by
  have hloop := (workers_of_openedBy h hgentle).1.workers w hw
  have hhand := (untouched_of_openedBy h).hands w hw
  have htoken := hloop.token
  have hpc := hloop.pc
  cases w with
  | mk token pc =>
      cases htoken
      cases pc with
      | waiting => rfl
      | popped ticket =>
          cases ticket with
          | none => exact absurd rfl hpc.1
          | some t => cases hhand
      | running t => cases hhand
      | exited => exact absurd rfl hpc.2

end

/-- Worker 0 takes the first statement, worker 1 takes the second and runs it, and only
then worker 0 runs the first. -/
def overtake : List (Label Statement) :=
  [.worker 0 100, .worker 1 100, .worker 1 100, .worker 1 100, .worker 0 101, .worker 0 101]

/-- With a second worker, whatever the other workers are, the `INSERT` of a ban can
overtake the `DELETE` before it. -/
theorem overtaken {s : Pool Statement} (hu : s.Untouched) (hshutdown : s.shutdown = false)
    {workers : List Worker} (hworkers : s.workers = {} :: {} :: workers) :
    (Machine.run next s (banAccount 0 true 7 3600 ++ overtake)).map
        (fun s => (s.pushed, s.executed)) =
      some ([(0, .deleteAccountBan 7), (0, .insertAccountBan 7 3600)], [(1, 100), (0, 101)]) := by
  obtain ⟨hops, hpushed, hexecuted, -⟩ := hu
  cases s
  simp only at hshutdown hworkers hops hpushed hexecuted
  subst hshutdown hworkers hops hpushed hexecuted
  rfl

theorem not_keepsProgramOrder {n m : ℕ} {tries : List Attempt}
    (hpossible : ∀ attempt ∈ tries, attempt.Possible n m)
    (hgentle : ∀ attempt ∈ tries, ¬attempt.FailsAsync) (hlt : 1 < n * tries.length) :
    ¬KeepsProgramOrder n m tries := by
  intro h
  obtain ⟨s₀, hs₀⟩ := exists_openedBy (α := Statement) hpossible hgentle
  obtain ⟨hserving, hlength⟩ := workers_of_openedBy hs₀ hgentle
  obtain ⟨workers, hworkers⟩ : ∃ workers, s₀.workers = {} :: {} :: workers := by
    have hall := fun w => eq_default_of_openedBy hs₀ hgentle (w := w)
    match hs : s₀.workers with
    | [] => rw [hs] at hlength; simp only [List.length_nil] at hlength; omega
    | [w] => rw [hs] at hlength; simp only [List.length_singleton] at hlength; omega
    | v :: w :: workers => exact ⟨workers, by rw [hall v (by simp [hs]), hall w (by simp [hs])]⟩
  obtain ⟨s, hrun, hs⟩ := Option.map_eq_some_iff.mp
    (overtaken (untouched_of_openedBy hs₀) hserving.shutdown hworkers)
  obtain ⟨hpushed, hexecuted⟩ := Prod.mk.inj hs
  have hservice : ∀ l ∈ banAccount 0 true 7 3600 ++ overtake, l.IsService := by
    simp [overtake, banAccount, Label.IsService]
  have hthread : s.threadOf 0 = s.threadOf 1 := by
    rw [threadOf, threadOf, hpushed]
    rfl
  have hmem := (h ⟨[], []⟩ s₀ _ s hs₀ hservice hrun).1 [] 1 100 [(0, 101)] hexecuted 0
    (by decide) hthread
  cases hmem

/-- **Statements keep the order of the program exactly if the attempts to open the pool
started one worker at most, or left the queue shut down.**  `AddDatabase` accepts 1 to 32
worker threads. -/
theorem keepsProgramOrder_iff {n m : ℕ} {tries : List Attempt}
    (hpossible : ∀ attempt ∈ tries, attempt.Possible n m) :
    KeepsProgramOrder n m tries ↔
      (∃ attempt ∈ tries, attempt.FailsAsync) ∨ n * tries.length ≤ 1 := by
  constructor
  · intro h
    by_contra hnot
    rw [not_or, not_exists] at hnot
    refine not_keepsProgramOrder hpossible ?_ (by omega) h
    intro attempt hmem hfails
    exact hnot.1 attempt ⟨hmem, hfails⟩
  · intro h initial s₀ ls s hs₀ hls hrun
    by_cases hfails : ∃ attempt ∈ tries, attempt.FailsAsync
    · obtain ⟨attempt, hmem, hfails⟩ := hfails
      have hstalled : s.Stalled := Machine.run_induction_of (fun _ _ _ => stalled_next)
        (Machine.along_of_forall hls _) (stalled_of_openedBy hs₀ hmem hfails) hrun
      exact ⟨hstalled.inOrder, hstalled.bansKept, hstalled.accountsSeen⟩
    · have hgentle : ∀ attempt ∈ tries, ¬attempt.FailsAsync := by
        intro attempt hmem hattempt
        exact hfails ⟨attempt, hmem, hattempt⟩
      have hline := inLine_run (inLine_of_openedBy hs₀ hgentle (h.resolve_left hfails)) hls hrun
      exact ⟨hline.inOrder, hline.bansKept, hline.accountsSeen⟩

/-- One worker, and an `Open` that succeeds at once. -/
theorem keepsProgramOrder_one : KeepsProgramOrder 1 1 [.success] :=
  (keepsProgramOrder_iff (by simp [Attempt.Possible])).mpr (.inr (by decide))

/-- With two workers, a ban is gone once the queue is drained, and the `SELECT` for a new
account comes before its `INSERT`.  A second attempt to open a pool with one worker thread
does it too. -/
theorem not_keepsProgramOrder_two :
    ¬KeepsProgramOrder 2 1 [.success] ∧
      ¬KeepsProgramOrder 1 1 [.syncError 0 2002, .success] ∧
      (Machine.run next (opened 2 1) (banAccount 0 true 7 3600 ++ overtake)).any (fun s =>
        s.ops = [] ∧ (∀ w ∈ s.workers, w.pc = .waiting) ∧
          (s.tables ⟨[⟨7, 1, 2⟩], []⟩ s.executed).accountBanned = []) ∧
      (Machine.run next (opened 2 1) (createAccount 0 "USER" ++ overtake)).any (fun s =>
        s.executed.map (fun e => s.statement e.1) =
          [.selectAccountID "USER", .insertAccount "USER"]) := by
  refine ⟨?_, ?_, by decide, by decide⟩
  · exact not_keepsProgramOrder (by simp [Attempt.Possible]) (by simp [Attempt.FailsAsync])
      (by decide)
  · exact not_keepsProgramOrder (by simp [Attempt.Possible]) (by simp [Attempt.FailsAsync])
      (by decide)

end Pool
end WarheadDiscord
