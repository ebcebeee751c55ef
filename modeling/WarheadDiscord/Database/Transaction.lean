import Mathlib.Data.List.TakeWhile
import Mathlib.Tactic.Common
import WarheadDiscord.Database.MySQLConnection

/-!
# When `ExecuteTransaction` is atomic

A transaction ends with the connection it was started on.  `Execute` hides the end of a
connection from `ExecuteTransaction`, which goes on with the next statement as if
nothing had happened; the new connection commits every statement for itself.  The same
happens if `START TRANSACTION` fails, for `ExecuteTransaction` does not look at its
result; nor does it look at the result of `COMMIT` or of `ROLLBACK`.  After a `ROLLBACK`
that fails the transaction can still be open, and then the next `START TRANSACTION`
commits it.

The code of a transaction that failed is the error number of the connection.  It is zero
if the error of a prepared statement was kept on the statement.

`units` says what a run of the loop commits, and `leftOpen` what it leaves behind, from
the state of the transaction and the failures alone.  `executeTransaction_atomic_iff`
compares this with what the caller was told.

## Main definitions

* `Fails`, `completed` — the statements that fail, and those before the first of them.
* `units`, `leftOpen` — the units committed by the loop, and the transaction after it.
* `Atomic` — what the result of `ExecuteTransaction` promises.
* `KeepsAtomicity` — the condition on the failures under which it is kept.
-/

namespace WarheadDiscord

/-- `_HandleMySQLErrno` tries again after this answer, or succeeds or terminates. -/
def OpenReply.Retried : OpenReply → Prop
  | .noHandle => False
  | .refused errNo => Reconnects errNo
  | .connected _ => True

/-- Every connection that is lost is replaced by a new one, in the end. -/
def ReconnectsSucceed (failures : List Failure) : Prop :=
  ∀ f ∈ failures, ∀ reply ∈ f.opens, reply.Retried

/-- The call of `Execute` returns false. -/
def Fails (failures : List Failure) : Prop := ∃ f ∈ failures, ¬ Reconnects f.errNo

instance (failures : List Failure) : Decidable (Fails failures) :=
  inferInstanceAs (Decidable (∃ f ∈ failures, ¬ Reconnects f.errNo))

theorem not_fails_nil : ¬ Fails [] := by simp [Fails]

theorem fails_cons {f : Failure} {failures : List Failure} :
    Fails (f :: failures) ↔ ¬ Reconnects f.errNo ∨ Fails failures := by
  simp [Fails]

/-- The error number that a call of `Execute` gives up with. -/
def errorOf : List Failure → ℕ
  | [] => 0
  | f :: failures => if Reconnects f.errNo then errorOf failures else f.errNo

/-- The call of `Execute` returns false, and an open transaction stays open. -/
def KeepsOpen : List Failure → Prop
  | [] => False
  | f :: _ => ¬ Reconnects f.errNo ∧ f.rollsBack = false

instance : (failures : List Failure) → Decidable (KeepsOpen failures)
  | [] => inferInstanceAs (Decidable False)
  | _ :: _ => inferInstanceAs (Decidable (_ ∧ _))

theorem fails_of_keepsOpen {failures : List Failure} (h : KeepsOpen failures) :
    Fails failures := by
  cases failures with
  | nil => exact h.elim
  | cons f failures => exact fails_cons.mpr (.inl h.1)

namespace MySQLConnection
variable {σ : Type}

/-- The statements before the first that fails. -/
def completed (queries : List (σ × List Failure)) : List (σ × List Failure) :=
  queries.takeWhile fun q => ¬ Fails q.2

/-- The failures of the first statement that fails. -/
def failing (queries : List (σ × List Failure)) : List Failure :=
  ((queries.find? fun q => Fails q.2).map Prod.snd).getD []

/-- The transaction that is open after `START TRANSACTION`. -/
def started (start : List Failure) (transaction : Option (List σ)) : Option (List σ) :=
  if Fails start then if KeepsOpen start then transaction else none else some []

/-- The units committed from the loop on, with the transaction that is open before it. -/
def units (commit : List Failure) :
    Option (List σ) → List (σ × List Failure) → List (List σ)
  | transaction, [] => if commit = [] then toUnits transaction else []
  | transaction, (stmt, failures) :: queries =>
      if Fails failures then []
      else
        match transaction, failures with
        | some pending, [] => units commit (some (pending ++ [stmt])) queries
        | _, _ => [stmt] :: units commit none queries

/-- The transaction that is open after the loop and the `COMMIT` or `ROLLBACK`. -/
def leftOpen (commit rollback : List Failure) :
    Option (List σ) → List (σ × List Failure) → Option (List σ)
  | transaction, [] => if KeepsOpen commit then transaction else none
  | transaction, (stmt, failures) :: queries =>
      if Fails failures then
        if KeepsOpen failures ∧ KeepsOpen rollback then transaction else none
      else
        match transaction, failures with
        | some pending, [] => leftOpen commit rollback (some (pending ++ [stmt])) queries
        | _, _ => leftOpen commit rollback none queries

/-- There is no statement in an open transaction, which the next `START TRANSACTION`
would commit. -/
def Settled (c : MySQLConnection σ) : Prop := c.transaction.getD [] = []

/-- Zero means that all statements were committed together, another code that none was.
In both cases none will be later. -/
structure Atomic (c : MySQLConnection σ) (queries : List (σ × List Failure)) (code : ℤ)
    (c' : MySQLConnection σ) : Prop where
  all : code = 0 → c'.committed = c.committed ++ [queries.map Prod.fst]
  none : code ≠ 0 → c'.committed = c.committed
  settled : c'.Settled

/-- If all statements succeed: there is a transaction, no connection is lost in the
middle or at `COMMIT`, which succeeds; or there is only one statement, and it commits
itself.  If one fails: the connection has the number of its error, and it is the first;
or there is a transaction, no connection was lost before, and the transaction is rolled
back, by the failure or by `ROLLBACK`. -/
def KeepsAtomicity (transaction : Option (List σ)) (start : List Failure)
    (queries : List (σ × List Failure)) (commit rollback : List Failure) : Prop :=
  if ∀ q ∈ queries, ¬ Fails q.2 then
    ((started start transaction).isSome ∧ (∀ q ∈ queries, q.2 = []) ∧ commit = []) ∨
      (queries.length = 1 ∧ (started start transaction = .none ∨ ∃ q ∈ queries, q.2 ≠ []))
  else
    errorOf (failing queries) ≠ 0 ∧
      (completed queries = [] ∨
        (started start transaction).isSome ∧ (∀ q ∈ completed queries, q.2 = []) ∧
          ¬ (KeepsOpen (failing queries) ∧ KeepsOpen rollback))

/-! ## `_HandleMySQLErrno` and `Execute` -/

variable {c c' : MySQLConnection σ} {ok : Bool}

theorem handleMySQLErrno_of_not_reconnects {attempts errNo : ℕ} {opens : List OpenReply}
    (herr : ¬ Reconnects errNo) (h : handleMySQLErrno attempts errNo opens c = some (ok, c')) :
    ok = false ∧ c' = c := by
  cases attempts with
  | zero => cases h
  | succ attempts =>
      rw [handleMySQLErrno] at h
      cases hclass : classify errNo with
      | lost => exact absurd (.inl hclass) herr
      | unreachable => exact absurd (.inr hclass) herr
      | deadlock => simp only [hclass] at h; cases h; exact ⟨rfl, rfl⟩
      | skip => simp only [hclass] at h; cases h; exact ⟨rfl, rfl⟩
      | terminate => simp only [hclass] at h; cases h

/-- A reconnect ends in a new connection if its retries do. -/
theorem reopen_of_retried {retry : ℕ → MySQLConnection σ → Option (Bool × MySQLConnection σ)}
    {attempts : ℕ} {reply : OpenReply} (hreply : reply.Retried)
    (hretry : ∀ lErrno, Reconnects lErrno →
      retry lErrno { c with live := false } = some (ok, c') → ok = true ∧ c' = c.connect)
    (h : reopen retry attempts c reply = some (ok, c')) : ok = true ∧ c' = c.connect := by
  cases reply with
  | noHandle => exact hreply.elim
  | refused lErrno =>
      rw [reopen] at h
      split at h
      · cases h
      · exact hretry lErrno hreply h
  | connected prepared =>
      cases prepared with
      | true => cases h; exact ⟨rfl, rfl⟩
      | false => cases h

/-- A new connection, unless the process is terminated. -/
theorem handleMySQLErrno_of_reconnects {attempts errNo : ℕ} {opens : List OpenReply}
    (herr : Reconnects errNo) (hopens : ∀ reply ∈ opens, reply.Retried)
    (h : handleMySQLErrno attempts errNo opens c = some (ok, c')) :
    ok = true ∧ c' = c.connect := by
  induction attempts generalizing errNo opens c with
  | zero => cases h
  | succ attempts ih =>
      have hhead : (opens.headD (.connected true)).Retried := by
        cases opens with
        | nil => trivial
        | cons reply opens => exact hopens reply List.mem_cons_self
      have htail : ∀ reply ∈ opens.tail, reply.Retried := by
        intro reply hreply
        exact hopens reply (List.mem_of_mem_tail hreply)
      rw [handleMySQLErrno] at h
      rcases herr with hclass | hclass
      · rw [hclass] at h
        exact reopen_of_retried (c := c.closeHandle) hhead (fun _ herr h => ih herr htail h) h
      · rw [hclass] at h
        exact reopen_of_retried hhead
          (fun _ herr h => ih (c := { c with live := false }) herr htail h) h

theorem connect_fail (c : MySQLConnection σ) (f : Failure) : (c.fail f).connect = c.connect := rfl

theorem live_perform (c : MySQLConnection σ) (command : Command σ) :
    (c.perform command).live = c.live := by
  cases command with
  | statement stmt => rw [perform]; split <;> rfl
  | _ => rfl

/-- `Execute` succeeds: on the connection it started on, or on a new one. -/
theorem execute_of_not_fails {command : Command σ} {failures : List Failure}
    (hlive : c.live = true) (hopens : ReconnectsSucceed failures) (hf : ¬ Fails failures)
    (h : execute command failures c = some (ok, c')) :
    ok = true ∧ c' = (if failures = [] then c else c.connect).perform command := by
  induction failures generalizing c with
  | nil =>
      rw [execute, if_pos hlive] at h
      cases h
      exact ⟨rfl, rfl⟩
  | cons f failures ih =>
      rw [fails_cons, not_or, not_not] at hf
      have hrest : ReconnectsSucceed failures := by
        intro g hg
        exact hopens g (List.mem_cons_of_mem _ hg)
      rw [execute, if_pos hlive] at h
      cases hh : handleMySQLErrno 5 f.errNo f.opens (c.fail f) with
      | none => rw [hh] at h; cases h
      | some r =>
          obtain ⟨b, d⟩ := r
          obtain ⟨rfl, rfl⟩ := handleMySQLErrno_of_reconnects hf.1 (hopens f List.mem_cons_self) hh
          rw [hh] at h
          obtain ⟨hok, hc⟩ := ih rfl hrest hf.2 h
          rw [connect_fail] at hc
          refine ⟨hok, ?_⟩
          rw [hc]
          simp only [reduceCtorEq, if_false]
          split <;> rfl

/-- `Execute` fails: nothing is committed, and the transaction stays or is rolled
back. -/
theorem execute_of_fails {command : Command σ} {failures : List Failure}
    (hlive : c.live = true) (hopens : ReconnectsSucceed failures) (hf : Fails failures)
    (h : execute command failures c = some (ok, c')) :
    ok = false ∧ c'.live = true ∧ c'.lastError = errorOf failures ∧
      c'.committed = c.committed ∧
      c'.transaction = if KeepsOpen failures then c.transaction else none := by
  induction failures generalizing c with
  | nil => exact absurd hf not_fails_nil
  | cons f failures ih =>
      have hrest : ReconnectsSucceed failures := by
        intro g hg
        exact hopens g (List.mem_cons_of_mem _ hg)
      rw [execute, if_pos hlive] at h
      cases hh : handleMySQLErrno 5 f.errNo f.opens (c.fail f) with
      | none => rw [hh] at h; cases h
      | some r =>
          obtain ⟨b, d⟩ := r
          rw [hh] at h
          by_cases herr : Reconnects f.errNo
          · obtain ⟨rfl, rfl⟩ :=
              handleMySQLErrno_of_reconnects herr (hopens f List.mem_cons_self) hh
            have hf' : Fails failures := (fails_cons.mp hf).resolve_left (not_not.mpr herr)
            obtain ⟨hok, hlive', herr', hcommitted, htx⟩ := ih rfl hrest hf' h
            refine ⟨hok, hlive', by rw [herr', errorOf, if_pos herr], hcommitted, ?_⟩
            -- the new connection has no transaction
            have hkeeps : ¬ KeepsOpen (f :: failures) := fun h => h.1 herr
            rw [htx, if_neg hkeeps]
            exact ite_self _
          · obtain ⟨rfl, rfl⟩ := handleMySQLErrno_of_not_reconnects herr hh
            cases h
            refine ⟨rfl, hlive, by rw [errorOf, if_neg herr]; rfl, rfl, ?_⟩
            cases hrolls : f.rollsBack <;> simp [fail, KeepsOpen, herr, hrolls]

/-! ## The loop -/

variable {start commit rollback : List Failure} {queries : List (σ × List Failure)} {code : ℤ}

@[simp] theorem toUnits_none : toUnits (none : Option (List σ)) = [] := rfl

theorem toUnits_of_getD_eq_nil {transaction : Option (List σ)} (h : transaction.getD [] = []) :
    toUnits transaction = [] := by
  cases transaction with
  | none => rfl
  | some pending =>
      obtain rfl : pending = [] := h
      rfl

/-- `ROLLBACK` commits nothing. -/
theorem rollback_spec (hlive : c.live = true) (hopens : ReconnectsSucceed rollback)
    (h : execute .rollback rollback c = some (ok, c')) :
    c'.committed = c.committed ∧
      c'.transaction = if KeepsOpen rollback then c.transaction else none := by
  by_cases hf : Fails rollback
  · obtain ⟨-, -, -, hcommitted, htx⟩ := execute_of_fails hlive hopens hf h
    exact ⟨hcommitted, htx⟩
  · rw [(execute_of_not_fails hlive hopens hf h).2, if_neg (mt fails_of_keepsOpen hf)]
    split <;> exact ⟨rfl, rfl⟩

/-- `COMMIT` commits the transaction only if it meets no failure. -/
theorem commit_spec (hlive : c.live = true) (hopens : ReconnectsSucceed commit)
    (h : execute .commit commit c = some (ok, c')) :
    c'.committed = c.committed ++ (if commit = [] then toUnits c.transaction else []) ∧
      c'.transaction = if KeepsOpen commit then c.transaction else none := by
  by_cases hf : Fails commit
  · have hne : commit ≠ [] := by
      rintro rfl
      exact not_fails_nil hf
    obtain ⟨-, -, -, hcommitted, htx⟩ := execute_of_fails hlive hopens hf h
    rw [if_neg hne, List.append_nil]
    exact ⟨hcommitted, htx⟩
  · rw [(execute_of_not_fails hlive hopens hf h).2, if_neg (mt fails_of_keepsOpen hf)]
    split <;> simp [perform, connect]

theorem failing_cons_of_fails {stmt : σ} {failures : List Failure} (hf : Fails failures) :
    failing ((stmt, failures) :: queries) = failures := by
  simp [failing, hf]

theorem failing_cons_of_not_fails {stmt : σ} {failures : List Failure} (hf : ¬ Fails failures) :
    failing ((stmt, failures) :: queries) = failing queries := by
  simp [failing, hf]

theorem leftOpen_of_fails {transaction : Option (List σ)} {stmt : σ} {failures : List Failure}
    (hf : Fails failures) :
    leftOpen commit rollback transaction ((stmt, failures) :: queries) =
      if KeepsOpen failures ∧ KeepsOpen rollback then transaction else none := by
  cases transaction <;> cases failures <;> simp [leftOpen, hf]

variable (commit rollback queries) in
theorem units_cons_of_not_fails (stmt : σ) {failures : List Failure} (hf : ¬ Fails failures)
    (c : MySQLConnection σ) :
    let d := (if failures = [] then c else c.connect).perform (.statement stmt)
    c.committed ++ units commit c.transaction ((stmt, failures) :: queries) =
        d.committed ++ units commit d.transaction queries ∧
      leftOpen commit rollback c.transaction ((stmt, failures) :: queries) =
        leftOpen commit rollback d.transaction queries := by
  cases failures with
  | nil =>
      cases htx : c.transaction with
      | none => simp [units, leftOpen, not_fails_nil, perform, htx]
      | some pending => simp [units, leftOpen, not_fails_nil, perform, htx]
  | cons f failures => simp [units, leftOpen, hf, perform, connect]

/-- What the loop reports, what it commits, and what it leaves open. -/
theorem executeQueries_spec (hlive : c.live = true)
    (hqueries : ∀ q ∈ queries, ReconnectsSucceed q.2) (hcommit : ReconnectsSucceed commit)
    (hrollback : ReconnectsSucceed rollback)
    (h : executeQueries commit rollback queries c = some (code, c')) :
    code = errorOf (failing queries) ∧
      c'.committed = c.committed ++ units commit c.transaction queries ∧
      c'.transaction = leftOpen commit rollback c.transaction queries := by
  induction queries generalizing c with
  | nil =>
      rw [executeQueries, Option.bind_eq_some_iff] at h
      obtain ⟨⟨ok, d⟩, hexec, h⟩ := h
      cases h
      exact ⟨rfl, commit_spec hlive hcommit hexec⟩
  | cons q queries ih =>
      obtain ⟨stmt, failures⟩ := q
      rw [executeQueries, Option.bind_eq_some_iff] at h
      obtain ⟨⟨ok, d⟩, hexec, h⟩ := h
      have hopens : ReconnectsSucceed failures := hqueries _ List.mem_cons_self
      by_cases hf : Fails failures
      · obtain ⟨rfl, hlive', herr, hcommitted, htx⟩ := execute_of_fails hlive hopens hf hexec
        simp only [Bool.false_eq_true, if_false, Option.bind_eq_some_iff] at h
        obtain ⟨⟨ok', d'⟩, hexec', h⟩ := h
        cases h
        obtain ⟨hcommitted', htx'⟩ := rollback_spec hlive' hrollback hexec'
        refine ⟨by rw [herr, failing_cons_of_fails hf], ?_, ?_⟩
        · simp [units, hf, hcommitted', hcommitted]
        · rw [htx', htx, leftOpen_of_fails hf]
          by_cases hkeeps : KeepsOpen rollback <;> simp [hkeeps]
      · obtain ⟨rfl, rfl⟩ := execute_of_not_fails hlive hopens hf hexec
        have hrest : ∀ q ∈ queries, ReconnectsSucceed q.2 := by
          intro q hq
          exact hqueries q (List.mem_cons_of_mem _ hq)
        have hlive' : ((if failures = [] then c else c.connect).perform
            (.statement stmt)).live = true := by
          rw [live_perform]
          split
          · exact hlive
          · rfl
        obtain ⟨hcode, hcommitted, htx⟩ := ih hlive' hrest h
        obtain ⟨hunits, hleft⟩ := units_cons_of_not_fails commit rollback queries stmt hf c
        refine ⟨by rw [hcode, failing_cons_of_not_fails hf], ?_, ?_⟩
        · rw [hcommitted, hunits]
        · rw [htx, hleft]

/-! ## The units and the promise -/

theorem completed_cons_of_fails {stmt : σ} {failures : List Failure} (hf : Fails failures) :
    completed ((stmt, failures) :: queries) = [] := by
  simp [completed, hf]

theorem completed_cons_of_not_fails {stmt : σ} {failures : List Failure} (hf : ¬ Fails failures) :
    completed ((stmt, failures) :: queries) = (stmt, failures) :: completed queries := by
  simp [completed, hf]

theorem completed_of_forall (h : ∀ q ∈ queries, ¬ Fails q.2) : completed queries = queries := by
  rw [completed, List.takeWhile_eq_self_iff]
  simpa using h

theorem failing_of_forall (h : ∀ q ∈ queries, ¬ Fails q.2) : failing queries = [] := by
  have hnone : (queries.find? fun q => decide (Fails q.2)) = none := by
    simpa using h
  rw [failing, hnone]
  rfl

/-- Without a transaction, every statement that completes is a unit. -/
theorem units_none (commit : List Failure) (queries : List (σ × List Failure)) :
    units commit none queries = (completed queries).map fun q => [q.1] := by
  induction queries with
  | nil => simp [units, completed]
  | cons q queries ih =>
      obtain ⟨stmt, failures⟩ := q
      by_cases hf : Fails failures
      · simp [units, hf, completed_cons_of_fails hf]
      · simp [units, hf, completed_cons_of_not_fails hf, ih]

/-- In a transaction that succeeds there is one unit if no connection is lost, or if the
only statement commits itself. -/
theorem units_some_of_forall {pending : List σ} (h : ∀ q ∈ queries, ¬ Fails q.2)
    (hne : pending ++ queries.map Prod.fst ≠ []) :
    units commit (some pending) queries = [pending ++ queries.map Prod.fst] ↔
      ((∀ q ∈ queries, q.2 = []) ∧ commit = []) ∨
        (pending = [] ∧ queries.length = 1 ∧ ∃ q ∈ queries, q.2 ≠ []) := by
  induction queries generalizing pending with
  | nil =>
      cases pending with
      | nil => exact absurd rfl hne
      | cons stmt pending => simp [units, toUnits]
  | cons q queries ih =>
      obtain ⟨stmt, failures⟩ := q
      have hf : ¬ Fails failures := h _ List.mem_cons_self
      have hrest : ∀ q ∈ queries, ¬ Fails q.2 := by
        intro q hq
        exact h q (List.mem_cons_of_mem _ hq)
      cases failures with
      | nil =>
          have hunits := @ih (pending ++ [stmt]) hrest (by simp)
          simp only [List.append_assoc, List.singleton_append] at hunits
          simp only [units, not_fails_nil, if_false, List.map_cons, hunits]
          constructor
          · rintro (⟨hall, hcommit⟩ | ⟨hpending, -⟩)
            · exact .inl ⟨by simpa using hall, hcommit⟩
            · simp at hpending
          · rintro (⟨hall, hcommit⟩ | ⟨-, hlength, q, hq, hmet⟩)
            · exact .inl ⟨fun q hq => hall q (List.mem_cons_of_mem _ hq), hcommit⟩
            · -- the only statement met no failure
              obtain rfl : queries = [] := by simpa using hlength
              rw [List.mem_singleton.mp hq] at hmet
              exact absurd rfl hmet
      | cons f failures =>
          simp only [units, hf, if_false, List.map_cons, units_none, completed_of_forall hrest]
          constructor
          · intro heq
            obtain ⟨hunit, hnil⟩ := List.cons.inj heq
            obtain rfl : queries = [] := by simpa using hnil
            refine .inr ⟨?_, rfl, _, List.mem_cons_self, by simp⟩
            simpa using hunit
          · rintro (⟨hall, -⟩ | ⟨rfl, hlength, -⟩)
            · exact absurd (hall _ List.mem_cons_self) (by simp)
            · obtain rfl : queries = [] := by simpa using hlength
              rfl

theorem units_some_of_fails {pending : List σ} (h : ∃ q ∈ queries, Fails q.2) :
    units commit (some pending) queries = [] ↔ ∀ q ∈ completed queries, q.2 = [] := by
  induction queries generalizing pending with
  | nil => simp at h
  | cons q queries ih =>
      obtain ⟨stmt, failures⟩ := q
      by_cases hf : Fails failures
      · simp [units, hf, completed_cons_of_fails hf]
      · have hrest : ∃ q ∈ queries, Fails q.2 := by
          simpa [hf] using h
        rw [completed_cons_of_not_fails hf]
        cases failures with
        | nil => simp [units, not_fails_nil, ih hrest]
        | cons f failures => simp [units, hf]

variable (commit) in
/-- Where a statement fails, not all are committed. -/
theorem length_units_lt (transaction : Option (List σ)) (h : ∃ q ∈ queries, Fails q.2) :
    (units commit transaction queries).flatten.length < queries.length := by
  induction queries generalizing transaction with
  | nil => simp at h
  | cons q queries ih =>
      obtain ⟨stmt, failures⟩ := q
      by_cases hf : Fails failures
      · simp [units, hf]
      · have hrest : ∃ q ∈ queries, Fails q.2 := by
          simpa [hf] using h
        have hself : ([stmt] :: units commit none queries).flatten.length <
            queries.length + 1 := by
          rw [List.flatten_cons, List.length_append, List.length_singleton, Nat.add_comm]
          exact Nat.succ_lt_succ (ih none hrest)
        cases transaction with
        | none => simpa [units, hf] using hself
        | some pending =>
            cases failures with
            | nil => simpa [units, hf] using Nat.lt_succ_of_lt (ih (some (pending ++ [stmt])) hrest)
            | cons f failures => simpa [units, hf] using hself

/-- Without a transaction none is left open. -/
theorem leftOpen_none (commit rollback : List Failure) (queries : List (σ × List Failure)) :
    leftOpen commit rollback none queries = none := by
  induction queries with
  | nil => exact ite_self _
  | cons q queries ih =>
      by_cases hf : Fails q.2
      · rw [leftOpen_of_fails hf, ite_self]
      · simpa [leftOpen, hf] using ih

/-- A transaction that succeeds is left open by a `COMMIT` that fails. -/
theorem leftOpen_some_of_forall {pending : List σ} (h : ∀ q ∈ queries, ¬ Fails q.2)
    (hcommit : commit = [] ∨ ∃ q ∈ queries, q.2 ≠ []) :
    leftOpen commit rollback (some pending) queries = none := by
  induction queries generalizing pending with
  | nil =>
      obtain rfl : commit = [] := hcommit.resolve_right (by simp)
      rfl
  | cons q queries ih =>
      obtain ⟨stmt, failures⟩ := q
      have hf : ¬ Fails failures := h _ List.mem_cons_self
      cases failures with
      | nil =>
          have hrest : commit = [] ∨ ∃ q ∈ queries, q.2 ≠ [] := by
            simpa using hcommit
          have hih : leftOpen commit rollback (some (pending ++ [stmt])) queries = none :=
            ih (fun q hq => h q (List.mem_cons_of_mem _ hq)) hrest
          simpa [leftOpen, not_fails_nil] using hih
      | cons f failures => simpa [leftOpen, hf] using leftOpen_none commit rollback queries

/-- A transaction that fails is left open if neither the failure nor `ROLLBACK` ends it. -/
theorem leftOpen_some_of_fails {pending : List σ} (h : ∃ q ∈ queries, Fails q.2)
    (hcompleted : ∀ q ∈ completed queries, q.2 = []) :
    leftOpen commit rollback (some pending) queries =
      if KeepsOpen (failing queries) ∧ KeepsOpen rollback then
        some (pending ++ (completed queries).map Prod.fst)
      else none := by
  induction queries generalizing pending with
  | nil => simp at h
  | cons q queries ih =>
      obtain ⟨stmt, failures⟩ := q
      by_cases hf : Fails failures
      · simp [leftOpen_of_fails hf, completed_cons_of_fails hf, failing_cons_of_fails hf]
      · have hrest : ∃ q ∈ queries, Fails q.2 := by
          simpa [hf] using h
        rw [completed_cons_of_not_fails hf] at hcompleted ⊢
        obtain rfl : failures = [] := hcompleted _ List.mem_cons_self
        have hih : leftOpen commit rollback (some (pending ++ [stmt])) queries = _ :=
          ih hrest fun q hq => hcompleted q (List.mem_cons_of_mem _ hq)
        rw [failing_cons_of_not_fails hf]
        simpa [leftOpen, hf] using hih

theorem singletons_eq_singleton (hq : queries ≠ []) :
    (queries.map fun q => [q.1]) = [queries.map Prod.fst] ↔ queries.length = 1 := by
  cases queries with
  | nil => exact absurd rfl hq
  | cons q queries =>
      cases queries with
      | nil => simp
      | cons q' queries => simp

variable (start) in
theorem started_getD {transaction : Option (List σ)} (h : transaction.getD [] = []) :
    (started start transaction).getD [] = [] := by
  rw [started]
  split
  · split
    · exact h
    · rfl
  · rfl

/-- `START TRANSACTION` opens a transaction, unless it fails. -/
theorem startTransaction_spec (hlive : c.live = true) (hsettled : c.Settled)
    (hopens : ReconnectsSucceed start) (h : execute .startTransaction start c = some (ok, c')) :
    c'.live = true ∧ c'.committed = c.committed ∧
      c'.transaction = started start c.transaction := by
  by_cases hf : Fails start
  · obtain ⟨-, hlive', -, hcommitted, htx⟩ := execute_of_fails hlive hopens hf h
    exact ⟨hlive', hcommitted, by rw [htx, started, if_pos hf]⟩
  · have hnone : toUnits c.transaction = [] := toUnits_of_getD_eq_nil hsettled
    rw [(execute_of_not_fails hlive hopens hf h).2, started, if_neg hf, live_perform]
    split
    · exact ⟨hlive, by simp [perform, hnone], rfl⟩
    · exact ⟨rfl, by simp [perform, connect], rfl⟩

variable (rollback) in
/-- If no statement fails, the units are as promised exactly under the first half of
`KeepsAtomicity`, and then nothing is left open. -/
theorem units_iff_of_forall {transaction : Option (List σ)} (hq : queries ≠ [])
    (hsettled : transaction.getD [] = []) (hall : ∀ q ∈ queries, ¬ Fails q.2) :
    (units commit transaction queries = [queries.map Prod.fst] ∧
        (leftOpen commit rollback transaction queries).getD [] = []) ↔
      (transaction.isSome ∧ (∀ q ∈ queries, q.2 = []) ∧ commit = []) ∨
        (queries.length = 1 ∧ (transaction = none ∨ ∃ q ∈ queries, q.2 ≠ [])) := by
  cases transaction with
  | none =>
      rw [units_none, completed_of_forall hall, singletons_eq_singleton hq, leftOpen_none]
      simp
  | some pending =>
      obtain rfl : pending = [] := hsettled
      have hunits : units commit (some []) queries = [[] ++ queries.map Prod.fst] ↔ _ :=
        units_some_of_forall hall (by simpa using hq)
      rw [List.nil_append] at hunits
      simp only [hunits, Option.isSome_some, true_and, reduceCtorEq, false_or]
      constructor
      · exact And.left
      · intro h
        refine ⟨h, ?_⟩
        rw [leftOpen_some_of_forall hall (h.imp And.right And.right)]
        rfl

variable (commit) in
/-- If a statement fails, nothing is committed, now or later, exactly under the second
half of `KeepsAtomicity`. -/
theorem units_iff_of_fails {transaction : Option (List σ)}
    (hsettled : transaction.getD [] = []) (hsome : ∃ q ∈ queries, Fails q.2) :
    (units commit transaction queries = [] ∧
        (leftOpen commit rollback transaction queries).getD [] = []) ↔
      completed queries = [] ∨
        transaction.isSome ∧ (∀ q ∈ completed queries, q.2 = []) ∧
          ¬ (KeepsOpen (failing queries) ∧ KeepsOpen rollback) := by
  cases transaction with
  | none =>
      rw [units_none, leftOpen_none]
      simp
  | some pending =>
      obtain rfl : pending = [] := hsettled
      rw [units_some_of_fails hsome]
      constructor
      · rintro ⟨hcompleted, hleft⟩
        rw [leftOpen_some_of_fails hsome hcompleted] at hleft
        by_cases hkeeps : KeepsOpen (failing queries) ∧ KeepsOpen rollback
        · rw [if_pos hkeeps] at hleft
          exact .inl (by simpa using hleft)
        · exact .inr ⟨rfl, hcompleted, hkeeps⟩
      · rintro (hnil | ⟨-, hcompleted, hkeeps⟩)
        · have hcompleted : ∀ q ∈ completed queries, q.2 = [] := by simp [hnil]
          rw [leftOpen_some_of_fails hsome hcompleted, hnil]
          exact ⟨by simp, by split <;> rfl⟩
        · rw [leftOpen_some_of_fails hsome hcompleted, if_neg hkeeps]
          exact ⟨hcompleted, rfl⟩

/-- **`ExecuteTransaction` is atomic exactly under `KeepsAtomicity`**, for every pattern
of failures in which the connections that are lost are replaced, whenever it returns.
Afterwards the connection is as it has to be for the next transaction. -/
theorem executeTransaction_atomic_iff (hlive : c.live = true) (hsettled : c.Settled)
    (hq : queries ≠ []) (hstart : ReconnectsSucceed start)
    (hqueries : ∀ q ∈ queries, ReconnectsSucceed q.2) (hcommit : ReconnectsSucceed commit)
    (hrollback : ReconnectsSucceed rollback)
    (h : c.executeTransaction start queries commit rollback = some (code, c')) :
    c.Atomic queries code c' ↔ KeepsAtomicity c.transaction start queries commit rollback := by
  rw [executeTransaction, if_neg (by simpa using hq), Option.bind_eq_some_iff] at h
  obtain ⟨⟨ok, d⟩, hexec, h⟩ := h
  obtain ⟨hlive', hcommitted, htx⟩ := startTransaction_spec hlive hsettled hstart hexec
  obtain ⟨hcode, hunits, hleft⟩ := executeQueries_spec hlive' hqueries hcommit hrollback h
  have hstarted := started_getD start hsettled
  rw [htx] at hunits hleft
  rw [hcommitted] at hunits
  rw [KeepsAtomicity]
  by_cases hall : ∀ q ∈ queries, ¬ Fails q.2
  · -- all statements succeed, and zero is returned
    have hzero : code = 0 := by
      rw [hcode, failing_of_forall hall]
      rfl
    rw [if_pos hall, ← units_iff_of_forall rollback hq hstarted hall,
      ← List.append_right_inj c.committed, ← hunits, ← hleft]
    constructor
    · intro h
      exact ⟨h.all hzero, h.settled⟩
    · rintro ⟨hatomic, hset⟩
      exact ⟨fun _ => hatomic, fun hne => absurd hzero hne, hset⟩
  · -- a statement fails, and the number of its error is returned
    have hsome : ∃ q ∈ queries, Fails q.2 := by
      simpa using hall
    rw [if_neg hall, ← units_iff_of_fails commit hstarted hsome,
      ← List.append_right_inj c.committed, ← hunits, List.append_nil, ← hleft]
    have hcode' : code = 0 ↔ errorOf (failing queries) = 0 := by
      rw [hcode]
      exact Int.natCast_eq_zero
    constructor
    · intro h
      have hne : code ≠ 0 := by
        intro hzero
        have hunits' := List.append_cancel_left (hunits.symm.trans (h.all hzero))
        have hlt := length_units_lt commit (started start c.transaction) hsome
        rw [hunits'] at hlt
        simp at hlt
      exact ⟨mt hcode'.mpr hne, h.none hne, h.settled⟩
    · rintro ⟨hne, hatomic, hset⟩
      exact ⟨fun hzero => absurd (hcode'.mp hzero) hne, fun _ => hatomic, hset⟩

/-- `ER_LOCK_DEADLOCK` -/
def deadlocked : Failure := ⟨1213, true, []⟩

/-- `CR_SERVER_LOST`, and the reconnect succeeds at once. -/
def serverLost : Failure := ⟨2013, true, [.connected true]⟩

/-- An error of `mysql_stmt_bind_param`, which the connection does not know of. -/
def keptOnStatement : Failure := ⟨0, false, []⟩

/-- `ER_DUP_ENTRY` -/
def duplicateEntry : Failure := ⟨1062, false, []⟩

/-- `CR_MALFORMED_PACKET`: the call fails, and the connection lives on. -/
def malformedPacket : Failure := ⟨2027, false, []⟩

/-- A deadlock at the second statement: none is committed. -/
theorem executeTransaction_atomic_deadlock :
    ∃ c', ({} : MySQLConnection String).executeTransaction []
        [("INSERT 1", []), ("INSERT 2", [deadlocked])] [] [] = some (1213, c') ∧
      Atomic {} [("INSERT 1", []), ("INSERT 2", [deadlocked])] 1213 c' := by
  have hretried : ReconnectsSucceed [deadlocked] := by simp [ReconnectsSucceed, deadlocked]
  have hnil : ReconnectsSucceed [] := by simp [ReconnectsSucceed]
  have hsettled : ({} : MySQLConnection String).Settled := rfl
  refine ⟨_, rfl, (executeTransaction_atomic_iff rfl hsettled (List.cons_ne_nil _ _) hnil ?_ hnil
    hnil rfl).mpr ?_⟩
  · simp [hretried, hnil]
  · rw [KeepsAtomicity, if_neg (by decide)]
    exact ⟨by decide, .inr ⟨rfl, by decide, by decide⟩⟩

/-- The connection is lost at the second statement: only that one is committed, and zero
is returned.  An error kept on the second statement: none is committed, and zero is
returned.  `ROLLBACK` fails after an error: the next transaction commits the statement
before it. -/
theorem not_atomic_serverLost :
    (∃ c', ({} : MySQLConnection String).executeTransaction []
        [("INSERT 1", []), ("INSERT 2", [serverLost])] [] [] = some (0, c') ∧
      c'.committed = [["INSERT 2"]] ∧
      ¬ Atomic {} [("INSERT 1", []), ("INSERT 2", [serverLost])] 0 c') ∧
    (∃ c', ({} : MySQLConnection String).executeTransaction []
        [("INSERT 1", []), ("INSERT 2", [keptOnStatement])] [] [] = some (0, c') ∧
      c'.committed = []) ∧
    ∃ c' c'', ({} : MySQLConnection String).executeTransaction []
        [("INSERT 1", []), ("INSERT 2", [duplicateEntry])] [] [malformedPacket] =
          some (1062, c') ∧
      c'.executeTransaction [] [("INSERT 3", [])] [] [] = some (0, c'') ∧
      c''.committed = [["INSERT 1"], ["INSERT 3"]] := by
  refine ⟨⟨_, rfl, rfl, ?_⟩, ⟨_, rfl, rfl⟩, _, _, rfl, rfl, rfl⟩
  intro h
  have := h.all rfl
  revert this
  decide

end MySQLConnection
end WarheadDiscord
