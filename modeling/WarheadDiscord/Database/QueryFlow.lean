import Mathlib.Algebra.BigOperators.Group.List.Basic
import WarheadDiscord.Common.AsyncCallbackProcessor
import WarheadDiscord.Database.PoolClose

/-!
# From `AsyncQuery` to the handler

`AsyncQuery` puts a task with a promise into the queue of the pool and returns the future, which
goes to a processor together with the handler.  A worker executes the task and sets the value of
the promise; a later pass of the processor finds the future ready and calls the handler with the
value.  In between come other operations of the pool, queries on the synchronous connections, and
passes that find nothing.

The machine is the pool of `Database.WorkerPool` with a database beside it, and one processor whose
passes may be interrupted at every poll.  A future is known by the ticket of its task.  What a
handler does shows as steps behind its call: it may ask for something else, and then the new
callback goes behind `_callbacks`, which is empty during a pass.

`Cancel` deletes the tasks that are in the queue, and a future whose promise is deleted throws when
its value is taken; nothing catches that.

Every handler is called at most once, and with the answer that a database would have given that
executed one query after the other (`called_spec`); and while the pool is not closed every handler
can be called (`exists_run_called`).

## Main definitions

* `QueryFlow`, `QueryFlow.next` — the machine.
* `Serial` — a history that one database gives.
* `QueryFlow.Inv` — the invariant.
-/

namespace WarheadDiscord

/-- A query that was executed, with its ticket if it came through the queue. -/
structure ExecutedQuery (Q R : Type) where
  ticket : Option ℕ
  query : Q
  result : R
  deriving DecidableEq, Repr

/-- The pool, the database, and a processor. -/
structure QueryFlow (Q R D : Type) where
  pool : Pool Q
  db : D
  history : List (ExecutedQuery Q R) := []
  /-- The tickets of the promises that were deleted without a value. -/
  broken : List ℕ := []
  /-- The tickets of the futures in `_callbacks`. -/
  callbacks : List ℕ := []
  /-- A pass is going on; what it has not polled yet, and what it has kept. -/
  processing : Bool := false
  updateCallbacks : List ℕ := []
  kept : List ℕ := []
  /-- The tickets that a handler waits for or has waited for. -/
  asked : List ℕ := []
  /-- The handlers that were called, with what they were given. -/
  called : List (ℕ × R) := []
  /-- A future has thrown. -/
  crashed : Bool := false

namespace QueryFlow

/-- What can happen. -/
inductive Label (Q : Type)
  /-- A step of a worker, of the thread that closes the pool, or a call of `Close`. -/
  | worker (i now : ℕ)
  | main
  | close
  /-- An operation without a handler of this processor. -/
  | push (thread : ℕ) (query : Q)
  /-- A query on a synchronous connection. -/
  | direct (query : Q)
  /-- `AddCallback(AsyncQuery(query).WithPreparedCallback(…))` -/
  | ask (thread : ℕ) (query : Q)
  /-- `ProcessReadyCallbacks` begins. -/
  | process
  /-- `InvokeIfReady` of the next callback of the pass, or the end of the pass. -/
  | poll

variable {Q R D : Type} (answer : D → Q → R × D)

/-- The database executes a query. -/
def perform (s : QueryFlow Q R D) (ticket : Option ℕ) (query : Q) : QueryFlow Q R D :=
  { s with
    db := (answer s.db query).2
    history := s.history ++ [⟨ticket, query, (answer s.db query).1⟩] }

/-- `operation->call()` -/
def call (s : QueryFlow Q R D) (ticket : ℕ) : QueryFlow Q R D :=
  match s.pool.pushed[ticket]? with
  | none => s
  | some (_, query) => s.perform answer (some ticket) query

/-- A step of a worker; at the end of `operation->call()` the promise has its value. -/
def workerStep (s : QueryFlow Q R D) (i now : ℕ) : Option (QueryFlow Q R D) :=
  (s.pool.workerStep i now).map fun pool =>
    match s.pool.workers[i]?.map Worker.pc with
    | some (.running ticket) => { s.call answer ticket with pool := pool }
    | _ => { s with pool := pool }

/-- A step of the thread that closes the pool. -/
def mainStep (s : QueryFlow Q R D) : Option (QueryFlow Q R D) :=
  s.pool.mainStep.map fun pool =>
    match s.pool.main with
    | .cancel :: _ => { s with pool := pool, broken := s.broken ++ s.pool.ops }
    | _ => { s with pool := pool }

/-- The value of the promise. -/
def promised (s : QueryFlow Q R D) (ticket : ℕ) : Option R :=
  (s.history.find? fun e => e.ticket = some ticket).map ExecutedQuery.result

def process (s : QueryFlow Q R D) : QueryFlow Q R D :=
  if s.callbacks.isEmpty then s
  else { s with processing := true, updateCallbacks := s.callbacks, callbacks := [] }

def poll (s : QueryFlow Q R D) : QueryFlow Q R D :=
  match s.updateCallbacks with
  | [] => { s with processing := false, callbacks := s.callbacks ++ s.kept, kept := [] }
  | ticket :: rest =>
      match s.promised ticket with
      | some result => { s with updateCallbacks := rest, called := s.called ++ [(ticket, result)] }
      | none =>
          if ticket ∈ s.broken then { s with crashed := true }
          else { s with updateCallbacks := rest, kept := s.kept ++ [ticket] }

/-- One step.  Nothing happens any more after an exception that nothing catches. -/
def next (s : QueryFlow Q R D) (l : Label Q) : Option (QueryFlow Q R D) :=
  if s.crashed then none
  else
    match l with
    | .worker i now => s.workerStep answer i now
    | .main => s.mainStep
    | .close => (s.pool.next .close).map fun pool => { s with pool := pool }
    | .push thread query => some { s with pool := s.pool.enqueue thread query }
    | .direct query => some (s.perform answer none query)
    | .ask thread query =>
        some { s with
          pool := s.pool.enqueue thread query
          callbacks := s.callbacks ++ [s.pool.pushed.length]
          asked := s.asked ++ [s.pool.pushed.length] }
    | .process => if s.processing then none else some s.process
    | .poll => if s.processing then some s.poll else none

/-- A pool that was just opened. -/
def start (asyncThreads synchThreads : ℕ) (db : D) : QueryFlow Q R D where
  pool := .opened asyncThreads synchThreads
  db := db

/-! ## The steps one by one -/

/-- The steps, with what each of them needs. -/
inductive Stepped (s : QueryFlow Q R D) : QueryFlow Q R D → Prop
  /-- A worker does something else than to end an operation. -/
  | worked {i : ℕ} {pool : Pool Q} (step : Pool.WorkerStep s.pool i pool)
      (executed : pool.executed = s.pool.executed) : Stepped s { s with pool := pool }
  | executed {i ticket now : ℕ} {w : Worker} (worker : s.pool.workers[i]? = some w)
      (pc : w.pc = .running ticket) :
      Stepped s { s.call answer ticket with
        pool :=
          { s.pool with
            workers := s.pool.workers.set i { w with pc := .waiting }
            executed := s.pool.executed ++ [(ticket, now)] } }
  | main {pool : Pool Q} {broken : List ℕ} (step : Pool.MainStep s.pool pool)
      (broken_eq : broken = s.broken ∨ broken = s.broken ++ s.pool.ops) :
      Stepped s { s with pool := pool, broken := broken }
  | closed (idle : s.pool.main = []) :
      Stepped s { s with
        pool := { s.pool with main := closeProgram, closedAt := some s.pool.pushed.length } }
  | pushed (thread : ℕ) (query : Q) : Stepped s { s with pool := s.pool.enqueue thread query }
  | direct (query : Q) : Stepped s (s.perform answer none query)
  | asked (thread : ℕ) (query : Q) :
      Stepped s { s with
        pool := s.pool.enqueue thread query
        callbacks := s.callbacks ++ [s.pool.pushed.length]
        asked := s.asked ++ [s.pool.pushed.length] }
  | processed (waits : s.processing = false) : Stepped s s.process
  | ended (processing : s.processing = true) (update : s.updateCallbacks = []) :
      Stepped s { s with processing := false, callbacks := s.callbacks ++ s.kept, kept := [] }
  | answered {ticket : ℕ} {rest : List ℕ} {result : R} (processing : s.processing = true)
      (update : s.updateCallbacks = ticket :: rest) (promised : s.promised ticket = some result) :
      Stepped s { s with updateCallbacks := rest, called := s.called ++ [(ticket, result)] }
  | threw {ticket : ℕ} (broken : ticket ∈ s.broken) : Stepped s { s with crashed := true }
  | kept {ticket : ℕ} {rest : List ℕ} (processing : s.processing = true)
      (update : s.updateCallbacks = ticket :: rest) (promised : s.promised ticket = none) :
      Stepped s { s with updateCallbacks := rest, kept := s.kept ++ [ticket] }

variable {answer} {s s' : QueryFlow Q R D}

theorem stepped_workerStep {i now : ℕ} (h : s.workerStep answer i now = some s') :
    s.Stepped answer s' := by
  obtain ⟨pool, hpool, heq⟩ := Option.map_eq_some_iff.mp h
  cases hw : s.pool.workers[i]? with
  | none => simp [Pool.workerStep, hw] at hpool
  | some w =>
      rw [hw, Option.map_some] at heq
      cases hpc : w.pc with
      | running ticket =>
          simp only [hpc] at heq
          simp only [Pool.workerStep, hw, hpc, Option.some.injEq] at hpool
          rw [← heq, ← hpool]
          exact .executed hw hpc
      | waiting =>
          simp only [hpc] at heq
          rw [← heq]
          refine .worked (Pool.workerStep_cases hpool) ?_
          simp only [Pool.workerStep, hw, hpc, Pool.waitAndPop] at hpool
          split at hpool
          · cases hpool
            rfl
          · split at hpool <;> cases hpool
            rfl
      | popped ticket =>
          simp only [hpc] at heq
          rw [← heq]
          refine .worked (Pool.workerStep_cases hpool) ?_
          simp only [Pool.workerStep, hw, hpc, Option.some.injEq] at hpool
          rw [← hpool]
          unfold Pool.check
          split
          · rfl
          · split <;> rfl
      | exited => simp [Pool.workerStep, hw, hpc] at hpool

theorem stepped_mainStep (h : s.mainStep = some s') : s.Stepped answer s' := by
  obtain ⟨pool, hpool, heq⟩ := Option.map_eq_some_iff.mp h
  rw [← heq]
  split
  · exact .main (Pool.mainStep_cases hpool) (.inr rfl)
  · exact .main (Pool.mainStep_cases hpool) (.inl rfl)

theorem stepped_poll (h : s.processing = true) : s.Stepped answer s.poll := by
  unfold poll
  split
  · rename_i hupdate
    exact .ended h hupdate
  · rename_i ticket rest hupdate
    split
    · rename_i result hpromised
      exact .answered h hupdate hpromised
    · rename_i hpromised
      split
      · rename_i hbroken
        exact .threw hbroken
      · exact .kept h hupdate hpromised

theorem stepped_of_next {l : Label Q} (h : s.next answer l = some s') :
    s.crashed = false ∧ s.Stepped answer s' := by
  unfold next at h
  split at h
  · cases h
  · rename_i hcrashed
    refine ⟨by simpa using hcrashed, ?_⟩
    cases l with
    | worker i now => exact stepped_workerStep h
    | main => exact stepped_mainStep h
    | close =>
        obtain ⟨pool, hpool, heq⟩ := Option.map_eq_some_iff.mp h
        simp only [Pool.next, Option.ite_none_right_eq_some, Option.some.injEq] at hpool
        rw [← heq, ← hpool.2]
        exact .closed hpool.1
    | push thread query =>
        cases h
        exact .pushed thread query
    | direct query =>
        cases h
        exact .direct query
    | ask thread query =>
        cases h
        exact .asked thread query
    | process =>
        simp only [Option.ite_none_left_eq_some, Option.some.injEq] at h
        rw [← h.2]
        exact .processed (by simpa using h.1)
    | poll =>
        simp only [Option.ite_none_right_eq_some, Option.some.injEq] at h
        rw [← h.2]
        exact stepped_poll h.1

/-! ## The invariant -/

/-- One database gives these results, one after the other. -/
def Serial (answer : D → Q → R × D) : D → List (ExecutedQuery Q R) → D → Prop
  | db, [], db' => db' = db
  | db, e :: history, db' =>
      e.result = (answer db e.query).1 ∧ Serial answer (answer db e.query).2 history db'

theorem serial_concat {db db' : D} {history : List (ExecutedQuery Q R)}
    (h : Serial answer db history db') (ticket : Option ℕ) (query : Q) :
    Serial answer db (history ++ [⟨ticket, query, (answer db' query).1⟩]) (answer db' query).2 := by
  induction history generalizing db with
  | nil =>
      cases h
      exact ⟨rfl, rfl⟩
  | cons e history ih => exact ⟨h.1, ih h.2⟩

/-- The history is that of one database and has the operations that the workers have executed; a
handler is waited for or has been called, once and with the result of its query. -/
structure Inv (answer : D → Q → R × D) (db : D) (s : QueryFlow Q R D) : Prop where
  conserved : s.pool.Conserved
  serial : Serial answer db s.history s.db
  executed : s.history.filterMap ExecutedQuery.ticket = s.pool.executed.map Prod.fst
  queries : ∀ e ∈ s.history, ∀ t, e.ticket = some t →
    (s.pool.pushed[t]?).map Prod.snd = some e.query
  nodup : s.asked.Nodup
  asked_lt : ∀ t ∈ s.asked, t < s.pool.pushed.length
  account : ∀ t, s.callbacks.count t + s.updateCallbacks.count t + s.kept.count t +
    (s.called.map Prod.fst).count t = s.asked.count t
  called : ∀ x ∈ s.called, ∃ e ∈ s.history, e.ticket = some x.1 ∧ e.result = x.2
  idle : s.processing = false → s.updateCallbacks = [] ∧ s.kept = []
  /-- Without a call of `Close` the pool is served, and no promise is deleted. -/
  unclosed : s.pool.closedAt = none →
    s.pool.Serving ∧ s.pool.main = [] ∧ s.pool.lost = [] ∧ s.broken = []

theorem inv_start (n m : ℕ) (db : D) : Inv answer db (start n m db : QueryFlow Q R D) where
  conserved := by
    intro t
    simp [start, Pool.opened, Pool.held, Pool.sumWorkers, Pool.timesExecuted, WorkerPc.holds]
  serial := rfl
  executed := rfl
  queries := nofun
  nodup := .nil
  asked_lt := nofun
  account := fun _ => rfl
  called := nofun
  idle := fun _ => ⟨rfl, rfl⟩
  unclosed := by
    intro _
    refine ⟨⟨rfl, ?_⟩, rfl, rfl, rfl⟩
    intro w hw
    rw [List.eq_of_mem_replicate hw]
    exact ⟨rfl, by decide⟩

variable {db : D}

theorem exists_entry_of_promised {t : ℕ} {r : R} (h : s.promised t = some r) :
    ∃ e ∈ s.history, e.ticket = some t ∧ e.result = r := by
  obtain ⟨e, he, hr⟩ := Option.map_eq_some_iff.mp h
  exact ⟨e, List.mem_of_find?_eq_some he, by simpa using List.find?_some he, hr⟩

/-- A ticket that a worker holds has been given out. -/
theorem lt_of_running (h : s.pool.Conserved) {i ticket : ℕ} {w : Worker}
    (hw : s.pool.workers[i]? = some w) (hpc : w.pc = .running ticket) :
    ticket < s.pool.pushed.length := by
  have hone := Pool.held_set hw .waiting ticket
  have ht := h ticket
  simp only [hpc, WorkerPc.holds, if_true] at hone
  by_contra hge
  rw [if_neg hge] at ht
  omega

theorem unclosed_enqueue (h : s.Inv answer db) (thread : ℕ) (query : Q)
    (hopen : (s.pool.enqueue thread query).closedAt = none) :
    (s.pool.enqueue thread query).Serving ∧ (s.pool.enqueue thread query).main = [] ∧
      (s.pool.enqueue thread query).lost = [] ∧ s.broken = [] := by
  obtain ⟨hserving, hmain, hlost, hbroken⟩ := h.unclosed hopen
  exact ⟨⟨hserving.shutdown, hserving.workers⟩, hmain, hlost, hbroken⟩

theorem getElem?_enqueue {t : ℕ} {x : ℕ × Q} (h : s.pool.pushed[t]? = some x) (thread : ℕ)
    (query : Q) : (s.pool.enqueue thread query).pushed[t]? = some x := by
  rw [Pool.enqueue, List.getElem?_append_left (List.getElem?_eq_some_iff.mp h).1]
  exact h

/-- A query that has no handler here. -/
theorem Inv.pushed (h : s.Inv answer db) (thread : ℕ) (query : Q) :
    Inv answer db { s with pool := s.pool.enqueue thread query } := by
  refine { h with conserved := ?_, queries := ?_, asked_lt := ?_, unclosed := ?_ }
  · exact Pool.conserved_enqueue h.conserved thread query
  · intro e he t ht
    obtain ⟨x, hx, hq⟩ := Option.map_eq_some_iff.mp (h.queries e he t ht)
    rw [getElem?_enqueue hx, Option.map_some, hq]
  · intro t ht
    have hlt := h.asked_lt t ht
    simp only [Pool.enqueue, List.length_append, List.length_singleton]
    omega
  · exact unclosed_enqueue h thread query

theorem Inv.asked (h : s.Inv answer db) (thread : ℕ) (query : Q) :
    Inv answer db { s with
      pool := s.pool.enqueue thread query
      callbacks := s.callbacks ++ [s.pool.pushed.length]
      asked := s.asked ++ [s.pool.pushed.length] } := by
  have hpushed := h.pushed thread query
  refine { hpushed with nodup := ?_, asked_lt := ?_, account := ?_ }
  · rw [List.nodup_append_comm, List.singleton_append, List.nodup_cons]
    exact ⟨fun hmem => Nat.lt_irrefl _ (h.asked_lt _ hmem), h.nodup⟩
  · intro t ht
    rcases List.mem_append.mp ht with ht | ht
    · exact hpushed.asked_lt t ht
    · rw [List.mem_singleton.mp ht]
      simp [Pool.enqueue]
  · intro t
    have ht := h.account t
    simp only [List.count_append]
    omega

theorem Inv.direct (h : s.Inv answer db) (query : Q) :
    Inv answer db (s.perform answer none query) := by
  refine { h with serial := ?_, executed := ?_, queries := ?_, called := ?_ }
  · exact serial_concat h.serial none query
  · simp only [perform, List.filterMap_append, h.executed]
    simp
  · intro e he t ht
    rcases List.mem_append.mp he with he | he
    · exact h.queries e he t ht
    · rw [List.mem_singleton.mp he] at ht
      cases ht
  · intro x hx
    obtain ⟨e, he, hx⟩ := h.called x hx
    exact ⟨e, List.mem_append_left _ he, hx⟩

/-- The end of `operation->call()`. -/
theorem Inv.executed_step (h : s.Inv answer db) {i ticket : ℕ} (now : ℕ) {w : Worker}
    (hw : s.pool.workers[i]? = some w) (hpc : w.pc = .running ticket) :
    Inv answer db { s.call answer ticket with
      pool :=
        { s.pool with
          workers := s.pool.workers.set i { w with pc := .waiting }
          executed := s.pool.executed ++ [(ticket, now)] } } := by
  have hstep := Pool.WorkerStep.executed now hw hpc
  have hlt := lt_of_running h.conserved hw hpc
  obtain ⟨⟨thread, query⟩, hpushed⟩ : ∃ x, s.pool.pushed[ticket]? = some x :=
    ⟨_, List.getElem?_eq_getElem hlt⟩
  have hcall : s.call answer ticket = s.perform answer (some ticket) query := by
    rw [call, hpushed]
  rw [hcall]
  refine
    { h with
      conserved := ?_
      serial := ?_
      executed := ?_
      queries := ?_
      called := ?_
      unclosed := ?_ }
  · exact Pool.conserved_workerStep h.conserved hstep
  · exact serial_concat h.serial (some ticket) query
  · simp only [perform, List.filterMap_append, h.executed, List.map_append]
    rfl
  · intro e he t ht
    rcases List.mem_append.mp he with he | he
    · exact h.queries e he t ht
    · rw [List.mem_singleton.mp he] at ht ⊢
      cases ht
      rw [hpushed]
      rfl
  · intro x hx
    obtain ⟨e, he, hx⟩ := h.called x hx
    exact ⟨e, List.mem_append_left _ he, hx⟩
  · intro hopen
    obtain ⟨hserving, hmain, hlost, hbroken⟩ := h.unclosed hopen
    obtain ⟨hserving', hlost', hmain'⟩ := Pool.serving_workerStep hserving hstep
    exact ⟨hserving', hmain, hlost, hbroken⟩

theorem Inv.worked (h : s.Inv answer db) {i : ℕ} {pool : Pool Q}
    (hstep : Pool.WorkerStep s.pool i pool) (hexecuted : pool.executed = s.pool.executed) :
    Inv answer db { s with pool := pool } := by
  obtain ⟨hmain, -, hclosedAt, hpushed, -⟩ := Pool.workerStep_frame hstep
  refine { h with conserved := ?_, executed := ?_, queries := ?_, asked_lt := ?_, unclosed := ?_ }
  · exact Pool.conserved_workerStep h.conserved hstep
  · rw [h.executed, hexecuted]
  · rw [hpushed]
    exact h.queries
  · rw [hpushed]
    exact h.asked_lt
  · intro hopen
    rw [hclosedAt] at hopen
    obtain ⟨hserving, hmain', hlost, hbroken⟩ := h.unclosed hopen
    obtain ⟨hserving', hlost', -⟩ := Pool.serving_workerStep hserving hstep
    exact ⟨hserving', hmain.trans hmain', hlost'.trans hlost, hbroken⟩

/-- What the thread that closes the pool leaves alone. -/
theorem mainStep_frame {pool pool' : Pool Q} (hstep : Pool.MainStep pool pool') :
    pool'.executed = pool.executed ∧ pool'.pushed = pool.pushed ∧
      pool'.closedAt = pool.closedAt ∧ pool.main ≠ [] := by
  cases hstep with
  | spawned main => exact ⟨rfl, rfl, rfl, by simp [main]⟩
  | asyncKept main => exact ⟨rfl, rfl, rfl, by simp [main]⟩
  | openingDropped main => exact ⟨rfl, rfl, rfl, by simp [main]⟩
  | asyncCleared main => exact ⟨rfl, rfl, rfl, by simp [main]⟩
  | syncKept main => exact ⟨rfl, rfl, rfl, by simp [main]⟩
  | syncCleared main => exact ⟨rfl, rfl, rfl, by simp [main]⟩
  | tokenSet main => exact ⟨rfl, rfl, rfl, by simp [main]⟩
  | cancelled main => exact ⟨rfl, rfl, rfl, by simp [main]⟩
  | joined main _ => exact ⟨rfl, rfl, rfl, by simp [main]⟩
  | returned main => exact ⟨rfl, rfl, rfl, by simp [main]⟩

theorem Inv.main (h : s.Inv answer db) {pool : Pool Q} (broken : List ℕ)
    (hstep : Pool.MainStep s.pool pool) :
    Inv answer db { s with pool := pool, broken := broken } := by
  obtain ⟨hexecuted, hpushed, hclosedAt, hmain⟩ := mainStep_frame hstep
  refine { h with conserved := ?_, executed := ?_, queries := ?_, asked_lt := ?_, unclosed := ?_ }
  · exact Pool.conserved_mainStep h.conserved hstep
  · rw [h.executed, hexecuted]
  · rw [hpushed]
    exact h.queries
  · rw [hpushed]
    exact h.asked_lt
  · intro hopen
    rw [hclosedAt] at hopen
    exact absurd (h.unclosed hopen).2.1 hmain

/-- **Every step keeps the invariant.** -/
theorem Inv.step (h : s.Inv answer db) (hstep : s.Stepped answer s') : Inv answer db s' := by
  cases hstep with
  | worked step executed => exact h.worked step executed
  | executed worker pc => exact h.executed_step _ worker pc
  | main step _ => exact h.main _ step
  | closed _ => exact { h with unclosed := nofun }
  | pushed thread query => exact h.pushed thread query
  | direct query => exact h.direct query
  | asked thread query => exact h.asked thread query
  | processed waits =>
      obtain ⟨hupdate, hkept⟩ := h.idle waits
      unfold process
      split
      · exact h
      · refine { h with account := ?_, idle := nofun }
        intro t
        have ht := h.account t
        simp only [hupdate, hkept, List.count_nil] at ht ⊢
        omega
  | ended processing update =>
      refine { h with account := ?_, idle := fun _ => ⟨update, rfl⟩ }
      intro t
      have ht := h.account t
      simp only [List.count_append, List.count_nil] at ht ⊢
      omega
  | @answered ticket rest result processing update promised =>
      refine { h with account := ?_, called := ?_, idle := ?_ }
      · intro t
        have ht := h.account t
        simp only [update, List.count_cons, List.map_append, List.map_singleton,
          List.count_append, List.count_nil] at ht ⊢
        omega
      · intro x hx
        rcases List.mem_append.mp hx with hx | hx
        · exact h.called x hx
        · rw [List.mem_singleton.mp hx]
          exact exists_entry_of_promised promised
      · intro hidle
        rw [processing] at hidle
        cases hidle
  | threw _ => exact { h with }
  | @kept ticket rest processing update promised =>
      refine { h with account := ?_, idle := ?_ }
      · intro t
        have ht := h.account t
        simp only [update, List.count_cons, List.count_append, List.count_nil] at ht ⊢
        omega
      · intro hidle
        rw [processing] at hidle
        cases hidle

/-! ## The answers -/

theorem crashed_call (ticket : ℕ) : (s.call answer ticket).crashed = s.crashed := by
  unfold call
  split <;> rfl

/-- A future throws only if its promise was deleted. -/
theorem crashed_of_step (hstep : s.Stepped answer s') (hcrashed : s'.crashed = true) :
    s.crashed = true ∨ (s.broken ≠ [] ∧ s'.pool = s.pool) := by
  cases hstep with
  | executed _ _ => exact .inl ((crashed_call _).symm.trans hcrashed)
  | processed _ =>
      unfold process at hcrashed
      split at hcrashed <;> exact .inl hcrashed
  | threw broken => exact .inr ⟨List.ne_nil_of_mem broken, rfl⟩
  | _ => exact .inl hcrashed

/-- In every run the invariant holds, and a crash comes after a call of `Close`. -/
theorem inv_run {n m : ℕ} {ls : List (Label Q)}
    (hrun : Machine.run (next answer) (start n m db) ls = some s) :
    Inv answer db s ∧ (s.crashed = true → s.pool.closedAt ≠ none) := by
  refine Machine.run_induction
    (P := fun s => Inv answer db s ∧ (s.crashed = true → s.pool.closedAt ≠ none)) ?_
    ⟨inv_start n m db, nofun⟩ hrun
  intro s l s' h hnext
  obtain ⟨hrunning, hstep⟩ := stepped_of_next hnext
  refine ⟨h.1.step hstep, fun hcrashed => ?_⟩
  rcases crashed_of_step hstep hcrashed with hbefore | ⟨hbroken, hpool⟩
  · rw [hrunning] at hbefore
    cases hbefore
  · intro hopen
    rw [hpool] at hopen
    exact hbroken (h.1.unclosed hopen).2.2.2

/-- A ticket is in the history at most once. -/
theorem Inv.count_le_one (h : s.Inv answer db) (t : ℕ) :
    (s.history.filterMap ExecutedQuery.ticket).count t ≤ 1 := by
  have ht := h.conserved t
  rw [h.executed]
  unfold Pool.timesExecuted at ht
  split at ht <;> omega

/-- **Every handler is called at most once, with the answer to its own query**: the results of a run
are those of a database that executes one query after the other, those of the synchronous
connections included, and what a handler is given is the result of the one entry of this history
that has its ticket.  A future throws only after `Close` was called. -/
theorem called_spec {n m : ℕ} {ls : List (Label Q)}
    (hrun : Machine.run (next answer) (start n m db) ls = some s) :
    Serial answer db s.history s.db ∧ (s.called.map Prod.fst).Nodup ∧
      (∀ x ∈ s.called, x.1 ∈ s.asked ∧ ∃ thread query before after,
        s.pool.pushed[x.1]? = some (thread, query) ∧
        s.history = before ++ ⟨some x.1, query, x.2⟩ :: after ∧
        ∀ e ∈ before ++ after, e.ticket ≠ some x.1) ∧
      (s.crashed = true → s.pool.closedAt ≠ none) := by
  obtain ⟨h, hcrashed⟩ := inv_run hrun
  have hle : ∀ t, (s.called.map Prod.fst).count t ≤ s.asked.count t := by
    intro t
    have ht := h.account t
    omega
  refine ⟨h.serial, ?_, ?_, hcrashed⟩
  · refine List.nodup_iff_count_le_one.mpr fun t => ?_
    exact (hle t).trans (List.nodup_iff_count_le_one.mp h.nodup t)
  · intro x hx
    have hasked : x.1 ∈ s.asked := by
      refine List.count_pos_iff.mp (lt_of_lt_of_le ?_ (hle x.1))
      exact List.count_pos_iff.mpr (List.mem_map_of_mem hx)
    obtain ⟨⟨ticket, query, result⟩, he, hticket, hresult⟩ := h.called x hx
    simp only at hticket hresult
    subst hticket hresult
    obtain ⟨⟨thread, query'⟩, hpushed, hquery⟩ :=
      Option.map_eq_some_iff.mp (h.queries _ he x.1 rfl)
    simp only at hquery
    subst hquery
    obtain ⟨before, after, hhistory⟩ := List.append_of_mem he
    refine ⟨hasked, thread, query', before, after, hpushed, hhistory, ?_⟩
    intro e hmem hticket
    have hone := h.count_le_one x.1
    have hentry : ExecutedQuery.ticket (⟨some x.1, query', x.2⟩ : ExecutedQuery Q R) =
        some x.1 := rfl
    rw [hhistory, List.filterMap_append, List.filterMap_cons_some hentry, List.count_append,
      List.count_cons_self] at hone
    have hpos : 0 < ((before ++ after).filterMap ExecutedQuery.ticket).count x.1 :=
      List.count_pos_iff.mpr (List.mem_filterMap.mpr ⟨e, hmem, hticket⟩)
    rw [List.filterMap_append, List.count_append] at hpos
    omega

/-! ## A pass that nothing interrupts -/

variable (answer) in
/-- The polls of a pass, with nothing in between. -/
theorem run_polls (hcrashed : s.crashed = false) (hprocessing : s.processing = true) {l : List ℕ}
    (hupdate : s.updateCallbacks = l) (hbroken : ∀ t ∈ l, s.promised t = none → t ∉ s.broken) :
    Machine.run (next answer) s (List.replicate l.length .poll) =
      some { s with
        updateCallbacks := []
        kept := s.kept ++ l.filter fun t => (s.promised t).isNone
        called := s.called ++ l.filterMap fun t => (s.promised t).map fun r => (t, r) } := by
  induction l generalizing s with
  | nil =>
      cases s
      cases hupdate
      simp
  | cons t rest ih =>
      obtain ⟨hfirst, hrest⟩ := List.forall_mem_cons.mp hbroken
      have hpoll : s.next answer .poll = some s.poll := by simp [next, hcrashed, hprocessing]
      rw [List.length_cons, List.replicate_succ, Machine.run_cons, hpoll, Option.bind_some]
      cases hpromised : s.promised t with
      | some r =>
          have hstep : s.poll =
              { s with updateCallbacks := rest, called := s.called ++ [(t, r)] } := by
            simp only [poll, hupdate, hpromised]
          have htail := ih
            (s := { s with updateCallbacks := rest, called := s.called ++ [(t, r)] })
            hcrashed hprocessing rfl hrest
          have hsame : ∀ t', ({ s with
              updateCallbacks := rest
              called := s.called ++ [(t, r)] } : QueryFlow Q R D).promised t' = s.promised t' :=
            fun _ => rfl
          rw [hstep, htail]
          simp [hsame, hpromised]
      | none =>
          have hstep : s.poll = { s with updateCallbacks := rest, kept := s.kept ++ [t] } := by
            simp only [poll, hupdate, hpromised, if_neg (hfirst hpromised)]
          have htail := ih (s := { s with updateCallbacks := rest, kept := s.kept ++ [t] })
            hcrashed hprocessing rfl hrest
          have hsame : ∀ t', ({ s with
              updateCallbacks := rest
              kept := s.kept ++ [t] } : QueryFlow Q R D).promised t' = s.promised t' :=
            fun _ => rfl
          rw [hstep, htail]
          simp [hsame, hpromised]

/-- What a call of `InvokeIfReady` does that finds the promises as they are now. -/
def invoke (s : QueryFlow Q R D) (_ ticket : ℕ) : Invocation ℕ where
  completed := (s.promised ticket).isSome
  callback := ticket

theorem callbacks_processReadyCallbacks (p : AsyncCallbackProcessor ℕ) :
    (p.processReadyCallbacks s.invoke).callbacks.map Prod.fst =
      (p.callbacks.map Prod.fst).filter fun t => (s.promised t).isNone := by
  have hadded : AsyncCallbackProcessor.addedIn s.invoke p.callbacks = [] := by
    simp [AsyncCallbackProcessor.addedIn, invoke]
  rw [AsyncCallbackProcessor.processReadyCallbacks_eq, hadded]
  simp only [List.zipIdx_nil, List.nil_append]
  induction p.callbacks with
  | nil => rfl
  | cons c callbacks ih =>
      cases hpromised : s.promised c.1 <;>
        simp [AsyncCallbackProcessor.remaining, invoke, hpromised, ← ih]

/-- **A pass that nothing interrupts** is `ProcessReadyCallbacks`. -/
theorem run_pass (hcrashed : s.crashed = false) (hprocessing : s.processing = false)
    (hkept : s.kept = []) (hne : s.callbacks ≠ [])
    (hbroken : ∀ t ∈ s.callbacks, s.promised t = none → t ∉ s.broken)
    {p : AsyncCallbackProcessor ℕ} (hp : p.callbacks.map Prod.fst = s.callbacks) :
    ∃ s', Machine.run (next answer) s
        (.process :: (List.replicate s.callbacks.length .poll ++ [.poll])) = some s' ∧
      s'.callbacks = (p.processReadyCallbacks s.invoke).callbacks.map Prod.fst ∧
      s'.called =
        s.called ++ s.callbacks.filterMap fun t => (s.promised t).map fun r => (t, r) := by
  have hprocess : s.next answer .process = some
      { s with processing := true, updateCallbacks := s.callbacks, callbacks := [] } := by
    simp [next, hcrashed, hprocessing, process, hne]
  have hpolls := run_polls answer
    (s := { s with processing := true, updateCallbacks := s.callbacks, callbacks := [] })
    hcrashed rfl rfl hbroken
  rw [Machine.run_cons, hprocess, Option.bind_some, Machine.run_append, hpolls, Option.bind_some,
    Machine.run_cons]
  refine ⟨_, by rw [next, if_neg (by simp [hcrashed])]; rfl, ?_, rfl⟩
  have hcallbacks : ([] ++ (s.kept ++ s.callbacks.filter fun t => (s.promised t).isNone)) =
      s.callbacks.filter fun t => (s.promised t).isNone := by
    rw [hkept, List.nil_append, List.nil_append]
  rw [callbacks_processReadyCallbacks, hp]
  exact hcallbacks

/-! ## Every handler can be called -/

/-- What a worker has to do. -/
def pcWork : WorkerPc → ℕ
  | .popped (some _) => 2
  | .running _ => 1
  | _ => 0

@[simp] theorem pcWork_waiting : pcWork .waiting = 0 := rfl
@[simp] theorem pcWork_popped (ticket : ℕ) : pcWork (.popped (some ticket)) = 2 := rfl
@[simp] theorem pcWork_running (ticket : ℕ) : pcWork (.running ticket) = 1 := rfl

/-- What the workers have to do. -/
def poolWork (pool : Pool Q) : ℕ :=
  3 * pool.ops.length + Pool.sumWorkers (fun w => pcWork w.pc) pool.workers

theorem poolWork_lt {pool pool' : Pool Q} (h : pool.Serving) {i : ℕ}
    (hstep : Pool.WorkerStep pool i pool') : poolWork pool' < poolWork pool := by
  have hset : ∀ {w : Worker} (pc : WorkerPc), pool.workers[i]? = some w →
      Pool.sumWorkers (fun w => pcWork w.pc) (pool.workers.set i { w with pc := pc }) +
        pcWork w.pc = Pool.sumWorkers (fun w => pcWork w.pc) pool.workers + pcWork pc :=
    fun pc hw => Pool.sumWorkers_set (fun w => pcWork w.pc) hw _
  cases hstep with
  | tookNothing _ _ shutdown =>
      rw [h.shutdown] at shutdown
      cases shutdown
  | @took ticket w ops worker pc _ queue =>
      have hsum := hset (.popped (some ticket)) worker
      simp only [pc, pcWork_waiting, pcWork_popped] at hsum
      simp only [poolWork, queue, List.length_cons]
      omega
  | left worker pc => exact absurd pc (h.workers _ (List.mem_of_getElem? worker)).pc.1
  | dropped worker _ token =>
      rw [(h.workers _ (List.mem_of_getElem? worker)).token] at token
      cases token
  | @began ticket w worker pc _ =>
      have hsum := hset (.running ticket) worker
      simp only [pc, pcWork_popped, pcWork_running] at hsum
      simp only [poolWork]
      omega
  | @executed ticket w now worker pc =>
      have hsum := hset .waiting worker
      simp only [pc, pcWork_waiting, pcWork_running] at hsum
      simp only [poolWork]
      omega

/-- Nothing is in the queue or in the hand of a worker. -/
def Quiet (pool : Pool Q) : Prop := pool.ops = [] ∧ ∀ w ∈ pool.workers, w.pc = .waiting

/-- A pool in service that is not quiet has a worker that can do something. -/
theorem exists_workerStep {pool : Pool Q} (h : pool.Serving) (hworkers : pool.workers ≠ [])
    (hquiet : ¬ Quiet pool) : ∃ i pool', pool.workerStep i 0 = some pool' := by
  by_cases hall : ∀ w ∈ pool.workers, w.pc = .waiting
  · obtain ⟨w, rest, hlist⟩ := List.exists_cons_of_ne_nil hworkers
    have hw : w.pc = .waiting := hall w (by simp [hlist])
    obtain ⟨ticket, ops, hops⟩ := List.exists_cons_of_ne_nil (fun hops => hquiet ⟨hops, hall⟩)
    refine ⟨0, ?_⟩
    simp [Pool.workerStep, hlist, hw, Pool.waitAndPop, h.shutdown, hops]
  · push Not at hall
    obtain ⟨w, hmem, hpc⟩ := hall
    obtain ⟨i, hi⟩ := List.mem_iff_getElem?.mp hmem
    refine ⟨i, ?_⟩
    cases hw : w.pc with
    | waiting => exact absurd hw hpc
    | popped ticket => simp [Pool.workerStep, hi, hw]
    | running ticket => simp [Pool.workerStep, hi, hw]
    | exited => exact absurd hw (h.workers w hmem).pc.2

/-- A step of a worker leaves the processor alone. -/
theorem workerStep_frame {i now : ℕ} (h : s.workerStep answer i now = some s') :
    s.pool.workerStep i now = some s'.pool ∧ s'.callbacks = s.callbacks ∧
      s'.updateCallbacks = s.updateCallbacks ∧ s'.kept = s.kept ∧
      s'.processing = s.processing ∧ s'.asked = s.asked ∧ s'.called = s.called ∧
      s'.crashed = s.crashed := by
  obtain ⟨pool, hpool, heq⟩ := Option.map_eq_some_iff.mp h
  rw [← heq]
  split
  · unfold call
    split <;> exact ⟨hpool, rfl, rfl, rfl, rfl, rfl, rfl, rfl⟩
  · exact ⟨hpool, rfl, rfl, rfl, rfl, rfl, rfl, rfl⟩

/-- When the workers have done everything, all promises have their values. -/
theorem exists_promised (h : s.Inv answer db) (hopen : s.pool.closedAt = none)
    (hquiet : Quiet s.pool) {t : ℕ} (ht : t ∈ s.asked) : ∃ r, s.promised t = some r := by
  have hheld : s.pool.held t = 0 := by
    refine List.sum_eq_zero fun x hx => ?_
    obtain ⟨w, hw, rfl⟩ := List.mem_map.mp hx
    rw [hquiet.2 w hw]
    rfl
  have hcount := h.conserved t
  rw [hquiet.1, hheld, (h.unclosed hopen).2.2.1, if_pos (h.asked_lt t ht), Pool.timesExecuted,
    ← h.executed] at hcount
  have hmem : t ∈ s.history.filterMap ExecutedQuery.ticket := by
    refine List.count_pos_iff.mp ?_
    simp only [List.count_nil] at hcount
    omega
  obtain ⟨e, he, hticket⟩ := List.mem_filterMap.mp hmem
  cases hfind : s.history.find? fun e => e.ticket = some t with
  | none =>
      have hno := List.find?_eq_none.mp hfind e he
      simp [hticket] at hno
  | some e' => exact ⟨e'.result, by rw [promised, hfind, Option.map_some]⟩

/-- A step of a worker or of the processor. -/
def Label.Progresses : Label Q → Prop
  | .worker _ _ | .process | .poll => True
  | _ => False

/-- Everything that the workers and the processor have to do. -/
def work (s : QueryFlow Q R D) : ℕ :=
  poolWork s.pool + 4 * s.kept.length + 3 * s.callbacks.length + s.updateCallbacks.length +
    if s.processing then 1 else 0

/-- No handler is waited for. -/
def Done (s : QueryFlow Q R D) : Prop := s.callbacks = [] ∧ s.updateCallbacks = [] ∧ s.kept = []

/-- The processor still waits for this ticket. -/
theorem Inv.mem_asked (h : s.Inv answer db) {t : ℕ}
    (ht : t ∈ s.callbacks ∨ t ∈ s.updateCallbacks ∨ t ∈ s.kept) : t ∈ s.asked := by
  have hcount := h.account t
  refine List.count_pos_iff.mp ?_
  rcases ht with ht | ht | ht
  · have hpos := List.count_pos_iff.mpr ht
    omega
  · have hpos := List.count_pos_iff.mpr ht
    omega
  · have hpos := List.count_pos_iff.mpr ht
    omega

/-- A state from which the processor gets on. -/
structure Live (answer : D → Q → R × D) (db : D) (s u : QueryFlow Q R D) : Prop where
  inv : u.Inv answer db
  unclosed : u.pool.closedAt = none
  running : u.crashed = false
  workers : u.pool.workers ≠ []
  asked : u.asked = s.asked
  called : s.called <+: u.called

/-- **Something can be done** as long as a handler is waited for. -/
theorem exists_next {u : QueryFlow Q R D} (h : Live answer db s u) (hdone : ¬ u.Done) :
    ∃ l u', Label.Progresses l ∧ u.next answer l = some u' ∧ Live answer db s u' ∧
      u'.work < u.work := by
  have hserving := (h.inv.unclosed h.unclosed).1
  by_cases hquiet : Quiet u.pool
  · -- all promises have their values, so that every poll calls a handler
    cases hprocessing : u.processing with
    | false =>
        obtain ⟨hupdate, hkept⟩ := h.inv.idle hprocessing
        have hcallbacks : u.callbacks ≠ [] := fun hnil => hdone ⟨hnil, hupdate, hkept⟩
        have hnext : u.next answer .process = some u.process := by
          simp [next, h.running, hprocessing]
        have hprocess : u.process =
            { u with processing := true, updateCallbacks := u.callbacks, callbacks := [] } := by
          rw [process, if_neg (by simpa using hcallbacks)]
        refine ⟨.process, _, trivial, hnext, ?_, ?_⟩
        · have hinv := h.inv.step (stepped_of_next hnext).2
          rw [hprocess] at hinv ⊢
          exact ⟨hinv, h.unclosed, h.running, h.workers, h.asked, h.called⟩
        · have hpos := List.length_pos_iff.mpr hcallbacks
          rw [hprocess]
          simp only [work, hupdate, hprocessing, List.length_nil, if_true, Bool.false_eq_true,
            if_false]
          omega
    | true =>
        have hnext : u.next answer .poll = some u.poll := by
          simp [next, h.running, hprocessing]
        have hinv := h.inv.step (stepped_of_next hnext).2
        refine ⟨.poll, _, trivial, hnext, ?_⟩
        cases hupdate : u.updateCallbacks with
        | nil =>
            have hpoll : u.poll =
                { u with
                  processing := false, callbacks := u.callbacks ++ u.kept, kept := [] } := by
              rw [poll, hupdate]
            rw [hpoll] at hinv ⊢
            refine ⟨⟨hinv, h.unclosed, h.running, h.workers, h.asked, h.called⟩, ?_⟩
            simp only [work, hupdate, hprocessing, List.length_append, List.length_nil, if_true,
              Bool.false_eq_true, if_false]
            omega
        | cons ticket rest =>
            have hasked := h.inv.mem_asked (t := ticket) (.inr (.inl (by simp [hupdate])))
            obtain ⟨r, hpromised⟩ := exists_promised h.inv h.unclosed hquiet hasked
            have hpoll : u.poll =
                { u with updateCallbacks := rest, called := u.called ++ [(ticket, r)] } := by
              simp only [poll, hupdate, hpromised]
            rw [hpoll] at hinv ⊢
            refine ⟨⟨hinv, h.unclosed, h.running, h.workers, h.asked,
              h.called.trans (List.prefix_append _ _)⟩, ?_⟩
            simp only [work, hupdate, List.length_cons]
            omega
  · obtain ⟨i, pool', hpool⟩ := exists_workerStep hserving h.workers hquiet
    obtain ⟨u', hu'⟩ : ∃ u', u.workerStep answer i 0 = some u' := by
      rw [workerStep, hpool]
      exact ⟨_, rfl⟩
    have hnext : u.next answer (.worker i 0) = some u' := by
      simp [next, h.running, hu']
    obtain ⟨hstep, hcallbacks, hupdate, hkept, hprocessing, hasked, hcalled, hcrashed⟩ :=
      workerStep_frame hu'
    have hworker := Pool.workerStep_cases hstep
    obtain ⟨-, -, hclosedAt, -, w, w', -, -, hworkers⟩ := Pool.workerStep_frame hworker
    refine ⟨.worker i 0, u', trivial, hnext,
      ⟨h.inv.step (stepped_of_next hnext).2, hclosedAt.trans h.unclosed,
        hcrashed.trans h.running, ?_, hasked.trans h.asked, hcalled ▸ h.called⟩, ?_⟩
    · rw [hworkers]
      simpa using h.workers
    · have hlt := poolWork_lt hserving hworker
      simp only [work, hcallbacks, hupdate, hkept, hprocessing]
      omega

/-- No step takes the last worker away. -/
theorem workers_ne_nil_of_step (hstep : s.Stepped answer s') (h : s.pool.workers ≠ []) :
    s'.pool.workers ≠ [] := by
  cases hstep with
  | worked step _ =>
      obtain ⟨-, -, -, -, w, w', -, -, hworkers⟩ := Pool.workerStep_frame step
      simpa [hworkers] using h
  | executed _ _ => simpa using h
  | main step _ =>
      cases step with
      | spawned _ => simp
      | tokenSet _ => simpa using h
      | _ => exact h
  | processed _ =>
      unfold process
      split <;> exact h
  | _ => exact h

/-- **No handler is forgotten**: from every state of a run in which `Close` was not called, the
workers and the processor can get to a state in which all handlers have been called that were waited
for, those that had been called before coming first and in the same order. -/
theorem exists_run_called {n m : ℕ} (hn : 0 < n) {ls : List (Label Q)}
    (hrun : Machine.run (next answer) (start n m db) ls = some s)
    (hopen : s.pool.closedAt = none) :
    ∃ ls' s', (∀ l ∈ ls', Label.Progresses l) ∧
      Machine.run (next answer) s ls' = some s' ∧ (s'.called.map Prod.fst).Perm s.asked ∧
      s.called <+: s'.called := by
  obtain ⟨hinv, hcrashed⟩ := inv_run hrun
  have hworkers : s.pool.workers ≠ [] := by
    refine Machine.run_induction (P := fun s : QueryFlow Q R D => s.pool.workers ≠ []) ?_ ?_ hrun
    · intro s l s' h hnext
      exact workers_ne_nil_of_step (stepped_of_next hnext).2 h
    · simp only [start, Pool.opened, ne_eq, List.replicate_eq_nil_iff]
      omega
  have hrunning : s.crashed = false := by
    by_contra hcrash
    exact hcrashed (by simpa using hcrash) hopen
  have hlive : Live answer db s s := ⟨hinv, hopen, hrunning, hworkers, rfl, List.prefix_rfl⟩
  obtain ⟨ls', s', hls', hrun', hlive', hdone⟩ : ∃ ls' s', (∀ l ∈ ls', Label.Progresses l) ∧
      Machine.run (next answer) s ls' = some s' ∧ Live answer db s s' ∧ s'.Done := by
    by_cases hdone : s.Done
    · exact ⟨[], s, by simp, rfl, hlive, hdone⟩
    · refine Machine.exists_run_of_measure (P := fun u => Live answer db s u ∧ ¬ u.Done) work ?_
        ⟨hlive, hdone⟩
      rintro u ⟨hu, hundone⟩
      obtain ⟨l, u', hl, hnext, hu', hlt⟩ := exists_next hu hundone
      refine ⟨l, u', hl, hnext, ?_⟩
      by_cases hdone' : u'.Done
      · exact .inl ⟨hu', hdone'⟩
      · exact .inr ⟨⟨hu', hdone'⟩, hlt⟩
  refine ⟨ls', s', hls', hrun', ?_, hlive'.called⟩
  rw [← hlive'.asked]
  refine List.perm_iff_count.mpr fun t => ?_
  have ht := hlive'.inv.account t
  rw [hdone.1, hdone.2.1, hdone.2.2] at ht
  simpa using ht

/-- A database that adds. -/
def adds (db query : ℕ) : ℕ × ℕ := (db + query, db + query)

/-- A pass that comes too early, and a query on another connection that comes first. -/
def earlyPass : List (Label ℕ) :=
  [.ask 0 5, .worker 0 1, .process, .poll, .direct 3, .worker 0 2, .worker 0 3, .poll]

theorem called_spec_earlyPass :
    ∃ s, Machine.run (next adds) (start 1 1 10) (earlyPass ++ [.process, .poll]) = some s ∧
      s.called = [(0, 18)] ∧ Serial adds 10 s.history s.db ∧ (s.called.map Prod.fst).Nodup := by
  obtain ⟨s, hrun, hcalled⟩ : ∃ s, Machine.run (next adds) (start 1 1 10)
      (earlyPass ++ [.process, .poll]) = some s ∧ s.called = [(0, 18)] := ⟨_, rfl, rfl⟩
  obtain ⟨hserial, hnodup, -, -⟩ := called_spec hrun
  exact ⟨s, hrun, hcalled, hserial, hnodup⟩

theorem exists_run_called_earlyPass :
    ∃ s, Machine.run (next adds) (start 1 1 10) earlyPass = some s ∧ s.called = [] ∧
      ∃ ls' s', (∀ l ∈ ls', Label.Progresses l) ∧ Machine.run (next adds) s ls' = some s' ∧
        (s'.called.map Prod.fst).Perm [0] ∧ s.called <+: s'.called := by
  obtain ⟨s, hrun, hcalled, hasked, hopen⟩ : ∃ s, Machine.run (next adds) (start 1 1 10)
      earlyPass = some s ∧ s.called = [] ∧ s.asked = [0] ∧ s.pool.closedAt = none :=
    ⟨_, rfl, rfl, rfl, rfl⟩
  have hlater := exists_run_called Nat.one_pos hrun hopen
  rw [hasked] at hlater
  exact ⟨s, hrun, hcalled, hlater⟩

end QueryFlow
end WarheadDiscord
