import Mathlib.Algebra.GroupWithZero.Nat
import Mathlib.Data.List.Basic
import Mathlib.Data.List.Range
import WarheadDiscord.Lib.Machine

/-!
# `DatabaseWorkerPool`: connections, workers and the queue they share

An asynchronous connection starts a worker thread when it is constructed and stops it
when it is destroyed.  All workers of a pool wait on one `ProducerConsumerQueue`, which
lives as long as the pool.  Destroying a worker cancels that queue: what is in it is
deleted, and the shutdown flag that makes the worker leave its loop is never taken
back.

The machine has the steps of the worker threads, the enqueues of any thread, and the
steps of the one thread that opens and closes the pool.  The latter are a program, a
list of the things it still has to do, because it has to wait in the middle of it: a
destructor returns when its worker has returned.

Every operation gets a ticket when it is enqueued, the number of operations enqueued
before.  The history knows which tickets were executed, in which order and when, and
which were deleted.

## Main definitions

* `Worker`, `Pool` — the state.
* `Attempt`, `Attempt.program` — how a call of `Open` can go, and what it does.
* `Pool.next` — the machine.
* `Pool.Conserved` — every ticket is in one place.
-/

namespace WarheadDiscord

/-- Where a worker thread is. -/
inductive WorkerPc
  /-- In front of or inside `WaitAndPop`. -/
  | waiting
  /-- Back from `WaitAndPop`, with an operation or without. -/
  | popped (ticket : Option ℕ)
  /-- Past the check, in `operation->call()`. -/
  | running (ticket : ℕ)
  | exited
  deriving DecidableEq, Repr

/-- A worker thread and its `_cancelationToken`. -/
structure Worker where
  token : Bool := false
  pc : WorkerPc := .waiting
  deriving DecidableEq, Repr

/-- The worker is in its loop and will stay there. -/
structure Worker.InLoop (w : Worker) : Prop where
  token : w.token = false
  pc : w.pc ≠ .popped none ∧ w.pc ≠ .exited

/-- One if the worker has taken this ticket off the queue and is not done with it. -/
def WorkerPc.holds (ticket : ℕ) : WorkerPc → ℕ
  | .popped (some t) => if t = ticket then 1 else 0
  | .running t => if t = ticket then 1 else 0
  | _ => 0

/-- What the thread that opens and closes the pool still has to do. -/
inductive MainOp
  /-- Construct an asynchronous connection. -/
  | spawn
  /-- Move the connection just opened into `_connections[IDX_ASYNC]`. -/
  | keepAsync
  /-- Destroy the connection just constructed. -/
  | dropOpening
  | clearAsync
  | keepSync
  | clearSync
  | setToken (worker : ℕ)
  | cancel
  | join (worker : ℕ)
  /-- `Open` returns. -/
  | ret (code : ℕ)
  deriving DecidableEq, Repr

/-- `~DatabaseWorker`. -/
def destroyWorker (worker : ℕ) : List MainOp := [.setToken worker, .cancel, .join worker]

/-- How a call of `Open` goes: at which connection it fails, and how. -/
inductive Attempt
  | success
  /-- The asynchronous connection `i` cannot be opened. -/
  | asyncError (i code : ℕ)
  /-- The server of the asynchronous connection `i` is too old. -/
  | asyncVersion (i : ℕ)
  | syncError (i code : ℕ)
  | syncVersion (i : ℕ)
  deriving DecidableEq, Repr

namespace Attempt

/-- A connection that exists, and a code that is an error. -/
def Possible (asyncThreads synchThreads : ℕ) : Attempt → Prop
  | .success => True
  | .asyncError i code => i < asyncThreads ∧ code ≠ 0
  | .asyncVersion i => i < asyncThreads
  | .syncError i code => i < synchThreads ∧ code ≠ 0
  | .syncVersion i => i < synchThreads

instance (asyncThreads synchThreads : ℕ) :
    (a : Attempt) → Decidable (a.Possible asyncThreads synchThreads)
  | .success => inferInstanceAs (Decidable True)
  | .asyncError _ _ => inferInstanceAs (Decidable (_ ∧ _))
  | .asyncVersion _ => inferInstanceAs (Decidable (_ < _))
  | .syncError _ _ => inferInstanceAs (Decidable (_ ∧ _))
  | .syncVersion _ => inferInstanceAs (Decidable (_ < _))

/-- The attempt fails at a connection that has a worker. -/
def FailsAsync : Attempt → Prop
  | .asyncError _ _ => True
  | .asyncVersion _ => True
  | _ => False

/-- `OpenConnections` for `n` asynchronous connections that all open. -/
def openAsync (n : ℕ) : List MainOp := (List.replicate n [MainOp.spawn, .keepAsync]).flatten

/-- `OpenConnections` for `n` synchronous connections that all open. -/
def openSync (n : ℕ) : List MainOp := List.replicate n .keepSync

/-- What `Open` does. -/
def program (asyncThreads synchThreads : ℕ) : Attempt → List MainOp
  | .success => openAsync asyncThreads ++ openSync synchThreads ++ [.ret 0]
  | .asyncError i code => openAsync i ++ [.spawn, .clearAsync, .dropOpening, .ret code]
  | .asyncVersion i => openAsync i ++ [.spawn, .dropOpening, .ret 1]
  | .syncError i code => openAsync asyncThreads ++ openSync i ++ [.clearSync, .ret code]
  | .syncVersion i => openAsync asyncThreads ++ openSync i ++ [.ret 1]

end Attempt

/-- `DatabaseWorkerPool::Close`. -/
def closeProgram : List MainOp := [.clearAsync, .clearSync]

/-- A pool of operations of type `α`. -/
structure Pool (α : Type) where
  asyncThreads : ℕ
  synchThreads : ℕ
  /-- The tickets in `_queue`. -/
  ops : List ℕ := []
  shutdown : Bool := false
  /-- Every worker ever started. -/
  workers : List Worker := []
  /-- The workers of `_connections[IDX_ASYNC]`. -/
  async : List ℕ := []
  /-- The size of `_connections[IDX_SYNCH]`. -/
  sync : ℕ := 0
  /-- The worker of the connection that is being opened. -/
  opening : Option ℕ := none
  main : List MainOp := []
  /-- What the last `Open` returned. -/
  result : Option ℕ := none
  /-- The number of operations enqueued when `Close` was called. -/
  closedAt : Option ℕ := none
  /-- The operations enqueued, with the threads that did so. -/
  pushed : List (ℕ × α) := []
  /-- The tickets executed, with the times at which they were. -/
  executed : List (ℕ × ℕ) := []
  /-- The tickets deleted without having been executed. -/
  lost : List ℕ := []

namespace Pool
variable {α : Type}

/-- One step of the thread that opens and closes the pool. -/
def mainStep (s : Pool α) : Option (Pool α) :=
  match s.main with
  | [] => none
  | .spawn :: rest =>
      some { s with workers := s.workers ++ [{}], opening := some s.workers.length, main := rest }
  | .keepAsync :: rest =>
      some { s with async := s.async ++ s.opening.toList, opening := none, main := rest }
  | .dropOpening :: rest =>
      some { s with opening := none, main := s.opening.toList.flatMap destroyWorker ++ rest }
  | .clearAsync :: rest =>
      some { s with async := [], main := s.async.flatMap destroyWorker ++ rest }
  | .keepSync :: rest => some { s with sync := s.sync + 1, main := rest }
  | .clearSync :: rest => some { s with sync := 0, main := rest }
  | .setToken i :: rest =>
      some { s with workers := s.workers.modify i fun w => { w with token := true }, main := rest }
  | .cancel :: rest =>
      some { s with lost := s.lost ++ s.ops, ops := [], shutdown := true, main := rest }
  | .join i :: rest =>
      if s.workers[i]?.map Worker.pc = some .exited then some { s with main := rest } else none
  | .ret code :: rest => some { s with result := some code, main := rest }

/-- `WaitAndPop` returns to the worker `i`. -/
def waitAndPop (s : Pool α) (i : ℕ) (w : Worker) : Option (Pool α) :=
  if s.shutdown then some { s with workers := s.workers.set i { w with pc := .popped none } }
  else
    match s.ops with
    | [] => none
    | ticket :: ops =>
        some
          { s with ops := ops, workers := s.workers.set i { w with pc := .popped (some ticket) } }

/-- The worker `i` looks at its token and at what it got. -/
def check (s : Pool α) (i : ℕ) (w : Worker) (ticket : Option ℕ) : Pool α :=
  match ticket with
  | none => { s with workers := s.workers.set i { w with pc := .exited } }
  | some t =>
      if w.token then
        { s with workers := s.workers.set i { w with pc := .exited }, lost := s.lost ++ [t] }
      else { s with workers := s.workers.set i { w with pc := .running t } }

/-- One step of the worker `i`; an operation that it executes takes effect at `now`. -/
def workerStep (s : Pool α) (i now : ℕ) : Option (Pool α) :=
  match s.workers[i]? with
  | none => none
  | some w =>
      match w.pc with
      | .waiting => s.waitAndPop i w
      | .popped ticket => some (s.check i w ticket)
      | .running t =>
          some { s with
            workers := s.workers.set i { w with pc := .waiting }
            executed := s.executed ++ [(t, now)] }
      | .exited => none

/-- What can happen to a pool. -/
inductive Label (α : Type)
  | open (attempt : Attempt)
  | close
  | main
  /-- `Enqueue`, by any thread. -/
  | push (thread : ℕ) (op : α)
  | worker (i now : ℕ)

/-- The machine.  `Open` and `Close` are called by one thread, one after the other. -/
def next (s : Pool α) : Label α → Option (Pool α)
  | .open attempt =>
      if s.main = [] ∧ attempt.Possible s.asyncThreads s.synchThreads then
        some { s with main := attempt.program s.asyncThreads s.synchThreads, result := none }
      else none
  | .close =>
      if s.main = [] then
        some { s with main := closeProgram, closedAt := some s.pushed.length }
      else none
  | .main => s.mainStep
  | .push thread op =>
      some { s with ops := s.ops ++ [s.pushed.length], pushed := s.pushed ++ [(thread, op)] }
  | .worker i now => s.workerStep i now

/-- The pool before the first `Open`. -/
def new (asyncThreads synchThreads : ℕ) : Pool α :=
  { asyncThreads := asyncThreads, synchThreads := synchThreads }

/-- The pool after an `Open` that succeeded at once. -/
def opened (asyncThreads synchThreads : ℕ) : Pool α :=
  { asyncThreads := asyncThreads
    synchThreads := synchThreads
    workers := List.replicate asyncThreads {}
    async := List.range asyncThreads
    sync := synchThreads
    result := some 0 }

/-! ## The steps one by one -/

/-- The steps of a worker, with what each of them needs. -/
inductive WorkerStep (s : Pool α) (i : ℕ) : Pool α → Prop
  | tookNothing {w : Worker} (worker : s.workers[i]? = some w) (pc : w.pc = .waiting)
      (shutdown : s.shutdown = true) :
      WorkerStep s i { s with workers := s.workers.set i { w with pc := .popped none } }
  | took {ticket : ℕ} {w : Worker} {ops : List ℕ} (worker : s.workers[i]? = some w)
      (pc : w.pc = .waiting) (shutdown : s.shutdown = false) (queue : s.ops = ticket :: ops) :
      WorkerStep s i
        { s with ops := ops, workers := s.workers.set i { w with pc := .popped (some ticket) } }
  | left {w : Worker} (worker : s.workers[i]? = some w) (pc : w.pc = .popped none) :
      WorkerStep s i { s with workers := s.workers.set i { w with pc := .exited } }
  | dropped {ticket : ℕ} {w : Worker} (worker : s.workers[i]? = some w)
      (pc : w.pc = .popped (some ticket)) (token : w.token = true) :
      WorkerStep s i
        { s with
          workers := s.workers.set i { w with pc := .exited }, lost := s.lost ++ [ticket] }
  | began {ticket : ℕ} {w : Worker} (worker : s.workers[i]? = some w)
      (pc : w.pc = .popped (some ticket)) (token : w.token = false) :
      WorkerStep s i { s with workers := s.workers.set i { w with pc := .running ticket } }
  | executed {ticket : ℕ} {w : Worker} (now : ℕ) (worker : s.workers[i]? = some w)
      (pc : w.pc = .running ticket) :
      WorkerStep s i
        { s with
          workers := s.workers.set i { w with pc := .waiting }
          executed := s.executed ++ [(ticket, now)] }

/-- The steps of the thread that opens and closes the pool. -/
inductive MainStep (s : Pool α) : Pool α → Prop
  | spawned {rest : List MainOp} (main : s.main = .spawn :: rest) :
      MainStep s
        { s with workers := s.workers ++ [{}], opening := some s.workers.length, main := rest }
  | asyncKept {rest : List MainOp} (main : s.main = .keepAsync :: rest) :
      MainStep s { s with async := s.async ++ s.opening.toList, opening := none, main := rest }
  | openingDropped {rest : List MainOp} (main : s.main = .dropOpening :: rest) :
      MainStep s
        { s with opening := none, main := s.opening.toList.flatMap destroyWorker ++ rest }
  | asyncCleared {rest : List MainOp} (main : s.main = .clearAsync :: rest) :
      MainStep s { s with async := [], main := s.async.flatMap destroyWorker ++ rest }
  | syncKept {rest : List MainOp} (main : s.main = .keepSync :: rest) :
      MainStep s { s with sync := s.sync + 1, main := rest }
  | syncCleared {rest : List MainOp} (main : s.main = .clearSync :: rest) :
      MainStep s { s with sync := 0, main := rest }
  | tokenSet {i : ℕ} {rest : List MainOp} (main : s.main = .setToken i :: rest) :
      MainStep s
        { s with workers := s.workers.modify i fun w => { w with token := true }, main := rest }
  | cancelled {rest : List MainOp} (main : s.main = .cancel :: rest) :
      MainStep s { s with lost := s.lost ++ s.ops, ops := [], shutdown := true, main := rest }
  | joined {i : ℕ} {rest : List MainOp} (main : s.main = .join i :: rest)
      (exited : s.workers[i]?.map Worker.pc = some .exited) : MainStep s { s with main := rest }
  | returned {code : ℕ} {rest : List MainOp} (main : s.main = .ret code :: rest) :
      MainStep s { s with result := some code, main := rest }

/-- The pool after `Enqueue`. -/
def enqueue (s : Pool α) (thread : ℕ) (op : α) : Pool α :=
  { s with ops := s.ops ++ [s.pushed.length], pushed := s.pushed ++ [(thread, op)] }

/-- All steps. -/
inductive Step (s : Pool α) : Label α → Pool α → Prop
  | opened {attempt : Attempt} (idle : s.main = []) :
      Step s (.open attempt)
        { s with main := attempt.program s.asyncThreads s.synchThreads, result := none }
  | closed (idle : s.main = []) :
      Step s .close { s with main := closeProgram, closedAt := some s.pushed.length }
  | main {s' : Pool α} (step : MainStep s s') : Step s .main s'
  | enqueued {thread : ℕ} {op : α} : Step s (.push thread op) (s.enqueue thread op)
  | worker {i now : ℕ} {s' : Pool α} (step : WorkerStep s i s') : Step s (.worker i now) s'

variable {s s' : Pool α} {i : ℕ}

theorem workerStep_cases {now : ℕ} (h : s.workerStep i now = some s') : WorkerStep s i s' := by
  simp only [workerStep] at h
  cases hw : s.workers[i]? with
  | none => simp [hw] at h
  | some w =>
      simp only [hw] at h
      cases hpc : w.pc with
      | waiting =>
          simp only [hpc, waitAndPop] at h
          split at h
          · rename_i hshutdown
            cases h
            exact .tookNothing hw hpc hshutdown
          · rename_i hshutdown
            rw [Bool.not_eq_true] at hshutdown
            cases hops : s.ops with
            | nil => simp [hops] at h
            | cons ticket ops =>
                simp only [hops, Option.some.injEq] at h
                exact h ▸ .took hw hpc hshutdown hops
      | popped ticket =>
          simp only [hpc, check, Option.some.injEq] at h
          cases ticket with
          | none => exact h ▸ .left hw hpc
          | some t =>
              simp only at h
              split at h
              · rename_i htoken
                exact h ▸ .dropped hw hpc htoken
              · rename_i htoken
                exact h ▸ .began hw hpc (Bool.not_eq_true _ ▸ htoken)
      | running ticket =>
          simp only [hpc, Option.some.injEq] at h
          exact h ▸ .executed now hw hpc
      | exited => simp [hpc] at h

theorem mainStep_cases (h : s.mainStep = some s') : MainStep s s' := by
  simp only [mainStep] at h
  cases hm : s.main with
  | nil => simp [hm] at h
  | cons op rest =>
      simp only [hm] at h
      cases op with
      | spawn => cases h; exact .spawned hm
      | keepAsync => cases h; exact .asyncKept hm
      | dropOpening => cases h; exact .openingDropped hm
      | clearAsync => cases h; exact .asyncCleared hm
      | keepSync => cases h; exact .syncKept hm
      | clearSync => cases h; exact .syncCleared hm
      | setToken i => cases h; exact .tokenSet hm
      | cancel => cases h; exact .cancelled hm
      | join i =>
          simp only [Option.ite_none_right_eq_some, Option.some.injEq] at h
          obtain ⟨hexited, rfl⟩ := h
          exact .joined hm hexited
      | ret code => cases h; exact .returned hm

theorem next_cases {l : Label α} (h : s.next l = some s') : Step s l s' := by
  cases l with
  | «open» attempt =>
      simp only [next, Option.ite_none_right_eq_some, Option.some.injEq] at h
      obtain ⟨⟨hidle, -⟩, rfl⟩ := h
      exact .opened hidle
  | close =>
      simp only [next, Option.ite_none_right_eq_some, Option.some.injEq] at h
      obtain ⟨hidle, rfl⟩ := h
      exact .closed hidle
  | main => exact .main (mainStep_cases h)
  | push thread op =>
      cases h
      exact .enqueued
  | worker i now => exact .worker (workerStep_cases h)

/-- What holds of everything the opening and closing thread has to do holds of the next
thing and of the rest. -/
theorem forall_main {P : MainOp → Prop} (h : ∀ op ∈ s.main, P op) {op : MainOp}
    {rest : List MainOp} (hmain : s.main = op :: rest) : P op ∧ ∀ op ∈ rest, P op := by
  rw [hmain] at h
  exact List.forall_mem_cons.mp h

/-! ## Every ticket is in one place -/

/-- A sum over all workers. -/
def sumWorkers (f : Worker → ℕ) (workers : List Worker) : ℕ := (workers.map f).sum

theorem sumWorkers_set (f : Worker → ℕ) {workers : List Worker} {i : ℕ} {w : Worker}
    (hw : workers[i]? = some w) (w' : Worker) :
    sumWorkers f (workers.set i w') + f w = sumWorkers f workers + f w' := by
  induction workers generalizing i with
  | nil => simp at hw
  | cons x workers ih =>
      cases i with
      | zero =>
          simp only [List.getElem?_cons_zero, Option.some.injEq] at hw
          simp only [sumWorkers, List.set_cons_zero, List.map_cons, List.sum_cons, hw]
          omega
      | succ i =>
          have h := ih (i := i) (by simpa using hw)
          simp only [sumWorkers, List.set_cons_succ, List.map_cons, List.sum_cons] at h ⊢
          omega

theorem sumWorkers_modify (f : Worker → ℕ) {g : Worker → Worker} (hg : ∀ w, f (g w) = f w)
    (workers : List Worker) (i : ℕ) :
    sumWorkers f (workers.modify i g) = sumWorkers f workers := by
  induction workers generalizing i with
  | nil => simp
  | cons w workers ih =>
      cases i with
      | zero => simp [sumWorkers, hg]
      | succ i => simpa [sumWorkers] using ih i

/-- How many workers hold a ticket. -/
def held (s : Pool α) (ticket : ℕ) : ℕ := sumWorkers (fun w => w.pc.holds ticket) s.workers

/-- How often a ticket was executed. -/
def timesExecuted (s : Pool α) (ticket : ℕ) : ℕ := (s.executed.map Prod.fst).count ticket

/-- Every ticket given out is queued, held by one worker, executed once or deleted. -/
def Conserved (s : Pool α) : Prop :=
  ∀ t, s.ops.count t + s.held t + s.timesExecuted t + s.lost.count t =
    if t < s.pushed.length then 1 else 0

theorem held_set {i : ℕ} {w : Worker} (hw : s.workers[i]? = some w) (pc : WorkerPc) (t : ℕ) :
    sumWorkers (fun w => w.pc.holds t) (s.workers.set i { w with pc := pc }) + w.pc.holds t =
      s.held t + pc.holds t :=
  sumWorkers_set _ hw { w with pc := pc }

theorem conserved_new (n m : ℕ) : (new n m : Pool α).Conserved := by
  intro t
  simp [new, held, sumWorkers, timesExecuted]

/-- A step that leaves queue, history and what the workers hold alone. -/
theorem conserved_of_same (h : s.Conserved) (hops : s'.ops = s.ops)
    (hheld : ∀ t, s'.held t = s.held t) (hpushed : s'.pushed = s.pushed)
    (hexecuted : s'.executed = s.executed) (hlost : s'.lost = s.lost) : s'.Conserved := by
  intro t
  have ht := h t
  simp only [timesExecuted] at ht ⊢
  rw [hops, hheld, hpushed, hexecuted, hlost]
  exact ht

theorem conserved_workerStep (h : s.Conserved) (hst : WorkerStep s i s') : s'.Conserved := by
  cases hst with
  | tookNothing hw hpc _ =>
      refine conserved_of_same h rfl ?_ rfl rfl rfl
      intro t
      have hset := held_set hw (.popped none) t
      rw [hpc] at hset
      exact hset
  | @took ticket w ops hw hpc _ hops =>
      intro t
      have ht := h t
      have hset := held_set hw (.popped (some ticket)) t
      simp only [hpc, WorkerPc.holds, held, timesExecuted, hops, List.count_cons, beq_iff_eq]
        at ht hset ⊢
      omega
  | left hw hpc =>
      refine conserved_of_same h rfl ?_ rfl rfl rfl
      intro t
      have hset := held_set hw .exited t
      rw [hpc] at hset
      exact hset
  | @dropped ticket w hw hpc _ =>
      intro t
      have ht := h t
      have hset := held_set hw .exited t
      simp only [hpc, WorkerPc.holds, held, timesExecuted, List.count_append,
        List.count_singleton, beq_iff_eq] at ht hset ⊢
      omega
  | @began ticket w hw hpc _ =>
      refine conserved_of_same h rfl ?_ rfl rfl rfl
      intro t
      have hset := held_set hw (.running ticket) t
      rw [hpc] at hset
      exact Nat.add_right_cancel hset
  | @executed ticket w now hw hpc =>
      intro t
      have ht := h t
      have hset := held_set hw .waiting t
      simp only [hpc, WorkerPc.holds, held, timesExecuted, List.map_append, List.map_cons,
        List.map_nil, List.count_append, List.count_singleton, beq_iff_eq] at ht hset ⊢
      omega

theorem conserved_mainStep (h : s.Conserved) (hst : MainStep s s') : s'.Conserved := by
  cases hst with
  | spawned _ =>
      refine conserved_of_same h rfl ?_ rfl rfl rfl
      intro t
      simp [held, sumWorkers, WorkerPc.holds]
  | @tokenSet i _ _ =>
      refine conserved_of_same h rfl ?_ rfl rfl rfl
      intro t
      exact sumWorkers_modify (fun w => w.pc.holds t)
        (g := fun w => { w with token := true }) (fun w => rfl) s.workers i
  | cancelled _ =>
      intro t
      have ht := h t
      simp only [timesExecuted, held, List.count_append, List.count_nil] at ht ⊢
      omega
  | _ => exact h

theorem conserved_enqueue (h : s.Conserved) (thread : ℕ) (op : α) :
    (s.enqueue thread op).Conserved := by
  intro t
  have ht := h t
  simp only [enqueue, timesExecuted, held, List.count_append, List.count_singleton,
    List.length_append, List.length_singleton, beq_iff_eq] at ht ⊢
  split at ht <;> split <;> split <;> omega

/-- **No step loses track of a ticket.** -/
theorem conserved_next {l : Label α} (h : s.Conserved) (hn : s.next l = some s') :
    s'.Conserved := by
  cases next_cases hn with
  | opened _ => exact h
  | closed _ => exact h
  | main hst => exact conserved_mainStep h hst
  | enqueued => exact conserved_enqueue h _ _
  | worker hst => exact conserved_workerStep h hst

/-! ## A pool in service -/

/-- The queue is served. -/
structure Serving (s : Pool α) : Prop where
  shutdown : s.shutdown = false
  workers : ∀ w ∈ s.workers, w.InLoop

/-- An enqueue or a step of a worker. -/
def Label.IsService : Label α → Prop
  | .push _ _ => True
  | .worker _ _ => True
  | _ => False

/-- A step of a worker of a pool in service takes the next ticket, starts it or
finishes it; nothing is deleted. -/
theorem serving_workerStep (h : s.Serving) (hst : WorkerStep s i s') :
    s'.Serving ∧ s'.lost = s.lost ∧ s'.main = s.main := by
  have hset {w : Worker} {pc : WorkerPc} (hw : s.workers[i]? = some w)
      (hpc : pc ≠ .popped none ∧ pc ≠ .exited) :
      ∀ v ∈ s.workers.set i { w with pc := pc }, v.InLoop := by
    intro v hv
    rcases List.mem_or_eq_of_mem_set hv with hmem | rfl
    · exact h.workers v hmem
    · exact ⟨(h.workers w (List.mem_of_getElem? hw)).token, hpc⟩
  cases hst with
  | tookNothing _ _ hshutdown => rw [h.shutdown] at hshutdown; cases hshutdown
  | took hw _ _ _ => exact ⟨⟨h.shutdown, hset hw (by simp)⟩, rfl, rfl⟩
  | left hw hpc => exact absurd hpc (h.workers _ (List.mem_of_getElem? hw)).pc.1
  | dropped hw _ htoken =>
      rw [(h.workers _ (List.mem_of_getElem? hw)).token] at htoken
      cases htoken
  | began hw _ _ => exact ⟨⟨h.shutdown, hset hw (by simp)⟩, rfl, rfl⟩
  | executed _ hw _ => exact ⟨⟨h.shutdown, hset hw (by simp)⟩, rfl, rfl⟩

end Pool
end WarheadDiscord
