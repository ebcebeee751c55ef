import WarheadDiscord.Database.WorkerPool
import WarheadDiscord.Threading.PCQueue

/-!
# The queue of a pool

The machine of the pool knows its `ProducerConsumerQueue` by what is in it and by the shutdown
flag, and takes an operation out in one step.  The queue has a machine of its own, in which each
critical section is a step and a thread that waits may be woken for nothing.

Every step of the pool is some calls of that queue (`queueOf_next`), so every run of a pool is a
run of its queue (`exists_queue_run`): what the workers take out is, in this order, the beginning
of what was enqueued, and what is not in the queue any more was executed, is with a worker, or is
lost.

## Main definitions

* `Pool.QueueThread` — the threads that use the queue.
* `Pool.queueCalls` — the calls in a step.
* `Pool.QueueOf` — a state of the queue for a state of the pool.
-/

namespace WarheadDiscord.Pool

inductive QueueThread
  /-- The thread that opens and closes the pool. -/
  | main
  | caller (thread : ℕ)
  | worker (i : ℕ)
  deriving DecidableEq, Repr

variable {α : Type}

/-- The calls of the queue in a step of the pool. -/
def queueCalls (s : Pool α) : Label α → List (PCQueue.Label QueueThread α)
  | .push thread op => [.push (.caller thread) op]
  | .worker i _ =>
      if s.workers[i]?.map Worker.pc = some .waiting then [.waitAndPop (.worker i)] else []
  | .main => if s.main.head? = some .cancel then [.cancel .main] else []
  | .open _ | .close => []

/-- The queue of the pool, between two steps.  What was taken out of it or deleted is with a
worker, executed or lost. -/
structure QueueOf (s : Pool α) (q : PCQueue QueueThread α) : Prop where
  queue : q.queue.map Prod.snd = s.ops
  shutdown : q.shutdown = s.shutdown
  waiting : ∀ t, q.waiting t = false
  pushed : q.pushed = s.pushed.map Prod.snd
  places : ∀ t, q.timesDelivered t + q.timesDeleted t =
    s.held t + s.timesExecuted t + s.lost.count t

variable {s s' : Pool α} {q : PCQueue QueueThread α} {i : ℕ}

/-- A step that leaves alone what the queue is about. -/
theorem QueueOf.of_same (h : s.QueueOf q) (hops : s'.ops = s.ops)
    (hshutdown : s'.shutdown = s.shutdown) (hpushed : s'.pushed = s.pushed)
    (hplaces : ∀ t, s'.held t + s'.timesExecuted t + s'.lost.count t =
      s.held t + s.timesExecuted t + s.lost.count t) : s'.QueueOf q where
  queue := h.queue.trans hops.symm
  shutdown := h.shutdown.trans hshutdown.symm
  waiting := h.waiting
  pushed := by rw [h.pushed, hpushed]
  places t := (h.places t).trans (hplaces t).symm

/-- A step of a worker that leaves the queue alone: what the worker has, was executed or is lost
stays together what it was. -/
theorem QueueOf.of_worker {w : Worker} (h : s.QueueOf q) (hw : s.workers[i]? = some w)
    (pc : WorkerPc) (hworkers : s'.workers = s.workers.set i { w with pc := pc })
    (hops : s'.ops = s.ops) (hshutdown : s'.shutdown = s.shutdown)
    (hpushed : s'.pushed = s.pushed)
    (hplaces : ∀ t, pc.holds t + s'.timesExecuted t + s'.lost.count t =
      w.pc.holds t + s.timesExecuted t + s.lost.count t) : s'.QueueOf q := by
  refine h.of_same hops hshutdown hpushed ?_
  intro t
  have hset := held_set hw pc t
  have ht := hplaces t
  rw [← hworkers] at hset
  change s'.held t + _ = _ at hset
  omega

theorem setWaiting_of_not_waiting (h : ∀ t, q.waiting t = false) (t : QueueThread) :
    q.setWaiting t false = q := by
  have hwaiting : Function.update q.waiting t false = q.waiting :=
    Function.update_eq_self_iff.mpr (h t).symm
  rw [PCQueue.setWaiting, hwaiting]

/-- `WaitAndPop` of a worker that gets an operation or is told to stop. -/
theorem QueueOf.next_waitAndPop (h : s.QueueOf q) (hready : s.ops ≠ [] ∨ s.shutdown = true) :
    q.next (.waitAndPop (.worker i)) = some (q.pop (.worker i)) := by
  have hqueue : ¬ (q.queue = [] ∧ q.shutdown = false) := by
    rintro ⟨hempty, hopen⟩
    rcases hready with hops | hshutdown
    · rw [← h.queue, hempty] at hops
      exact hops rfl
    · rw [h.shutdown, hshutdown] at hopen
      cases hopen
  rw [PCQueue.next, if_neg (by simp [h.waiting]), PCQueue.waitAndPop, if_neg hqueue,
    setWaiting_of_not_waiting h.waiting]

/-- The first operation of the queue goes to the worker. -/
theorem QueueOf.pop (h : s.QueueOf q) {ticket : ℕ} {ops : List ℕ} (hops : s.ops = ticket :: ops)
    (hopen : s.shutdown = false) :
    (q.pop (.worker i)).queue.map Prod.snd = ops ∧
      (q.pop (.worker i)).pushed = q.pushed ∧
      (q.pop (.worker i)).waiting = q.waiting ∧
      (q.pop (.worker i)).shutdown = q.shutdown ∧
      ∀ t, (q.pop (.worker i)).timesDelivered t + (q.pop (.worker i)).timesDeleted t =
        q.timesDelivered t + q.timesDeleted t + if ticket = t then 1 else 0 := by
  have hmap := h.queue
  rw [hops, List.map_eq_cons_iff] at hmap
  obtain ⟨op, queue, hqueue, rfl, rfl⟩ := hmap
  have hshutdown : ¬ q.shutdown = true := by simp [h.shutdown, hopen]
  have hpop : q.pop (.worker i) =
      { q with queue := queue, delivered := q.delivered ++ [(.worker i, op)] } := by
    simp only [PCQueue.pop, hqueue, if_neg hshutdown]
  rw [hpop]
  refine ⟨rfl, rfl, rfl, rfl, ?_⟩
  intro t
  simp only [PCQueue.timesDelivered, PCQueue.timesDeleted, List.map_append, List.map_cons,
    List.map_nil, List.count_append, List.count_singleton, beq_iff_eq]
  omega

theorem queueOf_workerStep (h : s.QueueOf q) (hst : WorkerStep s i s') (now : ℕ) :
    ∃ q', Machine.run PCQueue.next q (s.queueCalls (.worker i now)) = some q' ∧
      s'.QueueOf q' := by
  cases hst with
  | tookNothing hw hpc hshutdown =>
      have hcalls : s.queueCalls (.worker i now) = [.waitAndPop (.worker i)] := by
        simp [queueCalls, hw, hpc]
      have hpop : q.pop (.worker i) = q :=
        PCQueue.pop_of_shutdown (h.shutdown.trans hshutdown) _
      refine ⟨q, ?_, ?_⟩
      · rw [hcalls, Machine.run_cons, h.next_waitAndPop (.inr hshutdown), hpop]
        rfl
      · refine h.of_worker hw (.popped none) rfl rfl rfl rfl fun t => ?_
        simp [hpc, WorkerPc.holds, timesExecuted]
  | @took ticket w ops hw hpc hopen hops =>
      have hcalls : s.queueCalls (.worker i now) = [.waitAndPop (.worker i)] := by
        simp [queueCalls, hw, hpc]
      obtain ⟨hqueue, hpushed, hwaiting, hshutdown, hplaces⟩ := h.pop (i := i) hops hopen
      refine ⟨q.pop (.worker i), ?_, ?_⟩
      · rw [hcalls, Machine.run_cons, h.next_waitAndPop (.inl (by simp [hops]))]
        rfl
      · refine ⟨hqueue, hshutdown.trans h.shutdown, ?_, hpushed.trans h.pushed, fun t => ?_⟩
        · rw [hwaiting]
          exact h.waiting
        · have ht := h.places t
          have hset := held_set hw (.popped (some ticket)) t
          rw [hplaces t, ht]
          simp only [hpc, WorkerPc.holds, held, timesExecuted] at hset ⊢
          omega
  | left hw hpc =>
      refine ⟨q, by simp [queueCalls, hw, hpc], ?_⟩
      refine h.of_worker hw .exited rfl rfl rfl rfl fun t => ?_
      simp [hpc, WorkerPc.holds, timesExecuted]
  | @dropped ticket w hw hpc _ =>
      refine ⟨q, by simp [queueCalls, hw, hpc], ?_⟩
      refine h.of_worker hw .exited rfl rfl rfl rfl fun t => ?_
      simp only [hpc, WorkerPc.holds, timesExecuted, List.count_append, List.count_singleton,
        beq_iff_eq]
      omega
  | @began ticket w hw hpc _ =>
      refine ⟨q, by simp [queueCalls, hw, hpc], ?_⟩
      refine h.of_worker hw (.running ticket) rfl rfl rfl rfl fun t => ?_
      simp [hpc, WorkerPc.holds, timesExecuted]
  | @executed ticket w now' hw hpc =>
      refine ⟨q, by simp [queueCalls, hw, hpc], ?_⟩
      refine h.of_worker hw .waiting rfl rfl rfl rfl fun t => ?_
      simp only [hpc, WorkerPc.holds, timesExecuted, List.map_append, List.map_cons, List.map_nil,
        List.count_append, List.count_singleton, beq_iff_eq]
      omega

theorem queueOf_cancel (h : s.QueueOf q) {rest : List MainOp} :
    QueueOf { s with lost := s.lost ++ s.ops, ops := [], shutdown := true, main := rest }
      q.cancel where
  queue := rfl
  shutdown := rfl
  waiting := h.waiting
  pushed := h.pushed
  places t := by
    have ht := h.places t
    simp only [PCQueue.timesDelivered, PCQueue.timesDeleted, PCQueue.cancel, List.map_append,
      List.count_append, h.queue, held, timesExecuted] at ht ⊢
    omega

theorem queueOf_mainStep (h : s.QueueOf q) (hst : MainStep s s') :
    ∃ q', Machine.run PCQueue.next q (s.queueCalls .main) = some q' ∧ s'.QueueOf q' := by
  cases hst with
  | spawned hmain =>
      refine ⟨q, by simp [queueCalls, hmain], h.of_same rfl rfl rfl fun t => ?_⟩
      simp [held, sumWorkers, WorkerPc.holds, timesExecuted]
  | @tokenSet j _ hmain =>
      refine ⟨q, by simp [queueCalls, hmain], h.of_same rfl rfl rfl fun t => ?_⟩
      have hheld := sumWorkers_modify (fun w => w.pc.holds t)
        (g := fun w => { w with token := true }) (fun _ => rfl) s.workers j
      simp only [held, timesExecuted, hheld]
  | cancelled hmain =>
      refine ⟨q.cancel, ?_, queueOf_cancel h⟩
      simp [queueCalls, hmain, Machine.run_cons, PCQueue.next, h.waiting]
  | asyncKept hmain | openingDropped hmain | asyncCleared hmain | syncKept hmain
  | syncCleared hmain | joined hmain _ | returned hmain =>
      exact ⟨q, by simp [queueCalls, hmain], h.of_same rfl rfl rfl fun _ => rfl⟩

theorem queueOf_enqueue (h : s.QueueOf q) (thread : ℕ) (op : α) :
    (s.enqueue thread op).QueueOf (q.push op) where
  queue := by simp [PCQueue.push, enqueue, h.queue, h.pushed]
  shutdown := h.shutdown
  waiting := h.waiting
  pushed := by simp [PCQueue.push, enqueue, h.pushed]
  places := h.places

/-- **A step of the pool is some calls of its queue.** -/
theorem queueOf_next (l : Label α) (h : s.QueueOf q) (hnext : s.next l = some s') :
    ∃ q', Machine.run PCQueue.next q (s.queueCalls l) = some q' ∧ s'.QueueOf q' := by
  cases next_cases hnext with
  | opened _ => exact ⟨q, rfl, h.of_same rfl rfl rfl fun _ => rfl⟩
  | closed _ => exact ⟨q, rfl, h.of_same rfl rfl rfl fun _ => rfl⟩
  | main hst => exact queueOf_mainStep h hst
  | @enqueued thread op =>
      refine ⟨q.push op, ?_, queueOf_enqueue h thread op⟩
      simp [queueCalls, Machine.run_cons, PCQueue.next, h.waiting]
  | @worker i now _ hst => exact queueOf_workerStep h hst now

theorem queueOf_new (n m : ℕ) : (new n m : Pool α).QueueOf .new where
  queue := rfl
  shutdown := rfl
  waiting _ := rfl
  pushed := rfl
  places t := by simp [PCQueue.timesDelivered, PCQueue.timesDeleted, PCQueue.new, new, held,
    sumWorkers, timesExecuted]

/-- **Every run of a pool is a run of its queue**, in which the operations are taken out in the
order in which they were enqueued. -/
theorem exists_queue_run {n m : ℕ} {ls : List (Label α)}
    (hrun : Machine.run next (new n m) ls = some s) :
    ∃ calls q, Machine.run PCQueue.next .new calls = some q ∧ s.QueueOf q ∧
      q.delivered.map Prod.snd <+: (s.pushed.map Prod.snd).zipIdx := by
  obtain ⟨calls, q, hq, hqueue⟩ :=
    Machine.exists_run_of_simulation queueCalls (fun _ l _ _ h hnext => queueOf_next l h hnext)
      (queueOf_new n m) hrun
  have hinv : q.Inv :=
    Machine.run_induction (fun _ _ _ h hnext => PCQueue.inv_next h hnext) PCQueue.inv_new hq
  exact ⟨calls, q, hq, hqueue, hqueue.pushed ▸ ⟨_, hinv.history⟩⟩

end WarheadDiscord.Pool
