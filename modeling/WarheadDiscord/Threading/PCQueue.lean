import Mathlib.Data.List.Nodup
import Mathlib.Logic.Function.Basic
import Mathlib.Tactic.Common
import WarheadDiscord.Lib.Machine

/-!
# `ProducerConsumerQueue`

A queue behind one mutex.  `WaitAndPop` waits as long as the queue is empty and not shut down, and
looks again at both whenever it is woken; `condition_variable` may wake it at any time.  `Cancel`
deletes what is in the queue and shuts it down, after which nothing is taken out, though `Push`
still puts something in.

Each critical section is a step: a call, or what `WaitAndPop` does from one wait to the next.  A
thread that waits makes no other call.  The operations are told apart by the number of operations
that were pushed before them.

What was delivered, what was deleted and what is in the queue is, one behind the other, what was
pushed (`Inv`).

## Main definitions

* `PCQueue` — the state, with the histories of the calls.
* `PCQueue.next` — the machine.
* `PCQueue.Inv` — the invariant.
-/

namespace WarheadDiscord

/-- The queue while it is used by the threads of type `T`, with operations of type `α`. -/
structure PCQueue (T α : Type) where
  /-- The operations with their numbers. -/
  queue : List (α × ℕ)
  shutdown : Bool
  /-- The threads that wait for the condition. -/
  waiting : T → Bool
  /-- The operations in the order in which they were pushed. -/
  pushed : List α
  /-- The operations in the order in which they were taken out, each with the thread that got
  it. -/
  delivered : List (T × α × ℕ)
  /-- The operations that `Cancel` has deleted. -/
  deleted : List (α × ℕ)

namespace PCQueue
variable {T α : Type}

inductive Label (T α : Type)
  | push (t : T) (value : α)
  | pop (t : T)
  /-- `WaitAndPop` up to the first wait, or to its end. -/
  | waitAndPop (t : T)
  /-- `WaitAndPop` from a wait to the next one, or to its end. -/
  | wake (t : T)
  | cancel (t : T)
  deriving DecidableEq, Repr

def new : PCQueue T α where
  queue := []
  shutdown := false
  waiting := fun _ => false
  pushed := []
  delivered := []
  deleted := []

def push (q : PCQueue T α) (value : α) : PCQueue T α :=
  { q with queue := q.queue ++ [(value, q.pushed.length)], pushed := q.pushed ++ [value] }

/-- `Pop`, and the end of `WaitAndPop`. -/
def pop (q : PCQueue T α) (t : T) : PCQueue T α :=
  match q.queue with
  | [] => q
  | op :: queue =>
      if q.shutdown then q else { q with queue, delivered := q.delivered ++ [(t, op)] }

def setWaiting [DecidableEq T] (q : PCQueue T α) (t : T) (waits : Bool) : PCQueue T α :=
  { q with waiting := Function.update q.waiting t waits }

/-- The loop of `WaitAndPop`, from where the mutex is locked. -/
def waitAndPop [DecidableEq T] (q : PCQueue T α) (t : T) : PCQueue T α :=
  if q.queue = [] ∧ q.shutdown = false then q.setWaiting t true
  else (q.setWaiting t false).pop t

def cancel (q : PCQueue T α) : PCQueue T α :=
  { q with queue := [], shutdown := true, deleted := q.deleted ++ q.queue }

/-- The machine. -/
def next [DecidableEq T] (q : PCQueue T α) : Label T α → Option (PCQueue T α)
  | .push t value => if q.waiting t then none else some (q.push value)
  | .pop t => if q.waiting t then none else some (q.pop t)
  | .waitAndPop t => if q.waiting t then none else some (q.waitAndPop t)
  | .wake t => if q.waiting t then some (q.waitAndPop t) else none
  | .cancel t => if q.waiting t then none else some q.cancel

/-! ## The invariant -/

/-- Nothing is lost, nothing is there twice, and nothing is deleted while operations can still be
delivered. -/
structure Inv (q : PCQueue T α) : Prop where
  history : q.delivered.map Prod.snd ++ (q.deleted ++ q.queue) = q.pushed.zipIdx
  deleted : q.shutdown = false → q.deleted = []

variable {q q' : PCQueue T α}

theorem inv_new : (new : PCQueue T α).Inv := ⟨rfl, fun _ => rfl⟩

theorem Inv.push (h : q.Inv) (value : α) : (q.push value).Inv where
  history := by
    show q.delivered.map Prod.snd ++ (q.deleted ++ (q.queue ++ [(value, q.pushed.length)])) =
      (q.pushed ++ [value]).zipIdx
    rw [← List.append_assoc q.deleted, ← List.append_assoc, h.history, List.zipIdx_append]
    simp
  deleted := h.deleted

theorem Inv.pop (h : q.Inv) (t : T) : (q.pop t).Inv := by
  rw [PCQueue.pop]
  split
  · exact h
  · next op queue hqueue =>
      split_ifs with hshutdown
      · exact h
      · have hdeleted := h.deleted (by simpa using hshutdown)
        refine ⟨?_, h.deleted⟩
        rw [← h.history, hqueue, hdeleted]
        simp

theorem Inv.setWaiting [DecidableEq T] (h : q.Inv) (t : T) (waits : Bool) :
    (q.setWaiting t waits).Inv := ⟨h.history, h.deleted⟩

theorem Inv.waitAndPop [DecidableEq T] (h : q.Inv) (t : T) : (q.waitAndPop t).Inv := by
  rw [PCQueue.waitAndPop]
  split_ifs
  · exact h.setWaiting t true
  · exact (h.setWaiting t false).pop t

theorem Inv.cancel (h : q.Inv) : q.cancel.Inv where
  history := by
    show q.delivered.map Prod.snd ++ (q.deleted ++ q.queue ++ []) = q.pushed.zipIdx
    rw [List.append_nil, h.history]
  deleted := by simp [PCQueue.cancel]

/-- What a step can do. -/
theorem next_cases [DecidableEq T] {l : Label T α} (h : q.next l = some q') :
    (∃ value, q' = q.push value) ∨ (∃ t, q' = q.pop t) ∨ (∃ t, q' = q.waitAndPop t) ∨
      q' = q.cancel := by
  cases l with
  | push t value =>
      rw [next, Option.ite_none_left_eq_some] at h
      exact .inl ⟨value, (Option.some.inj h.2).symm⟩
  | pop t =>
      rw [next, Option.ite_none_left_eq_some] at h
      exact .inr (.inl ⟨t, (Option.some.inj h.2).symm⟩)
  | waitAndPop t =>
      rw [next, Option.ite_none_left_eq_some] at h
      exact .inr (.inr (.inl ⟨t, (Option.some.inj h.2).symm⟩))
  | wake t =>
      rw [next, Option.ite_none_right_eq_some] at h
      exact .inr (.inr (.inl ⟨t, (Option.some.inj h.2).symm⟩))
  | cancel t =>
      rw [next, Option.ite_none_left_eq_some] at h
      exact .inr (.inr (.inr (Option.some.inj h.2).symm))

theorem inv_next [DecidableEq T] {l : Label T α} (h : q.Inv) (hnext : q.next l = some q') :
    q'.Inv := by
  rcases next_cases hnext with ⟨value, rfl⟩ | ⟨t, rfl⟩ | ⟨t, rfl⟩ | rfl
  · exact h.push value
  · exact h.pop t
  · exact h.waitAndPop t
  · exact h.cancel

/-! ## After `Cancel` -/

theorem pop_of_shutdown (h : q.shutdown = true) (t : T) : q.pop t = q := by
  rw [pop]
  split
  · rfl
  · rw [if_pos h]

/-- A queue that is shut down stays so, and delivers nothing. -/
theorem next_of_shutdown [DecidableEq T] {l : Label T α} (h : q.shutdown = true)
    (hnext : q.next l = some q') : q'.shutdown = true ∧ q'.delivered = q.delivered := by
  rcases next_cases hnext with ⟨value, rfl⟩ | ⟨t, rfl⟩ | ⟨t, rfl⟩ | rfl
  · exact ⟨h, rfl⟩
  · rw [pop_of_shutdown h]
    exact ⟨h, rfl⟩
  · rw [waitAndPop, if_neg (by simp [h]), pop_of_shutdown (q := q.setWaiting t false) h]
    exact ⟨h, rfl⟩
  · exact ⟨rfl, rfl⟩

theorem run_of_shutdown [DecidableEq T] {ls : List (Label T α)} (h : q.shutdown = true)
    (hrun : Machine.run next q ls = some q') : q'.delivered = q.delivered := by
  refine (Machine.run_induction (P := fun p => p.shutdown = true ∧ p.delivered = q.delivered)
    ?_ ⟨h, rfl⟩ hrun).2
  intro s l t hs hnext
  obtain ⟨hshutdown, hdelivered⟩ := next_of_shutdown hs.1 hnext
  exact ⟨hshutdown, hdelivered.trans hs.2⟩

/-! ## The result -/

/-- How often the operation with the number was delivered, to whichever thread. -/
def timesDelivered (q : PCQueue T α) (n : ℕ) : ℕ := (q.delivered.map fun d => d.2.2).count n

/-- How often it was deleted. -/
def timesDeleted (q : PCQueue T α) (n : ℕ) : ℕ := (q.deleted.map Prod.snd).count n

/-- How often it is in the queue. -/
def timesQueued (q : PCQueue T α) (n : ℕ) : ℕ := (q.queue.map Prod.snd).count n

/-- Every operation that was pushed is in one place. -/
theorem Inv.times_add (h : q.Inv) {n : ℕ} (hn : n < q.pushed.length) :
    q.timesDelivered n + q.timesDeleted n + q.timesQueued n = 1 := by
  have hnumbers := congrArg (fun l => (l.map Prod.snd).count n) h.history
  simp only [List.map_append, List.map_map, List.count_append, List.zipIdx_map_snd] at hnumbers
  have hone : (List.range' 0 q.pushed.length).count n = 1 :=
    List.count_eq_one_of_mem List.nodup_range' (by simpa using hn)
  rw [hone, ← Nat.add_assoc] at hnumbers
  exact hnumbers

/-- **Delivery**, for every interleaving: an operation is delivered to at most one thread or
deleted, or it is still in the queue; what is delivered is, in this order, the beginning of what
was pushed; and nothing is delivered after `Cancel`. -/
theorem delivered_once [DecidableEq T] {ls : List (Label T α)}
    (hrun : Machine.run next new ls = some q) :
    (∀ n < q.pushed.length, q.timesDelivered n + q.timesDeleted n + q.timesQueued n = 1) ∧
      q.delivered.map Prod.snd <+: q.pushed.zipIdx ∧
      ∀ before t after, ls = before ++ .cancel t :: after →
        ∃ p, Machine.run next new before = some p ∧ q.delivered = p.delivered := by
  have hinv : q.Inv := Machine.run_induction (fun _ _ _ h hnext => inv_next h hnext) inv_new hrun
  refine ⟨fun n hn => hinv.times_add hn, ⟨_, hinv.history⟩, ?_⟩
  rintro before t after rfl
  rw [Machine.run_append, Option.bind_eq_some_iff] at hrun
  obtain ⟨p, hbefore, hrun⟩ := hrun
  rw [Machine.run_cons, Option.bind_eq_some_iff] at hrun
  obtain ⟨p', hcancel, hafter⟩ := hrun
  refine ⟨p, hbefore, ?_⟩
  rw [next, Option.ite_none_left_eq_some] at hcancel
  cases hcancel.2
  exact run_of_shutdown (q := p.cancel) rfl hafter

/-- Two threads wait for one operation, and only one gets it; of the next two one is popped and one
deleted, and one that is pushed later stays in the queue. -/
def crowdedRun : List (Label ℕ Char) :=
  [.waitAndPop 0, .waitAndPop 1, .push 2 'a', .wake 1, .wake 0, .push 2 'b', .push 2 'c', .pop 1,
    .cancel 2, .wake 0, .push 2 'd', .pop 1]

theorem delivered_once_crowdedRun :
    ∃ q, Machine.run next new crowdedRun = some q ∧ q.delivered = [(1, 'a', 0), (1, 'b', 1)] ∧
      q.deleted = [('c', 2)] ∧ q.queue = [('d', 3)] ∧
      q.delivered.map Prod.snd <+: q.pushed.zipIdx := by
  have hrun : Machine.run next new crowdedRun = some _ := rfl
  exact ⟨_, hrun, rfl, rfl, rfl, (delivered_once hrun).2.1⟩

end PCQueue
end WarheadDiscord
