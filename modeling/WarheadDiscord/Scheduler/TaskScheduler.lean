import Mathlib.Data.Int.Notation
import Mathlib.Data.Int.Order.Basic
import Mathlib.Logic.Function.Basic
import WarheadDiscord.Lib.KeyOrder

/-!
# `TaskScheduler`: tasks, contexts and the queue

A `Task` is shared: the queue holds a pointer to it, and so does every copy of a context
that was made for it.  The model has a heap of tasks, and the queue is a list of pointers
into it, in the order of the multiset.  The key of the multiset, `_end`, is a part of the
task and may change while the task is in the queue.

All copies of a context share the pointer to the task and the flag that tells whether the
context is consumed, so a context here stands for all its copies.

The operations of the scheduler and of its contexts are an inductive type.  Most of those
of a context only pass a call on to the scheduler, by `TaskContext::Dispatch`; these are
the operations of the scheduler.  Time points and durations are integers, and a random
duration is just one of them.

## Main definitions

* `Task`, `TaskContext`, `TaskScheduler` — the state.
* `TaskScheduler.push`, `removeIf`, `modifyIf` — the operations of `TaskQueue`.
* `Op`, `TaskScheduler.apply` — the operations of the scheduler and of its contexts; `none`
  is a failed assertion.
* `TaskScheduler.popTask` — what `Dispatch` does in front of a handler.
-/

namespace WarheadDiscord

open KeyOrder

/-- A task with a handler of type `H`. -/
structure Task (H : Type) where
  /-- `_end` -/
  endTime : ℤ
  duration : ℤ
  group : Option UInt32
  repeated : UInt32
  /-- `_task` -/
  handler : H
  deriving DecidableEq, Repr

def Task.isInGroup {H : Type} (t : Task H) (group : UInt32) : Bool := t.group = some group

/-- What the copies of a context share. -/
structure TaskContext where
  task : ℕ
  consumed : Bool
  deriving DecidableEq, Repr

/-- The scheduler, with handlers of type `H` and callables of type `A`. -/
structure TaskScheduler (H A : Type) where
  now : ℤ
  /-- The tasks by their pointers, of which those below `created` are in use. -/
  tasks : ℕ → Task H
  created : ℕ
  /-- `_task_holder` -/
  holder : List ℕ
  asyncHolder : List A
  /-- Every context made so far. -/
  contexts : List TaskContext

/-- The operations that handlers, callables and everybody else can call.  A context is
known by its number. -/
inductive Op (H : Type)
  | schedule (time : ℤ) (group : Option UInt32) (task : H)
  | cancelAll
  | cancelGroup (group : UInt32)
  | cancelGroupsOf (groups : List UInt32)
  | delayAll (duration : ℤ)
  | delayGroup (group : UInt32) (duration : ℤ)
  | rescheduleAll (duration : ℤ)
  | rescheduleGroup (group : UInt32) (duration : ℤ)
  /-- `TaskContext::Schedule` -/
  | contextSchedule (context : ℕ) (time : ℤ) (group : Option UInt32) (task : H)
  /-- `TaskContext::Repeat`, with a new duration or with that of the task. -/
  | repeatTask (context : ℕ) (duration : Option ℤ)
  | setGroup (context : ℕ) (group : UInt32)
  | clearGroup (context : ℕ)

namespace TaskScheduler
variable {H A : Type}

/-- The key of the queue. -/
def key (s : TaskScheduler H A) (i : ℕ) : ℤ := (s.tasks i).endTime

/-! ## `TaskQueue` -/

def push (s : TaskScheduler H A) (i : ℕ) : TaskScheduler H A :=
  { s with holder := insertByKey s.key i s.holder }

def removeIf (s : TaskScheduler H A) (filter : Task H → Bool) : TaskScheduler H A :=
  { s with holder := s.holder.filter fun i => !filter (s.tasks i) }

/-- The loop of `ModifyIf`: what stays in the container, the cache, and the tasks.  The
filter changes the task if it selects it. -/
def modifyLoop (filter : Task H → Option (Task H)) :
    List ℕ → (ℕ → Task H) → List ℕ × List ℕ × (ℕ → Task H)
  | [], tasks => ([], [], tasks)
  | i :: container, tasks =>
      match filter (tasks i) with
      | some t =>
          match modifyLoop filter container (Function.update tasks i t) with
          | (kept, cache, tasks) => (kept, i :: cache, tasks)
      | none =>
          match modifyLoop filter container tasks with
          | (kept, cache, tasks) => (i :: kept, cache, tasks)

def modifyIf (s : TaskScheduler H A) (filter : Task H → Option (Task H)) : TaskScheduler H A :=
  match modifyLoop filter s.holder s.tasks with
  | (kept, cache, tasks) =>
      { s with tasks := tasks, holder := insertAllByKey (fun i => (tasks i).endTime) cache kept }

/-! ## `TaskScheduler` -/

/-- `Async` -/
def async (s : TaskScheduler H A) (callable : A) : TaskScheduler H A :=
  { s with asyncHolder := s.asyncHolder ++ [callable] }

def cancelAll (s : TaskScheduler H A) : TaskScheduler H A :=
  { s with holder := [], asyncHolder := [] }

def cancelGroup (s : TaskScheduler H A) (group : UInt32) : TaskScheduler H A :=
  s.removeIf fun t => t.isInGroup group

def cancelGroupsOf (s : TaskScheduler H A) (groups : List UInt32) : TaskScheduler H A :=
  groups.foldl cancelGroup s

/-- `ScheduleAt`, a new task that ends `time` after the given point. -/
def scheduleAt (s : TaskScheduler H A) (point time : ℤ) (group : Option UInt32) (task : H) :
    TaskScheduler H A :=
  push
    { s with
      tasks := Function.update s.tasks s.created ⟨point + time, time, group, 0, task⟩
      created := s.created + 1 }
    s.created

/-- The filter of `DelayAll` and `DelayGroup`. -/
def delay (selects : Task H → Bool) (duration : ℤ) (t : Task H) : Option (Task H) :=
  if selects t then some { t with endTime := t.endTime + duration } else none

/-- The filter of `RescheduleAll` and `RescheduleGroup`. -/
def reschedule (selects : Task H → Bool) (endTime : ℤ) (t : Task H) : Option (Task H) :=
  if selects t then some { t with endTime := endTime } else none

def delayAll (s : TaskScheduler H A) (duration : ℤ) : TaskScheduler H A :=
  s.modifyIf (delay (fun _ => true) duration)

def delayGroup (s : TaskScheduler H A) (group : UInt32) (duration : ℤ) : TaskScheduler H A :=
  s.modifyIf (delay (fun t => t.isInGroup group) duration)

def rescheduleAll (s : TaskScheduler H A) (duration : ℤ) : TaskScheduler H A :=
  s.modifyIf (reschedule (fun _ => true) (s.now + duration))

def rescheduleGroup (s : TaskScheduler H A) (group : UInt32) (duration : ℤ) :
    TaskScheduler H A :=
  s.modifyIf (reschedule (fun t => t.isInGroup group) (s.now + duration))

/-! ## `TaskContext` -/

/-- `Repeat` with a context that is not consumed. -/
def repeatTask (s : TaskScheduler H A) (context i : ℕ) (duration : ℤ) : TaskScheduler H A :=
  push
    { s with
      tasks := Function.update s.tasks i
        { s.tasks i with
          endTime := (s.tasks i).endTime + duration
          duration := duration
          repeated := (s.tasks i).repeated + 1 }
      contexts := s.contexts.set context ⟨i, true⟩ }
    i

def setTaskGroup (s : TaskScheduler H A) (i : ℕ) (group : Option UInt32) : TaskScheduler H A :=
  { s with tasks := Function.update s.tasks i { s.tasks i with group := group } }

/-- An operation; there has to be such a context, and `AssertOnConsumed` has to hold. -/
def apply (s : TaskScheduler H A) : Op H → Option (TaskScheduler H A)
  | .schedule time group task => some (s.scheduleAt s.now time group task)
  | .cancelAll => some s.cancelAll
  | .cancelGroup group => some (s.cancelGroup group)
  | .cancelGroupsOf groups => some (s.cancelGroupsOf groups)
  | .delayAll duration => some (s.delayAll duration)
  | .delayGroup group duration => some (s.delayGroup group duration)
  | .rescheduleAll duration => some (s.rescheduleAll duration)
  | .rescheduleGroup group duration => some (s.rescheduleGroup group duration)
  | .contextSchedule context time group task =>
      s.contexts[context]?.map fun c => s.scheduleAt (s.key c.task) time group task
  | .repeatTask context duration =>
      s.contexts[context]?.bind fun c =>
        if c.consumed then none
        else some (s.repeatTask context c.task (duration.getD (s.tasks c.task).duration))
  | .setGroup context group => s.contexts[context]?.map fun c => s.setTaskGroup c.task (some group)
  | .clearGroup context => s.contexts[context]?.map fun c => s.setTaskGroup c.task none

/-- `Pop` and the new context, in front of `Invoke`. -/
def popTask (s : TaskScheduler H A) (i : ℕ) (rest : List ℕ) : TaskScheduler H A :=
  { s with holder := rest, contexts := s.contexts ++ [⟨i, false⟩] }

/-- The task that `Dispatch` takes next, and the queue behind it: the first one, if it has
ended. -/
def due (s : TaskScheduler H A) : Option (ℕ × List ℕ) :=
  match s.holder with
  | [] => none
  | i :: rest => if s.now < s.key i then none else some (i, rest)

/-- A scheduler without tasks. -/
def new (now : ℤ) (task : Task H) : TaskScheduler H A := ⟨now, fun _ => task, 0, [], [], []⟩

end TaskScheduler
end WarheadDiscord
