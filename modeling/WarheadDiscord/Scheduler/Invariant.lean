import Mathlib.Data.List.Nodup
import Mathlib.Tactic.Common
import WarheadDiscord.Lib.Machine
import WarheadDiscord.Scheduler.TaskScheduler

/-!
# The invariant of the scheduler

`Dispatch` calls handlers and callables in the middle of its loops, and these may call the
scheduler again, `Update` included.  The machine has one step for every operation, and a
stack that knows which loops and which calls are going on.  Whatever is called runs in its
own steps, so a run of the machine is a run of the program with arbitrary handlers,
callables and callbacks.

In every state of a run the queue is ordered by `_end` and holds no task twice, and the
task of a context that is not consumed is not in it (`representation_invariant`).  The last
is what keeps `Repeat` from moving a task that is in the queue: a context is made when its
task leaves the queue, and `Repeat` consumes it when it puts the task back.

The queue is ordered although `ModifyIf` changes keys inside of it: what it changes it has
taken out before it compares anything (`modifyIf_eq`).

## Main definitions

* `TaskScheduler.Inv` — the invariant.
* `Frame`, `Dispatcher`, `Dispatcher.next` — the machine.
* `Op.modification`, `Modified` — what an operation that modifies tasks is meant to do.
-/

namespace WarheadDiscord

open KeyOrder

/-! ## What an operation does -/

/-- For the operations that modify tasks: the new end of a task that is selected. -/
def Op.modification {H : Type} (now : ℤ) : Op H → Option (Task H → Option ℤ)
  | .delayAll duration => some fun t => some (t.endTime + duration)
  | .delayGroup group duration =>
      some fun t => if t.isInGroup group then some (t.endTime + duration) else none
  | .rescheduleAll duration => some fun _ => some (now + duration)
  | .rescheduleGroup group duration =>
      some fun t => if t.isInGroup group then some (now + duration) else none
  | _ => none

/-- The operations that take the tasks of groups away. -/
def Op.Removes {H : Type} : Op H → Prop
  | .cancelGroup _ | .cancelGroupsOf _ => True
  | _ => False

/-- The operations that change the group of a task. -/
def Op.Regroups {H : Type} : Op H → Prop
  | .setGroup _ _ | .clearGroup _ => True
  | _ => False

namespace TaskScheduler
variable {H A : Type} {s s' : TaskScheduler H A}

/-- What `ModifyIf` makes of a task with the given new end, if it has one. -/
def newEndFilter (newEnd : Task H → Option ℤ) (t : Task H) : Option (Task H) :=
  (newEnd t).map fun e => { t with endTime := e }

/-- The kinds of changes that operations make. -/
inductive Effect (s : TaskScheduler H A) : Op H → TaskScheduler H A → Prop
  | scheduled {time : ℤ} {group : Option UInt32} {task : H} :
      Effect s (.schedule time group task) (s.scheduleAt s.now time group task)
  | contextScheduled {context : ℕ} {time : ℤ} {group : Option UInt32} {task : H} {c : TaskContext}
      (found : s.contexts[context]? = some c) :
      Effect s (.contextSchedule context time group task)
        (s.scheduleAt (s.key c.task) time group task)
  | cancelled : Effect s .cancelAll s.cancelAll
  | removed {o : Op H} {holder : List ℕ} (kind : o.Removes)
      (sublist : holder.Sublist s.holder) : Effect s o { s with holder := holder }
  | modified {o : Op H} {newEnd : Task H → Option ℤ}
      (modification : o.modification s.now = some newEnd) :
      Effect s o (s.modifyIf (newEndFilter newEnd))
  | repeated {context : ℕ} {duration : Option ℤ} {c : TaskContext}
      (found : s.contexts[context]? = some c) (unconsumed : c.consumed = false) :
      Effect s (.repeatTask context duration)
        (s.repeatTask context c.task (duration.getD (s.tasks c.task).duration))
  | regrouped {o : Op H} {i : ℕ} {group : Option UInt32} (kind : o.Regroups) :
      Effect s o (s.setTaskGroup i group)

theorem cancelGroupsOf_eq (s : TaskScheduler H A) (groups : List UInt32) :
    ∃ holder, holder.Sublist s.holder ∧ s.cancelGroupsOf groups = { s with holder := holder } := by
  induction groups generalizing s with
  | nil => exact ⟨s.holder, .refl _, rfl⟩
  | cons group groups ih =>
      obtain ⟨holder, hsub, heq⟩ := ih (s.cancelGroup group)
      exact ⟨holder, hsub.trans List.filter_sublist, heq⟩

theorem delay_eq (selects : Task H → Bool) (duration : ℤ) :
    delay selects duration =
      newEndFilter fun t => if selects t then some (t.endTime + duration) else none := by
  funext t
  simp only [delay, newEndFilter]
  split <;> rfl

theorem reschedule_eq (selects : Task H → Bool) (endTime : ℤ) :
    reschedule selects endTime =
      newEndFilter fun t => if selects t then some endTime else none := by
  funext t
  simp only [reschedule, newEndFilter]
  split <;> rfl

theorem apply_cases {o : Op H} (ho : s.apply o = some s') : s.Effect o s' := by
  cases o with
  | schedule time group task => cases ho; exact .scheduled
  | cancelAll => cases ho; exact .cancelled
  | cancelGroup group => cases ho; exact .removed trivial List.filter_sublist
  | cancelGroupsOf groups =>
      cases ho
      obtain ⟨holder, hsub, heq⟩ := cancelGroupsOf_eq s groups
      rw [heq]
      exact .removed trivial hsub
  | delayAll duration =>
      cases ho
      rw [delayAll, delay_eq]
      exact .modified rfl
  | delayGroup group duration =>
      cases ho
      rw [delayGroup, delay_eq]
      exact .modified rfl
  | rescheduleAll duration =>
      cases ho
      rw [rescheduleAll, reschedule_eq]
      exact .modified rfl
  | rescheduleGroup group duration =>
      cases ho
      rw [rescheduleGroup, reschedule_eq]
      exact .modified rfl
  | contextSchedule context time group task =>
      obtain ⟨c, hc, rfl⟩ := Option.map_eq_some_iff.mp ho
      exact .contextScheduled hc
  | repeatTask context duration =>
      obtain ⟨c, hc, ho⟩ := Option.bind_eq_some_iff.mp ho
      split at ho
      · cases ho
      · rename_i hconsumed
        cases ho
        exact .repeated hc (Bool.eq_false_iff.mpr hconsumed)
  | setGroup context group =>
      obtain ⟨c, -, rfl⟩ := Option.map_eq_some_iff.mp ho
      exact .regrouped trivial
  | clearGroup context =>
      obtain ⟨c, -, rfl⟩ := Option.map_eq_some_iff.mp ho
      exact .regrouped trivial

end TaskScheduler

namespace TaskScheduler
variable {H A : Type} {s s' : TaskScheduler H A}

/-! ## `ModifyIf` -/

/-- What a filter makes of a task. -/
def modified (filter : Task H → Option (Task H)) (t : Task H) : Task H := (filter t).getD t

/-- On a container without repetitions the loop separates what the filter selects from what
it does not, and changes the former. -/
theorem modifyLoop_eq (filter : Task H → Option (Task H)) {container : List ℕ}
    (hnodup : container.Nodup) (tasks : ℕ → Task H) :
    modifyLoop filter container tasks =
      (container.filter fun i => (filter (tasks i)).isNone,
        container.filter fun i => (filter (tasks i)).isSome,
        fun i => if i ∈ container then modified filter (tasks i) else tasks i) := by
  induction container generalizing tasks with
  | nil => simp [modifyLoop]
  | cons i container ih =>
      obtain ⟨hi, hnodup⟩ := List.nodup_cons.mp hnodup
      cases hfilter : filter (tasks i) with
      | none =>
          simp only [modifyLoop, hfilter, ih hnodup, List.filter_cons, Option.isNone_none,
            Option.isSome_none, if_true, Bool.false_eq_true, if_false, Prod.mk.injEq, true_and]
          funext j
          by_cases hj : j = i
          · subst hj
            simp [hi, modified, hfilter]
          · simp [hj]
      | some t =>
          -- the tasks behind this one are still as they were
          have hrest : ∀ j ∈ container, Function.update tasks i t j = tasks j := by
            intro j hj
            refine Function.update_of_ne ?_ _ _
            rintro rfl
            exact hi hj
          simp only [modifyLoop, hfilter, ih hnodup, List.filter_cons, Option.isNone_some,
            Option.isSome_some, if_true, Bool.false_eq_true, if_false, Prod.mk.injEq,
            List.cons.injEq, true_and]
          refine ⟨?_, ?_, ?_⟩
          · exact List.filter_congr fun j hj => by rw [hrest j hj]
          · exact List.filter_congr fun j hj => by rw [hrest j hj]
          · funext j
            by_cases hj : j = i
            · subst hj
              simp [hi, modified, hfilter]
            · simp [hj]

theorem modifyIf_eq (filter : Task H → Option (Task H)) (hnodup : s.holder.Nodup) :
    s.modifyIf filter =
      { s with
        tasks := fun i => if i ∈ s.holder then modified filter (s.tasks i) else s.tasks i
        holder :=
          insertAllByKey
            (fun i => (if i ∈ s.holder then modified filter (s.tasks i) else s.tasks i).endTime)
            (s.holder.filter fun i => (filter (s.tasks i)).isSome)
            (s.holder.filter fun i => (filter (s.tasks i)).isNone) } := by
  rw [modifyIf, modifyLoop_eq filter hnodup]

theorem perm_modifyIf (filter : Task H → Option (Task H)) (hnodup : s.holder.Nodup) :
    (s.modifyIf filter).holder.Perm s.holder := by
  rw [modifyIf_eq filter hnodup]
  refine (perm_insertAllByKey _ _ _).trans ?_
  have hsplit := List.filter_append_perm (fun i => (filter (s.tasks i)).isSome) s.holder
  refine List.Perm.trans (List.Perm.of_eq ?_) hsplit
  congr 1
  exact List.filter_congr fun i _ => by simp

theorem ordered_modifyIf (filter : Task H → Option (Task H)) (hnodup : s.holder.Nodup)
    (h : Ordered s.key s.holder) :
    Ordered (s.modifyIf filter).key (s.modifyIf filter).holder := by
  rw [modifyIf_eq filter hnodup]
  refine ordered_insertAllByKey ?_ _
  refine (ordered_congr ?_).mp (h.sublist List.filter_sublist)
  -- what stays in the container has kept its key
  intro i hi
  obtain ⟨hmem, hnone⟩ := List.mem_filter.mp hi
  simp only [if_pos hmem, modified, Option.isNone_iff_eq_none.mp hnone, Option.getD_none, key]

/-! ## The invariant -/

/-- The queue is ordered and holds no task twice, all pointers are to tasks that exist, and
the task of a context that is not consumed belongs to that context alone. -/
structure Inv (s : TaskScheduler H A) : Prop where
  ordered : Ordered s.key s.holder
  nodup : s.holder.Nodup
  created : ∀ i ∈ s.holder, i < s.created
  contextTask : ∀ c ∈ s.contexts, c.task < s.created
  unconsumed : ∀ c ∈ s.contexts, c.consumed = false → c.task ∉ s.holder
  alone : ∀ (j k : ℕ) (c c' : TaskContext), s.contexts[j]? = some c → s.contexts[k]? = some c' →
    c.consumed = false → c'.consumed = false → c.task = c'.task → j = k

theorem inv_new (now : ℤ) (task : Task H) : (new now task : TaskScheduler H A).Inv := by
  constructor <;> simp [new, Ordered]

theorem inv_push (h : s.Inv) {i : ℕ} (hi : i < s.created) (hmem : i ∉ s.holder)
    (hcontexts : ∀ c ∈ s.contexts, c.consumed = false → c.task ≠ i) : (s.push i).Inv where
  ordered := ordered_insertByKey h.ordered i
  nodup := (perm_insertByKey s.key i s.holder).nodup_iff.mpr (List.nodup_cons.mpr ⟨hmem, h.nodup⟩)
  created := by
    intro j hj
    rcases mem_insertByKey.mp hj with rfl | hj
    · exact hi
    · exact h.created j hj
  contextTask := h.contextTask
  unconsumed := by
    intro c hc hconsumed hj
    rcases mem_insertByKey.mp hj with hj | hj
    · exact hcontexts c hc hconsumed hj
    · exact h.unconsumed c hc hconsumed hj
  alone := h.alone

/-- Tasks that are not in the queue may change. -/
theorem inv_update (h : s.Inv) {i : ℕ} (t : Task H)
    (hkey : i ∈ s.holder → t.endTime = s.key i) :
    { s with tasks := Function.update s.tasks i t }.Inv :=
  { h with
    ordered := by
      refine (ordered_congr ?_).mp h.ordered
      intro j hj
      by_cases hji : j = i
      · subst hji
        simp [key, hkey hj]
      · simp [key, Function.update_of_ne hji] }

theorem inv_scheduleAt (h : s.Inv) (point time : ℤ) (group : Option UInt32) (task : H) :
    (s.scheduleAt point time group task).Inv := by
  have hnew : s.created ∉ s.holder := fun hmem => absurd (h.created _ hmem) (Nat.lt_irrefl _)
  have hupdated := inv_update h ⟨point + time, time, group, 0, task⟩
    (fun hmem => absurd hmem hnew)
  rw [scheduleAt]
  refine inv_push ?_ (Nat.lt_succ_self _) hnew ?_
  · exact ⟨hupdated.ordered, h.nodup, fun i hi => Nat.lt_succ_of_lt (h.created i hi),
      fun c hc => Nat.lt_succ_of_lt (h.contextTask c hc), h.unconsumed, h.alone⟩
  · intro c hc _ heq
    exact absurd (h.contextTask c hc) (by rw [heq]; exact Nat.lt_irrefl _)

/-- Tasks may leave the queue. -/
theorem inv_sublist (h : s.Inv) {holder : List ℕ} (hsub : holder.Sublist s.holder)
    (asyncHolder : List A) : { s with holder := holder, asyncHolder := asyncHolder }.Inv where
  ordered := h.ordered.sublist hsub
  nodup := h.nodup.sublist hsub
  created := fun i hi => h.created i (hsub.subset hi)
  contextTask := h.contextTask
  unconsumed := fun c hc hconsumed hmem => h.unconsumed c hc hconsumed (hsub.subset hmem)
  alone := h.alone

theorem inv_modifyIf (h : s.Inv) (filter : Task H → Option (Task H)) : (s.modifyIf filter).Inv := by
  have hperm := perm_modifyIf filter h.nodup
  have hframe : (s.modifyIf filter).created = s.created ∧
      (s.modifyIf filter).contexts = s.contexts := ⟨rfl, rfl⟩
  constructor
  · exact ordered_modifyIf filter h.nodup h.ordered
  · exact hperm.nodup_iff.mpr h.nodup
  · intro i hi
    rw [hframe.1]
    exact h.created i (hperm.mem_iff.mp hi)
  · rw [hframe.1, hframe.2]
    exact h.contextTask
  · intro c hc hconsumed hmem
    rw [hframe.2] at hc
    exact h.unconsumed c hc hconsumed (hperm.mem_iff.mp hmem)
  · rw [hframe.2]
    exact h.alone

theorem inv_setTaskGroup (h : s.Inv) (i : ℕ) (group : Option UInt32) :
    (s.setTaskGroup i group).Inv :=
  inv_update h _ fun _ => rfl

/-- `Repeat` puts back the task of the context, which is not in the queue. -/
theorem inv_repeatTask (h : s.Inv) {context : ℕ} {c : TaskContext}
    (hc : s.contexts[context]? = some c) (hconsumed : c.consumed = false) (duration : ℤ) :
    (s.repeatTask context c.task duration).Inv := by
  have hmem := List.mem_of_getElem? hc
  have hnot := h.unconsumed c hmem hconsumed
  have hupdated := inv_update h
    { s.tasks c.task with
      endTime := (s.tasks c.task).endTime + duration
      duration := duration
      repeated := (s.tasks c.task).repeated + 1 }
    (fun hmem => absurd hmem hnot)
  -- the contexts that are not consumed now were not consumed before, and are others
  have hothers : ∀ (k : ℕ) (c' : TaskContext),
      (s.contexts.set context ⟨c.task, true⟩)[k]? = some c' → c'.consumed = false →
        s.contexts[k]? = some c' ∧ k ≠ context := by
    intro k c' hk hconsumed'
    by_cases hkc : k = context
    · subst hkc
      obtain ⟨hlt, -⟩ := List.getElem?_eq_some_iff.mp hc
      rw [List.getElem?_set_self hlt] at hk
      cases hk
      cases hconsumed'
    · rw [List.getElem?_set_ne (Ne.symm hkc)] at hk
      exact ⟨hk, hkc⟩
  refine inv_push (i := c.task) ?_ (h.contextTask c hmem) hnot ?_
  · refine { hupdated with contextTask := ?_, unconsumed := ?_, alone := ?_ }
    · intro c' hc'
      rcases List.mem_or_eq_of_mem_set hc' with hc' | rfl
      · exact h.contextTask c' hc'
      · exact h.contextTask c hmem
    · intro c' hc' hconsumed'
      obtain ⟨k, hk⟩ := List.mem_iff_getElem?.mp hc'
      exact h.unconsumed c' (List.mem_of_getElem? (hothers k c' hk hconsumed').1) hconsumed'
    · intro j k c₁ c₂ hj hk h₁ h₂ heq
      exact h.alone j k c₁ c₂ (hothers j c₁ hj h₁).1 (hothers k c₂ hk h₂).1 h₁ h₂ heq
  · intro c' hc' hconsumed' heq
    obtain ⟨k, hk⟩ := List.mem_iff_getElem?.mp hc'
    obtain ⟨hk', hne⟩ := hothers k c' hk hconsumed'
    exact hne (h.alone k context c' c hk' hc hconsumed' hconsumed heq)

/-- **Every operation keeps the invariant.** -/
theorem inv_apply (h : s.Inv) {o : Op H} (ho : s.apply o = some s') : s'.Inv := by
  cases apply_cases ho with
  | scheduled => exact inv_scheduleAt h _ _ _ _
  | contextScheduled _ => exact inv_scheduleAt h _ _ _ _
  | cancelled => exact inv_sublist h (List.nil_sublist _) []
  | removed _ hsub => exact inv_sublist h hsub s.asyncHolder
  | modified _ => exact inv_modifyIf h _
  | repeated hc hconsumed => exact inv_repeatTask h hc hconsumed _
  | regrouped _ => exact inv_setTaskGroup h _ _

/-- The task that is popped belongs to its new context alone. -/
theorem inv_popTask (h : s.Inv) {i : ℕ} {rest : List ℕ} (hholder : s.holder = i :: rest) :
    (s.popTask i rest).Inv := by
  have hi : i ∈ s.holder := by
    rw [hholder]
    exact List.mem_cons_self
  have hnodup := h.nodup
  rw [hholder, List.nodup_cons] at hnodup
  have hrest : rest.Sublist s.holder := by
    rw [hholder]
    exact List.sublist_cons_self i rest
  have hsub := inv_sublist h hrest s.asyncHolder
  refine { hsub with contextTask := ?_, unconsumed := ?_, alone := ?_ }
  · intro c hc
    rcases List.mem_append.mp hc with hc | hc
    · exact h.contextTask c hc
    · rw [List.mem_singleton.mp hc]
      exact h.created i hi
  · intro c hc hconsumed
    rcases List.mem_append.mp hc with hc | hc
    · exact hsub.unconsumed c hc hconsumed
    · rw [List.mem_singleton.mp hc]
      exact hnodup.1
  · -- an older context for this task would have kept it out of the queue
    have hold : ∀ (k : ℕ) (c : TaskContext),
        (s.contexts ++ [⟨i, false⟩])[k]? = some c → c.consumed = false →
          s.contexts[k]? = some c ∧ c.task ≠ i ∨ k = s.contexts.length ∧ c.task = i := by
      intro k c hk hconsumed
      rcases Nat.lt_or_ge k s.contexts.length with hlt | hge
      · rw [List.getElem?_append_left hlt] at hk
        refine .inl ⟨hk, ?_⟩
        rintro rfl
        exact h.unconsumed c (List.mem_of_getElem? hk) hconsumed hi
      · rw [List.getElem?_append_right hge, List.getElem?_singleton] at hk
        split at hk
        · rename_i hzero
          cases hk
          exact .inr ⟨by omega, rfl⟩
        · cases hk
    intro j k c c' hj hk hc hc' heq
    rcases hold j c hj hc with ⟨hj, hne⟩ | ⟨rfl, hi⟩ <;>
      rcases hold k c' hk hc' with ⟨hk, hne'⟩ | ⟨rfl, hi'⟩
    · exact h.alone j k c c' hj hk hc hc' heq
    · exact absurd (heq.trans hi') hne
    · exact absurd (heq.symm.trans hi) hne'
    · rfl

end TaskScheduler

/-! ## The machine -/

/-- What is going on, from a loop of `Dispatch` to the call that it makes. -/
inductive Frame
  /-- In front of the loop that processes all asyncs. -/
  | asyncLoop
  /-- In front of the loop over the tasks. -/
  | taskLoop
  /-- In a callable that the loop below it has called. -/
  | callable
  /-- In a handler that the loop below it has invoked. -/
  | handler
  /-- In the callback at the end of `Dispatch`. -/
  | callback
  deriving DecidableEq, Repr

/-- A scheduler that is being used.  A callable is known by its ticket, the number of those
enqueued before it. -/
structure Dispatcher (H : Type) where
  scheduler : TaskScheduler H ℕ
  stack : List Frame := []
  /-- How often `Async` was called. -/
  issued : ℕ := 0
  /-- The tickets of the callables invoked, in the order of the invocations. -/
  started : List ℕ := []
  /-- The tickets that `CancelAll` found enqueued and not started. -/
  cancelled : List ℕ := []
  /-- `pop` was called on an empty queue. -/
  underflow : Bool := false

namespace Dispatcher
variable {H : Type}

inductive Label (H : Type)
  /-- An operation of the scheduler or of a context. -/
  | call (op : Op H)
  | async
  /-- `Update`, which sets `_now` and calls `Dispatch`; `valid` is the answer of the
  validator. -/
  | update (now : ℤ) (valid : Bool)
  /-- `Dispatch` goes on, in front of one of its loops. -/
  | dispatch
  /-- A callable, a handler or the callback returns, and the validator is asked. -/
  | ret (valid : Bool)

/-- It is not the turn of `Dispatch`. -/
def UserRuns : List Frame → Prop
  | .asyncLoop :: _ => False
  | .taskLoop :: _ => False
  | _ => True

instance : (stack : List Frame) → Decidable (UserRuns stack)
  | [] => .isTrue trivial
  | .asyncLoop :: _ => .isFalse id
  | .taskLoop :: _ => .isFalse id
  | .callable :: _ => .isTrue trivial
  | .handler :: _ => .isTrue trivial
  | .callback :: _ => .isTrue trivial

/-- What `CancelAll` cancels. -/
def unstarted (d : Dispatcher H) : List ℕ :=
  (List.range d.issued).filter fun t => t ∉ d.started ∧ t ∉ d.cancelled

/-- The history of an operation. -/
def record (d : Dispatcher H) : Op H → List ℕ
  | .cancelAll => d.cancelled ++ d.unstarted
  | _ => d.cancelled

/-- `Dispatch` in front of one of its loops. -/
def dispatch (d : Dispatcher H) : Option (Dispatcher H) :=
  match d.stack with
  | .asyncLoop :: stack =>
      match d.scheduler.asyncHolder with
      | [] => some { d with stack := .taskLoop :: stack }
      | ticket :: _ =>
          some { d with
            stack := .callable :: .asyncLoop :: stack, started := d.started ++ [ticket] }
  | .taskLoop :: stack =>
      match d.scheduler.due with
      | none => some { d with stack := .callback :: stack }
      | some (i, rest) =>
          some { d with
            scheduler := d.scheduler.popTask i rest, stack := .handler :: .taskLoop :: stack }
  | _ => none

/-- What `Dispatch` has called returns. -/
def ret (d : Dispatcher H) (valid : Bool) : Option (Dispatcher H) :=
  match d.stack with
  | .callable :: .asyncLoop :: stack =>
      some { d with
        scheduler := { d.scheduler with asyncHolder := d.scheduler.asyncHolder.tail }
        stack := if valid then .asyncLoop :: stack else stack
        underflow := d.underflow || d.scheduler.asyncHolder.isEmpty }
  | .handler :: .taskLoop :: stack =>
      some { d with stack := if valid then .taskLoop :: stack else stack }
  | .callback :: stack => some { d with stack := stack }
  | _ => none

/-- The machine. -/
def next (d : Dispatcher H) : Label H → Option (Dispatcher H)
  | .call op =>
      if UserRuns d.stack then
        (d.scheduler.apply op).map fun s => { d with scheduler := s, cancelled := d.record op }
      else none
  | .async =>
      if UserRuns d.stack then
        some { d with scheduler := d.scheduler.async d.issued, issued := d.issued + 1 }
      else none
  | .update now valid =>
      if UserRuns d.stack then
        some { d with
          scheduler := { d.scheduler with now := now }
          stack := if valid then .asyncLoop :: d.stack else d.stack }
      else none
  | .dispatch => d.dispatch
  | .ret valid => d.ret valid

/-- A scheduler that was just constructed. -/
def new (now : ℤ) (task : Task H) : Dispatcher H := { scheduler := .new now task }

/-! ## The steps one by one -/

/-- The steps, with what each of them needs. -/
inductive Step (d : Dispatcher H) : Label H → Dispatcher H → Prop
  | called {op : Op H} {s : TaskScheduler H ℕ} (user : UserRuns d.stack)
      (applied : d.scheduler.apply op = some s) :
      Step d (.call op) { d with scheduler := s, cancelled := d.record op }
  | enqueued (user : UserRuns d.stack) :
      Step d .async { d with scheduler := d.scheduler.async d.issued, issued := d.issued + 1 }
  | updated {now : ℤ} (user : UserRuns d.stack) :
      Step d (.update now true)
        { d with scheduler := { d.scheduler with now := now }, stack := .asyncLoop :: d.stack }
  | refused {now : ℤ} (user : UserRuns d.stack) :
      Step d (.update now false) { d with scheduler := { d.scheduler with now := now } }
  | asyncsDone {stack : List Frame} (stack_eq : d.stack = .asyncLoop :: stack)
      (empty : d.scheduler.asyncHolder = []) :
      Step d .dispatch { d with stack := .taskLoop :: stack }
  | started {stack : List Frame} {ticket : ℕ} {rest : List ℕ}
      (stack_eq : d.stack = .asyncLoop :: stack)
      (front : d.scheduler.asyncHolder = ticket :: rest) :
      Step d .dispatch
        { d with
          stack := .callable :: .asyncLoop :: stack, started := d.started ++ [ticket] }
  | tasksDone {stack : List Frame} (stack_eq : d.stack = .taskLoop :: stack)
      (due : d.scheduler.due = none) : Step d .dispatch { d with stack := .callback :: stack }
  | invoked {stack : List Frame} {i : ℕ} {rest : List ℕ}
      (stack_eq : d.stack = .taskLoop :: stack) (due : d.scheduler.due = some (i, rest)) :
      Step d .dispatch
        { d with
          scheduler := d.scheduler.popTask i rest, stack := .handler :: .taskLoop :: stack }
  | popped {stack : List Frame} {valid : Bool}
      (stack_eq : d.stack = .callable :: .asyncLoop :: stack) :
      Step d (.ret valid)
        { d with
          scheduler := { d.scheduler with asyncHolder := d.scheduler.asyncHolder.tail }
          stack := if valid then .asyncLoop :: stack else stack
          underflow := d.underflow || d.scheduler.asyncHolder.isEmpty }
  | handled {stack : List Frame} {valid : Bool}
      (stack_eq : d.stack = .handler :: .taskLoop :: stack) :
      Step d (.ret valid) { d with stack := if valid then .taskLoop :: stack else stack }
  | finished {stack : List Frame} {valid : Bool} (stack_eq : d.stack = .callback :: stack) :
      Step d (.ret valid) { d with stack := stack }

variable {d d' : Dispatcher H} {l : Label H}

theorem dispatch_cases (h : d.dispatch = some d') : Step d .dispatch d' := by
  unfold dispatch at h
  split at h
  · rename_i stack hstack
    split at h
    · rename_i hempty
      cases h
      exact .asyncsDone hstack hempty
    · rename_i ticket rest hfront
      cases h
      exact .started hstack hfront
  · rename_i stack hstack
    split at h
    · rename_i hdue
      cases h
      exact .tasksDone hstack hdue
    · rename_i i rest hdue
      cases h
      exact .invoked hstack hdue
  · cases h

theorem ret_cases {valid : Bool} (h : d.ret valid = some d') : Step d (.ret valid) d' := by
  unfold ret at h
  split at h
  · rename_i stack hstack
    cases h
    exact .popped hstack
  · rename_i stack hstack
    cases h
    exact .handled hstack
  · rename_i stack hstack
    cases h
    exact .finished hstack
  · cases h

theorem next_cases (h : d.next l = some d') : Step d l d' := by
  cases l with
  | call op =>
      simp only [next, Option.ite_none_right_eq_some, Option.map_eq_some_iff] at h
      obtain ⟨huser, s, hs, rfl⟩ := h
      exact .called huser hs
  | async =>
      simp only [next, Option.ite_none_right_eq_some, Option.some.injEq] at h
      obtain ⟨huser, rfl⟩ := h
      exact .enqueued huser
  | update now valid =>
      simp only [next, Option.ite_none_right_eq_some, Option.some.injEq] at h
      obtain ⟨huser, rfl⟩ := h
      cases valid with
      | true => exact .updated huser
      | false => exact .refused huser
  | dispatch => exact dispatch_cases h
  | ret valid => exact ret_cases h

/-! ## All runs -/

theorem due_eq_some {A : Type} {s : TaskScheduler H A} {i : ℕ} {rest : List ℕ}
    (h : s.due = some (i, rest)) : s.holder = i :: rest ∧ s.key i ≤ s.now := by
  unfold TaskScheduler.due at h
  split at h
  · cases h
  · rename_i hholder
    split at h
    · cases h
    · rename_i hdue
      cases h
      exact ⟨hholder, not_lt.mp hdue⟩

theorem inv_step (h : d.scheduler.Inv) (hst : Step d l d') : d'.scheduler.Inv := by
  cases hst with
  | called _ hs => exact TaskScheduler.inv_apply h hs
  | enqueued _ => exact TaskScheduler.inv_sublist h (List.Sublist.refl _) _
  | updated _ => exact { h with }
  | refused _ => exact { h with }
  | asyncsDone _ _ => exact h
  | started _ _ => exact h
  | tasksDone _ _ => exact h
  | invoked _ hdue => exact TaskScheduler.inv_popTask h (due_eq_some hdue).1
  | popped _ => exact { h with }
  | handled _ => exact h
  | finished _ => exact h

end Dispatcher

namespace TaskScheduler
variable {H A : Type} {s s' : TaskScheduler H A}

/-- Only `Repeat` changes contexts: it consumes its own. -/
theorem contexts_apply {o : Op H} (ho : s.apply o = some s') :
    s'.contexts = s.contexts ∨
      ∃ context duration c, o = .repeatTask context duration ∧ s.contexts[context]? = some c ∧
        s'.contexts = s.contexts.set context ⟨c.task, true⟩ := by
  cases apply_cases ho with
  | repeated hc _ => exact .inr ⟨_, _, _, rfl, hc, rfl⟩
  | _ => exact .inl rfl

/-- The context is consumed. -/
def Consumed (s : TaskScheduler H A) (context : ℕ) : Prop :=
  ∃ i, s.contexts[context]? = some ⟨i, true⟩

theorem consumed_apply {o : Op H} {context : ℕ} (h : s.Consumed context)
    (ho : s.apply o = some s') : s'.Consumed context := by
  obtain ⟨i, hi⟩ := h
  rcases contexts_apply ho with heq | ⟨context', duration, c, -, hc, heq⟩
  · exact ⟨i, by rw [heq]; exact hi⟩
  · by_cases hcontext : context = context'
    · subst hcontext
      obtain ⟨hlt, -⟩ := List.getElem?_eq_some_iff.mp hc
      exact ⟨c.task, by rw [heq, List.getElem?_set_self hlt]⟩
    · exact ⟨i, by rw [heq, List.getElem?_set_ne (Ne.symm hcontext)]; exact hi⟩

theorem consumed_of_repeatTask {context : ℕ} {duration : Option ℤ}
    (ho : s.apply (.repeatTask context duration) = some s') : s'.Consumed context := by
  cases apply_cases ho with
  | repeated hc _ =>
      obtain ⟨hlt, -⟩ := List.getElem?_eq_some_iff.mp hc
      exact ⟨_, List.getElem?_set_self hlt⟩
  | removed kind _ => cases kind
  | modified hmodification => cases hmodification
  | regrouped kind => cases kind

/-- `AssertOnConsumed` -/
theorem apply_repeatTask_of_consumed {context : ℕ} (h : s.Consumed context)
    (duration : Option ℤ) : s.apply (.repeatTask context duration) = none := by
  obtain ⟨i, hi⟩ := h
  simp [apply, hi]

end TaskScheduler

namespace TaskScheduler
variable {H A : Type} {s s' : TaskScheduler H A}

/-- The queue has the tasks it had, and those that are selected have their new ends. -/
structure Modified (s : TaskScheduler H A) (newEnd : Task H → Option ℤ)
    (s' : TaskScheduler H A) : Prop where
  holder : s'.holder.Perm s.holder
  selected : ∀ i ∈ s.holder, ∀ e, newEnd (s.tasks i) = some e →
    s'.tasks i = { s.tasks i with endTime := e }
  others : ∀ i, i ∉ s.holder ∨ newEnd (s.tasks i) = none → s'.tasks i = s.tasks i
  rest : s'.now = s.now ∧ s'.created = s.created ∧ s'.asyncHolder = s.asyncHolder ∧
    s'.contexts = s.contexts

theorem modified_modifyIf (hnodup : s.holder.Nodup) (newEnd : Task H → Option ℤ) :
    Modified s newEnd (s.modifyIf (newEndFilter newEnd)) := by
  rw [modifyIf_eq _ hnodup]
  refine ⟨?_, ?_, ?_, ⟨rfl, rfl, rfl, rfl⟩⟩
  · rw [← modifyIf_eq _ hnodup]
    exact perm_modifyIf _ hnodup
  · intro i hi e he
    simp [hi, modified, newEndFilter, he]
  · intro i hi
    rcases hi with hi | he
    · simp [hi]
    · simp [modified, newEndFilter, he]

theorem modified_apply (hnodup : s.holder.Nodup) {o : Op H} {newEnd : Task H → Option ℤ}
    (hnewEnd : o.modification s.now = some newEnd) (ho : s.apply o = some s') :
    Modified s newEnd s' := by
  cases apply_cases ho with
  | modified hmodification =>
      cases hnewEnd.symm.trans hmodification
      exact modified_modifyIf hnodup newEnd
  | removed kind _ => cases o <;> first | exact False.elim kind | cases hnewEnd
  | regrouped kind => cases o <;> first | exact False.elim kind | cases hnewEnd
  | _ => cases hnewEnd

end TaskScheduler

namespace Dispatcher
variable {H : Type} {d d' : Dispatcher H} {ls : List (Label H)}

theorem consumed_step {l : Label H} {context : ℕ} (h : d.scheduler.Consumed context)
    (hst : Step d l d') : d'.scheduler.Consumed context := by
  cases hst with
  | called _ hs => exact TaskScheduler.consumed_apply h hs
  | invoked _ _ =>
      obtain ⟨i, hi⟩ := h
      obtain ⟨hlt, -⟩ := List.getElem?_eq_some_iff.mp hi
      exact ⟨i, by rw [TaskScheduler.popTask, List.getElem?_append_left hlt]; exact hi⟩
  | _ => exact h

/-- A context through which a task was repeated stays consumed. -/
theorem consumed_run {context : ℕ} {duration : Option ℤ}
    (hmem : Label.call (.repeatTask context duration) ∈ ls)
    (hrun : Machine.run next d ls = some d') : d'.scheduler.Consumed context := by
  induction ls generalizing d with
  | nil => cases hmem
  | cons l ls ih =>
      rw [Machine.run_cons, Option.bind_eq_some_iff] at hrun
      obtain ⟨u, hu, hrun⟩ := hrun
      rcases List.mem_cons.mp hmem with rfl | hmem
      · cases next_cases hu with
        | called _ hs =>
            exact Machine.run_induction (P := fun u => u.scheduler.Consumed context)
              (fun _ _ _ h hn => consumed_step h (next_cases hn))
              (TaskScheduler.consumed_of_repeatTask hs) hrun
      · exact ih hmem hrun

/-- **The representation invariant**: in every state of every run the queue is ordered by
`_end`, holds no task twice and no task of a context that is not consumed; a second
`Repeat` through a context fails; and the operations that modify tasks change the ends of
those their filters select, and nothing else. -/
theorem representation_invariant {now : ℤ} {task : Task H}
    (hrun : Machine.run next (new now task) ls = some d) :
    Ordered d.scheduler.key d.scheduler.holder ∧ d.scheduler.holder.Nodup ∧
      (∀ c ∈ d.scheduler.contexts, c.consumed = false → c.task ∉ d.scheduler.holder) ∧
      (∀ context duration duration', Label.call (.repeatTask context duration) ∈ ls →
        d.next (.call (.repeatTask context duration')) = none) ∧
      ∀ o newEnd d', o.modification d.scheduler.now = some newEnd →
        d.next (.call o) = some d' → d.scheduler.Modified newEnd d'.scheduler := by
  have hinv : d.scheduler.Inv := Machine.run_induction (P := fun u => u.scheduler.Inv)
    (fun _ _ _ h hn => inv_step h (next_cases hn)) (TaskScheduler.inv_new now task) hrun
  refine ⟨hinv.ordered, hinv.nodup, hinv.unconsumed, ?_, ?_⟩
  · intro context duration duration' hmem
    have hconsumed := consumed_run hmem hrun
    simp [next, TaskScheduler.apply_repeatTask_of_consumed hconsumed]
  · intro o newEnd d' hnewEnd hnext
    cases next_cases hnext with
    | called _ hs => exact TaskScheduler.modified_apply hinv.nodup hnewEnd hs

/-- A task repeats itself from inside its handler; then all tasks are delayed. -/
def repeatingRun : List (Label Unit) :=
  [.call (.schedule 5 none ()), .call (.schedule 3 (some 1) ()), .update 4 true, .dispatch,
    .dispatch, .call (.repeatTask 0 (some 2)), .ret true, .dispatch, .ret true,
    .call (.delayGroup 1 7)]

theorem representation_invariant_repeatingRun :
    ∃ d, Machine.run next (new 0 ⟨0, 0, none, 0, ()⟩) repeatingRun = some d ∧
      d.scheduler.holder = [0, 1] ∧ d.scheduler.holder.map d.scheduler.key = [5, 12] ∧
      Ordered d.scheduler.key d.scheduler.holder ∧
      d.next (.call (.repeatTask 0 none)) = none := by
  have hrun : Machine.run next (new 0 ⟨0, 0, none, 0, ()⟩) repeatingRun = some _ := rfl
  obtain ⟨hordered, -, -, hrepeat, -⟩ := representation_invariant hrun
  refine ⟨_, hrun, by decide, by decide, hordered, hrepeat 0 (some 2) none ?_⟩
  simp [repeatingRun]

end Dispatcher
end WarheadDiscord
