import Mathlib.Data.List.Sort
import Mathlib.Tactic.Common
import WarheadDiscord.Scheduler.Invariant

/-!
# Asyncs

`Async` enqueues a callable that `Dispatch` invokes at the next update tick, before it looks
at the tasks.  The header says that it is safe to modify the scheduler from within the
callable.

The loop invokes the callable at the front of the queue and pops it afterwards.  That is
the same callable as long as nobody else takes it away: a callable that calls `CancelAll`
makes the loop pop an empty queue, or a callable that was enqueued later, and a callable
that calls `Update` is at the front of the queue still, and is invoked again.  If no
callable does one of the two, then each is invoked exactly once, in the order in which
they were enqueued (`runsOnce_of_undisturbed`).

## Main definitions

* `Dispatcher.RunsOnce` — what is promised of the asyncs.
* `Dispatcher.Undisturbed` — the running callable stays where it is.
-/

namespace WarheadDiscord

namespace TaskScheduler
variable {H A : Type} {s s' : TaskScheduler H A}

/-- Only `CancelAll` takes asyncs away. -/
theorem asyncHolder_apply {o : Op H} (hcancel : o ≠ .cancelAll) (ho : s.apply o = some s') :
    s'.asyncHolder = s.asyncHolder := by
  cases apply_cases ho with
  | cancelled => exact absurd rfl hcancel
  | _ => rfl

end TaskScheduler

namespace Dispatcher
variable {H : Type} {d d' : Dispatcher H} {l : Label H} {ls : List (Label H)}

/-- The queue of the asyncs, behind the one that is running. -/
def waiting (d : Dispatcher H) : List ℕ :=
  match d.stack with
  | .callable :: _ => d.scheduler.asyncHolder.tail
  | _ => d.scheduler.asyncHolder

/-- The callables are invoked one by one in the order of their tickets, and none of them
after it was cancelled; those that are neither invoked nor cancelled are waiting, and the
loop takes them one by one until there is none.  No invocation overtakes a ticket, so there
are at most `t` of them before the callable with the ticket `t` is invoked. -/
structure RunsOnce (d : Dispatcher H) : Prop where
  fifo : d.started.Pairwise (· < ·)
  enqueued : ∀ t ∈ d.started, t < d.issued
  notCancelled : ∀ t ∈ d.started, t ∉ d.cancelled
  notOvertaken : ∀ u ∈ d.started, ∀ t ∈ d.unstarted, u < t
  kept : d.waiting = d.unstarted
  processed : ∀ stack d', d.stack = .asyncLoop :: stack → d.next .dispatch = some d' →
    d.unstarted = [] ∧ d'.stack = .taskLoop :: stack ∨
      ∃ t rest, d.unstarted = t :: rest ∧ d'.started = d.started ++ [t] ∧
        d'.stack = .callable :: d.stack
  noUnderflow : d.underflow = false

/-- The validator is always true. -/
def Label.Valid : Label H → Prop
  | .update _ valid => valid = true
  | .ret valid => valid = true
  | _ => True

/-- While a callable is running, nobody calls `CancelAll` or `Update`. -/
def Undisturbed (d : Dispatcher H) : Label H → Prop
  | .call .cancelAll => .callable ∉ d.stack
  | .update _ _ => .callable ∉ d.stack
  | _ => True

/-! ## Tickets -/

theorem mem_unstarted {t : ℕ} :
    t ∈ d.unstarted ↔ t < d.issued ∧ t ∉ d.started ∧ t ∉ d.cancelled := by
  simp [unstarted]

theorem pairwise_unstarted (d : Dispatcher H) : d.unstarted.Pairwise (· < ·) :=
  List.pairwise_lt_range.filter _

/-- When the first of those that are not started is started, the others are left. -/
theorem unstarted_concat {ticket : ℕ} {rest : List ℕ} (h : d.unstarted = ticket :: rest)
    (stack : List Frame) :
    { d with stack := stack, started := d.started ++ [ticket] }.unstarted = rest := by
  have hsorted := pairwise_unstarted d
  rw [h, List.pairwise_cons] at hsorted
  have hfilter : { d with stack := stack, started := d.started ++ [ticket] }.unstarted =
      d.unstarted.filter fun t => t ≠ ticket := by
    rw [unstarted, unstarted, List.filter_filter]
    refine List.filter_congr fun t _ => ?_
    simp only [List.mem_append, List.mem_singleton, not_or, Bool.decide_and, Bool.and_assoc]
    grind
  rw [hfilter, h]
  simp only [ne_eq, decide_not, List.filter_cons, decide_true, Bool.not_true,
    Bool.false_eq_true, if_false]
  refine List.filter_eq_self.mpr fun t ht => ?_
  simpa using (hsorted.1 t ht).ne'

theorem waiting_eq (h : .callable ∉ d.stack) : d.waiting = d.scheduler.asyncHolder := by
  unfold waiting
  split
  · rename_i stack heq
    rw [heq] at h
    exact absurd List.mem_cons_self h
  · rfl

/-! ## The invariant -/

/-- The loop is at most once in the middle of a callable, and that one is at the front of
the queue. -/
def FrontRuns (d : Dispatcher H) : Prop :=
  .callable ∉ d.stack ∨
    ∃ stack, d.stack = .callable :: .asyncLoop :: stack ∧ .callable ∉ stack ∧
      d.scheduler.asyncHolder ≠ []

structure AsyncInv (d : Dispatcher H) : Prop where
  fifo : d.started.Pairwise (· < ·)
  enqueued : ∀ t ∈ d.started, t < d.issued
  cancelled : ∀ t ∈ d.cancelled, t < d.issued
  notCancelled : ∀ t ∈ d.started, t ∉ d.cancelled
  notOvertaken : ∀ u ∈ d.started, ∀ t ∈ d.unstarted, u < t
  kept : d.waiting = d.unstarted
  front : d.FrontRuns
  noUnderflow : d.underflow = false

theorem asyncInv_new (now : ℤ) (task : Task H) : (new now task).AsyncInv := by
  constructor <;> simp [new, waiting, unstarted, FrontRuns, TaskScheduler.new]

theorem FrontRuns.not_mem (h : d.FrontRuns) {frame : Frame} {stack : List Frame}
    (hstack : d.stack = frame :: stack) (hframe : frame ≠ .callable) : .callable ∉ stack := by
  rcases h with h | ⟨stack', h, -, -⟩
  · rw [hstack] at h
    exact fun hmem => h (List.mem_cons_of_mem _ hmem)
  · rw [hstack, List.cons.injEq] at h
    exact absurd h.1 hframe

theorem FrontRuns.not_running (h : d.FrontRuns) {frame : Frame} {stack : List Frame}
    (hstack : d.stack = frame :: stack) (hframe : frame ≠ .callable) : .callable ∉ d.stack := by
  rw [hstack, List.mem_cons, not_or]
  exact ⟨hframe.symm, h.not_mem hstack hframe⟩

/-- What matters besides the stack, while no callable is running. -/
theorem asyncInv_of_stack (h : d.AsyncInv) (hd : .callable ∉ d.stack) {s : TaskScheduler H ℕ}
    {stack : List Frame} (hs : s.asyncHolder = d.scheduler.asyncHolder)
    (hstack : .callable ∉ stack) : { d with scheduler := s, stack := stack }.AsyncInv where
  fifo := h.fifo
  enqueued := h.enqueued
  cancelled := h.cancelled
  notCancelled := h.notCancelled
  notOvertaken := h.notOvertaken
  kept := by
    rw [waiting_eq hstack, hs, ← waiting_eq hd]
    exact h.kept
  front := .inl hstack
  noUnderflow := h.noUnderflow

/-- A loop goes on, or something else than a callable returns to it. -/
theorem asyncInv_of_frames (h : d.AsyncInv) {frame : Frame} {stack : List Frame}
    (hstack : d.stack = frame :: stack) (hframe : frame ≠ .callable) {f : List Frame}
    (hf : .callable ∉ f) {s : TaskScheduler H ℕ}
    (hs : s.asyncHolder = d.scheduler.asyncHolder) :
    { d with scheduler := s, stack := f ++ stack }.AsyncInv := by
  refine asyncInv_of_stack h (h.front.not_running hstack hframe) hs ?_
  rw [List.mem_append, not_or]
  exact ⟨hf, h.front.not_mem hstack hframe⟩

theorem asyncInv_called (h : d.AsyncInv) {op : Op H} {s : TaskScheduler H ℕ}
    (hs : d.scheduler.apply op = some s) (hop : Undisturbed d (.call op)) :
    { d with scheduler := s, cancelled := d.record op }.AsyncInv := by
  by_cases hcancel : op = .cancelAll
  · subst hcancel
    cases hs
    have hnone : { d with scheduler := d.scheduler.cancelAll,
                          cancelled := d.record .cancelAll }.unstarted = [] := by
      rw [List.eq_nil_iff_forall_not_mem]
      intro t ht
      obtain ⟨hissued, hstarted, hcancelled⟩ := mem_unstarted.mp ht
      -- whatever is not yet cancelled is cancelled now
      refine hcancelled (List.mem_append.mpr ?_)
      by_cases ht : t ∈ d.cancelled
      · exact .inl ht
      · exact .inr (mem_unstarted.mpr ⟨hissued, hstarted, ht⟩)
    constructor
    · exact h.fifo
    · exact h.enqueued
    · intro t ht
      rcases List.mem_append.mp ht with ht | ht
      · exact h.cancelled t ht
      · exact (mem_unstarted.mp ht).1
    · intro t ht hmem
      rcases List.mem_append.mp hmem with hmem | hmem
      · exact h.notCancelled t ht hmem
      · exact (mem_unstarted.mp hmem).2.1 ht
    · rw [hnone]
      simp
    · rw [hnone]
      exact waiting_eq hop
    · exact .inl hop
    · exact h.noUnderflow
  · have hsame := TaskScheduler.asyncHolder_apply hcancel hs
    have hrecord : d.record op = d.cancelled := by
      cases op <;> first | rfl | exact absurd rfl hcancel
    rw [hrecord]
    refine { h with kept := ?_, front := ?_ }
    · have hwaiting : { d with scheduler := s }.waiting = d.waiting := by
        simp only [waiting, hsame]
      exact hwaiting.trans h.kept
    · simpa only [FrontRuns, hsame] using h.front

theorem asyncInv_enqueued (h : d.AsyncInv) :
    { d with scheduler := d.scheduler.async d.issued, issued := d.issued + 1 }.AsyncInv := by
  have hnew : d.issued ∉ d.started ∧ d.issued ∉ d.cancelled :=
    ⟨fun hmem => lt_irrefl _ (h.enqueued _ hmem), fun hmem => lt_irrefl _ (h.cancelled _ hmem)⟩
  have hunstarted : { d with scheduler := d.scheduler.async d.issued,
                             issued := d.issued + 1 }.unstarted = d.unstarted ++ [d.issued] := by
    simp [unstarted, List.range_succ, List.filter_append, hnew]
  constructor
  · exact h.fifo
  · exact fun t ht => Nat.lt_succ_of_lt (h.enqueued t ht)
  · exact fun t ht => Nat.lt_succ_of_lt (h.cancelled t ht)
  · exact h.notCancelled
  · intro u hu t ht
    rw [hunstarted, List.mem_append, List.mem_singleton] at ht
    rcases ht with ht | rfl
    · exact h.notOvertaken u hu t ht
    · exact h.enqueued u hu
  · rw [hunstarted, ← h.kept]
    rcases h.front with hd | ⟨stack, hstack, -, hne⟩
    · rw [waiting_eq hd, waiting_eq (by exact hd)]
      rfl
    · simp only [waiting, hstack, TaskScheduler.async]
      exact List.tail_append_of_ne_nil hne
  · rcases h.front with hd | ⟨stack, hstack, hd, -⟩
    · exact .inl hd
    · exact .inr ⟨stack, hstack, hd, by simp [TaskScheduler.async]⟩
  · exact h.noUnderflow

/-- The loop invokes the first one of those that wait. -/
theorem asyncInv_started (h : d.AsyncInv) {stack : List Frame} {ticket : ℕ} {rest : List ℕ}
    (hstack : d.stack = .asyncLoop :: stack)
    (hfront : d.scheduler.asyncHolder = ticket :: rest) :
    { d with
      stack := .callable :: .asyncLoop :: stack
      started := d.started ++ [ticket] }.AsyncInv := by
  have hd := h.front.not_running hstack (by decide)
  have hunstarted : d.unstarted = ticket :: rest := by
    rw [← h.kept, waiting_eq hd, hfront]
  have hsorted := pairwise_unstarted d
  rw [hunstarted, List.pairwise_cons] at hsorted
  have hticket : ticket ∈ d.unstarted := by
    rw [hunstarted]
    exact List.mem_cons_self
  obtain ⟨hissued, hstarted, hcancelled⟩ := mem_unstarted.mp hticket
  constructor
  · refine List.pairwise_append.mpr ⟨h.fifo, List.pairwise_singleton _ _, ?_⟩
    intro u hu t ht
    rw [List.mem_singleton.mp ht]
    exact h.notOvertaken u hu ticket hticket
  · intro t ht
    rcases List.mem_append.mp ht with ht | ht
    · exact h.enqueued t ht
    · rw [List.mem_singleton.mp ht]
      exact hissued
  · exact h.cancelled
  · intro t ht
    rcases List.mem_append.mp ht with ht | ht
    · exact h.notCancelled t ht
    · rw [List.mem_singleton.mp ht]
      exact hcancelled
  · intro u hu t ht
    rw [unstarted_concat hunstarted] at ht
    rcases List.mem_append.mp hu with hu | hu
    · refine h.notOvertaken u hu t ?_
      rw [hunstarted]
      exact List.mem_cons_of_mem _ ht
    · rw [List.mem_singleton.mp hu]
      exact hsorted.1 t ht
  · rw [unstarted_concat hunstarted]
    simp only [waiting, hfront, List.tail_cons]
  · refine .inr ⟨stack, rfl, h.front.not_mem hstack (by decide), ?_⟩
    simp [hfront]
  · exact h.noUnderflow

/-- The loop pops the callable that it has invoked. -/
theorem asyncInv_popped (h : d.AsyncInv) {stack : List Frame}
    (hstack : d.stack = .callable :: .asyncLoop :: stack) :
    { d with
      scheduler := { d.scheduler with asyncHolder := d.scheduler.asyncHolder.tail }
      stack := .asyncLoop :: stack
      underflow := d.underflow || d.scheduler.asyncHolder.isEmpty }.AsyncInv := by
  obtain ⟨hnot, hne⟩ : .callable ∉ stack ∧ d.scheduler.asyncHolder ≠ [] := by
    rcases h.front with hd | ⟨stack', hstack', hnot, hne⟩
    · rw [hstack] at hd
      exact absurd List.mem_cons_self hd
    · rw [hstack] at hstack'
      cases hstack'
      exact ⟨hnot, hne⟩
  refine { h with kept := ?_, front := .inl ?_, noUnderflow := ?_ }
  · have hkept := h.kept
    simp only [waiting, hstack] at hkept
    exact hkept
  · simpa using hnot
  · simp [h.noUnderflow, hne]

theorem asyncInv_step (h : d.AsyncInv) (hvalid : l.Valid) (hl : Undisturbed d l)
    (hst : Step d l d') : d'.AsyncInv := by
  cases hst with
  | called _ hs => exact asyncInv_called h hs hl
  | enqueued _ => exact asyncInv_enqueued h
  | updated _ =>
      have hnot : .callable ∉ d.stack := hl
      exact asyncInv_of_stack h hnot rfl (by simpa using hnot)
  | refused _ => cases hvalid
  | asyncsDone hstack _ =>
      exact asyncInv_of_frames h hstack (by decide) (f := [.taskLoop]) (by decide) rfl
  | started hstack hfront => exact asyncInv_started h hstack hfront
  | tasksDone hstack _ =>
      exact asyncInv_of_frames h hstack (by decide) (f := [.callback]) (by decide) rfl
  | invoked hstack _ =>
      exact asyncInv_of_frames h hstack (by decide) (f := [.handler, .taskLoop]) (by decide) rfl
  | popped hstack =>
      cases hvalid
      exact asyncInv_popped h hstack
  | handled hstack =>
      cases hvalid
      exact asyncInv_of_frames h hstack (by decide) (f := []) (by decide) rfl
  | finished hstack =>
      exact asyncInv_of_frames h hstack (by decide) (f := []) (by decide) rfl

theorem AsyncInv.runsOnce (h : d.AsyncInv) : d.RunsOnce where
  fifo := h.fifo
  enqueued := h.enqueued
  notCancelled := h.notCancelled
  notOvertaken := h.notOvertaken
  kept := h.kept
  processed := by
    intro stack d' hstack hnext
    have hd := h.front.not_running hstack (by decide)
    have hkept := h.kept
    rw [waiting_eq hd] at hkept
    cases next_cases hnext with
    | asyncsDone hstack' hempty =>
        cases hstack.symm.trans hstack'
        exact .inl ⟨hkept.symm.trans hempty, rfl⟩
    | started hstack' hfront =>
        exact .inr ⟨_, _, hkept.symm.trans hfront, rfl, by rw [hstack']⟩
    | tasksDone hstack' _ => cases hstack.symm.trans hstack'
    | invoked hstack' _ => cases hstack.symm.trans hstack'
  noUnderflow := h.noUnderflow

/-- **Every callable is invoked exactly once**, in every run in which no callable calls
`CancelAll` or `Update`, itself or through what it calls. -/
theorem runsOnce_of_undisturbed {now : ℤ} {task : Task H}
    (hls : Machine.Along next (fun d l => l.Valid ∧ Undisturbed d l) (new now task) ls)
    (hrun : Machine.run next (new now task) ls = some d) : d.RunsOnce := by
  refine AsyncInv.runsOnce ?_
  exact Machine.run_induction_of (P := AsyncInv)
    (fun _ _ _ h hl hn => asyncInv_step h hl.1 hl.2 (next_cases hn)) hls
    (asyncInv_new now task) hrun

/-- The first callable enqueues a third one; then a handler cancels all of them. -/
def undisturbedRun : List (Label Unit) :=
  [.async, .async, .call (.schedule 0 none ()), .update 0 true, .dispatch, .async, .ret true,
    .dispatch, .ret true, .dispatch, .ret true, .dispatch, .dispatch, .async, .call .cancelAll]

theorem runsOnce_of_undisturbed_undisturbedRun :
    ∃ d, Machine.run next (new 0 ⟨0, 0, none, 0, ()⟩) undisturbedRun = some d ∧
      d.started = [0, 1, 2] ∧ d.cancelled = [3] ∧ d.RunsOnce := by
  have hrun : Machine.run next (new 0 ⟨0, 0, none, 0, ()⟩) undisturbedRun = some _ := rfl
  refine ⟨_, hrun, by decide, by decide, runsOnce_of_undisturbed ?_ hrun⟩
  repeat' first
    | exact trivial
    | refine Machine.along_cons ⟨by simp [Label.Valid], ?_⟩ rfl ?_
    | simp [Undisturbed, new]

/-- A callable calls `CancelAll`, and then `Async`. -/
def cancellingRun : List (Label Unit) :=
  [.async, .update 0 true, .dispatch, .call .cancelAll, .async, .ret true]

/-- A callable calls `CancelAll`. -/
def underflowRun : List (Label Unit) :=
  [.async, .update 0 true, .dispatch, .call .cancelAll, .ret true]

/-- A callable calls `Update`. -/
def updatingRun : List (Label Unit) :=
  [.async, .update 0 true, .dispatch, .update 0 true, .dispatch]

/-- A callable that calls `CancelAll` loses the one that it enqueues next, or makes the loop
pop an empty queue; a callable that calls `Update` is invoked again. -/
theorem not_runsOnce :
    (∀ ls ∈ [cancellingRun, underflowRun, updatingRun], ∀ l ∈ ls, l.Valid) ∧
      (∃ d, Machine.run next (new 0 ⟨0, 0, none, 0, ()⟩) cancellingRun = some d ∧
        d.issued = 2 ∧ d.started = [0] ∧ d.cancelled = [] ∧ d.waiting = [] ∧ ¬d.RunsOnce) ∧
      (∃ d, Machine.run next (new 0 ⟨0, 0, none, 0, ()⟩) underflowRun = some d ∧
        d.underflow = true ∧ ¬d.RunsOnce) ∧
      ∃ d, Machine.run next (new 0 ⟨0, 0, none, 0, ()⟩) updatingRun = some d ∧
        d.started = [0, 0] ∧ ¬d.RunsOnce := by
  refine ⟨?_, ⟨_, rfl, rfl, rfl, rfl, rfl, ?_⟩, ⟨_, rfl, rfl, ?_⟩, ⟨_, rfl, rfl, ?_⟩⟩
  · simp [cancellingRun, underflowRun, updatingRun, Label.Valid]
  · intro h
    exact absurd h.kept (by decide)
  · intro h
    exact absurd h.noUnderflow (by decide)
  · intro h
    exact absurd h.fifo (by decide)

end Dispatcher
end WarheadDiscord
