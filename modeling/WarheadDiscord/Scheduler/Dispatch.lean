import WarheadDiscord.Lib.Loop
import WarheadDiscord.Scheduler.Invariant

/-!
# `Update` as a function

The machine of `Scheduler.Invariant` leaves open what handlers and callables do.  Here they
are given by their code, which tells the operations that an invocation makes one after the
other; it may look at everything, and it may remember something of type `σ` for later.  The
validator is always true, and an invocation neither enqueues an async nor calls `Update`.

Both loops of `Dispatch` are loops in the sense of `Lib.Loop`.  They may go on forever, and
they may fail: an operation stops at `AssertOnConsumed`, or the queue of the asyncs is popped
while it is empty.  A loop that does not fail is a run of the machine (`exists_run_dispatch`).

## Main definitions

* `Code`, `World` — the code of handlers and callables, and the state of everything.
* `asyncTurn`, `taskTurn` — the bodies of the loops.
* `dispatch`, `update` — `Dispatch` and `Update`, with fuel.
-/

namespace WarheadDiscord

/-- What handlers and callables do: the operations they make, and what they remember. -/
structure Code (H A σ : Type) where
  /-- The handler is invoked with the given context. -/
  handler : H → ℕ → TaskScheduler H A → σ → List (Op H) × σ
  callable : A → TaskScheduler H A → σ → List (Op H) × σ

/-- The scheduler, what the code remembers, and the history of the invocations: each task
with its `_end` at that time. -/
structure World (H A σ : Type) where
  scheduler : TaskScheduler H A
  memory : σ
  executed : List (ℕ × ℤ)

namespace World
variable {H A σ : Type}

/-- Some operations, one after the other. -/
def perform (w : World H A σ) : List (Op H) × σ → Option (World H A σ)
  | (ops, memory) =>
      (Machine.run TaskScheduler.apply w.scheduler ops).map fun s =>
        { w with scheduler := s, memory := memory }

/-- The handler of the task `i` in front of `Invoke`. -/
def pop (w : World H A σ) (i : ℕ) (rest : List ℕ) : World H A σ :=
  { w with
    scheduler := w.scheduler.popTask i rest
    executed := w.executed ++ [(i, w.scheduler.key i)] }

/-- What the handler of the task `i` does with its new context. -/
def handle (code : Code H A σ) (w : World H A σ) (i : ℕ) (rest : List ℕ) : List (Op H) × σ :=
  code.handler (w.scheduler.tasks i).handler w.scheduler.contexts.length
    (w.scheduler.popTask i rest) w.memory

/-- A turn of the loop that processes all asyncs. -/
def asyncTurn (code : Code H A σ) (w : World H A σ) :
    World H A σ ⊕ Except (List (ℕ × ℤ)) (World H A σ) :=
  match w.scheduler.asyncHolder with
  | [] => .inr (.ok w)
  | callable :: _ =>
      match w.perform (code.callable callable w.scheduler w.memory) with
      | none => .inr (.error w.executed)
      | some w' =>
          match w'.scheduler.asyncHolder with
          | [] => .inr (.error w'.executed)
          | _ :: rest =>
              .inl { w' with scheduler := { w'.scheduler with asyncHolder := rest } }

/-- A turn of the loop over the tasks. -/
def taskTurn (code : Code H A σ) (w : World H A σ) :
    World H A σ ⊕ Except (List (ℕ × ℤ)) (World H A σ) :=
  match w.scheduler.due with
  | none => .inr (.ok w)
  | some (i, rest) =>
      match (w.pop i rest).perform (w.handle code i rest) with
      | none => .inr (.error (w.pop i rest).executed)
      | some w' => .inl w'

/-- `Dispatch`, with an empty callback. -/
def dispatch (code : Code H A σ) (fuel : ℕ) (w : World H A σ) :
    Option (Except (List (ℕ × ℤ)) (World H A σ)) :=
  (Loop.loop (asyncTurn code) fuel w).bind fun
    | .ok w' => Loop.loop (taskTurn code) fuel w'
    | .error executed => some (.error executed)

/-- The world at another time. -/
def setNow (w : World H A σ) (now : ℤ) : World H A σ :=
  { w with scheduler := { w.scheduler with now := now } }

/-- `Update` with a `difftime`. -/
def update (code : Code H A σ) (fuel : ℕ) (difftime : ℤ) (w : World H A σ) :
    Option (Except (List (ℕ × ℤ)) (World H A σ)) :=
  dispatch code fuel (w.setNow (w.scheduler.now + difftime))

/-- `Update` again and again. -/
def updates (code : Code H A σ) (fuel : ℕ) :
    List ℤ → World H A σ → Option (Except (List (ℕ × ℤ)) (World H A σ))
  | [], w => some (.ok w)
  | difftime :: difftimes, w =>
      (update code fuel difftime w).bind fun
        | .ok w' => updates code fuel difftimes w'
        | .error executed => some (.error executed)

/-! ## The turns one by one -/

variable {code : Code H A σ} {w w' : World H A σ}

theorem perform_eq_some {x : List (Op H) × σ} (h : w.perform x = some w') :
    Machine.run TaskScheduler.apply w.scheduler x.1 = some w'.scheduler ∧ w'.memory = x.2 ∧
      w'.executed = w.executed := by
  obtain ⟨s, hs, rfl⟩ := Option.map_eq_some_iff.mp h
  exact ⟨hs, rfl, rfl⟩

theorem asyncTurn_eq_inl (h : asyncTurn code w = .inl w') :
    ∃ callable rest w₁ front rest',
      w.scheduler.asyncHolder = callable :: rest ∧
      w.perform (code.callable callable w.scheduler w.memory) = some w₁ ∧
      w₁.scheduler.asyncHolder = front :: rest' ∧
      w' = { w₁ with scheduler := { w₁.scheduler with asyncHolder := rest' } } := by
  unfold asyncTurn at h
  split at h
  · cases h
  · rename_i callable rest hholder
    split at h
    · cases h
    · rename_i w₁ hperform
      split at h
      · cases h
      · rename_i front rest' hholder'
        cases h
        exact ⟨callable, rest, w₁, front, rest', hholder, hperform, hholder', rfl⟩

theorem asyncTurn_eq_ok (h : asyncTurn code w = .inr (.ok w')) :
    w' = w ∧ w.scheduler.asyncHolder = [] := by
  unfold asyncTurn at h
  split at h
  · rename_i hholder
    cases h
    exact ⟨rfl, hholder⟩
  · split at h
    · cases h
    · split at h <;> cases h

theorem taskTurn_eq_inl (h : taskTurn code w = .inl w') :
    ∃ i rest, w.scheduler.due = some (i, rest) ∧
      (w.pop i rest).perform (w.handle code i rest) = some w' := by
  unfold taskTurn at h
  split at h
  · cases h
  · rename_i i rest hdue
    split at h
    · cases h
    · rename_i w₁ hperform
      cases h
      exact ⟨i, rest, hdue, hperform⟩

theorem taskTurn_eq_ok (h : taskTurn code w = .inr (.ok w')) :
    w' = w ∧ w.scheduler.due = none := by
  unfold taskTurn at h
  split at h
  · rename_i hdue
    cases h
    exact ⟨rfl, hdue⟩
  · split at h <;> cases h

theorem taskTurn_eq_error {executed : List (ℕ × ℤ)}
    (h : taskTurn code w = .inr (.error executed)) :
    ∃ i rest, w.scheduler.due = some (i, rest) ∧ executed = (w.pop i rest).executed := by
  unfold taskTurn at h
  split at h
  · cases h
  · rename_i i rest hdue
    split at h
    · cases h
      exact ⟨i, rest, hdue, rfl⟩
    · cases h

theorem bind_eq_some {x : Option (Except (List (ℕ × ℤ)) (World H A σ))}
    {f : World H A σ → Option (Except (List (ℕ × ℤ)) (World H A σ))}
    {r : Except (List (ℕ × ℤ)) (World H A σ)} :
    (x.bind fun
      | .ok w' => f w'
      | .error executed => some (.error executed)) = some r ↔
      (∃ w', x = some (.ok w') ∧ f w' = some r) ∨
        ∃ executed, x = some (.error executed) ∧ r = .error executed := by
  rw [Option.bind_eq_some_iff]
  constructor
  · rintro ⟨executed | w', hx, h⟩
    · cases h
      exact .inr ⟨_, hx, rfl⟩
    · exact .inl ⟨_, hx, h⟩
  · rintro (⟨w', hx, h⟩ | ⟨executed, hx, rfl⟩)
    · exact ⟨_, hx, h⟩
    · exact ⟨_, hx, rfl⟩

/-- `Dispatch` returns `r`. -/
def Dispatches (code : Code H A σ) (w : World H A σ)
    (r : Except (List (ℕ × ℤ)) (World H A σ)) : Prop :=
  (∃ w', Loop.Returns (asyncTurn code) w (.ok w') ∧ Loop.Returns (taskTurn code) w' r) ∨
    ∃ executed, Loop.Returns (asyncTurn code) w (.error executed) ∧ r = .error executed

theorem dispatches_iff {r : Except (List (ℕ × ℤ)) (World H A σ)} :
    Dispatches code w r ↔ ∃ fuel, dispatch code fuel w = some r := by
  constructor
  · rintro (⟨w', ⟨fuel, hasync⟩, ⟨fuel', htask⟩⟩ | ⟨executed, ⟨fuel, hasync⟩, rfl⟩)
    · refine ⟨max fuel fuel', bind_eq_some.mpr (.inl ⟨w', ?_, ?_⟩)⟩
      · exact Loop.loop_mono hasync (Nat.le_max_left _ _)
      · exact Loop.loop_mono htask (Nat.le_max_right _ _)
    · exact ⟨fuel, bind_eq_some.mpr (.inr ⟨executed, hasync, rfl⟩)⟩
  · rintro ⟨fuel, h⟩
    rcases bind_eq_some.mp h with ⟨w', hasync, htask⟩ | ⟨executed, hasync, rfl⟩
    · exact .inl ⟨w', ⟨fuel, hasync⟩, ⟨fuel, htask⟩⟩
    · exact .inr ⟨executed, ⟨fuel, hasync⟩, rfl⟩

end World

/-! ## The runs of the machine -/

namespace Dispatcher
variable {H σ : Type} {d : Dispatcher H} {code : Code H ℕ σ} {w w' : World H ℕ σ}
  {stack : List Frame}

/-- The machine comes from `d` to a state with this scheduler and this stack. -/
def Continues (d : Dispatcher H) (s : TaskScheduler H ℕ) (stack : List Frame) : Prop :=
  ∃ ls d', Machine.run next d ls = some d' ∧ d'.scheduler = s ∧ d'.stack = stack

theorem Continues.trans {s₁ s₂ : TaskScheduler H ℕ} {stack₁ stack₂ : List Frame}
    (h : d.Continues s₁ stack₁)
    (h' : ∀ d' : Dispatcher H, d'.scheduler = s₁ → d'.stack = stack₁ → d'.Continues s₂ stack₂) :
    d.Continues s₂ stack₂ := by
  obtain ⟨ls, d₁, hrun, hs, hstack⟩ := h
  obtain ⟨ls', d₂, hrun', h₂⟩ := h' d₁ hs hstack
  refine ⟨ls ++ ls', d₂, ?_, h₂⟩
  rw [Machine.run_append, hrun]
  exact hrun'

theorem continues_of_next {d' : Dispatcher H} {l : Label H} (h : d.next l = some d') :
    d.Continues d'.scheduler d'.stack :=
  ⟨[l], d', by rw [Machine.run_cons, h]; rfl, rfl, rfl⟩

theorem continues_of_calls (huser : UserRuns d.stack) {ops : List (Op H)} {s : TaskScheduler H ℕ}
    (hrun : Machine.run TaskScheduler.apply d.scheduler ops = some s) :
    d.Continues s d.stack := by
  induction ops generalizing d with
  | nil =>
      cases hrun
      exact ⟨[], d, rfl, rfl, rfl⟩
  | cons o ops ih =>
      rw [Machine.run_cons, Option.bind_eq_some_iff] at hrun
      obtain ⟨s₁, hs₁, hrun⟩ := hrun
      have hnext : d.next (.call o) =
          some { d with scheduler := s₁, cancelled := d.record o } := by
        rw [next, if_pos huser, hs₁]
        rfl
      refine (continues_of_next hnext).trans ?_
      intro d' hs hstack
      dsimp only at hs hstack
      rw [← hstack]
      refine ih ?_ ?_
      · rw [hstack]
        exact huser
      · rw [hs]
        exact hrun

theorem continues_of_asyncTurn (hstack : d.stack = .asyncLoop :: stack)
    (hs : d.scheduler = w.scheduler) (hturn : World.asyncTurn code w = .inl w') :
    d.Continues w'.scheduler (.asyncLoop :: stack) := by
  obtain ⟨ticket, rest, w₁, front, rest', hholder, hperform, hholder', rfl⟩ :=
    World.asyncTurn_eq_inl hturn
  have hnext : d.next .dispatch =
      some { d with
        stack := .callable :: .asyncLoop :: stack, started := d.started ++ [ticket] } := by
    simp only [next, dispatch, hstack, hs, hholder]
  refine (continues_of_next hnext).trans ?_
  intro d₁ hs₁ hstack₁
  dsimp only at hs₁ hstack₁
  have hops : Machine.run TaskScheduler.apply d₁.scheduler
      (code.callable ticket w.scheduler w.memory).1 = some w₁.scheduler := by
    rw [hs₁, hs]
    exact (World.perform_eq_some hperform).1
  refine (continues_of_calls (by rw [hstack₁]; trivial) hops).trans ?_
  intro d₂ hs₂ hstack₂
  rw [hstack₁] at hstack₂
  have hret : d₂.next (.ret true) =
      some { d₂ with
        scheduler := { d₂.scheduler with asyncHolder := d₂.scheduler.asyncHolder.tail }
        stack := .asyncLoop :: stack
        underflow := d₂.underflow || d₂.scheduler.asyncHolder.isEmpty } := by
    simp only [next, ret, hstack₂, if_true]
  have hcontinues := continues_of_next hret
  rw [hs₂, hholder'] at hcontinues
  exact hcontinues

theorem continues_of_taskTurn (hstack : d.stack = .taskLoop :: stack)
    (hs : d.scheduler = w.scheduler) (hturn : World.taskTurn code w = .inl w') :
    d.Continues w'.scheduler (.taskLoop :: stack) := by
  obtain ⟨i, rest, hdue, hperform⟩ := World.taskTurn_eq_inl hturn
  have hnext : d.next .dispatch =
      some { d with
        scheduler := d.scheduler.popTask i rest, stack := .handler :: .taskLoop :: stack } := by
    simp only [next, dispatch, hstack, hs, hdue]
  refine (continues_of_next hnext).trans ?_
  intro d₁ hs₁ hstack₁
  dsimp only at hs₁ hstack₁
  have hops : Machine.run TaskScheduler.apply d₁.scheduler (w.handle code i rest).1 =
      some w'.scheduler := by
    rw [hs₁, hs]
    exact (World.perform_eq_some hperform).1
  refine (continues_of_calls (by rw [hstack₁]; trivial) hops).trans ?_
  intro d₂ hs₂ hstack₂
  rw [hstack₁] at hstack₂
  have hret : d₂.next (.ret true) = some { d₂ with stack := .taskLoop :: stack } := by
    simp only [next, ret, hstack₂, if_true]
  have hcontinues := continues_of_next hret
  rw [hs₂] at hcontinues
  exact hcontinues

/-- **What `dispatch` does is a run of the machine**, to the callback at its end. -/
theorem exists_run_dispatch (hstack : d.stack = .asyncLoop :: stack)
    (hs : d.scheduler = w.scheduler) {fuel : ℕ}
    (h : World.dispatch code fuel w = some (.ok w')) :
    d.Continues w'.scheduler (.callback :: stack) := by
  rcases World.dispatches_iff.mpr ⟨fuel, h⟩ with ⟨w₁, hasync, htask⟩ | ⟨executed, -, h⟩
  · have hasyncs : d.Continues w₁.scheduler (.taskLoop :: stack) := by
      refine hasync.induction (P := fun w => ∀ d : Dispatcher H, d.stack = .asyncLoop :: stack →
        d.scheduler = w.scheduler → d.Continues w₁.scheduler (.taskLoop :: stack)) ?_ ?_ d hstack hs
      · intro w hturn d hstack hs
        obtain ⟨rfl, hempty⟩ := World.asyncTurn_eq_ok hturn
        have hnext : d.next .dispatch = some { d with stack := .taskLoop :: stack } := by
          simp only [next, dispatch, hstack, hs, hempty]
        rw [← hs]
        exact continues_of_next hnext
      · intro w w' hturn ih d hstack hs
        exact (continues_of_asyncTurn hstack hs hturn).trans fun d' hs' hstack' =>
          ih d' hstack' hs'
    refine hasyncs.trans fun d hs hstack => ?_
    refine htask.induction (P := fun w => ∀ d : Dispatcher H, d.stack = .taskLoop :: stack →
      d.scheduler = w.scheduler → d.Continues w'.scheduler (.callback :: stack)) ?_ ?_ d hstack hs
    · intro w hturn d hstack hs
      obtain ⟨rfl, hdue⟩ := World.taskTurn_eq_ok hturn
      have hnext : d.next .dispatch = some { d with stack := .callback :: stack } := by
        simp only [next, dispatch, hstack, hs, hdue]
      rw [← hs]
      exact continues_of_next hnext
    · intro w w₂ hturn ih d hstack hs
      exact (continues_of_taskTurn hstack hs hturn).trans fun d' hs' hstack' => ih d' hstack' hs'
  · cases h

end Dispatcher
end WarheadDiscord
