import WarheadDiscord.Scheduler.Dispatch

/-!
# Late and early ticks

In-context timing makes the new ends of tasks relative to the end of the task that is
handled, not to `_now`.  So a handler cannot tell whether the tick came late: as long as
handlers and callables stay with the operations of contexts, two updates do the same as one
update by the sum of the two times (`updates_pair`).

The argument is about two loops.  A task that is due at a time is due at every later time,
so the turns of a loop at the first time are turns of the loop at the second; and where the
first one stops, the second one goes on.

## Main definitions

* `Op.InContext` — the operations that do not use `_now`.
* `Code.Timeless` — code that makes these operations only, and does not look at the time.
-/

namespace WarheadDiscord

/-- The operations of a context that are relative to its task, or to nothing. -/
def Op.InContext {H : Type} : Op H → Prop
  | .schedule _ _ _ | .rescheduleAll _ | .rescheduleGroup _ _ => False
  | .contextSchedule _ _ _ _ | .repeatTask _ _ | .setGroup _ _ | .clearGroup _ | .cancelAll
  | .cancelGroup _ | .cancelGroupsOf _ | .delayAll _ | .delayGroup _ _ => True

/-- The code does not look at the time, and nothing that it does is relative to it. -/
structure Code.Timeless {H A σ : Type} (code : Code H A σ) : Prop where
  handler : ∀ h context (s : TaskScheduler H A) now memory,
    code.handler h context { s with now := now } memory = code.handler h context s memory
  callable : ∀ a (s : TaskScheduler H A) now memory,
    code.callable a { s with now := now } memory = code.callable a s memory
  handlerOps : ∀ h context s memory, ∀ o ∈ (code.handler h context s memory).1, o.InContext
  callableOps : ∀ a s memory, ∀ o ∈ (code.callable a s memory).1, o.InContext

namespace TaskScheduler
variable {H A : Type} {s s' : TaskScheduler H A}

/-! ## Operations at another time -/

theorem cancelGroupsOf_setNow (now : ℤ) (groups : List UInt32) :
    { s with now := now }.cancelGroupsOf groups =
      { s.cancelGroupsOf groups with now := now } := by
  induction groups generalizing s with
  | nil => rfl
  | cons group groups ih => exact ih (s := s.cancelGroup group)

theorem apply_setNow (now : ℤ) {o : Op H} (ho : o.InContext) :
    { s with now := now }.apply o = (s.apply o).map fun s' => { s' with now := now } := by
  cases o with
  | schedule time group task => cases ho
  | rescheduleAll duration => cases ho
  | rescheduleGroup group duration => cases ho
  | cancelGroupsOf groups => exact congrArg some (cancelGroupsOf_setNow now groups)
  | contextSchedule context time group task =>
      simp only [apply, Option.map_map]
      rfl
  | repeatTask context duration =>
      simp only [apply]
      cases s.contexts[context]? with
      | none => rfl
      | some c =>
          simp only [Option.bind_some]
          split <;> rfl
  | setGroup context group =>
      simp only [apply, Option.map_map]
      rfl
  | clearGroup context =>
      simp only [apply, Option.map_map]
      rfl
  | cancelAll => rfl
  | cancelGroup group => rfl
  | delayAll duration => rfl
  | delayGroup group duration => rfl

theorem run_setNow (now : ℤ) {ops : List (Op H)} (hops : ∀ o ∈ ops, o.InContext) :
    Machine.run apply { s with now := now } ops =
      (Machine.run apply s ops).map fun s' => { s' with now := now } := by
  induction ops generalizing s with
  | nil => rfl
  | cons o ops ih =>
      obtain ⟨ho, hops⟩ := List.forall_mem_cons.mp hops
      rw [Machine.run_cons, Machine.run_cons, apply_setNow now ho]
      cases s.apply o with
      | none => rfl
      | some s' => exact ih hops

/-- The operations leave the time alone, and they do not enqueue asyncs. -/
theorem quiet_run {ops : List (Op H)} (hrun : Machine.run apply s ops = some s') :
    s'.now = s.now ∧ (s.asyncHolder = [] → s'.asyncHolder = []) := by
  refine Machine.run_induction
    (P := fun u => u.now = s.now ∧ (s.asyncHolder = [] → u.asyncHolder = [])) ?_ ⟨rfl, id⟩ hrun
  rintro u o u' ⟨hnow, hasync⟩ ho
  cases apply_cases ho with
  | cancelled => exact ⟨hnow, fun _ => rfl⟩
  | _ => exact ⟨hnow, hasync⟩

end TaskScheduler

namespace World
variable {H A σ : Type} {code : Code H A σ} {w w' : World H A σ}

/-! ## Turns at another time -/

theorem perform_setNow (now : ℤ) {x : List (Op H) × σ} (hx : ∀ o ∈ x.1, o.InContext) :
    (w.setNow now).perform x = (w.perform x).map fun w' => w'.setNow now := by
  simp only [perform, setNow, TaskScheduler.run_setNow now hx, Option.map_map]
  rfl

theorem asyncTurn_setNow (hcode : code.Timeless) (now : ℤ) :
    asyncTurn code (w.setNow now) =
      (asyncTurn code w).map (fun w' => w'.setNow now)
        (Except.map fun w' => w'.setNow now) := by
  have hholder : (w.setNow now).scheduler.asyncHolder = w.scheduler.asyncHolder := rfl
  unfold asyncTurn
  rw [hholder]
  cases w.scheduler.asyncHolder with
  | nil => rfl
  | cons callable rest =>
      have hcallable : code.callable callable (w.setNow now).scheduler (w.setNow now).memory =
          code.callable callable w.scheduler w.memory := hcode.callable _ _ _ _
      simp only [hcallable, perform_setNow now (hcode.callableOps _ _ _)]
      cases w.perform (code.callable callable w.scheduler w.memory) with
      | none => rfl
      | some w₁ =>
          have hholder₁ : (w₁.setNow now).scheduler.asyncHolder = w₁.scheduler.asyncHolder := rfl
          simp only [Option.map_some, hholder₁]
          cases w₁.scheduler.asyncHolder with
          | nil => rfl
          | cons front rest' => rfl

theorem due_setNow {s : TaskScheduler H A} {now : ℤ} (hle : s.now ≤ now) {x : ℕ × List ℕ}
    (hdue : s.due = some x) : { s with now := now }.due = some x := by
  obtain ⟨hholder, hkey⟩ := Dispatcher.due_eq_some hdue
  simp only [TaskScheduler.due, hholder]
  exact if_neg (not_lt.mpr (hkey.trans hle))

/-- A task that is taken at some time is taken at every later time. -/
theorem taskTurn_setNow (hcode : code.Timeless) {now : ℤ} (hle : w.scheduler.now ≤ now)
    {i : ℕ} {rest : List ℕ} (hdue : w.scheduler.due = some (i, rest)) :
    taskTurn code (w.setNow now) =
      (taskTurn code w).map (fun w' => w'.setNow now)
        (Except.map fun w' => w'.setNow now) := by
  have hdue' : (w.setNow now).scheduler.due = some (i, rest) := due_setNow hle hdue
  have hhandle : (w.setNow now).handle code i rest = w.handle code i rest :=
    hcode.handler _ _ (w.scheduler.popTask i rest) _ _
  have hpop : (w.setNow now).pop i rest = (w.pop i rest).setNow now := rfl
  have hops : ∀ o ∈ (w.handle code i rest).1, o.InContext := hcode.handlerOps _ _ _ _
  unfold taskTurn
  simp only [hdue, hdue', hhandle, hpop, perform_setNow now hops]
  cases (w.pop i rest).perform (w.handle code i rest) with
  | none => rfl
  | some w₁ => rfl

/-- The time is `now`, and the queue of the asyncs is empty. -/
def Idle (now : ℤ) (w : World H A σ) : Prop :=
  w.scheduler.now = now ∧ w.scheduler.asyncHolder = []

theorem now_of_asyncTurn {now : ℤ} (h : w.scheduler.now = now)
    (hturn : asyncTurn code w = .inl w') : w'.scheduler.now = now := by
  obtain ⟨callable, rest, w₁, front, rest', -, hperform, -, rfl⟩ := asyncTurn_eq_inl hturn
  obtain ⟨hrun, -, -⟩ := perform_eq_some hperform
  exact (TaskScheduler.quiet_run hrun).1.trans h

theorem idle_of_taskTurn {now : ℤ} (h : w.Idle now) (hturn : taskTurn code w = .inl w') :
    w'.Idle now := by
  obtain ⟨i, rest, -, hperform⟩ := taskTurn_eq_inl hturn
  obtain ⟨hrun, -, -⟩ := perform_eq_some hperform
  obtain ⟨hnow, hasync⟩ := TaskScheduler.quiet_run hrun
  exact ⟨hnow.trans h.1, hasync h.2⟩

theorem idle_of_asyncs {now : ℤ} (h : w.scheduler.now = now)
    (hreturns : Loop.Returns (asyncTurn code) w (.ok w')) : w'.Idle now := by
  obtain ⟨t, ht, hturn⟩ := hreturns.exists_end (P := fun w => w.scheduler.now = now)
    (fun _ _ h hturn => now_of_asyncTurn h hturn) h
  obtain ⟨rfl, hempty⟩ := asyncTurn_eq_ok hturn
  exact ⟨ht, hempty⟩

theorem idle_of_tasks {now : ℤ} (h : w.Idle now)
    (hreturns : Loop.Returns (taskTurn code) w (.ok w')) : w'.Idle now := by
  obtain ⟨t, ht, hturn⟩ := hreturns.exists_end (P := Idle now)
    (fun _ _ h hturn => idle_of_taskTurn h hturn) h
  obtain ⟨rfl, -⟩ := taskTurn_eq_ok hturn
  exact ht

/-! ## Loops at another time -/

theorem asyncs_setNow (hcode : code.Timeless) (now : ℤ)
    {r : Except (List (ℕ × ℤ)) (World H A σ)} :
    Loop.Returns (asyncTurn code) (w.setNow now) r ↔
      ∃ r₁, Loop.Returns (asyncTurn code) w r₁ ∧ r = r₁.map fun w' => w'.setNow now := by
  refine Loop.returns_iff_of_turns (P := fun _ => True) (f := fun w : World H A σ => w.setNow now)
    (K := fun r₁ r => r = Except.map (fun w' : World H A σ => w'.setNow now) r₁) ?_ ?_ trivial
  · intro w w' _ hturn
    rw [asyncTurn_setNow hcode, hturn]
    exact ⟨trivial, rfl⟩
  · intro w r₁ _ hturn r
    have hturn' : asyncTurn code (w.setNow now) = .inr (r₁.map fun w' => w'.setNow now) := by
      rw [asyncTurn_setNow hcode, hturn]
      rfl
    rw [Loop.returns_of_inr hturn', eq_comm]

/-- The loop at a later time returns `r` from where one at an earlier time has stopped. -/
def GoesOn (code : Code H A σ) (now : ℤ) :
    Except (List (ℕ × ℤ)) (World H A σ) → Except (List (ℕ × ℤ)) (World H A σ) → Prop
  | .ok w, r => Loop.Returns (taskTurn code) (w.setNow now) r
  | .error executed, r => r = .error executed

/-- Where the loop at the earlier time stops, the one at the later time goes on. -/
theorem tasks_setNow (hcode : code.Timeless) {now₁ now : ℤ} (hle : now₁ ≤ now)
    (hw : w.scheduler.now = now₁) {r : Except (List (ℕ × ℤ)) (World H A σ)} :
    Loop.Returns (taskTurn code) (w.setNow now) r ↔
      (∃ w', Loop.Returns (taskTurn code) w (.ok w') ∧
          Loop.Returns (taskTurn code) (w'.setNow now) r) ∨
        ∃ executed, Loop.Returns (taskTurn code) w (.error executed) ∧ r = .error executed := by
  have hsplit : Loop.Returns (taskTurn code) (w.setNow now) r ↔
      ∃ r₁, Loop.Returns (taskTurn code) w r₁ ∧ GoesOn code now r₁ r := by
    refine Loop.returns_iff_of_turns (P := fun w => w.scheduler.now = now₁)
      (f := fun w : World H A σ => w.setNow now) ?_ ?_ hw
    · intro w w' hw hturn
      obtain ⟨i, rest, hdue, hperform⟩ := taskTurn_eq_inl hturn
      obtain ⟨hrun, -, -⟩ := perform_eq_some hperform
      refine ⟨(TaskScheduler.quiet_run hrun).1.trans hw, ?_⟩
      rw [taskTurn_setNow hcode (hw.le.trans hle) hdue, hturn]
      rfl
    · intro w r₁ hw hturn r
      cases r₁ with
      | ok w' =>
          obtain ⟨rfl, -⟩ := taskTurn_eq_ok hturn
          exact Iff.rfl
      | error executed =>
          obtain ⟨i, rest, hdue, -⟩ := taskTurn_eq_error hturn
          have hturn' : taskTurn code (w.setNow now) = .inr (.error executed) := by
            rw [taskTurn_setNow hcode (hw.le.trans hle) hdue, hturn]
            rfl
          rw [Loop.returns_of_inr hturn', eq_comm]
          exact Iff.rfl
  rw [hsplit]
  constructor
  · rintro ⟨executed | w', hreturns, h⟩
    · exact .inr ⟨executed, hreturns, h⟩
    · exact .inl ⟨w', hreturns, h⟩
  · rintro (⟨w', hreturns, h⟩ | ⟨executed, hreturns, h⟩)
    · exact ⟨_, hreturns, h⟩
    · exact ⟨_, hreturns, h⟩

/-! ## `Update` -/

theorem update_mono {fuel fuel' : ℕ} {difftime : ℤ} {r : Except (List (ℕ × ℤ)) (World H A σ)}
    (h : update code fuel difftime w = some r) (hle : fuel ≤ fuel') :
    update code fuel' difftime w = some r := by
  refine bind_eq_some.mpr ?_
  rcases bind_eq_some.mp h with ⟨w', hasync, htask⟩ | ⟨executed, hasync, hr⟩
  · exact .inl ⟨w', Loop.loop_mono hasync hle, Loop.loop_mono htask hle⟩
  · exact .inr ⟨executed, Loop.loop_mono hasync hle, hr⟩

theorem exists_updates_singleton {difftime : ℤ} {r : Except (List (ℕ × ℤ)) (World H A σ)} :
    (∃ fuel, updates code fuel [difftime] w = some r) ↔
      Dispatches code (w.setNow (w.scheduler.now + difftime)) r := by
  rw [dispatches_iff]
  refine exists_congr fun fuel => ?_
  rw [updates, bind_eq_some]
  cases r with
  | ok w' => simp [updates, update]
  | error executed => simp [updates, update]

theorem exists_updates_pair {a b : ℤ} {r : Except (List (ℕ × ℤ)) (World H A σ)} :
    (∃ fuel, updates code fuel [a, b] w = some r) ↔
      (∃ w', Dispatches code (w.setNow (w.scheduler.now + a)) (.ok w') ∧
        Dispatches code (w'.setNow (w'.scheduler.now + b)) r) ∨
      ∃ executed, Dispatches code (w.setNow (w.scheduler.now + a)) (.error executed) ∧
        r = .error executed := by
  constructor
  · rintro ⟨fuel, h⟩
    rw [updates, bind_eq_some] at h
    rcases h with ⟨w', h, h'⟩ | ⟨executed, h, hr⟩
    · exact .inl ⟨w', dispatches_iff.mpr ⟨fuel, h⟩, exists_updates_singleton.mp ⟨fuel, h'⟩⟩
    · exact .inr ⟨executed, dispatches_iff.mpr ⟨fuel, h⟩, hr⟩
  · rintro (⟨w', h, h'⟩ | ⟨executed, h, hr⟩)
    · obtain ⟨fuel, hfuel⟩ := dispatches_iff.mp h
      obtain ⟨fuel', hfuel'⟩ := dispatches_iff.mp h'
      refine ⟨max fuel fuel', bind_eq_some.mpr (.inl ⟨w', ?_, ?_⟩)⟩
      · exact update_mono hfuel (Nat.le_max_left _ _)
      · have hupdate : update code (max fuel fuel') b w' = some r :=
          update_mono hfuel' (Nat.le_max_right _ _)
        rw [updates, hupdate]
        cases r <;> rfl
    · obtain ⟨fuel, hfuel⟩ := dispatches_iff.mp h
      exact ⟨fuel, bind_eq_some.mpr (.inr ⟨executed, hfuel, hr⟩)⟩

/-- `Dispatch` without asyncs is the loop over the tasks. -/
theorem dispatches_of_idle {now : ℤ} (h : w.Idle now)
    {r : Except (List (ℕ × ℤ)) (World H A σ)} :
    Dispatches code w r ↔ Loop.Returns (taskTurn code) w r := by
  have hturn : asyncTurn code w = .inr (.ok w) := by
    rw [asyncTurn, h.2]
  simp only [Dispatches, Loop.returns_of_inr hturn]
  constructor
  · rintro (⟨w', ⟨⟩, hreturns⟩ | ⟨executed, ⟨⟩, -⟩)
    exact hreturns
  · intro hreturns
    exact .inl ⟨w, rfl, hreturns⟩

/-- **Ticks can be split**: if handlers and callables do not use the time, two updates execute
the same tasks in the same order, and leave the same queue, as one update by the sum. -/
theorem updates_pair (hcode : code.Timeless) (w : World H A σ) (a : ℤ) {b : ℤ} (hb : 0 ≤ b)
    (r : Except (List (ℕ × ℤ)) (World H A σ)) :
    (∃ fuel, updates code fuel [a, b] w = some r) ↔
      ∃ fuel, updates code fuel [a + b] w = some r := by
  have hle : w.scheduler.now + a ≤ w.scheduler.now + (a + b) := by omega
  -- the world at the second time, from the world at the first
  have htwice : w.setNow (w.scheduler.now + (a + b)) =
      (w.setNow (w.scheduler.now + a)).setNow (w.scheduler.now + (a + b)) := rfl
  have hsecond : ∀ w' : World H A σ, w'.Idle (w.scheduler.now + a) →
      (Dispatches code (w'.setNow (w'.scheduler.now + b)) r ↔
        Loop.Returns (taskTurn code) (w'.setNow (w.scheduler.now + (a + b))) r) := by
    intro w' hidle
    have hnow : w'.scheduler.now + b = w.scheduler.now + (a + b) := by
      rw [hidle.1]
      omega
    rw [hnow]
    have hidle' : (w'.setNow (w.scheduler.now + (a + b))).Idle (w.scheduler.now + (a + b)) :=
      ⟨rfl, hidle.2⟩
    exact dispatches_of_idle hidle'
  rw [exists_updates_pair, exists_updates_singleton, htwice]
  constructor
  · rintro (⟨w₂, ⟨w₁, hasync, htask⟩ | ⟨executed, -, h⟩, hr⟩ |
      ⟨executed, ⟨w₁, hasync, htask⟩ | ⟨executed', hasync, h⟩, rfl⟩)
    · have hidle := idle_of_asyncs rfl hasync
      rw [hsecond w₂ (idle_of_tasks hidle htask)] at hr
      refine .inl ⟨w₁.setNow _, (asyncs_setNow hcode _).mpr ⟨_, hasync, rfl⟩, ?_⟩
      exact (tasks_setNow hcode hle hidle.1).mpr (.inl ⟨w₂, htask, hr⟩)
    · cases h
    · have hidle := idle_of_asyncs rfl hasync
      refine .inl ⟨w₁.setNow _, (asyncs_setNow hcode _).mpr ⟨_, hasync, rfl⟩, ?_⟩
      exact (tasks_setNow hcode hle hidle.1).mpr (.inr ⟨executed, htask, rfl⟩)
    · cases h
      exact .inr ⟨executed, (asyncs_setNow hcode _).mpr ⟨_, hasync, rfl⟩, rfl⟩
  · rintro (⟨w', hasync, htask⟩ | ⟨executed, hasync, rfl⟩)
    · obtain ⟨executed | w₁, hasync₁, h⟩ := (asyncs_setNow hcode _).mp hasync
      · cases h
      · cases h
        have hidle := idle_of_asyncs rfl hasync₁
        rcases (tasks_setNow hcode hle hidle.1).mp htask with
          ⟨w₂, htask₁, hr⟩ | ⟨executed, htask₁, hr⟩
        · rw [← hsecond w₂ (idle_of_tasks hidle htask₁)] at hr
          exact .inl ⟨w₂, .inl ⟨w₁, hasync₁, htask₁⟩, hr⟩
        · exact .inr ⟨executed, .inl ⟨w₁, hasync₁, htask₁⟩, hr⟩
    · obtain ⟨executed' | w₁, hasync₁, h⟩ := (asyncs_setNow hcode _).mp hasync
      · cases h
        exact .inr ⟨executed, .inr ⟨executed, hasync₁, rfl⟩, rfl⟩
      · cases h

/-- A handler that repeats its task and schedules another one that ends at the same time. -/
def contextCode : Code Bool Bool Unit where
  handler := fun isRepeated context _ _ =>
    (if isRepeated then
      [.contextSchedule context 2 none false, .repeatTask context (some 2)] else [], ())
  callable := fun _ _ _ => ([.delayAll 1], ())

/-- A world with a task that ends at `1` and a callable that delays it. -/
def delayedWorld : World Bool Bool Unit :=
  ⟨((TaskScheduler.new 0 ⟨0, 0, none, 0, false⟩).scheduleAt 0 1 none true).async true, (), []⟩

theorem updates_pair_delayedWorld :
    ∃ w, (∃ fuel, updates contextCode fuel [3, 4] delayedWorld = some (.ok w)) ∧
      (∃ fuel, updates contextCode fuel [3 + 4] delayedWorld = some (.ok w)) ∧
      w.executed = [(0, 2), (1, 4), (0, 4), (2, 6), (0, 6)] ∧ w.scheduler.holder = [3, 0] := by
  have hcode : contextCode.Timeless := by
    refine ⟨fun _ _ _ _ _ => rfl, fun _ _ _ _ => rfl, ?_, ?_⟩
    · intro h context s memory o ho
      simp only [contextCode] at ho
      split at ho
      · simp only [List.mem_cons, List.not_mem_nil, or_false] at ho
        rcases ho with rfl | rfl <;> trivial
      · cases ho
    · intro a s memory o ho
      rw [List.mem_singleton.mp ho]
      trivial
  have hpair : ∃ fuel, updates contextCode fuel [3, 4] delayedWorld = some (.ok _) := ⟨6, rfl⟩
  refine ⟨_, hpair, ?_, by decide, by decide⟩
  exact (updates_pair hcode delayedWorld 3 (by decide) _).mp hpair

end World
end WarheadDiscord
