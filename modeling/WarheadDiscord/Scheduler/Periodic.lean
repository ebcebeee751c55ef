import Mathlib.Tactic.Ring
import WarheadDiscord.Scheduler.TickSplit
import WarheadDiscord.Scheduler.TimeOrder

/-!
# Tasks that are repeated on a schedule

A handler that does nothing to the scheduler but call `Repeat` keeps its task in the queue for
ever.  `Repeat` counts from the end of the task, not from the time of the tick, so a task with
the first end `first` and the period `p` is invoked for the ends `first`, `first + p`,
`first + 2 * p`, …: none is left out when a tick comes late, and none is moved.

How many invocations there were depends on the time that has passed, and not on how it was cut
into ticks (`updates_of_repeats`).

## Main definitions

* `Code.Repeats` — the handlers only repeat their tasks.
* `Task.period` — the duration of the next `Repeat`.
* `invocations`, `grid` — the ends for which a task was invoked, and those of a schedule.
* `World.OnSchedule` — the invariant of the loop over the tasks.
-/

namespace WarheadDiscord

open KeyOrder

/-- The handlers repeat their tasks, with an argument of `Repeat` or without one, and do nothing
else to the scheduler.  The code remembers the handlers it has invoked. -/
def Code.Repeats {H A : Type} (code : Code H A (List H)) (again : H → Option ℤ) : Prop :=
  ∀ h context s done, code.handler h context s done = ([.repeatTask context (again h)], done ++ [h])

/-- The duration of the next `Repeat`. -/
def Task.period {H : Type} (again : H → Option ℤ) (t : Task H) : ℤ :=
  (again t.handler).getD t.duration

/-- The ends for which a task was invoked. -/
def invocations (executed : List (ℕ × ℤ)) (i : ℕ) : List ℤ :=
  (executed.filter fun x => x.1 = i).map Prod.snd

/-- The first `n` ends of a schedule. -/
def grid (first period : ℤ) (n : ℕ) : List ℤ := (List.range n).map fun k => first + k * period

theorem grid_succ (first period : ℤ) (n : ℕ) :
    grid first period (n + 1) = grid first period n ++ [first + n * period] := by
  simp [grid, List.range_succ]

@[simp] theorem length_grid (first period : ℤ) (n : ℕ) : (grid first period n).length = n := by
  simp [grid]

theorem invocations_concat (executed : List (ℕ × ℤ)) (i j : ℕ) (e : ℤ) :
    invocations (executed ++ [(i, e)]) j =
      if i = j then invocations executed j ++ [e] else invocations executed j := by
  by_cases hij : i = j <;> simp [invocations, hij]

theorem mem_of_mem_invocations {executed : List (ℕ × ℤ)} {i : ℕ} {e : ℤ}
    (h : e ∈ invocations executed i) : (i, e) ∈ executed := by
  simpa [invocations] using h

/-- How many ends of a schedule are not after `now`. -/
def endsUntil (first period now : ℤ) : ℕ := ((now - first) / period + 1).toNat

theorem eq_endsUntil {first period now : ℤ} {n : ℕ} (hperiod : 0 < period)
    (hdue : ∀ e ∈ grid first period n, e ≤ now) (hnext : now < first + n * period) :
    n = endsUntil first period now := by
  have hlt : (now - first) / period < n := Int.ediv_lt_of_lt_mul hperiod (by omega)
  cases n with
  | zero =>
      rw [endsUntil]
      omega
  | succ n =>
      have hlast : first + n * period ≤ now := hdue _ (by simp [grid_succ])
      have hle : (n : ℤ) ≤ (now - first) / period :=
        (Int.le_ediv_iff_mul_le hperiod).mpr (by omega)
      rw [endsUntil]
      omega

namespace World
variable {H A : Type} {code : Code H A (List H)} {again : H → Option ℤ} {s : TaskScheduler H A}
  {w w' : World H A (List H)}

/-! ## A turn -/

/-- The task `i` is invoked, and repeated. -/
def repeated (again : H → Option ℤ) (w : World H A (List H)) (i : ℕ) (rest : List ℕ) :
    World H A (List H) where
  scheduler := (w.scheduler.popTask i rest).repeatTask w.scheduler.contexts.length i
    ((w.scheduler.tasks i).period again)
  memory := w.memory ++ [(w.scheduler.tasks i).handler]
  executed := w.executed ++ [(i, w.scheduler.key i)]

theorem taskTurn_of_repeats (hcode : code.Repeats again) {i : ℕ} {rest : List ℕ}
    (hdue : w.scheduler.due = some (i, rest)) :
    taskTurn code w = .inl (w.repeated again i rest) := by
  have hcontext : (w.scheduler.popTask i rest).contexts[w.scheduler.contexts.length]? =
      some ⟨i, false⟩ := List.getElem?_concat_length
  have hrepeat : (w.scheduler.popTask i rest).apply
      (.repeatTask w.scheduler.contexts.length (again (w.scheduler.tasks i).handler)) =
      some (w.repeated again i rest).scheduler := by
    simp only [TaskScheduler.apply, hcontext, Option.bind_some, Bool.false_eq_true, if_false]
    rfl
  have hperform : (w.pop i rest).perform (w.handle code i rest) =
      some (w.repeated again i rest) := by
    have hpop : (w.pop i rest).scheduler = w.scheduler.popTask i rest := rfl
    simp only [perform, handle, hcode _ _ _ _, hpop, Machine.run_cons, hrepeat, Option.bind_some,
      Machine.run_nil, Option.map_some]
    rfl
  rw [taskTurn, hdue]
  simp only [hperform]

/-- What the turn makes of the tasks. -/
theorem tasks_repeated (i : ℕ) (rest : List ℕ) (j : ℕ) :
    ((w.repeated again i rest).scheduler.tasks j).handler = (w.scheduler.tasks j).handler ∧
      ((w.repeated again i rest).scheduler.tasks j).period again =
        (w.scheduler.tasks j).period again ∧
      (w.repeated again i rest).scheduler.key j =
        if i = j then w.scheduler.key j + (w.scheduler.tasks j).period again
        else w.scheduler.key j := by
  by_cases hij : i = j
  · subst hij
    cases hagain : again (w.scheduler.tasks i).handler <;>
      simp [repeated, TaskScheduler.repeatTask, TaskScheduler.push, TaskScheduler.popTask,
        TaskScheduler.key, Task.period, hagain]
  · simp [repeated, TaskScheduler.repeatTask, TaskScheduler.push, TaskScheduler.popTask,
      TaskScheduler.key, Task.period, hij, Function.update_of_ne (Ne.symm hij)]

/-! ## The invariant -/

/-- Every task of the queue of `s` has been invoked for the first ends of its schedule, and waits
for the next one; and the tasks were invoked in the order of their ends. -/
structure OnSchedule (again : H → Option ℤ) (s : TaskScheduler H A) (w : World H A (List H)) :
    Prop where
  inv : w.scheduler.Inv
  idle : w.scheduler.asyncHolder = []
  holder : ∀ i, i ∈ w.scheduler.holder ↔ i ∈ s.holder
  handler : ∀ i, (w.scheduler.tasks i).handler = (s.tasks i).handler
  period : ∀ i, (w.scheduler.tasks i).period again = (s.tasks i).period again
  onTime : ∀ i ∈ s.holder, ∃ n : ℕ,
    invocations w.executed i = grid (s.key i) ((s.tasks i).period again) n ∧
      w.scheduler.key i = s.key i + n * (s.tasks i).period again
  known : ∀ x ∈ w.executed, x.1 ∈ s.holder
  done : w.memory = w.executed.map fun x => (s.tasks x.1).handler
  inOrder : InOrder w.scheduler.now w.executed
  later : ∀ x ∈ w.executed, ∀ i ∈ w.scheduler.holder, x.2 ≤ w.scheduler.key i

theorem onSchedule_start (hinv : s.Inv) (hidle : s.asyncHolder = []) :
    OnSchedule again s (⟨s, [], []⟩ : World H A (List H)) where
  inv := hinv
  idle := hidle
  holder := fun _ => Iff.rfl
  handler := fun _ => rfl
  period := fun _ => rfl
  onTime := fun i _ => ⟨0, rfl, by simp⟩
  known := nofun
  done := rfl
  inOrder := ⟨.nil, nofun⟩
  later := nofun

theorem OnSchedule.setNow (h : OnSchedule again s w) {now : ℤ} (hle : w.scheduler.now ≤ now) :
    OnSchedule again s (w.setNow now) :=
  { h with
    inv := { h.inv with }
    inOrder := ⟨h.inOrder.ends, fun x hx => (h.inOrder.due x hx).trans hle⟩ }

/-- **A turn stays on schedule.** -/
theorem OnSchedule.repeated (h : OnSchedule again s w)
    (hperiod : ∀ i ∈ s.holder, 0 < (s.tasks i).period again) {i : ℕ} {rest : List ℕ}
    (hdue : w.scheduler.due = some (i, rest)) :
    OnSchedule again s (w.repeated again i rest) ∧
      (w.repeated again i rest).scheduler.progress < w.scheduler.progress := by
  obtain ⟨hholder, hkey⟩ := Dispatcher.due_eq_some hdue
  have hmem : i ∈ s.holder := by
    rw [← h.holder, hholder]
    exact List.mem_cons_self
  have hpos : 0 < (w.scheduler.tasks i).period again := by
    rw [h.period]
    exact hperiod i hmem
  have hcontext : (w.scheduler.popTask i rest).contexts[w.scheduler.contexts.length]? =
      some ⟨i, false⟩ := List.getElem?_concat_length
  have hpopped := TaskScheduler.inv_popTask h.inv hholder
  have hinv : (w.repeated again i rest).scheduler.Inv :=
    TaskScheduler.inv_repeatTask hpopped hcontext rfl _
  have honward : (w.scheduler.popTask i rest).Onward (w.scheduler.key i)
      (w.repeated again i rest).scheduler :=
    TaskScheduler.onward_repeatTask hcontext (le_refl _) hpos
  have hfirst : ∀ x ∈ w.executed, x.2 ≤ w.scheduler.key i :=
    fun x hx => h.later x hx i ((h.holder i).mpr hmem)
  refine ⟨⟨hinv, h.idle, ?_, ?_, ?_, ?_, ?_, ?_, ?_, ?_⟩,
    TaskScheduler.progress_lt h.inv hinv hholder hkey honward⟩
  · intro j
    rw [← h.holder, hholder, List.mem_cons]
    exact mem_insertByKey
  · intro j
    rw [(tasks_repeated i rest j).1, h.handler]
  · intro j
    rw [(tasks_repeated i rest j).2.1, h.period]
  · intro j hj
    obtain ⟨n, hinvocations, hend⟩ := h.onTime j hj
    rw [(tasks_repeated i rest j).2.2, h.period]
    by_cases hij : i = j
    · -- the task itself has come to its next end
      subst hij
      refine ⟨n + 1, ?_, ?_⟩
      · rw [World.repeated, invocations_concat, if_pos rfl, hinvocations, grid_succ, hend]
      · rw [if_pos rfl, hend]
        push_cast
        ring
    · refine ⟨n, ?_, ?_⟩
      · rw [World.repeated, invocations_concat, if_neg hij, hinvocations]
      · rw [if_neg hij, hend]
  · intro x hx
    rcases List.mem_append.mp hx with hx | hx
    · exact h.known x hx
    · rw [List.mem_singleton.mp hx]
      exact hmem
  · simp [World.repeated, h.done, h.handler]
  · exact h.inOrder.concat hkey hfirst
  · intro x hx j hj
    have hle := TaskScheduler.le_key_of_onward h.inv hholder honward j hj
    rcases List.mem_append.mp hx with hx | hx
    · exact (hfirst x hx).trans hle
    · rw [List.mem_singleton.mp hx]
      exact hle

/-- The loop over the tasks returns, and then nothing is due. -/
theorem OnSchedule.dispatches (hcode : code.Repeats again) (h : OnSchedule again s w)
    (hperiod : ∀ i ∈ s.holder, 0 < (s.tasks i).period again) :
    ∃ w', Dispatches code w (.ok w') ∧ OnSchedule again s w' ∧
      w'.scheduler.now = w.scheduler.now ∧
      ∀ i ∈ s.holder, w'.scheduler.now < w'.scheduler.key i := by
  have hreturns : ∃ r, Loop.Returns (taskTurn code) w r ∧ ∃ w', r = .ok w' ∧
      OnSchedule again s w' ∧ w'.scheduler.now = w.scheduler.now ∧
      ∀ i ∈ s.holder, w'.scheduler.now < w'.scheduler.key i := by
    refine Loop.exists_returns_of_lt (fun u => u.scheduler.progress)
      (P := fun u => OnSchedule again s u ∧ u.scheduler.now = w.scheduler.now) ?_ ⟨h, rfl⟩
    rintro u ⟨hu, hnow⟩
    cases hdue : u.scheduler.due with
    | none =>
        refine .inl ⟨.ok u, by rw [taskTurn, hdue], u, rfl, hu, hnow, ?_⟩
        intro i hi
        exact lt_key_of_due_eq_none hu.inv hdue i ((hu.holder i).mpr hi)
    | some x =>
        obtain ⟨hstep, hlt⟩ := hu.repeated hperiod hdue
        exact .inr ⟨_, taskTurn_of_repeats hcode hdue, ⟨hstep, hnow⟩, hlt⟩
  obtain ⟨_, hloop, w', rfl, hw'⟩ := hreturns
  exact ⟨w', (dispatches_of_idle ⟨rfl, h.idle⟩).mpr hloop, hw'⟩

/-! ## All ticks -/

theorem updates_mono {fuel fuel' : ℕ} {difftimes : List ℤ}
    {r : Except (List (ℕ × ℤ)) (World H A (List H))} (h : updates code fuel difftimes w = some r)
    (hle : fuel ≤ fuel') : updates code fuel' difftimes w = some r := by
  induction difftimes generalizing w with
  | nil => exact h
  | cons difftime difftimes ih =>
      refine bind_eq_some.mpr ?_
      rcases bind_eq_some.mp h with ⟨w', hupdate, hrest⟩ | ⟨executed, hupdate, hr⟩
      · exact .inl ⟨w', update_mono hupdate hle, ih hrest⟩
      · exact .inr ⟨executed, update_mono hupdate hle, hr⟩

theorem OnSchedule.updates (hcode : code.Repeats again) (h : OnSchedule again s w)
    (hperiod : ∀ i ∈ s.holder, 0 < (s.tasks i).period again)
    (hwait : ∀ i ∈ s.holder, w.scheduler.now < w.scheduler.key i) {difftimes : List ℤ}
    (hdifftimes : ∀ difftime ∈ difftimes, 0 ≤ difftime) :
    ∃ fuel w', World.updates code fuel difftimes w = some (.ok w') ∧ OnSchedule again s w' ∧
      w'.scheduler.now = w.scheduler.now + difftimes.sum ∧
      ∀ i ∈ s.holder, w'.scheduler.now < w'.scheduler.key i := by
  induction difftimes generalizing w with
  | nil => exact ⟨0, w, rfl, h, by simp, hwait⟩
  | cons difftime difftimes ih =>
      obtain ⟨hdifftime, hrest⟩ := List.forall_mem_cons.mp hdifftimes
      have hlater : w.scheduler.now ≤ w.scheduler.now + difftime := by omega
      obtain ⟨w₁, hdispatch, hw₁, hnow₁, hwait₁⟩ := (h.setNow hlater).dispatches hcode hperiod
      obtain ⟨fuel₁, hfuel₁⟩ := dispatches_iff.mp hdispatch
      obtain ⟨fuel₂, w₂, hfuel₂, hw₂, hnow₂, hwait₂⟩ := ih hw₁ hwait₁ hrest
      refine ⟨max fuel₁ fuel₂, w₂, bind_eq_some.mpr (.inl ⟨w₁, ?_, ?_⟩), hw₂, ?_, hwait₂⟩
      · have hfirst : update code fuel₁ difftime w = some (.ok w₁) := hfuel₁
        exact update_mono hfirst (le_max_left _ _)
      · exact updates_mono hfuel₂ (le_max_right _ _)
      · have hset : (w.setNow (w.scheduler.now + difftime)).scheduler.now =
            w.scheduler.now + difftime := rfl
        rw [hnow₂, hnow₁, hset, List.sum_cons]
        ring

/-- A task that waits has been invoked for all its ends until now. -/
theorem OnSchedule.invocations_eq (h : OnSchedule again s w)
    (hperiod : ∀ i ∈ s.holder, 0 < (s.tasks i).period again)
    (hlater : ∀ i ∈ s.holder, w.scheduler.now < w.scheduler.key i) :
    ∀ i ∈ s.holder, invocations w.executed i =
      grid (s.key i) ((s.tasks i).period again)
        (endsUntil (s.key i) ((s.tasks i).period again) w.scheduler.now) := by
  intro i hi
  obtain ⟨n, hinvocations, hkey⟩ := h.onTime i hi
  have hdue : ∀ e ∈ grid (s.key i) ((s.tasks i).period again) n, e ≤ w.scheduler.now := by
    intro e he
    rw [← hinvocations] at he
    exact h.inOrder.due _ (mem_of_mem_invocations he)
  have hn := eq_endsUntil (hperiod i hi) hdue (hkey ▸ hlater i hi)
  rw [hinvocations, ← hn]

/-- **Repeated tasks keep their schedule**, however the time is cut into ticks: every update
returns, each task is invoked for all the ends of its schedule that have come and for no other,
and all tasks together in the order of these ends. -/
theorem updates_of_repeats (hcode : code.Repeats again) (hinv : s.Inv)
    (hidle : s.asyncHolder = []) (hperiod : ∀ i ∈ s.holder, 0 < (s.tasks i).period again)
    (hwait : ∀ i ∈ s.holder, s.now < s.key i) {difftimes : List ℤ}
    (hdifftimes : ∀ difftime ∈ difftimes, 0 ≤ difftime) :
    ∃ fuel w, World.updates code fuel difftimes ⟨s, [], []⟩ = some (.ok w) ∧
      w.scheduler.now = s.now + difftimes.sum ∧
      (w.executed.map Prod.snd).Pairwise (· ≤ ·) ∧
      w.memory = w.executed.map (fun x => (s.tasks x.1).handler) ∧
      (∀ x ∈ w.executed, x.1 ∈ s.holder) ∧
      ∀ i ∈ s.holder, invocations w.executed i =
        grid (s.key i) ((s.tasks i).period again)
          (endsUntil (s.key i) ((s.tasks i).period again) w.scheduler.now) := by
  obtain ⟨fuel, w, hupdates, hw, hnow, hlater⟩ :=
    (onSchedule_start hinv hidle).updates hcode hperiod hwait hdifftimes
  exact ⟨fuel, w, hupdates, hnow, hw.inOrder.ends, hw.done, hw.known,
    hw.invocations_eq hperiod hlater⟩

/-- Two handlers, of which one repeats its task with a new duration. -/
def alternating : Code Bool Unit (List Bool) where
  handler := fun h context _ done =>
    ([.repeatTask context (bif h then none else some 2)], done ++ [h])
  callable := fun _ _ done => ([], done)

def alternatingStart : TaskScheduler Bool Unit :=
  ((TaskScheduler.new 0 ⟨0, 0, none, 0, true⟩).scheduleAt 0 3 none true).scheduleAt 0 1 none false

theorem updates_of_repeats_alternating :
    alternatingStart.holder = [1, 0] ∧
      ∃ fuel w, World.updates alternating fuel [0, 4, 2] ⟨alternatingStart, [], []⟩ = some (.ok w) ∧
        w.scheduler.now = 6 ∧
        (w.executed.map Prod.snd).Pairwise (· ≤ ·) ∧
        w.memory = w.executed.map (fun x => (alternatingStart.tasks x.1).handler) ∧
        (∀ x ∈ w.executed, x.1 ∈ alternatingStart.holder) ∧
        ∀ i ∈ alternatingStart.holder, invocations w.executed i =
          grid (alternatingStart.key i)
            ((alternatingStart.tasks i).period fun h => bif h then none else some 2)
            (endsUntil (alternatingStart.key i)
              ((alternatingStart.tasks i).period fun h => bif h then none else some 2)
              w.scheduler.now) := by
  refine ⟨by decide, updates_of_repeats (fun _ _ _ _ => rfl) ?_ rfl (by decide) (by decide)
    (by decide)⟩
  exact TaskScheduler.inv_scheduleAt (TaskScheduler.inv_scheduleAt (TaskScheduler.inv_new _ _)
    _ _ _ _) _ _ _ _

end World
end WarheadDiscord
