import Mathlib.Algebra.Order.BigOperators.Group.List
import WarheadDiscord.Scheduler.Periodic
import WarheadDiscord.Server.UpdateLoop

/-!
# What the server does from time to time

`SetInitialDiscordSettings` gives two tasks to the scheduler: one pings the databases every half an
hour, so that their connections stay alive, and one logs the update times, first after fifteen
seconds and then every five minutes.  `Discord::Update` passes its time on to the scheduler.

`jobs_of_run` puts this together with the update loop: at every point of every run of the process
the databases have been pinged once for each half an hour, and the update times logged once for
each five minutes, no matter how long the turns of the loop took.

Times are in milliseconds.

## Main definitions

* `Job`, `code` — the handlers of the two tasks.
* `setInitialDiscordSettings` — the scheduler that the server starts with.
-/

namespace WarheadDiscord.Schedule

open World UpdateLoop

/-- The handlers: `KeepAlive` of the database, and the line about the update times. -/
inductive Job
  | keepAlive
  | timeDiff
  deriving DecidableEq, Repr

/-- The code remembers what it has done. -/
def code : Code Job Empty (List Job) where
  handler
    | .keepAlive, context, _, done => ([.repeatTask context none], done ++ [.keepAlive])
    | .timeDiff, context, _, done => ([.repeatTask context (some 300000)], done ++ [.timeDiff])
  callable := fun callable => nomatch callable

/-- The scheduler of a server that was constructed at the time `now`. -/
def setInitialDiscordSettings (now : ℤ) : TaskScheduler Job Empty :=
  let s := TaskScheduler.new now ⟨0, 0, none, 0, .keepAlive⟩
  let s := s.scheduleAt s.now 1800000 none .keepAlive
  s.scheduleAt s.now 15000 none .timeDiff

/-- The arguments of `Repeat`. -/
def again : Job → Option ℤ
  | .keepAlive => none
  | .timeDiff => some 300000

theorem code_repeats : code.Repeats again := by
  intro job context s done
  cases job <;> rfl

variable {now : ℤ}

theorem holder_setInitialDiscordSettings : (setInitialDiscordSettings now).holder = [1, 0] := by
  simp [setInitialDiscordSettings, TaskScheduler.scheduleAt, TaskScheduler.push,
    TaskScheduler.new, KeyOrder.insertByKey, TaskScheduler.key]

theorem inv_setInitialDiscordSettings : (setInitialDiscordSettings now).Inv :=
  TaskScheduler.inv_scheduleAt (TaskScheduler.inv_scheduleAt (TaskScheduler.inv_new _ _) _ _ _ _)
    _ _ _ _

theorem keepAlive_setInitialDiscordSettings :
    (setInitialDiscordSettings now).tasks 0 = ⟨now + 1800000, 1800000, none, 0, .keepAlive⟩ := rfl

theorem timeDiff_setInitialDiscordSettings :
    (setInitialDiscordSettings now).tasks 1 = ⟨now + 15000, 15000, none, 0, .timeDiff⟩ := rfl

/-- How often a job was done is how often its task was invoked. -/
theorem count_eq_length_invocations {executed : List (ℕ × ℤ)} {tasks : ℕ → Task Job}
    (hknown : ∀ x ∈ executed, x.1 = 0 ∨ x.1 = 1) (h₀ : (tasks 0).handler = .keepAlive)
    (h₁ : (tasks 1).handler = .timeDiff) :
    (executed.map fun x => (tasks x.1).handler).count .keepAlive =
        (invocations executed 0).length ∧
      (executed.map fun x => (tasks x.1).handler).count .timeDiff =
        (invocations executed 1).length := by
  induction executed with
  | nil => exact ⟨rfl, rfl⟩
  | cons x executed ih =>
      obtain ⟨hx, hrest⟩ := List.forall_mem_cons.mp hknown
      obtain ⟨ih₀, ih₁⟩ := ih hrest
      rcases hx with hx | hx <;>
        simp_all [invocations]

/-- **The server keeps its schedule**: wherever a run of the process is, the databases were pinged
once for each half an hour of the updates, and the update times were logged first after fifteen
seconds and then once for each five minutes. -/
theorem jobs_of_run (now constructed begun : ℤ) (events : List UpdateLoop.Event)
    (h : Steady constructed begun events)
    (hend : ((start constructed begun).run events).aborted = false) :
    ∃ fuel w,
      World.updates code fuel ((start constructed begun).run events).updates
        ⟨setInitialDiscordSettings now, [], []⟩ = some (.ok w) ∧
      (w.executed.map Prod.snd).Pairwise (· ≤ ·) ∧
      (w.memory.count .keepAlive : ℤ) = (lastPass begun events - begun) / 1800000 ∧
      (w.memory.count .timeDiff : ℤ) =
        if lastPass begun events - begun < 15000 then 0
        else (lastPass begun events - begun - 15000) / 300000 + 1 := by
  obtain ⟨htotal, hpos⟩ := updates_run (p := start constructed begun) h.since h.sorted
    (by simp [start]) hend
  have hsum : ((start constructed begun).run events).updates.sum =
      lastPass begun events - begun := by
    simpa [start] using htotal
  have hnonneg : 0 ≤ lastPass begun events - begun := by
    rw [← hsum]
    exact List.sum_nonneg fun diff hdiff => (hpos diff hdiff).trans' (by omega)
  have hholder : ∀ i, i ∈ (setInitialDiscordSettings now).holder ↔ i = 0 ∨ i = 1 := by
    intro i
    rw [holder_setInitialDiscordSettings]
    simp [or_comm]
  have hperiod : ∀ i ∈ (setInitialDiscordSettings now).holder,
      0 < ((setInitialDiscordSettings now).tasks i).period again := by
    intro i hi
    rcases (hholder i).mp hi with rfl | rfl
    · simp [keepAlive_setInitialDiscordSettings, Task.period, again]
    · simp [timeDiff_setInitialDiscordSettings, Task.period, again]
  have hwait : ∀ i ∈ (setInitialDiscordSettings now).holder,
      (setInitialDiscordSettings now).now < (setInitialDiscordSettings now).key i := by
    intro i hi
    have hnow : (setInitialDiscordSettings now).now = now := rfl
    rcases (hholder i).mp hi with rfl | rfl
    · simp [keepAlive_setInitialDiscordSettings, TaskScheduler.key, hnow]
    · simp [timeDiff_setInitialDiscordSettings, TaskScheduler.key, hnow]
  obtain ⟨fuel, w, hupdates, hw, hnow, hlater⟩ :=
    (onSchedule_start inv_setInitialDiscordSettings rfl).updates code_repeats hperiod hwait
      (fun diff hdiff => (hpos diff hdiff).trans' (by omega))
  have honTime := hw.invocations_eq hperiod hlater
  obtain ⟨hkeepAlive, htimeDiff⟩ := count_eq_length_invocations
    (fun x hx => (hholder x.1).mp (hw.known x hx))
    (congrArg Task.handler keepAlive_setInitialDiscordSettings)
    (congrArg Task.handler timeDiff_setInitialDiscordSettings)
  rw [honTime 0 ((hholder 0).mpr (.inl rfl)), length_grid] at hkeepAlive
  rw [honTime 1 ((hholder 1).mpr (.inr rfl)), length_grid] at htimeDiff
  have hclock : w.scheduler.now = now + (lastPass begun events - begun) := by
    rw [hnow, hsum]
    rfl
  refine ⟨fuel, w, hupdates, hw.inOrder.ends, ?_, ?_⟩
  · rw [hw.done, hkeepAlive, hclock, TaskScheduler.key, keepAlive_setInitialDiscordSettings]
    simp only [Task.period, again, Option.getD_none, endsUntil]
    omega
  · rw [hw.done, htimeDiff, hclock, TaskScheduler.key, timeDiff_setInitialDiscordSettings]
    simp only [Task.period, again, Option.getD_some, endsUntil]
    split <;> omega

/-- A turn of forty minutes, and one of half a second. -/
def lateTurns : List UpdateLoop.Event := [.pass 2400000, .pass 2400500]

theorem jobs_of_run_lateTurns :
    ((start 0 0).run lateTurns).updates = [2400000, 500] ∧
      ∃ fuel w,
        World.updates code fuel ((start 0 0).run lateTurns).updates
          ⟨setInitialDiscordSettings 7, [], []⟩ = some (.ok w) ∧
        (w.executed.map Prod.snd).Pairwise (· ≤ ·) ∧
        (w.memory.count .keepAlive : ℤ) = 1 ∧ (w.memory.count .timeDiff : ℤ) = 8 :=
  ⟨by decide, jobs_of_run 7 0 0 lateTurns ⟨by decide, by decide, by decide⟩ (by decide)⟩

end WarheadDiscord.Schedule
