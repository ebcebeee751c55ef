import Mathlib.Algebra.Order.Group.Int
import Mathlib.Data.List.Basic
import Mathlib.Tactic.Common
import WarheadDiscord.Lib.Loop

/-!
# What a transaction task reports

`TransactionTask::Execute` tries its transaction, and after a deadlock tries it again for a
minute.  `TransactionWithResultTask::Execute` is the same code, which also sets a promise in front
of each of its returns.  Here they are one function, with what is done in front of a return.

A task that returns leaves a trail of a fixed shape (`executeWith_shape`): attempts that failed,
and then either one that committed or the clean-up.  It returns unless every attempt fails and the
clock does not pass the limit (`exists_executeWith_iff`).

`ExecuteTransaction` is taken for atomic: an attempt with the code zero has committed, and no
other one has.

## Main definitions

* `TaskWorld` — the codes of the attempts and the readings of the clock.
* `TaskRun` — how far the task has come, and what it has done.
* `retryTurn`, `executeWith` — the code; `TransactionTask.execute` and
  `TransactionWithResultTask.execute` are its two copies.
* `Reported` — what is promised of a task that returns.
-/

namespace WarheadDiscord

/-- What a task does to its transaction and to its promise. -/
inductive TaskEffect
  /-- `TryExecute`, and the code it returns -/
  | execute (code : ℤ)
  | cleanup
  /-- `m_result.set_value` -/
  | setValue (value : Bool)
  deriving DecidableEq, Repr

/-- The codes that the calls of `ExecuteTransaction` return, and the readings of the clock, in
milliseconds. -/
structure TaskWorld where
  code : ℕ → ℤ
  clock : ℕ → ℤ
  clock_monotone : ∀ {i j : ℕ}, i ≤ j → clock i ≤ clock j

structure TaskRun where
  attempts : ℕ := 0
  readings : ℕ := 0
  log : List TaskEffect := []
  deriving DecidableEq, Repr

/-- `DEADLOCK_MAX_RETRY_TIME_MS` -/
def deadlockMaxRetryTime : ℤ := 60000

/-- `ER_LOCK_DEADLOCK` -/
def lockDeadlock : ℤ := 1213

def getMSTimeDiff (oldMSTime newMSTime : ℤ) : ℤ :=
  if oldMSTime > newMSTime then oldMSTime - newMSTime else newMSTime - oldMSTime

namespace TaskRun

def note (run : TaskRun) (effects : List TaskEffect) : TaskRun :=
  { run with log := run.log ++ effects }

def tryExecute (world : TaskWorld) (run : TaskRun) : ℤ × TaskRun :=
  (world.code run.attempts,
    { run.note [.execute (world.code run.attempts)] with attempts := run.attempts + 1 })

def getTimeMS (world : TaskWorld) (run : TaskRun) : ℤ × TaskRun :=
  (world.clock run.readings, { run with readings := run.readings + 1 })

end TaskRun

/-- The variables of the `for` loop. -/
structure RetryState where
  loopDuration : ℤ
  startMSTime : ℤ
  run : TaskRun
  deriving DecidableEq, Repr

/-- One turn of the loop.  It ends with `true` when the transaction is committed, and with `false`
when the time is up. -/
def retryTurn (world : TaskWorld) (s : RetryState) : RetryState ⊕ Bool × TaskRun :=
  if s.loopDuration ≤ deadlockMaxRetryTime then
    let (errorCode, run) := s.run.tryExecute world
    if errorCode = 0 then .inr (true, run)
    else
      let (now, run) := run.getTimeMS world
      .inl { s with loopDuration := getMSTimeDiff s.startMSTime now, run := run }
  else .inr (false, s.run)

/-- `Execute`, with the effects of the statement in front of a return. -/
def executeWith (report : Bool → List TaskEffect) (world : TaskWorld) (fuel : ℕ) :
    Option (Bool × TaskRun) :=
  let (errorCode, run) := TaskRun.tryExecute world {}
  if errorCode = 0 then some (true, run.note (report true))
  else if errorCode = lockDeadlock then
    let (startMSTime, run) := run.getTimeMS world
    match Loop.loop (retryTurn world) fuel ⟨0, startMSTime, run⟩ with
    | none => none
    | some (true, run) => some (true, run.note (report true))
    | some (false, run) => some (false, run.note (.cleanup :: report false))
  else some (false, run.note (.cleanup :: report false))

def TransactionTask.execute : TaskWorld → ℕ → Option (Bool × TaskRun) := executeWith fun _ => []

def TransactionWithResultTask.execute : TaskWorld → ℕ → Option (Bool × TaskRun) :=
  executeWith fun value => [.setValue value]

/-- The value that a promise is set to. -/
def TaskEffect.value? : TaskEffect → Option Bool
  | .setValue value => some value
  | _ => none

/-- What is promised of a task that has returned the value: the transaction is committed once or
not at all, and cleaned up if it is not, and then not executed any more. -/
structure Reported (value : Bool) (log : List TaskEffect) : Prop where
  commits : log.count (.execute 0) = if value then 1 else 0
  cleanups : log.count .cleanup = if value then 0 else 1
  executes : ∀ before after, log = before ++ .cleanup :: after → ∀ code, .execute code ∉ after

/-! ## The loop -/

section Retry
variable {world : TaskWorld} {s t : RetryState} {value : Bool} {run : TaskRun}

/-- In front of a turn of the loop: all attempts up to now have failed, and the time is that of
the last reading. -/
structure Retrying (world : TaskWorld) (s : RetryState) : Prop where
  attempts_pos : 0 < s.run.attempts
  readings : s.run.readings = s.run.attempts
  start : s.startMSTime = world.clock 0
  duration : s.loopDuration = world.clock (s.run.attempts - 1) - world.clock 0
  failed : ∀ k < s.run.attempts, world.code k ≠ 0
  log : s.run.log = (List.range s.run.attempts).map fun k => .execute (world.code k)

theorem getMSTimeDiff_clock (world : TaskWorld) (k : ℕ) :
    getMSTimeDiff (world.clock 0) (world.clock k) = world.clock k - world.clock 0 := by
  have hle : world.clock 0 ≤ world.clock k := world.clock_monotone (Nat.zero_le k)
  rw [getMSTimeDiff, if_neg (not_lt.mpr hle)]

/-- The state after an attempt that failed. -/
def RetryState.again (world : TaskWorld) (s : RetryState) : RetryState where
  loopDuration := getMSTimeDiff s.startMSTime (world.clock s.run.readings)
  startMSTime := s.startMSTime
  run := ((s.run.tryExecute world).2.getTimeMS world).2

theorem Retrying.again (h : Retrying world s) (hcode : world.code s.run.attempts ≠ 0) :
    Retrying world (s.again world) where
  attempts_pos := Nat.succ_pos _
  readings := congrArg (· + 1) h.readings
  start := h.start
  duration := by
    rw [RetryState.again, h.start, h.readings]
    exact getMSTimeDiff_clock world _
  failed := by
    intro k hk
    rcases Nat.lt_succ_iff_lt_or_eq.mp hk with hlt | rfl
    · exact h.failed k hlt
    · exact hcode
  log := by
    have hattempts : (s.again world).run.attempts = s.run.attempts + 1 := rfl
    have hlog : (s.again world).run.log =
        s.run.log ++ [.execute (world.code s.run.attempts)] := rfl
    rw [hattempts, hlog, h.log, List.range_succ, List.map_append, List.map_singleton]

/-- **What a turn does**: the time is up, or the attempt commits, or it fails and there is
another turn. -/
theorem retryTurn_cases (world : TaskWorld) (s : RetryState) :
    (deadlockMaxRetryTime < s.loopDuration ∧ retryTurn world s = .inr (false, s.run)) ∨
    (world.code s.run.attempts = 0 ∧
      retryTurn world s = .inr (true, (s.run.tryExecute world).2)) ∨
    (s.loopDuration ≤ deadlockMaxRetryTime ∧ world.code s.run.attempts ≠ 0 ∧
      retryTurn world s = .inl (s.again world)) := by
  rw [retryTurn]
  by_cases htime : s.loopDuration ≤ deadlockMaxRetryTime
  · rw [if_pos htime]
    by_cases hcode : world.code s.run.attempts = 0
    · exact .inr (.inl ⟨hcode, if_pos hcode⟩)
    · exact .inr (.inr ⟨htime, hcode, if_neg hcode⟩)
  · exact .inl ⟨not_le.mp htime, if_neg htime⟩

theorem Retrying.turn (h : Retrying world s) (ht : retryTurn world s = .inl t) :
    Retrying world t := by
  rcases retryTurn_cases world s with ⟨-, hs⟩ | ⟨-, hs⟩ | ⟨-, hcode, hs⟩
  · rw [hs] at ht
    cases ht
  · rw [hs] at ht
    cases ht
  · rw [hs] at ht
    cases ht
    exact h.again hcode

/-- **In a run of the loop nothing is committed, cleaned up or promised before it returns.** -/
theorem Retrying.reaches (h : Retrying world s) (hreaches : Loop.Reaches (retryTurn world) s t) :
    Retrying world t := by
  induction hreaches with
  | refl => exact h
  | tail _ hturn ih => exact ih.turn hturn

theorem Retrying.mem_log (h : Retrying world s) {e : TaskEffect} (he : e ∈ s.run.log) :
    ∃ code, code ≠ 0 ∧ e = .execute code := by
  rw [h.log] at he
  obtain ⟨k, hk, rfl⟩ := List.mem_map.mp he
  exact ⟨world.code k, h.failed k (List.mem_range.mp hk), rfl⟩

/-- All attempts up to the last one fail, and that one commits if the value is true. -/
structure Ended (world : TaskWorld) (value : Bool) (run : TaskRun) : Prop where
  attempts_pos : 0 < run.attempts
  failed : ∀ k, k + 1 < run.attempts → world.code k ≠ 0
  last : world.code (run.attempts - 1) = 0 ↔ value = true
  log : run.log = (List.range run.attempts).map fun k => .execute (world.code k)

/-- When the loop returns, the last attempt has committed, or none has and the clock has passed
the limit. -/
theorem ended_of_returns (h : Retrying world s)
    (hreturns : Loop.Returns (retryTurn world) s (value, run)) :
    Ended world value run ∧
      (value = false →
        deadlockMaxRetryTime < world.clock (run.attempts - 1) - world.clock 0) := by
  obtain ⟨t, ht, hend⟩ := hreturns.exists_end (fun _ _ h ht => h.turn ht) h
  rcases retryTurn_cases world t with ⟨htime, hs⟩ | ⟨hcode, hs⟩ | ⟨-, -, hs⟩
  · rw [hs] at hend
    cases hend
    have hlast : world.code (t.run.attempts - 1) ≠ 0 :=
      ht.failed _ (Nat.sub_lt ht.attempts_pos Nat.one_pos)
    refine ⟨⟨ht.attempts_pos, ?_, by simp [hlast], ht.log⟩, ?_⟩
    · intro k hk
      exact ht.failed k (by omega)
    · intro _
      rw [← ht.duration]
      exact htime
  · rw [hs] at hend
    cases hend
    refine ⟨⟨Nat.succ_pos _, ?_, ?_, ?_⟩, fun hfalse => by cases hfalse⟩
    · intro k hk
      exact ht.failed k (Nat.lt_of_succ_lt_succ hk)
    · exact ⟨fun _ => rfl, fun _ => hcode⟩
    · have hlog : (t.run.tryExecute world).2.log =
          t.run.log ++ [.execute (world.code t.run.attempts)] := rfl
      have hattempts : (t.run.tryExecute world).2.attempts = t.run.attempts + 1 := rfl
      rw [hlog, hattempts, ht.log, List.range_succ, List.map_append, List.map_singleton]
  · rw [hs] at hend
    cases hend

/-- The loop returns if an attempt commits or the clock passes the limit. -/
theorem exists_returns (h : Retrying world s) {k : ℕ} (hk : s.run.attempts ≤ k)
    (hend : world.code k = 0 ∨ deadlockMaxRetryTime < world.clock k - world.clock 0) :
    ∃ r, Loop.Returns (retryTurn world) s r := by
  -- the attempt `k` is made, or the time is up behind it
  have hturn : ∀ s, (Retrying world s ∧ s.run.attempts ≤ k + 1 ∧
      (s.run.attempts = k + 1 → deadlockMaxRetryTime < s.loopDuration)) →
      (∃ r, retryTurn world s = .inr r ∧ True) ∨ ∃ t, retryTurn world s = .inl t ∧
        (Retrying world t ∧ t.run.attempts ≤ k + 1 ∧
          (t.run.attempts = k + 1 → deadlockMaxRetryTime < t.loopDuration)) ∧
        k + 1 - t.run.attempts < k + 1 - s.run.attempts := by
    intro s ⟨hretrying, hle, hlast⟩
    rcases retryTurn_cases world s with ⟨-, hs⟩ | ⟨-, hs⟩ | ⟨htime, hcode, hs⟩
    · exact .inl ⟨_, hs, trivial⟩
    · exact .inl ⟨_, hs, trivial⟩
    · have hlt : s.run.attempts < k + 1 :=
        Nat.lt_of_le_of_ne hle fun heq => absurd htime (not_le.mpr (hlast heq))
      have hattempts : (s.again world).run.attempts = s.run.attempts + 1 := rfl
      refine .inr ⟨_, hs, ⟨hretrying.again hcode, by omega, ?_⟩, by omega⟩
      intro heq
      obtain rfl : s.run.attempts = k := by omega
      rw [(hretrying.again hcode).duration, hattempts]
      exact hend.resolve_left hcode
  obtain ⟨r, hreturns, -⟩ := Loop.exists_returns_of_lt
    (fun s : RetryState => k + 1 - s.run.attempts) hturn ⟨h, by omega, by omega⟩
  exact ⟨r, hreturns⟩

end Retry

/-! ## The tasks -/

section Execute
variable {report : Bool → List TaskEffect} {world : TaskWorld} {value : Bool} {run : TaskRun}

/-- The state in front of the loop. -/
def retryStart (world : TaskWorld) : RetryState :=
  ⟨0, world.clock 0, ((TaskRun.tryExecute world {}).2.getTimeMS world).2⟩

theorem retrying_start (hcode : world.code 0 ≠ 0) : Retrying world (retryStart world) where
  attempts_pos := Nat.one_pos
  readings := rfl
  start := rfl
  duration := (sub_self _).symm
  failed := by
    intro k hk
    obtain rfl : k = 0 := Nat.lt_one_iff.mp hk
    exact hcode
  log := rfl

/-- What a task does after its last attempt. -/
def finish (report : Bool → List TaskEffect) (value : Bool) : List TaskEffect :=
  if value then report true else .cleanup :: report false

theorem ended_first (hcode : world.code 0 = 0 ↔ value = true) :
    Ended world value (TaskRun.tryExecute world {}).2 where
  attempts_pos := Nat.one_pos
  failed := fun _ hk => absurd (Nat.lt_of_succ_lt_succ hk) (Nat.not_lt_zero _)
  last := hcode
  log := rfl

/-- The two copies of the code in one formula. -/
theorem executeWith_eq (report : Bool → List TaskEffect) (world : TaskWorld) (fuel : ℕ) :
    executeWith report world fuel =
      if world.code 0 = lockDeadlock then
        (Loop.loop (retryTurn world) fuel (retryStart world)).map fun r =>
          (r.1, r.2.note (finish report r.1))
      else
        some (decide (world.code 0 = 0),
          (TaskRun.tryExecute world {}).2.note (finish report (decide (world.code 0 = 0)))) := by
  have hdef : executeWith report world fuel =
      if world.code 0 = 0 then some (true, (TaskRun.tryExecute world {}).2.note (report true))
      else if world.code 0 = lockDeadlock then
        match Loop.loop (retryTurn world) fuel (retryStart world) with
        | none => none
        | some (true, run) => some (true, run.note (report true))
        | some (false, run) => some (false, run.note (.cleanup :: report false))
      else some (false, (TaskRun.tryExecute world {}).2.note (.cleanup :: report false)) := rfl
  rw [hdef]
  by_cases hdeadlock : world.code 0 = lockDeadlock
  · have hzero : world.code 0 ≠ 0 := by rw [hdeadlock]; decide
    rw [if_neg hzero, if_pos hdeadlock, if_pos hdeadlock]
    rcases Loop.loop (retryTurn world) fuel (retryStart world) with _ | ⟨_ | _, run⟩
    · rfl
    · rfl
    · rfl
  · rw [if_neg hdeadlock, if_neg hdeadlock]
    by_cases hzero : world.code 0 = 0
    · simp [hzero, finish]
    · simp [hzero, finish]

/-- **How a task returns.** -/
theorem executeWith_shape {fuel : ℕ} (h : executeWith report world fuel = some (value, run)) :
    ∃ ended, run = ended.note (finish report value) ∧ Ended world value ended ∧
      (world.code 0 ≠ lockDeadlock → ended.attempts = 1) ∧
      (value = false → world.code 0 = lockDeadlock →
        deadlockMaxRetryTime < world.clock (ended.attempts - 1) - world.clock 0) := by
  rw [executeWith_eq] at h
  by_cases hdeadlock : world.code 0 = lockDeadlock
  · rw [if_pos hdeadlock] at h
    have hstart : Retrying world (retryStart world) := retrying_start (by rw [hdeadlock]; decide)
    cases hloop : Loop.loop (retryTurn world) fuel (retryStart world) with
    | none =>
        rw [hloop] at h
        cases h
    | some r =>
        rw [hloop] at h
        cases h
        obtain ⟨hended, htime⟩ := ended_of_returns hstart ⟨fuel, hloop⟩
        exact ⟨r.2, rfl, hended, fun hne => absurd hdeadlock hne, fun hvalue _ => htime hvalue⟩
  · rw [if_neg hdeadlock] at h
    cases h
    exact ⟨_, rfl, ended_first (by simp), fun _ => rfl, fun _ h => absurd h hdeadlock⟩

/-- **When a task returns**: if the first attempt is not a deadlock, or some attempt commits, or
the clock passes the limit. -/
theorem exists_executeWith_iff (report : Bool → List TaskEffect) (world : TaskWorld) :
    (∃ fuel value run, executeWith report world fuel = some (value, run)) ↔
      world.code 0 ≠ lockDeadlock ∨
        ∃ k, world.code k = 0 ∨ deadlockMaxRetryTime < world.clock k - world.clock 0 := by
  constructor
  · rintro ⟨fuel, value, run, h⟩
    obtain ⟨ended, -, hended, -, htime⟩ := executeWith_shape h
    by_cases hdeadlock : world.code 0 = lockDeadlock
    · refine .inr ⟨ended.attempts - 1, ?_⟩
      cases value with
      | true => exact .inl (hended.last.mpr rfl)
      | false => exact .inr (htime rfl hdeadlock)
    · exact .inl hdeadlock
  · intro hend
    by_cases hdeadlock : world.code 0 = lockDeadlock
    · have hzero : world.code 0 ≠ 0 := by rw [hdeadlock]; decide
      obtain ⟨k, hk⟩ := hend.resolve_left (not_not_intro hdeadlock)
      have hpos : 1 ≤ k := by
        rw [Nat.one_le_iff_ne_zero]
        rintro rfl
        rcases hk with hcode | htime
        · exact hzero hcode
        · rw [sub_self] at htime
          exact absurd htime (by decide)
      obtain ⟨r, fuel, hloop⟩ := exists_returns (retrying_start hzero) hpos hk
      refine ⟨fuel, r.1, r.2.note (finish report r.1), ?_⟩
      rw [executeWith_eq, if_pos hdeadlock, hloop]
      rfl
    · exact ⟨0, _, _, (executeWith_eq report world 0).trans (if_neg hdeadlock)⟩

/-- An attempt is neither a clean-up nor a promise. -/
theorem Ended.mem_log {ended : TaskRun} (h : Ended world value ended) {e : TaskEffect}
    (he : e ∈ ended.log) : ∃ k, e = .execute (world.code k) := by
  rw [h.log] at he
  obtain ⟨k, -, rfl⟩ := List.mem_map.mp he
  exact ⟨k, rfl⟩

theorem Ended.count_commit {ended : TaskRun} (h : Ended world value ended) :
    ended.log.count (.execute 0) = if value then 1 else 0 := by
  obtain ⟨n, hn⟩ := Nat.exists_eq_succ_of_ne_zero (Nat.ne_of_gt h.attempts_pos)
  have hbefore : ((List.range n).map fun k => TaskEffect.execute (world.code k)).count
      (.execute 0) = 0 := by
    rw [List.count_eq_zero]
    intro hmem
    obtain ⟨k, hk, heq⟩ := List.mem_map.mp hmem
    rw [List.mem_range] at hk
    exact h.failed k (by omega) (TaskEffect.execute.inj heq)
  have hlast := h.last
  rw [hn, Nat.succ_sub_one] at hlast
  rw [h.log, hn, List.range_succ, List.map_append, List.count_append, hbefore]
  by_cases hcode : world.code n = 0
  · simp [hcode, hlast.mp hcode]
  · have hvalue : value = false := by simpa using hlast.not.mp hcode
    simp [hcode, hvalue]

/-- The log of a task that has ended is as promised, if all it does in front of a return is to
set the promise. -/
theorem Ended.reported {ended : TaskRun} (h : Ended world value ended)
    (hreport : ∀ value, ∀ e ∈ report value, e.value?.isSome = true) :
    Reported value (ended.note (finish report value)).log := by
  have hnot : ∀ value e, e.value? = none → e ∉ report value := by
    intro value e he hmem
    have hsome := hreport value e hmem
    rw [he] at hsome
    cases hsome
  have hcleanup : .cleanup ∉ ended.log := by
    intro hmem
    obtain ⟨k, hk⟩ := h.mem_log hmem
    cases hk
  have hlog : (ended.note (finish report value)).log = ended.log ++ finish report value := rfl
  rw [hlog]
  cases value with
  | true =>
      have hfinish : finish report true = report true := rfl
      rw [hfinish]
      refine ⟨?_, ?_, ?_⟩
      · rw [List.count_append, h.count_commit, List.count_eq_zero_of_not_mem (hnot true _ rfl)]
        rfl
      · rw [List.count_append, List.count_eq_zero_of_not_mem hcleanup,
          List.count_eq_zero_of_not_mem (hnot true _ rfl)]
        rfl
      · intro before after heq
        have hmem : .cleanup ∈ ended.log ++ report true := by simp [heq]
        rcases List.mem_append.mp hmem with hmem | hmem
        · exact absurd hmem hcleanup
        · exact absurd hmem (hnot true _ rfl)
  | false =>
      have hfinish : finish report false = .cleanup :: report false := rfl
      rw [hfinish]
      refine ⟨?_, ?_, ?_⟩
      · rw [List.count_append, h.count_commit, List.count_cons_of_ne (by decide),
          List.count_eq_zero_of_not_mem (hnot false _ rfl)]
        rfl
      · rw [List.count_append, List.count_eq_zero_of_not_mem hcleanup, List.count_cons_self,
          List.count_eq_zero_of_not_mem (hnot false _ rfl)]
        rfl
      · intro before after heq code
        obtain ⟨-, -, rfl⟩ := (List.append_cons_inj_of_notMem hcleanup (hnot false _ rfl)).mp heq
        exact hnot false _ rfl

theorem Ended.filterMap_value? {ended : TaskRun} (h : Ended world value ended) :
    ended.log.filterMap TaskEffect.value? = [] := by
  rw [List.filterMap_eq_nil_iff]
  intro e he
  obtain ⟨k, rfl⟩ := h.mem_log he
  rfl

end Execute

/-- **Transaction tasks report what happened**: a task that returns has done what is promised of
the value it returns, a first error other than a deadlock is the end of it, it returns unless all
attempts fail and the clock never passes the limit, and until then all it has done is to fail. -/
theorem transactionTasks_reported (world : TaskWorld) :
    (∀ fuel value run, TransactionTask.execute world fuel = some (value, run) →
      Reported value run.log ∧ run.log.filterMap TaskEffect.value? = [] ∧
        (world.code 0 ≠ lockDeadlock → run.attempts = 1)) ∧
    (∀ fuel value run, TransactionWithResultTask.execute world fuel = some (value, run) →
      Reported value run.log ∧ run.log.filterMap TaskEffect.value? = [value] ∧
        (world.code 0 ≠ lockDeadlock → run.attempts = 1)) ∧
    (∀ execute ∈ [TransactionTask.execute, TransactionWithResultTask.execute],
      (∃ fuel value run, execute world fuel = some (value, run)) ↔
        world.code 0 ≠ lockDeadlock ∨
          ∃ k, world.code k = 0 ∨ deadlockMaxRetryTime < world.clock k - world.clock 0) ∧
    ∀ s, world.code 0 = lockDeadlock → Loop.Reaches (retryTurn world) (retryStart world) s →
      ∀ e ∈ s.run.log, ∃ code, code ≠ 0 ∧ e = .execute code := by
  refine ⟨?_, ?_, ?_, ?_⟩
  · intro fuel value run h
    obtain ⟨ended, rfl, hended, hfirst, -⟩ := executeWith_shape h
    refine ⟨hended.reported (by simp), ?_, hfirst⟩
    rw [TaskRun.note, List.filterMap_append, hended.filterMap_value?]
    cases value <;> rfl
  · intro fuel value run h
    obtain ⟨ended, rfl, hended, hfirst, -⟩ := executeWith_shape h
    refine ⟨hended.reported (by simp [TaskEffect.value?]), ?_, hfirst⟩
    rw [TaskRun.note, List.filterMap_append, hended.filterMap_value?]
    cases value <;> rfl
  · intro execute hmem
    obtain rfl | rfl : execute = TransactionTask.execute ∨
        execute = TransactionWithResultTask.execute := by simpa using hmem
    · exact exists_executeWith_iff _ world
    · exact exists_executeWith_iff _ world
  · intro s hdeadlock hreaches e he
    have hstart : Retrying world (retryStart world) := retrying_start (by rw [hdeadlock]; decide)
    exact (hstart.reaches hreaches).mem_log he

/-- A transaction that is caught in a deadlock, then waits too long for a lock, and then is
committed; the clock moves on by ten seconds from reading to reading. -/
def retriedWorld : TaskWorld where
  code attempt := [lockDeadlock, 1205].getD attempt 0
  clock reading := 10000 * reading
  clock_monotone h := by omega

/-- The task of `retriedWorld` is done after three attempts, and so it has kept its promise. -/
theorem transactionTasks_reported_retried :
    ∃ run, TransactionWithResultTask.execute retriedWorld 3 = some (true, run) ∧
      run.log = [.execute lockDeadlock, .execute 1205, .execute 0, .setValue true] ∧
      Reported true run.log := by
  refine ⟨_, rfl, rfl, ?_⟩
  exact ((transactionTasks_reported retriedWorld).2.1 3 _ _ rfl).1

end WarheadDiscord
