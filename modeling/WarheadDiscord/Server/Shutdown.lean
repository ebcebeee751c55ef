import Mathlib.Algebra.Order.Group.Unbundled.Int
import Mathlib.Data.List.Infix
import Mathlib.Data.List.Induction
import Mathlib.Tactic.Common

/-!
# The shutdown timer

`ShutdownServ` sets `_shutdownTimer`, or stops the server at once.  `_UpdateGameTime` reads
the clock and takes the seconds that have passed off the timer, and when there are not that
many left it sets the stop event.  The timer is zero when nothing is planned, and also after
`ShutdownCancel`.

What the timer is for is said by the history of the calls: `Pending` is the last shutdown
that was not cancelled, with the time it was promised for and the seconds that were observed
since.  The server is stopped
when these have reached the time of that shutdown, and not before (`shutdown_timer`).

The clock may be turned back between two readings, and then no time passes.  The number of
sessions is whatever it is at each call.  Log messages are left out.

## Main definitions

* `Discord`, `updateGameTime`, `shutdownServ`, `shutdownCancel` — the code.
* `Discord.Call`, `Discord.run` — the calls, and a sequence of them.
* `Discord.promisedTime`, `Discord.Pending` — the shutdown that is planned after some calls.
-/

namespace WarheadDiscord

/-- `ShutdownExitCode` -/
def SHUTDOWN_EXIT_CODE : UInt8 := 0

/-- The server, as far as its shutdown goes, with the game time. -/
structure Discord where
  stopEvent : Bool
  exitCode : UInt8
  shutdownTimer : ℤ
  gameTime : ℤ
  deriving DecidableEq, Repr

namespace Discord

/-- The initial state, with the time that the clock showed at first. -/
def new (gameTime : ℤ) : Discord := ⟨false, SHUTDOWN_EXIT_CODE, 0, gameTime⟩

/-- `_UpdateGameTime`, when the clock shows the given time. -/
def updateGameTime (d : Discord) (epochTime : ℤ) : Discord :=
  let elapsed := epochTime - d.gameTime
  if d.stopEvent = false ∧ d.shutdownTimer > 0 ∧ elapsed > 0 then
    if d.shutdownTimer ≤ elapsed then { d with gameTime := epochTime, stopEvent := true }
    else { d with gameTime := epochTime, shutdownTimer := d.shutdownTimer - elapsed }
  else { d with gameTime := epochTime }

/-- The time after which `ShutdownServ` stops the server. -/
def shutdownTime (time : ℤ) (activeSessionCount : UInt32) : ℤ :=
  if time < 2 ∧ activeSessionCount ≠ 0 then 2 else time

def shutdownServ (d : Discord) (time : ℤ) (exitcode : UInt8) (activeSessionCount : UInt32) :
    Discord :=
  if d.stopEvent then d
  else
    let time := shutdownTime time activeSessionCount
    if time = 0 then { d with exitCode := exitcode, stopEvent := true }
    else { d with exitCode := exitcode, shutdownTimer := time }

def shutdownCancel (d : Discord) : Discord :=
  if d.shutdownTimer = 0 ∨ d.stopEvent = true then d
  else { d with shutdownTimer := 0, exitCode := SHUTDOWN_EXIT_CODE }

/-- The calls, each with what it finds in its surroundings. -/
inductive Call
  | updateGameTime (epochTime : ℤ)
  | shutdownServ (time : ℕ) (exitcode : UInt8) (activeSessionCount : UInt32)
  | shutdownCancel
  deriving DecidableEq, Repr

def call (d : Discord) : Call → Discord
  | .updateGameTime epochTime => d.updateGameTime epochTime
  | .shutdownServ time exitcode count => d.shutdownServ time exitcode count
  | .shutdownCancel => d.shutdownCancel

/-- The server after some calls. -/
def run (gameTime : ℤ) (calls : List Call) : Discord := calls.foldl call (new gameTime)

/-! ## What is planned -/

/-- The game time after some calls. -/
def lastTime (gameTime : ℤ) : List Call → ℤ
  | [] => gameTime
  | .updateGameTime epochTime :: calls => lastTime epochTime calls
  | _ :: calls => lastTime gameTime calls

/-- The sum of the positive elapsed times that some calls observe. -/
def observed (gameTime : ℤ) : List Call → ℤ
  | [] => 0
  | .updateGameTime epochTime :: calls => max 0 (epochTime - gameTime) + observed epochTime calls
  | _ :: calls => observed gameTime calls

/-- The call does not plan or cancel a shutdown. -/
def Call.IsUpdate : Call → Prop
  | .updateGameTime _ => True
  | _ => False

/-- The time that a shutdown is promised for: the one asked for, but not less than two seconds
while there are sessions. -/
def promisedTime (seconds : ℕ) (count : UInt32) : ℤ :=
  if count = 0 then seconds else max 2 seconds

/-- A shutdown was planned with the given time and not cancelled, and the given sum was
observed since. -/
def Pending (gameTime : ℤ) (calls : List Call) (time sum : ℤ) : Prop :=
  ∃ (before : List Call) (seconds : ℕ) (exitcode : UInt8) (count : UInt32) (after : List Call),
    calls = before ++ .shutdownServ seconds exitcode count :: after ∧
      (∀ c ∈ after, c.IsUpdate) ∧ time = promisedTime seconds count ∧
      sum = observed (lastTime gameTime before) after

/-- The time of the shutdown has come. -/
def Due (gameTime : ℤ) (calls : List Call) : Prop :=
  ∃ time sum, Pending gameTime calls time sum ∧ time ≤ sum

variable {gameTime time sum : ℤ} {calls calls' : List Call} {c : Call} {d : Discord}

theorem lastTime_append (gameTime : ℤ) (calls calls' : List Call) :
    lastTime gameTime (calls ++ calls') = lastTime (lastTime gameTime calls) calls' := by
  induction calls generalizing gameTime with
  | nil => rfl
  | cons c calls ih => cases c <;> exact ih _

theorem observed_append (gameTime : ℤ) (calls calls' : List Call) :
    observed gameTime (calls ++ calls') =
      observed gameTime calls + observed (lastTime gameTime calls) calls' := by
  induction calls generalizing gameTime with
  | nil => simp [observed, lastTime]
  | cons c calls ih =>
      cases c with
      | updateGameTime epochTime =>
          rw [List.cons_append, observed, observed, lastTime, ih, add_assoc]
      | shutdownServ => exact ih _
      | shutdownCancel => exact ih _

/-- What is planned after one more call. -/
theorem pending_concat : Pending gameTime (calls ++ [c]) time sum ↔
    (∃ (seconds : ℕ) (exitcode : UInt8) (count : UInt32),
      c = .shutdownServ seconds exitcode count ∧ time = promisedTime seconds count ∧ sum = 0) ∨
    c.IsUpdate ∧ ∃ sum', Pending gameTime calls time sum' ∧
      sum = sum' + observed (lastTime gameTime calls) [c] := by
  constructor
  · rintro ⟨before, seconds, exitcode, count, after, hcalls, hafter, htime, hsum⟩
    rcases List.eq_nil_or_concat' after with rfl | ⟨after', c', rfl⟩
    · obtain ⟨-, hc⟩ := List.append_inj' hcalls rfl
      exact .inl ⟨seconds, exitcode, count, List.singleton_inj.mp hc, htime, hsum⟩
    · rw [← List.cons_append, ← List.append_assoc] at hcalls
      obtain ⟨hbefore, hc⟩ := List.append_inj' hcalls rfl
      obtain rfl := List.singleton_inj.mp hc
      refine .inr ⟨hafter c (by simp), _, ⟨before, seconds, exitcode, count, after', hbefore,
        fun c' hc' => hafter c' (List.mem_append_left _ hc'), htime, rfl⟩, ?_⟩
      rw [hsum, observed_append, hbefore, lastTime_append]
      rfl
  · rintro (⟨seconds, exitcode, count, rfl, htime, hsum⟩ | ⟨hc, sum', hpending, hsum⟩)
    · exact ⟨calls, seconds, exitcode, count, [], rfl, by simp, htime, hsum⟩
    · obtain ⟨before, seconds, exitcode, count, after, rfl, hafter, htime, rfl⟩ := hpending
      refine ⟨before, seconds, exitcode, count, after ++ [c], by simp, ?_, htime, ?_⟩
      · intro c' hc'
        rcases List.mem_append.mp hc' with hc' | hc'
        · exact hafter c' hc'
        · rw [List.mem_singleton.mp hc']
          exact hc
      · rw [hsum, observed_append, lastTime_append]
        rfl

/-! ## The calls one by one -/

theorem run_concat : run gameTime (calls ++ [c]) = (run gameTime calls).call c := by
  rw [run, List.foldl_append]
  rfl

theorem gameTime_call (d : Discord) (c : Call) :
    (d.call c).gameTime = lastTime d.gameTime [c] := by
  cases c with
  | updateGameTime epochTime =>
      simp only [call, updateGameTime, lastTime]
      split_ifs <;> rfl
  | shutdownServ time exitcode count =>
      simp only [call, shutdownServ, lastTime]
      split_ifs <;> rfl
  | shutdownCancel =>
      simp only [call, shutdownCancel, lastTime]
      split_ifs <;> rfl

theorem gameTime_run (gameTime : ℤ) (calls : List Call) :
    (run gameTime calls).gameTime = lastTime gameTime calls := by
  induction calls using List.reverseRecOn with
  | nil => rfl
  | append_singleton calls c ih => rw [run_concat, gameTime_call, ih, lastTime_append]

/-- **After the stop event, nothing changes but the time.** -/
theorem call_of_stopEvent (h : d.stopEvent = true) (c : Call) :
    (d.call c).stopEvent = true ∧ (d.call c).exitCode = d.exitCode ∧
      (d.call c).shutdownTimer = d.shutdownTimer := by
  cases c <;> simp [call, updateGameTime, shutdownServ, shutdownCancel, h]

/-- The timer counts what is planned, and the stop event is set when the time has come. -/
structure Counts (gameTime : ℤ) (calls : List Call) (d : Discord) : Prop where
  stopped : d.stopEvent = true ↔ ∃ before, before <+: calls ∧ Due gameTime before
  pending : d.stopEvent = false → ∀ time sum, Pending gameTime calls time sum →
    d.shutdownTimer = time - sum
  idle : d.stopEvent = false → (∀ time sum, ¬Pending gameTime calls time sum) →
    d.shutdownTimer = 0

/-- While the timer runs, the positive part of the elapsed time is what counts. -/
theorem updateGameTime_of_pos (hstop : d.stopEvent = false) (hpos : 0 < d.shutdownTimer)
    (epochTime : ℤ) :
    d.updateGameTime epochTime =
      if d.shutdownTimer ≤ max 0 (epochTime - d.gameTime) then
        { d with gameTime := epochTime, stopEvent := true }
      else
        { d with
          gameTime := epochTime
          shutdownTimer := d.shutdownTimer - max 0 (epochTime - d.gameTime) } := by
  rcases lt_or_ge 0 (epochTime - d.gameTime) with helapsed | helapsed
  · rw [max_eq_right helapsed.le, updateGameTime]
    exact if_pos ⟨hstop, hpos, helapsed⟩
  · rw [max_eq_left helapsed, if_neg (not_le.mpr hpos), sub_zero, updateGameTime]
    exact if_neg fun h => absurd h.2.2 (not_lt.mpr helapsed)

theorem updateGameTime_of_eq_zero (hzero : d.shutdownTimer = 0) (epochTime : ℤ) :
    d.updateGameTime epochTime = { d with gameTime := epochTime } := by
  rw [updateGameTime]
  exact if_neg fun h => absurd h.2.1 (by simp [hzero])

/-- The code raises the time as promised. -/
theorem shutdownTime_eq (seconds : ℕ) (count : UInt32) :
    shutdownTime seconds count = promisedTime seconds count := by
  unfold shutdownTime promisedTime
  split_ifs with hraised hcount hcount
  · exact absurd hcount hraised.2
  · omega
  · rfl
  · have : ¬(seconds : ℤ) < 2 := fun hlt => hraised ⟨hlt, hcount⟩
    omega

theorem promisedTime_nonneg (seconds : ℕ) (count : UInt32) : 0 ≤ promisedTime seconds count := by
  unfold promisedTime
  split_ifs <;> omega

/-- As long as the server is not stopped, a planned shutdown is still to come. -/
theorem Counts.lt (h : Counts gameTime calls d) (hstop : d.stopEvent = false)
    (hpending : Pending gameTime calls time sum) : sum < time := by
  by_contra hle
  have hstopped := h.stopped.mpr ⟨calls, List.prefix_rfl, time, sum, hpending, not_lt.mp hle⟩
  rw [hstop] at hstopped
  cases hstopped

/-- A call that stops the server, when the time of the shutdown has come with it. -/
theorem Counts.stop {d' : Discord} (hstop : d'.stopEvent = true)
    (hdue : Due gameTime (calls ++ [c])) : Counts gameTime (calls ++ [c]) d' where
  stopped := ⟨fun _ => ⟨_, List.prefix_rfl, hdue⟩, fun _ => hstop⟩
  pending hrunning := by
    rw [hstop] at hrunning
    cases hrunning
  idle hrunning := by
    rw [hstop] at hrunning
    cases hrunning

/-- A call that leaves a server running. -/
theorem Counts.running (h : Counts gameTime calls d) (hstop : d.stopEvent = false)
    {d' : Discord} (hrunning : d'.stopEvent = false)
    (hpending : ∀ time sum, Pending gameTime (calls ++ [c]) time sum →
      d'.shutdownTimer = time - sum ∧ sum < time)
    (hidle : (∀ time sum, ¬Pending gameTime (calls ++ [c]) time sum) → d'.shutdownTimer = 0) :
    Counts gameTime (calls ++ [c]) d' where
  stopped := by
    rw [hrunning]
    refine ⟨nofun, ?_⟩
    rintro ⟨before, hbefore, hdue⟩
    rcases List.prefix_concat_iff.mp hbefore with rfl | hbefore
    · obtain ⟨time, sum, hpending', hle⟩ := hdue
      exact absurd (hpending time sum hpending').2 (not_lt.mpr hle)
    · rw [← hstop, h.stopped]
      exact ⟨before, hbefore, hdue⟩
  pending _ time sum hpending' := (hpending time sum hpending').1
  idle _ := hidle

/-- What an update adds to the time that was observed. -/
theorem pending_concat_updateGameTime (hd : d.gameTime = lastTime gameTime calls)
    (epochTime : ℤ) :
    Pending gameTime (calls ++ [.updateGameTime epochTime]) time sum ↔
      ∃ sum', Pending gameTime calls time sum' ∧ sum = sum' + max 0 (epochTime - d.gameTime) := by
  rw [pending_concat, hd]
  simp [Call.IsUpdate, observed]

theorem counts_updateGameTime_of_pending (hd : d.gameTime = lastTime gameTime calls)
    (h : Counts gameTime calls d) (hstop : d.stopEvent = false)
    (hpending : Pending gameTime calls time sum) (epochTime : ℤ) :
    Counts gameTime (calls ++ [.updateGameTime epochTime]) (d.updateGameTime epochTime) := by
  have htimer := h.pending hstop time sum hpending
  have hlt := h.lt hstop hpending
  have hconcat := (pending_concat_updateGameTime hd epochTime).mpr ⟨sum, hpending, rfl⟩
  rw [updateGameTime_of_pos hstop (by omega)]
  split_ifs with hle
  · exact .stop rfl ⟨time, _, hconcat, by omega⟩
  · refine h.running hstop hstop ?_ fun hidle => absurd hconcat (hidle time _)
    intro time' sum' hpending'
    obtain ⟨sum'', hpending'', rfl⟩ := (pending_concat_updateGameTime hd epochTime).mp hpending'
    have htimer' := h.pending hstop time' sum'' hpending''
    dsimp only
    omega

theorem counts_updateGameTime (hd : d.gameTime = lastTime gameTime calls)
    (h : Counts gameTime calls d) (hstop : d.stopEvent = false) (epochTime : ℤ) :
    Counts gameTime (calls ++ [.updateGameTime epochTime]) (d.updateGameTime epochTime) := by
  by_cases hplanned : ∃ time sum, Pending gameTime calls time sum
  · obtain ⟨time, sum, hpending⟩ := hplanned
    exact counts_updateGameTime_of_pending hd h hstop hpending epochTime
  · push Not at hplanned
    have hzero := h.idle hstop hplanned
    rw [updateGameTime_of_eq_zero hzero]
    refine h.running hstop hstop ?_ fun _ => hzero
    intro time sum hpending
    obtain ⟨sum', hpending', -⟩ := (pending_concat_updateGameTime hd epochTime).mp hpending
    exact absurd hpending' (hplanned time sum')

theorem pending_concat_shutdownServ {seconds : ℕ} {exitcode : UInt8} {count : UInt32} :
    Pending gameTime (calls ++ [.shutdownServ seconds exitcode count]) time sum ↔
      time = promisedTime seconds count ∧ sum = 0 := by
  rw [pending_concat]
  constructor
  · rintro (⟨_, _, _, hc, htime, hsum⟩ | ⟨hc, -⟩)
    · cases hc
      exact ⟨htime, hsum⟩
    · cases hc
  · rintro ⟨htime, hsum⟩
    exact .inl ⟨seconds, exitcode, count, rfl, htime, hsum⟩

theorem counts_shutdownServ (h : Counts gameTime calls d) (hstop : d.stopEvent = false)
    (seconds : ℕ) (exitcode : UInt8) (count : UInt32) :
    Counts gameTime (calls ++ [.shutdownServ seconds exitcode count])
      (d.shutdownServ seconds exitcode count) := by
  have hnonneg := promisedTime_nonneg seconds count
  have hplanned : Pending gameTime (calls ++ [.shutdownServ seconds exitcode count])
      (promisedTime seconds count) 0 := pending_concat_shutdownServ.mpr ⟨rfl, rfl⟩
  rw [shutdownServ, if_neg (by simp [hstop]), shutdownTime_eq]
  dsimp only
  split_ifs with hzero
  · exact .stop rfl ⟨_, 0, hplanned, hzero.le⟩
  · refine h.running hstop hstop ?_ fun hidle => absurd hplanned (hidle _ 0)
    intro time sum hpending
    obtain ⟨rfl, rfl⟩ := pending_concat_shutdownServ.mp hpending
    dsimp only
    omega

theorem not_pending_concat_shutdownCancel :
    ¬Pending gameTime (calls ++ [.shutdownCancel]) time sum := by
  rw [pending_concat]
  rintro (⟨_, _, _, hc, -⟩ | ⟨hc, -⟩) <;> cases hc

theorem counts_shutdownCancel (h : Counts gameTime calls d) (hstop : d.stopEvent = false) :
    Counts gameTime (calls ++ [.shutdownCancel]) d.shutdownCancel := by
  have hrunning : d.shutdownCancel.stopEvent = false := by
    unfold shutdownCancel
    split_ifs <;> exact hstop
  refine h.running hstop hrunning ?_ fun _ => ?_
  · intro time sum hpending
    exact absurd hpending not_pending_concat_shutdownCancel
  · unfold shutdownCancel
    split_ifs with hzero
    · rcases hzero with hzero | hstopped
      · exact hzero
      · rw [hstop] at hstopped
        cases hstopped
    · rfl

theorem counts_call (hd : d.gameTime = lastTime gameTime calls) (h : Counts gameTime calls d)
    (c : Call) : Counts gameTime (calls ++ [c]) (d.call c) := by
  cases hstop : d.stopEvent with
  | true =>
      have hstopped := (call_of_stopEvent hstop c).1
      obtain ⟨before, hbefore, hdue⟩ := h.stopped.mp hstop
      refine ⟨⟨fun _ => ⟨before, hbefore.trans (List.prefix_append _ _), hdue⟩,
        fun _ => hstopped⟩, ?_, ?_⟩
      · intro hrunning
        rw [hstopped] at hrunning
        cases hrunning
      · intro hrunning
        rw [hstopped] at hrunning
        cases hrunning
  | false =>
      cases c with
      | updateGameTime epochTime => exact counts_updateGameTime hd h hstop epochTime
      | shutdownServ seconds exitcode count =>
          exact counts_shutdownServ h hstop seconds exitcode count
      | shutdownCancel => exact counts_shutdownCancel h hstop

/-! ## All runs -/

theorem counts_run (gameTime : ℤ) (calls : List Call) :
    Counts gameTime calls (run gameTime calls) := by
  induction calls using List.reverseRecOn with
  | nil =>
      have hnone (time sum : ℤ) : ¬Pending gameTime [] time sum := by
        rintro ⟨before, seconds, exitcode, count, after, hcalls, -⟩
        simp at hcalls
      refine ⟨⟨nofun, ?_⟩, ?_, fun _ _ => rfl⟩
      · rintro ⟨before, hbefore, time, sum, hpending, -⟩
        rw [List.prefix_nil.mp hbefore] at hpending
        exact absurd hpending (hnone time sum)
      · exact fun _ time sum hpending => absurd hpending (hnone time sum)
  | append_singleton calls c ih =>
      rw [run_concat]
      exact counts_call (gameTime_run gameTime calls) ih c

theorem run_append (gameTime : ℤ) (calls calls' : List Call) :
    run gameTime (calls ++ calls') = calls'.foldl call (run gameTime calls) := by
  rw [run, run, List.foldl_append]

theorem foldl_of_stopEvent (h : d.stopEvent = true) (calls : List Call) :
    (calls.foldl call d).stopEvent = true ∧ (calls.foldl call d).exitCode = d.exitCode ∧
      (calls.foldl call d).shutdownTimer = d.shutdownTimer := by
  induction calls generalizing d with
  | nil => exact ⟨h, rfl, rfl⟩
  | cons c calls ih =>
      obtain ⟨hstop, hcode, htimer⟩ := call_of_stopEvent h c
      obtain ⟨hstop', hcode', htimer'⟩ := ih hstop
      exact ⟨hstop', hcode'.trans hcode, htimer'.trans htimer⟩

/-- Nothing is planned between a cancellation and the next `ShutdownServ`. -/
theorem not_pending_of_cancelled
    (hlater : ∀ c ∈ calls', ∀ seconds exitcode count, c ≠ .shutdownServ seconds exitcode count) :
    ¬Pending gameTime (calls ++ .shutdownCancel :: calls') time sum := by
  induction calls' using List.reverseRecOn generalizing sum with
  | nil => exact not_pending_concat_shutdownCancel
  | append_singleton calls' c ih =>
      rw [← List.cons_append, ← List.append_assoc, pending_concat]
      rintro (⟨seconds, exitcode, count, hc, -⟩ | ⟨-, sum', hpending, -⟩)
      · exact hlater c (by simp) seconds exitcode count hc
      · exact ih (fun c' hc' => hlater c' (List.mem_append_left _ hc')) hpending

theorem running_concat (hstop : (run gameTime calls).stopEvent = false)
    (hnone : ∀ time sum, ¬Pending gameTime (calls ++ [c]) time sum) :
    (run gameTime (calls ++ [c])).stopEvent = false := by
  rw [← Bool.not_eq_true, (counts_run gameTime _).stopped]
  rintro ⟨before, hbefore, time, sum, hpending, hdue⟩
  rcases List.prefix_concat_iff.mp hbefore with rfl | hbefore
  · exact hnone time sum hpending
  · have hstopped := (counts_run gameTime calls).stopped.mpr
      ⟨before, hbefore, time, sum, hpending, hdue⟩
    rw [hstop] at hstopped
    cases hstopped

theorem running_of_cancelled (hstop : (run gameTime calls).stopEvent = false)
    (hlater : ∀ c ∈ calls', ∀ seconds exitcode count, c ≠ .shutdownServ seconds exitcode count) :
    (run gameTime (calls ++ .shutdownCancel :: calls')).stopEvent = false := by
  induction calls' using List.reverseRecOn with
  | nil => exact running_concat hstop fun time sum => not_pending_of_cancelled (by simp)
  | append_singleton calls' c ih =>
      have hrunning := ih fun c' hc' => hlater c' (List.mem_append_left _ hc')
      rw [← List.cons_append, ← List.append_assoc]
      refine running_concat hrunning fun time sum => ?_
      rw [List.append_assoc, List.cons_append]
      exact not_pending_of_cancelled hlater

/-- **The shutdown timer**, for every sequence of calls.  The stop event is set once the
seconds observed since a shutdown was planned reach its time, and not before; while it is
planned the timer is what is left of its time; a time of zero stops a server without sessions
at once; a shutdown that was cancelled does not stop it; and after the stop event neither the
exit code nor the timer changes.  The time is the one `promisedTime` has. -/
theorem shutdown_timer (gameTime : ℤ) (calls : List Call) :
    ((run gameTime calls).stopEvent = true ↔
      ∃ before, before <+: calls ∧
        ∃ time sum, Pending gameTime before time sum ∧ time ≤ sum) ∧
    ((run gameTime calls).stopEvent = false →
      (∀ time sum, Pending gameTime calls time sum →
        (run gameTime calls).shutdownTimer = time - sum ∧ sum < time) ∧
      ((∀ time sum, ¬Pending gameTime calls time sum) →
        (run gameTime calls).shutdownTimer = 0)) ∧
    (∀ exitcode, (run gameTime (calls ++ [.shutdownServ 0 exitcode 0])).stopEvent = true) ∧
    ((run gameTime calls).stopEvent = false → ∀ later,
      (∀ c ∈ later, ∀ seconds exitcode count, c ≠ .shutdownServ seconds exitcode count) →
      (run gameTime (calls ++ .shutdownCancel :: later)).stopEvent = false) ∧
    ((run gameTime calls).stopEvent = true → ∀ later,
      (run gameTime (calls ++ later)).exitCode = (run gameTime calls).exitCode ∧
        (run gameTime (calls ++ later)).shutdownTimer = (run gameTime calls).shutdownTimer) := by
  have hcounts := counts_run gameTime calls
  refine ⟨hcounts.stopped, fun hstop => ⟨?_, hcounts.idle hstop⟩, ?_, ?_, ?_⟩
  · intro time sum hpending
    exact ⟨hcounts.pending hstop time sum hpending, hcounts.lt hstop hpending⟩
  · intro exitcode
    rw [(counts_run gameTime _).stopped]
    exact ⟨_, List.prefix_rfl, 0, 0, pending_concat.mpr (.inl ⟨0, exitcode, 0, rfl, rfl, rfl⟩),
      le_rfl⟩
  · exact fun hstop later hlater => running_of_cancelled hstop hlater
  · intro hstop later
    rw [run_append]
    exact (foldl_of_stopEvent hstop later).2

end Discord
end WarheadDiscord
