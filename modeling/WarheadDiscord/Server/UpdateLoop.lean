import Mathlib.Algebra.BigOperators.Group.List.Basic
import WarheadDiscord.Database.TransactionTask
import WarheadDiscord.Lib.Watchdog

/-!
# The update loop and the freeze detector

`DiscordUpdateLoop` counts its passes and gives `Discord::Update` the time since the last pass that
took any.  Beside it, on another thread, `FreezeDetector::Handler` looks at the counter every second
and aborts the process when it has not changed for a minute.

`updates_spec` says that no time gets lost: over every run the times that `Update` is given are at
least a millisecond each, and add up to the time that has gone by.  `aborted_iff` says when the
process is aborted, in terms of what happened and not of the detector: two looks at the counter are
more than a minute apart, and all looks from the one to the other saw the same value.  The counter
has 32 bits, so a loop that makes a multiple of `2 ^ 32` passes between two looks counts as stuck;
and the first look is the construction of the detector, which takes the counter to be zero.

The clock is steady.  A pass is one step; how long `Update` takes shows in the times of the steps
behind it.

## Main definitions

* `FreezeDetector.handler`, `Process.pass` — the code.
* `Process.run` — passes and ticks of the timer in any order.
* `samples` — what the ticks see.
-/

namespace WarheadDiscord.UpdateLoop

/-! ## The code -/

structure FreezeDetector where
  loopCounter : UInt32
  lastChangeMsTime : ℤ
  deriving DecidableEq, Repr

/-- `_maxCoreStuckTime`, in milliseconds. -/
def maxCoreStuckTime : ℤ := 60000

/-- `FreezeDetector::Handler`; `none` is `ABORT`. -/
def FreezeDetector.handler (d : FreezeDetector) (curtime : ℤ) (loopCounter : UInt32) :
    Option FreezeDetector :=
  if d.loopCounter ≠ loopCounter then some ⟨loopCounter, curtime⟩
  else if getMSTimeDiff d.lastChangeMsTime curtime > maxCoreStuckTime then none
  else some d

structure Process where
  /-- `Discord::_loopCounter` -/
  loopCounter : UInt32
  realPrevTime : ℤ
  /-- What `Discord::Update` was given. -/
  updates : List ℤ
  detector : FreezeDetector
  aborted : Bool
  deriving DecidableEq, Repr

/-- One turn of the loop in `DiscordUpdateLoop`. -/
def Process.pass (p : Process) (realCurrTime : ℤ) : Process :=
  let p := { p with loopCounter := p.loopCounter + 1 }
  let diff := getMSTimeDiff p.realPrevTime realCurrTime
  if diff = 0 then p
  else { p with updates := p.updates ++ [diff], realPrevTime := realCurrTime }

inductive Event
  /-- A turn of the loop. -/
  | pass (now : ℤ)
  /-- The timer of the detector. -/
  | tick (now : ℤ)
  deriving DecidableEq, Repr

def Event.now : Event → ℤ
  | .pass now => now
  | .tick now => now

/-- Nothing happens after `ABORT`. -/
def Process.step (p : Process) (e : Event) : Process :=
  if p.aborted then p
  else
    match e with
    | .pass now => p.pass now
    | .tick now =>
        match p.detector.handler now p.loopCounter with
        | none => { p with aborted := true }
        | some d => { p with detector := d }

def Process.run (p : Process) (events : List Event) : Process := events.foldl Process.step p

/-- The detector is constructed, and then the loop begins. -/
def start (constructed begun : ℤ) : Process where
  loopCounter := 0
  realPrevTime := begun
  updates := []
  detector := ⟨0, constructed⟩
  aborted := false

/-- The clock does not go back. -/
structure Steady (constructed begun : ℤ) (events : List Event) : Prop where
  constructed_le : constructed ≤ begun
  since : ∀ e ∈ events, begun ≤ e.now
  sorted : events.Pairwise fun e e' => e.now ≤ e'.now

theorem getMSTimeDiff_of_le {oldMSTime newMSTime : ℤ} (h : oldMSTime ≤ newMSTime) :
    getMSTimeDiff oldMSTime newMSTime = newMSTime - oldMSTime := if_neg (not_lt.mpr h)

/-! ## The times of the updates -/

/-- The last time the loop looked at the clock. -/
def lastPass : ℤ → List Event → ℤ
  | begun, [] => begun
  | _, .pass now :: events => lastPass now events
  | begun, .tick _ :: events => lastPass begun events

theorem run_of_aborted {p : Process} (h : p.aborted = true) (events : List Event) :
    p.run events = p := by
  induction events with
  | nil => rfl
  | cons e events ih =>
      have hstep : p.step e = p := if_pos h
      rw [Process.run, List.foldl_cons, hstep]
      exact ih

/-- What a turn of the loop does to the times. -/
theorem pass_spec {p : Process} {now : ℤ} (h : p.realPrevTime ≤ now) :
    (p.pass now).realPrevTime = now ∧
      (p.pass now).updates.sum = p.updates.sum + (now - p.realPrevTime) ∧
      ((∀ diff ∈ p.updates, 1 ≤ diff) → ∀ diff ∈ (p.pass now).updates, 1 ≤ diff) := by
  simp only [Process.pass, getMSTimeDiff_of_le h]
  by_cases hdiff : now - p.realPrevTime = 0
  · simp only [if_pos hdiff]
    exact ⟨by omega, by omega, id⟩
  · simp only [if_neg hdiff]
    refine ⟨trivial, by simp, fun hupdates diff hmem => ?_⟩
    rcases List.mem_append.mp hmem with hmem | hmem
    · exact hupdates diff hmem
    · rw [List.mem_singleton] at hmem
      omega

/-- A run from any state. -/
theorem updates_run {p : Process} {events : List Event}
    (hsince : ∀ e ∈ events, p.realPrevTime ≤ e.now)
    (hsorted : events.Pairwise fun e e' => e.now ≤ e'.now)
    (hupdates : ∀ diff ∈ p.updates, 1 ≤ diff) (hend : (p.run events).aborted = false) :
    (p.run events).updates.sum =
        p.updates.sum + (lastPass p.realPrevTime events - p.realPrevTime) ∧
      ∀ diff ∈ (p.run events).updates, 1 ≤ diff := by
  induction events generalizing p with
  | nil => exact ⟨by simp [Process.run, lastPass], hupdates⟩
  | cons e events ih =>
      obtain ⟨hlater, htail⟩ := List.pairwise_cons.mp hsorted
      have hrunning : p.aborted = false := by
        by_contra haborted
        rw [run_of_aborted (by simpa using haborted)] at hend
        exact haborted hend
      change ((p.step e).run events).aborted = false at hend
      change ((p.step e).run events).updates.sum = _ ∧
        ∀ diff ∈ ((p.step e).run events).updates, 1 ≤ diff
      cases e with
      | pass now =>
          have hstep : p.step (.pass now) = p.pass now := by simp [Process.step, hrunning]
          have hnow : p.realPrevTime ≤ now := hsince (.pass now) List.mem_cons_self
          obtain ⟨hprev, hsum, hall⟩ := pass_spec hnow
          rw [hstep] at hend ⊢
          obtain ⟨hsum', hall'⟩ := ih (p := p.pass now) (by rw [hprev]; exact hlater) htail
            (hall hupdates) hend
          refine ⟨?_, hall'⟩
          rw [hsum', hsum, hprev, lastPass]
          omega
      | tick now =>
          have hstep : (p.step (.tick now)).realPrevTime = p.realPrevTime ∧
              (p.step (.tick now)).updates = p.updates := by
            simp only [Process.step, hrunning, Bool.false_eq_true, if_false]
            split <;> exact ⟨rfl, rfl⟩
          have hsince' : ∀ e ∈ events, (p.step (.tick now)).realPrevTime ≤ e.now := by
            rw [hstep.1]
            exact fun e hmem => hsince e (List.mem_cons_of_mem _ hmem)
          obtain ⟨hsum', hall'⟩ := ih hsince' htail (hstep.2 ▸ hupdates) hend
          refine ⟨?_, hall'⟩
          rw [hsum', hstep.1, hstep.2, lastPass]

/-- **No time is lost to the updates**: each of them is given at least a millisecond, and together
they are given the time up to the last turn of the loop. -/
theorem updates_spec (constructed begun : ℤ) (events : List Event)
    (h : Steady constructed begun events)
    (hend : ((start constructed begun).run events).aborted = false) :
    ((start constructed begun).run events).updates.sum = lastPass begun events - begun ∧
      ∀ diff ∈ ((start constructed begun).run events).updates, 1 ≤ diff := by
  have hrun := updates_run (p := start constructed begun) h.since h.sorted (by simp [start]) hend
  simpa [start] using hrun

/-- Two turns within a millisecond, and a look at the counter. -/
def quickTurns : List Event := [.pass 10, .pass 10, .tick 12, .pass 15]

theorem updates_spec_quickTurns :
    ((start 0 7).run quickTurns).updates = [3, 5] ∧
      ((start 0 7).run quickTurns).updates.sum = lastPass 7 quickTurns - 7 ∧
        ∀ diff ∈ ((start 0 7).run quickTurns).updates, 1 ≤ diff :=
  ⟨by decide, updates_spec 0 7 quickTurns ⟨by decide, by decide, by decide⟩ (by decide)⟩

/-! ## The freeze detector -/

/-- What the ticks see of the counter, which starts at `counter`. -/
def samples : UInt32 → List Event → List (ℤ × UInt32)
  | _, [] => []
  | counter, .pass _ :: events => samples (counter + 1) events
  | counter, .tick now :: events => (now, counter) :: samples counter events

/-- The detector as a watchdog. -/
def Process.watchdog (p : Process) : Watchdog UInt32 :=
  ⟨p.detector.loopCounter, p.detector.lastChangeMsTime, p.aborted⟩

theorem foldl_sample_of_tripped {w : Watchdog UInt32} (h : w.tripped = true)
    (samples : List (ℤ × UInt32)) :
    samples.foldl (Watchdog.sample maxCoreStuckTime) w = w := by
  induction samples with
  | nil => rfl
  | cons s samples ih => rw [List.foldl_cons, sample_of_tripped h, ih]

/-- A tick is a sample. -/
theorem watchdog_tick {p : Process} {now : ℤ} (hrunning : p.aborted = false)
    (h : p.detector.lastChangeMsTime ≤ now) :
    (p.step (.tick now)).watchdog = p.watchdog.sample maxCoreStuckTime (now, p.loopCounter) := by
  simp only [Process.step, Process.watchdog, Watchdog.sample, FreezeDetector.handler, hrunning,
    getMSTimeDiff_of_le h, Bool.false_eq_true, if_false]
  split_ifs <;> simp

/-- The time that the detector has noted is that of a tick. -/
theorem lastChange_step {p : Process} {e : Event} (h : p.detector.lastChangeMsTime ≤ e.now) :
    (p.step e).detector.lastChangeMsTime ≤ e.now := by
  unfold Process.step
  split
  · exact h
  · cases e with
    | pass now =>
        simp only [Process.pass]
        split <;> exact h
    | tick now =>
        simp only [FreezeDetector.handler]
        split
        · exact h
        · rename_i d heq
          split_ifs at heq
          · cases heq
            exact le_refl _
          · cases heq
            exact h

theorem watchdog_run {p : Process} {events : List Event}
    (hsince : ∀ e ∈ events, p.detector.lastChangeMsTime ≤ e.now)
    (hsorted : events.Pairwise fun e e' => e.now ≤ e'.now) :
    (p.run events).watchdog =
      (samples p.loopCounter events).foldl (Watchdog.sample maxCoreStuckTime) p.watchdog := by
  induction events generalizing p with
  | nil => rfl
  | cons e events ih =>
      cases hrunning : p.aborted with
      | true => rw [run_of_aborted hrunning, foldl_sample_of_tripped hrunning]
      | false =>
          obtain ⟨hlater, htail⟩ := List.pairwise_cons.mp hsorted
          have hchange := lastChange_step (hsince e List.mem_cons_self)
          have hrest := ih (p := p.step e)
            (fun e' hmem => le_trans hchange (hlater e' hmem)) htail
          change ((p.step e).run events).watchdog = _
          rw [hrest]
          cases e with
          | pass now =>
              have hcounter : (p.step (.pass now)).loopCounter = p.loopCounter + 1 := by
                simp only [Process.step, hrunning, Bool.false_eq_true, if_false, Process.pass]
                split <;> rfl
              have hwatchdog : (p.step (.pass now)).watchdog = p.watchdog := by
                simp only [Process.step, hrunning, Bool.false_eq_true, if_false, Process.pass,
                  Process.watchdog]
                split <;> simp
              rw [hcounter, hwatchdog, samples]
          | tick now =>
              have hcounter : (p.step (.tick now)).loopCounter = p.loopCounter := by
                simp only [Process.step, hrunning, Bool.false_eq_true, if_false]
                split <;> rfl
              have hnow : p.detector.lastChangeMsTime ≤ now := hsince (.tick now) List.mem_cons_self
              rw [hcounter, watchdog_tick hrunning hnow, samples, List.foldl_cons]

theorem pairwise_samples {events : List Event} (counter : UInt32)
    (hsorted : events.Pairwise fun e e' => e.now ≤ e'.now) :
    (samples counter events).Pairwise (fun a b => a.1 ≤ b.1) ∧
      ∀ s ∈ samples counter events, ∃ e ∈ events, s.1 = e.now := by
  induction events generalizing counter with
  | nil => exact ⟨List.Pairwise.nil, by simp [samples]⟩
  | cons e events ih =>
      obtain ⟨hlater, htail⟩ := List.pairwise_cons.mp hsorted
      cases e with
      | pass now =>
          obtain ⟨hpairwise, hmem⟩ := ih (counter + 1) htail
          refine ⟨hpairwise, fun s hs => ?_⟩
          obtain ⟨e, he, heq⟩ := hmem s hs
          exact ⟨e, List.mem_cons_of_mem _ he, heq⟩
      | tick now =>
          obtain ⟨hpairwise, hmem⟩ := ih counter htail
          refine ⟨List.pairwise_cons.mpr ⟨fun s hs => ?_, hpairwise⟩, fun s hs => ?_⟩
          · obtain ⟨e, he, heq⟩ := hmem s hs
            rw [heq]
            exact hlater e he
          · rcases List.mem_cons.mp hs with rfl | hs
            · exact ⟨.tick now, List.mem_cons_self, rfl⟩
            · obtain ⟨e, he, heq⟩ := hmem s hs
              exact ⟨e, List.mem_cons_of_mem _ he, heq⟩

/-- **The process is aborted if and only if the loop was stuck for more than a minute** in the eyes
of the ticks. -/
theorem aborted_iff (constructed begun : ℤ) (events : List Event)
    (h : Steady constructed begun events) :
    ((start constructed begun).run events).aborted = true ↔
      Stuck maxCoreStuckTime ((constructed, 0) :: samples 0 events) := by
  have hsince : ∀ e ∈ events, constructed ≤ e.now :=
    fun e hmem => le_trans h.constructed_le (h.since e hmem)
  obtain ⟨hpairwise, hmem⟩ := pairwise_samples 0 h.sorted
  have hrun := watchdog_run (p := start constructed begun) hsince h.sorted
  have haborted : ((start constructed begun).run events).aborted =
      ((start constructed begun).run events).watchdog.tripped := rfl
  rw [haborted, hrun]
  refine tripped_iff _ constructed (0 : UInt32) _
    (List.pairwise_cons.mpr ⟨fun s hs => ?_, hpairwise⟩)
  obtain ⟨e, he, heq⟩ := hmem s hs
  rw [heq]
  exact hsince e he

/-- An update that takes two minutes. -/
def longUpdate : List Event := [.pass 10, .tick 1000, .tick 61001, .pass 120000]

theorem aborted_iff_longUpdate :
    ((start 0 7).run longUpdate).aborted = true ∧
      Stuck maxCoreStuckTime ((0, 0) :: samples 0 longUpdate) :=
  ⟨by decide, (aborted_iff 0 7 longUpdate ⟨by decide, by decide, by decide⟩).mp (by decide)⟩

end WarheadDiscord.UpdateLoop
