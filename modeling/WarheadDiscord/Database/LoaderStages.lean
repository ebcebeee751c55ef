import Mathlib.Data.List.TakeWhile
import Mathlib.Tactic.Common

/-!
# The stages of `DatabaseLoader`

`AddDatabase` pushes a function for each stage of a database: it is opened, populated, updated, and
its statements are prepared.  `Load` goes through the stages, and through the databases in each of
them.  A database that is opened leaves a function that closes it on a stack, and the first function
that fails has them all called.

`load_spec` is the order of everything that is called, for any databases and any outcomes: the
functions in their order up to the first that fails, and then, if there is one, the closing of what
was opened, the last one first.  So no database that was opened stays open after a failure, none
is used after it was closed, and none is closed when `Load` succeeds.  A pool whose statements
cannot be prepared has closed itself before that.

What the functions do is left out but for their result, and so are the names of the databases, which
stand in options and in the log.

## Main definitions

* `Loader`, `Loader.addDatabase`, `Loader.process`, `Loader.load` — the class.
* `jobs`, `LoadEvent` — the functions in their order, and what is called.
-/

namespace WarheadDiscord.Loading

inductive Stage
  | opening
  | populate
  | update
  | prepare
  deriving DecidableEq, Repr

/-- What `AddDatabase` is called with, and `updatesEnabledForThis`. -/
structure Database (π : Type) where
  pool : π
  updates : Bool
  deriving DecidableEq, Repr

inductive LoadEvent (π : Type)
  | ran (stage : Stage) (pool : π) (ok : Bool)
  | closed (pool : π)
  deriving DecidableEq, Repr

/-- What each function returns.  The pools may be told apart by anything, their places among the
databases for one. -/
abbrev Outcome (π : Type) := Stage × π → Bool

structure Loader (π : Type) where
  /-- `_open`, `_populate`, `_update` and `_prepare`. -/
  queues : Stage → List π
  /-- `_close`, with the top first. -/
  close : List π
  trace : List (LoadEvent π)

variable {π : Type}

namespace Loader

/-- The constructor. -/
def new : Loader π := ⟨fun _ => [], [], []⟩

/-- `_queue.push` -/
def push (l : Loader π) (stage : Stage) (pool : π) : Loader π :=
  { l with queues := Function.update l.queues stage (l.queues stage ++ [pool]) }

def addDatabase (l : Loader π) (db : Database π) : Loader π :=
  let l := l.push .opening db.pool
  let l := if db.updates then (l.push .populate db.pool).push .update db.pool else l
  l.push .prepare db.pool

/-- A function that was pushed.  `PrepareStatements` closes the pool when it fails. -/
def invoke (outcome : Outcome π) (l : Loader π) (stage : Stage) (pool : π) : Bool × Loader π :=
  match stage, outcome (stage, pool) with
  | .opening, true =>
      (true, { l with close := pool :: l.close, trace := l.trace ++ [.ran stage pool true] })
  | .prepare, false =>
      (false, { l with trace := l.trace ++ [.ran stage pool false, .closed pool] })
  | _, ok => (ok, { l with trace := l.trace ++ [.ran stage pool ok] })

/-- The loop over `_close`. -/
def closeAll (l : Loader π) : Loader π :=
  { l with close := [], trace := l.trace ++ l.close.map .closed }

/-- The loop of `Process`: the result, and what is left of the queue. -/
def processLoop (outcome : Outcome π) (stage : Stage) :
    List π → Loader π → Bool × List π × Loader π
  | [], l => (true, [], l)
  | pool :: queue, l =>
      match l.invoke outcome stage pool with
      | (false, l) => (false, pool :: queue, l.closeAll)
      | (true, l) => processLoop outcome stage queue l

def process (outcome : Outcome π) (l : Loader π) (stage : Stage) : Bool × Loader π :=
  match processLoop outcome stage (l.queues stage) l with
  | (ok, queue, l) => (ok, { l with queues := Function.update l.queues stage queue })

/-- `Load`: the stages as long as they succeed. -/
def loadStages (outcome : Outcome π) : List Stage → Loader π → Bool × Loader π
  | [], l => (true, l)
  | stage :: stages, l =>
      match l.process outcome stage with
      | (false, l) => (false, l)
      | (true, l) => loadStages outcome stages l

def load (outcome : Outcome π) (l : Loader π) : Bool × Loader π :=
  loadStages outcome [.opening, .populate, .update, .prepare] l

end Loader

/-! ## One function after the other -/

/-- What a function that succeeds leaves on the stack. -/
def opened (job : Stage × π) (close : List π) : List π :=
  if job.1 = .opening then job.2 :: close else close

/-- What is called when a function fails. -/
def failed (job : Stage × π) (close : List π) : List (LoadEvent π) :=
  .ran job.1 job.2 false ::
    ((if job.1 = .prepare then [.closed job.2] else []) ++ close.map .closed)

/-- The events of some functions, without the queues. -/
def events (outcome : Outcome π) : List (Stage × π) → List π → List (LoadEvent π)
  | [], _ => []
  | job :: jobs, close =>
      if outcome job then .ran job.1 job.2 true :: events outcome jobs (opened job close)
      else failed job close

/-- The stack behind functions that all succeed. -/
def closers (jobs : List (Stage × π)) (close : List π) : List π :=
  jobs.foldl (fun close job => opened job close) close

section
variable {outcome : Outcome π} {l : Loader π} {stage : Stage} {pool : π}

theorem invoke_of_true (h : outcome (stage, pool) = true) :
    l.invoke outcome stage pool =
      (true,
        { l with
          close := opened (stage, pool) l.close
          trace := l.trace ++ [.ran stage pool true] }) := by
  cases stage <;> simp [Loader.invoke, h, opened]

theorem invoke_of_false (h : outcome (stage, pool) = false) :
    ∃ trace, l.invoke outcome stage pool = (false, { l with trace := trace }) ∧
      trace ++ l.close.map .closed = l.trace ++ failed (stage, pool) l.close := by
  cases stage <;> exact ⟨_, by simp [Loader.invoke, h]; rfl, by simp [failed]⟩

/-- `Process`, without the queue. -/
structure Processed (outcome : Outcome π) (jobs : List (Stage × π)) (l : Loader π) (ok : Bool)
    (l' : Loader π) : Prop where
  ok_eq : ok = jobs.all outcome
  trace : l'.trace = l.trace ++ events outcome jobs l.close
  close : ok = true → l'.close = closers jobs l.close

theorem processLoop_processed (outcome : Outcome π) (l : Loader π) (stage : Stage)
    (queue : List π) :
    (Loader.processLoop outcome stage queue l).2.2.queues = l.queues ∧
      Processed outcome (queue.map fun pool => (stage, pool)) l
        (Loader.processLoop outcome stage queue l).1
        (Loader.processLoop outcome stage queue l).2.2 := by
  induction queue generalizing l with
  | nil => exact ⟨rfl, rfl, by simp [Loader.processLoop, events], fun _ => rfl⟩
  | cons pool queue ih =>
      cases hok : outcome (stage, pool) with
      | true =>
          obtain ⟨hqueues, hresult, htrace, hclose⟩ := ih
            (l := { l with
              close := opened (stage, pool) l.close, trace := l.trace ++ [.ran stage pool true] })
          rw [Loader.processLoop, invoke_of_true hok]
          refine ⟨hqueues, ?_, ?_, hclose⟩
          · simpa [hok] using hresult
          · simpa [events, hok] using htrace
      | false =>
          obtain ⟨trace, hinvoke, htrace⟩ := invoke_of_false (l := l) hok
          rw [Loader.processLoop, hinvoke]
          refine ⟨rfl, ?_, ?_, ?_⟩
          · simp [hok]
          · simpa [events, hok, Loader.closeAll] using htrace
          · simp

theorem process_processed (outcome : Outcome π) (l : Loader π) (stage : Stage) :
    Processed outcome ((l.queues stage).map fun pool => (stage, pool)) l
        (l.process outcome stage).1 (l.process outcome stage).2 ∧
      ∀ stage', stage' ≠ stage → (l.process outcome stage).2.queues stage' = l.queues stage' := by
  obtain ⟨hqueues, hprocessed⟩ :=
    processLoop_processed outcome l stage (l.queues stage)
  refine ⟨⟨hprocessed.ok_eq, hprocessed.trace, hprocessed.close⟩, fun stage' hne => ?_⟩
  rw [← hqueues]
  exact Function.update_of_ne hne _ _

end

theorem events_append_of_all {outcome : Outcome π} {jobs : List (Stage × π)}
    (h : jobs.all outcome = true) (jobs' : List (Stage × π)) (close : List π) :
    events outcome (jobs ++ jobs') close =
      events outcome jobs close ++ events outcome jobs' (closers jobs close) := by
  induction jobs generalizing close with
  | nil => rfl
  | cons job jobs ih =>
      rw [List.all_cons, Bool.and_eq_true] at h
      simp only [List.cons_append, events, h.1, if_true, ih h.2]
      rfl

theorem events_append_of_not_all {outcome : Outcome π} {jobs : List (Stage × π)}
    (h : jobs.all outcome = false) (jobs' : List (Stage × π)) (close : List π) :
    events outcome (jobs ++ jobs') close = events outcome jobs close := by
  induction jobs generalizing close with
  | nil => cases h
  | cons job jobs ih =>
      cases hok : outcome job with
      | false => simp [events, hok]
      | true =>
          rw [List.all_cons, hok, Bool.true_and] at h
          simp only [List.cons_append, events, hok, if_true, ih h]

/-- The functions of some stages, in their order. -/
def stageJobs (queues : Stage → List π) (stages : List Stage) : List (Stage × π) :=
  stages.flatMap fun stage => (queues stage).map fun pool => (stage, pool)

theorem stageJobs_congr {queues queues' : Stage → List π} {stages : List Stage}
    (h : ∀ stage ∈ stages, queues' stage = queues stage) :
    stageJobs queues' stages = stageJobs queues stages := by
  rw [stageJobs, stageJobs, List.flatMap_def, List.flatMap_def]
  refine congrArg List.flatten (List.map_congr_left fun stage hmem => ?_)
  rw [h stage hmem]

theorem loadStages_spec (outcome : Outcome π) (stages : List Stage) (hnodup : stages.Nodup)
    (l : Loader π) :
    (Loader.loadStages outcome stages l).1 = (stageJobs l.queues stages).all outcome ∧
      (Loader.loadStages outcome stages l).2.trace =
        l.trace ++ events outcome (stageJobs l.queues stages) l.close := by
  induction stages generalizing l with
  | nil => simp [Loader.loadStages, stageJobs, events]
  | cons stage stages ih =>
      obtain ⟨hnot, hnodup⟩ := List.nodup_cons.mp hnodup
      obtain ⟨⟨hresult, htrace, hclose⟩, hqueues⟩ :=
        process_processed outcome l stage
      have hjobs : stageJobs l.queues (stage :: stages) =
          ((l.queues stage).map fun pool => (stage, pool)) ++ stageJobs l.queues stages :=
        List.flatMap_cons
      have hrest : stageJobs (l.process outcome stage).2.queues stages =
          stageJobs l.queues stages :=
        stageJobs_congr fun stage' hmem => hqueues stage' fun heq => hnot (heq ▸ hmem)
      obtain ⟨hresult', htrace'⟩ := ih hnodup (l.process outcome stage).2
      rw [hrest] at hresult' htrace'
      rw [Loader.loadStages, hjobs, List.all_append, ← hresult]
      rcases hprocess : l.process outcome stage with ⟨ok, l'⟩
      rw [hprocess] at hresult htrace hclose hresult' htrace'
      cases ok with
      | false =>
          refine ⟨by simp, ?_⟩
          rw [events_append_of_not_all hresult.symm]
          exact htrace
      | true =>
          refine ⟨by simpa using hresult', ?_⟩
          rw [events_append_of_all hresult.symm, ← hclose rfl]
          rw [← List.append_assoc, ← htrace]
          exact htrace'

/-! ## The databases -/

/-- The functions that `Load` calls, in their order, when none of them fails. -/
def jobs (dbs : List (Database π)) : List (Stage × π) :=
  dbs.map (fun db => (.opening, db.pool)) ++
    (dbs.filter Database.updates).map (fun db => (.populate, db.pool)) ++
    (dbs.filter Database.updates).map (fun db => (.update, db.pool)) ++
    dbs.map (fun db => (.prepare, db.pool))

theorem foldl_addDatabase (dbs : List (Database π)) (l : Loader π) :
    (dbs.foldl Loader.addDatabase l).close = l.close ∧
      (dbs.foldl Loader.addDatabase l).trace = l.trace ∧
      ∀ stage, (dbs.foldl Loader.addDatabase l).queues stage = l.queues stage ++
        match stage with
        | .opening => dbs.map Database.pool
        | .prepare => dbs.map Database.pool
        | _ => (dbs.filter Database.updates).map Database.pool := by
  induction dbs generalizing l with
  | nil =>
      refine ⟨rfl, rfl, fun stage => ?_⟩
      cases stage <;> simp
  | cons db dbs ih =>
      obtain ⟨hclose, htrace, hqueues⟩ := ih (l.addDatabase db)
      rw [List.foldl_cons]
      refine ⟨?_, ?_, fun stage => ?_⟩
      · rw [hclose]
        cases hupdates : db.updates <;> simp [Loader.addDatabase, Loader.push, hupdates]
      · rw [htrace]
        cases hupdates : db.updates <;> simp [Loader.addDatabase, Loader.push, hupdates]
      · rw [hqueues]
        cases hupdates : db.updates <;> cases stage <;>
          simp [Loader.addDatabase, Loader.push, hupdates, Function.update]

theorem closers_eq (jobs : List (Stage × π)) (close : List π) :
    closers jobs close = ((jobs.filter fun job => job.1 = .opening).map Prod.snd).reverse ++
      close := by
  induction jobs generalizing close with
  | nil => rfl
  | cons job jobs ih =>
      rw [closers, List.foldl_cons]
      refine (ih _).trans ?_
      by_cases h : job.1 = .opening <;> simp [opened, h]

/-- The functions up to the first that fails, and what that has called. -/
theorem events_eq (outcome : Outcome π) (jobs : List (Stage × π)) (close : List π) :
    events outcome jobs close =
      (jobs.takeWhile outcome).map (fun job => .ran job.1 job.2 true) ++
        match jobs.dropWhile outcome with
        | [] => []
        | job :: _ => failed job (closers (jobs.takeWhile outcome) close) := by
  induction jobs generalizing close with
  | nil => rfl
  | cons job jobs ih =>
      cases hok : outcome job with
      | false => simp [events, hok, closers]
      | true =>
          simp only [events, hok, if_true, List.takeWhile_cons, List.dropWhile_cons, List.map_cons,
            List.cons_append, ih]
          rfl

/-- **`Load` calls the functions in their order up to the first that fails, and then closes what
was opened, the last one first.**  It succeeds when there is none, and closes nothing. -/
theorem load_spec (outcome : Outcome π) (dbs : List (Database π)) :
    ((dbs.foldl Loader.addDatabase .new).load outcome).1 = (jobs dbs).all outcome ∧
      ((dbs.foldl Loader.addDatabase .new).load outcome).2.trace =
        ((jobs dbs).takeWhile outcome).map (fun job => .ran job.1 job.2 true) ++
          match (jobs dbs).dropWhile outcome with
          | [] => []
          | job :: _ =>
              .ran job.1 job.2 false :: ((if job.1 = .prepare then [.closed job.2] else []) ++
                (((jobs dbs).takeWhile outcome).filter fun job => job.1 = .opening).reverse.map
                  fun job => .closed job.2) := by
  obtain ⟨hclose, htrace, hqueues⟩ := foldl_addDatabase dbs .new
  have hjobs : stageJobs (dbs.foldl Loader.addDatabase .new).queues
      [.opening, .populate, .update, .prepare] = jobs dbs := by
    simp only [stageJobs, hqueues, List.flatMap_cons, List.flatMap_nil]
    simp [Loader.new, jobs, Function.comp_def]
  obtain ⟨hresult, htrace'⟩ :=
    loadStages_spec outcome [.opening, .populate, .update, .prepare] (by decide)
      (dbs.foldl Loader.addDatabase .new)
  rw [hjobs] at hresult htrace'
  refine ⟨hresult, htrace'.trans ?_⟩
  rw [htrace, hclose, events_eq]
  simp [Loader.new, failed, closers_eq, Function.comp_def]

end WarheadDiscord.Loading
