import WarheadDiscord.Database.WorkerPool

/-!
# Opening a pool, and opening it again

`DatabaseLoader` calls `Open` until it returns zero or fails for good.  An attempt that
fails at an asynchronous connection destroys that connection, and with it a worker: the
queue is cancelled, and it stays so, because it belongs to the pool and not to the
attempt.  The workers of a later attempt that succeeds find it cancelled and leave.

An attempt that fails at a synchronous connection does no harm.  It leaves its
asynchronous connections behind, and the next attempt adds its own.

So the queue works after the attempts exactly if none of them failed at an asynchronous
connection (`workingQueue_iff`).  That it works means that its flag is clear, that all
workers are in their loops, and that what is enqueued gets popped: the `backlog` in
front of a ticket goes down with every step of a worker.

## Main definitions

* `Pool.backlog` — how many steps of workers there are until the ticket is popped.
* `Pool.Serves`, `Pool.WorkingQueue` — what a working queue is.
* `dooms` — the program will cancel the queue.
-/

namespace WarheadDiscord

/-- How many steps the worker has to make before it waits. -/
def WorkerPc.stepsLeft : WorkerPc → ℕ
  | .popped _ => 2
  | .running _ => 1
  | _ => 0

@[simp] theorem WorkerPc.stepsLeft_waiting : WorkerPc.waiting.stepsLeft = 0 := rfl

@[simp] theorem WorkerPc.stepsLeft_popped (ticket : Option ℕ) :
    (WorkerPc.popped ticket).stepsLeft = 2 := rfl

@[simp] theorem WorkerPc.stepsLeft_running (ticket : ℕ) :
    (WorkerPc.running ticket).stepsLeft = 1 := rfl

theorem WorkerPc.stepsLeft_le (pc : WorkerPc) : pc.stepsLeft ≤ 2 := by
  cases pc <;> simp [stepsLeft]

namespace Pool
variable {α : Type} {s s' : Pool α} {i t : ℕ}

/-! ## Progress -/

/-- How many steps the workers have to make before all of them wait. -/
def stepsLeft (workers : List Worker) : ℕ := sumWorkers (fun w => w.pc.stepsLeft) workers

/-- While the ticket is queued: how many steps of workers it takes at most until it is
popped. -/
def backlog (s : Pool α) (t : ℕ) : ℕ :=
  if t ∈ s.ops then 3 * (s.ops.idxOf t + 1) + stepsLeft s.workers else 0

/-- The steps of workers in a run. -/
def workerSteps : List (Label α) → ℕ
  | [] => 0
  | .worker _ _ :: ls => workerSteps ls + 1
  | _ :: ls => workerSteps ls

/-- The tickets that come to the queue are popped by a worker once the workers have made
enough steps, and until then no worker is stuck. -/
def Serves (s : Pool α) : Prop :=
  ∀ ls s₁, (∀ l ∈ ls, l.IsService) → Machine.run next s ls = some s₁ → ∀ t ∈ s₁.ops,
    (∀ i < s₁.workers.length, ∀ now, (s₁.workerStep i now).isSome) ∧
    ∀ ls' s₂, (∀ l ∈ ls', l.IsService) → Machine.run next s₁ ls' = some s₂ →
      3 * s₁.ops.length + 2 * s₁.workers.length ≤ workerSteps ls' →
      t ∉ s₂.ops ∧ s₂.held t + s₂.timesExecuted t = 1

/-- The queue is not shut down, all workers are in their loops, and what is enqueued is
popped. -/
structure WorkingQueue (s : Pool α) : Prop where
  serving : s.Serving
  serves : s.Serves

theorem stepsLeft_set {w : Worker} (hw : s.workers[i]? = some w) (pc : WorkerPc) :
    stepsLeft (s.workers.set i { w with pc := pc }) + w.pc.stepsLeft =
      stepsLeft s.workers + pc.stepsLeft :=
  sumWorkers_set _ hw { w with pc := pc }

theorem stepsLeft_le (workers : List Worker) : stepsLeft workers ≤ 2 * workers.length := by
  induction workers with
  | nil => simp [stepsLeft, sumWorkers]
  | cons w workers ih =>
      have hw := w.pc.stepsLeft_le
      simp only [stepsLeft, sumWorkers, List.map_cons, List.sum_cons, List.length_cons] at ih ⊢
      omega

theorem backlog_le (s : Pool α) (t : ℕ) :
    s.backlog t ≤ 3 * s.ops.length + 2 * s.workers.length := by
  have hworkers := stepsLeft_le s.workers
  rw [backlog]
  split
  · rename_i ht
    have hlt := List.idxOf_lt_length_of_mem ht
    omega
  · exact Nat.zero_le _

theorem not_mem_of_backlog_eq_zero (h : s.backlog t = 0) : t ∉ s.ops := by
  intro ht
  rw [backlog, if_pos ht] at h
  omega

/-- A ticket is queued only once. -/
theorem Conserved.not_mem_tail (h : s.Conserved) {ops : List ℕ} (hops : s.ops = t :: ops) :
    t ∉ ops := by
  intro ht
  have hone := h t
  have hpos := List.count_pos_iff.mpr ht
  rw [hops, List.count_cons_self] at hone
  split at hone <;> omega

/-- Every step of a worker brings the ticket closer. -/
theorem backlog_workerStep (h : s.Serving) (hc : s.Conserved) (hst : WorkerStep s i s') :
    s'.backlog t ≤ s.backlog t - 1 := by
  cases hst with
  | tookNothing _ _ hshutdown => rw [h.shutdown] at hshutdown; cases hshutdown
  | @took ticket w ops hw hpc _ hops =>
      have hset := stepsLeft_set hw (.popped (some ticket))
      rw [hpc, WorkerPc.stepsLeft_waiting, WorkerPc.stepsLeft_popped] at hset
      simp only [backlog, hops]
      by_cases ht : t ∈ ops
      · -- the ticket is not the one that is taken
        have hne : ticket ≠ t := by
          rintro rfl
          exact hc.not_mem_tail hops ht
        rw [if_pos ht, if_pos (List.mem_cons_of_mem _ ht), List.idxOf_cons_ne _ hne]
        omega
      · rw [if_neg ht]
        exact Nat.zero_le _
  | left hw hpc => exact absurd hpc (h.workers _ (List.mem_of_getElem? hw)).pc.1
  | dropped hw _ htoken =>
      rw [(h.workers _ (List.mem_of_getElem? hw)).token] at htoken
      cases htoken
  | @began ticket w hw hpc _ =>
      have hset := stepsLeft_set hw (.running ticket)
      rw [hpc, WorkerPc.stepsLeft_popped, WorkerPc.stepsLeft_running] at hset
      simp only [backlog]
      split <;> omega
  | executed now hw hpc =>
      have hset := stepsLeft_set hw .waiting
      rw [hpc, WorkerPc.stepsLeft_running, WorkerPc.stepsLeft_waiting] at hset
      simp only [backlog]
      split <;> omega

/-- What is enqueued behind a ticket does not matter to it. -/
theorem backlog_enqueue (ht : t < s.pushed.length) (thread : ℕ) (op : α) :
    (s.enqueue thread op).backlog t = s.backlog t := by
  have hne : t ≠ s.pushed.length := by omega
  by_cases hmem : t ∈ s.ops
  · simp only [backlog, enqueue, if_pos hmem, if_pos (List.mem_append_left _ hmem),
      List.idxOf_append_of_mem hmem]
  · have hmem' : t ∉ s.ops ++ [s.pushed.length] := by simp [hmem, hne]
    rw [backlog, backlog, if_neg hmem]
    exact if_neg hmem'

/-- What holds of a ticket while the pool is in service. -/
structure InService (s : Pool α) (t : ℕ) : Prop where
  serving : s.Serving
  conserved : s.Conserved
  given : t < s.pushed.length
  kept : t ∉ s.lost

theorem inService_workerStep (h : s.InService t) (hst : WorkerStep s i s') : s'.InService t := by
  obtain ⟨hserving, hlost, -⟩ := serving_workerStep h.serving hst
  refine ⟨hserving, conserved_workerStep h.conserved hst, ?_, hlost ▸ h.kept⟩
  cases hst <;> exact h.given

theorem inService_enqueue (h : s.InService t) (thread : ℕ) (op : α) :
    (s.enqueue thread op).InService t := by
  have hlt := h.given
  refine ⟨⟨h.serving.shutdown, h.serving.workers⟩, conserved_enqueue h.conserved thread op, ?_,
    h.kept⟩
  simp only [enqueue, List.length_append]
  omega

/-- Along a run in service the backlog loses as much as the workers make steps. -/
theorem backlog_run {ls : List (Label α)} (h : s.InService t) (hls : ∀ l ∈ ls, l.IsService)
    (hrun : Machine.run next s ls = some s') :
    s'.InService t ∧ s'.backlog t ≤ s.backlog t - workerSteps ls := by
  induction ls generalizing s with
  | nil =>
      cases hrun
      exact ⟨h, le_refl _⟩
  | cons l ls ih =>
      rw [Machine.run_cons, Option.bind_eq_some_iff] at hrun
      obtain ⟨u, hu, hrun⟩ := hrun
      have hrest : ∀ l ∈ ls, l.IsService := by
        intro l hl
        exact hls l (List.mem_cons_of_mem _ hl)
      cases next_cases hu with
      | opened _ => exact (hls _ List.mem_cons_self).elim
      | closed _ => exact (hls _ List.mem_cons_self).elim
      | main _ => exact (hls _ List.mem_cons_self).elim
      | enqueued =>
          obtain ⟨hs', hle⟩ := ih (inService_enqueue h _ _) hrest hrun
          rw [backlog_enqueue h.given] at hle
          exact ⟨hs', hle⟩
      | worker hst =>
          have hdrop := backlog_workerStep (t := t) h.serving h.conserved hst
          obtain ⟨hs', hle⟩ := ih (inService_workerStep h hst) hrest hrun
          refine ⟨hs', ?_⟩
          simp only [workerSteps]
          omega

/-- No worker in its loop is stuck while there is something in the queue. -/
theorem workerStep_isSome (h : s.Serving) (ht : t ∈ s.ops) (hi : i < s.workers.length) (now : ℕ) :
    (s.workerStep i now).isSome := by
  obtain ⟨w, hw⟩ : ∃ w, s.workers[i]? = some w := ⟨_, List.getElem?_eq_getElem hi⟩
  have hexited := (h.workers w (List.mem_of_getElem? hw)).pc.2
  simp only [workerStep, hw]
  cases hpc : w.pc with
  | waiting =>
      cases hops : s.ops with
      | nil => simp [hops] at ht
      | cons ticket ops => simp [waitAndPop, h.shutdown, hops]
  | popped ticket => rfl
  | running ticket => rfl
  | exited => exact absurd hpc hexited

/-- Service keeps the pool in service and deletes nothing. -/
theorem serving_run {ls : List (Label α)} (h : s.Serving) (hls : ∀ l ∈ ls, l.IsService)
    (hrun : Machine.run next s ls = some s') : s'.Serving ∧ s'.lost = s.lost := by
  refine Machine.run_induction_of (P := fun u => u.Serving ∧ u.lost = s.lost) ?_
    (Machine.along_of_forall hls s) ⟨h, rfl⟩ hrun
  intro u l v hu hl hv
  cases next_cases hv with
  | opened _ => exact hl.elim
  | closed _ => exact hl.elim
  | main _ => exact hl.elim
  | enqueued => exact ⟨⟨hu.1.shutdown, hu.1.workers⟩, hu.2⟩
  | worker hst =>
      obtain ⟨hserving, hlost, -⟩ := serving_workerStep hu.1 hst
      exact ⟨hserving, hlost.trans hu.2⟩

/-- A pool in service serves. -/
theorem Serving.serves (h : s.Serving) (hc : s.Conserved) : s.Serves := by
  intro ls s₁ hls hrun t ht
  have hserving := (serving_run h hls hrun).1
  have hconserved : s₁.Conserved :=
    Machine.run_induction (fun _ _ _ => conserved_next) hc hrun
  refine ⟨fun i hi now => workerStep_isSome hserving ht hi now, ?_⟩
  intro ls' s₂ hls' hrun' hsteps
  have hpos := List.count_pos_iff.mpr ht
  have hone := hconserved t
  have hlt : t < s₁.pushed.length := by
    by_contra hge
    rw [if_neg hge] at hone
    omega
  have hkept : t ∉ s₁.lost := by
    rw [if_pos hlt] at hone
    exact List.count_eq_zero.mp (by omega)
  obtain ⟨hs₂, hle⟩ := backlog_run ⟨hserving, hconserved, hlt, hkept⟩ hls' hrun'
  have hbound := s₁.backlog_le t
  have hops : t ∉ s₂.ops := not_mem_of_backlog_eq_zero (by omega)
  refine ⟨hops, ?_⟩
  have hone₂ := hs₂.conserved t
  rw [if_pos hs₂.given, List.count_eq_zero.mpr hops, List.count_eq_zero.mpr hs₂.kept] at hone₂
  omega

/-! ## Attempts that do no harm -/

/-- The operations that destroy no worker. -/
def IsHarmless : MainOp → Prop
  | .spawn => True
  | .keepAsync => True
  | .keepSync => True
  | .clearSync => True
  | .ret _ => True
  | _ => False

theorem isHarmless_openAsync (n : ℕ) : ∀ op ∈ Attempt.openAsync n, IsHarmless op := by
  intro op hop
  obtain ⟨ops, hops, hop⟩ := List.mem_flatten.mp hop
  rw [List.eq_of_mem_replicate hops] at hop
  simp only [List.mem_cons, List.not_mem_nil, or_false] at hop
  rcases hop with rfl | rfl <;> trivial

theorem isHarmless_openSync (n : ℕ) : ∀ op ∈ Attempt.openSync n, IsHarmless op := by
  intro op hop
  rw [List.eq_of_mem_replicate hop]
  trivial

/-- Only an attempt that fails at an asynchronous connection destroys a worker. -/
theorem isHarmless_program {attempt : Attempt} (h : ¬ attempt.FailsAsync) (n m : ℕ) :
    ∀ op ∈ attempt.program n m, IsHarmless op := by
  intro op hop
  cases attempt with
  | success =>
      simp only [Attempt.program, List.mem_append, List.mem_singleton] at hop
      rcases hop with (hop | hop) | rfl
      · exact isHarmless_openAsync n op hop
      · exact isHarmless_openSync m op hop
      · trivial
  | asyncError i code => exact absurd trivial h
  | asyncVersion i => exact absurd trivial h
  | syncError i code =>
      simp only [Attempt.program, List.mem_append, List.mem_cons, List.not_mem_nil,
        or_false] at hop
      rcases hop with (hop | hop) | rfl | rfl
      · exact isHarmless_openAsync n op hop
      · exact isHarmless_openSync i op hop
      · trivial
      · trivial
  | syncVersion i =>
      simp only [Attempt.program, List.mem_append, List.mem_singleton] at hop
      rcases hop with (hop | hop) | rfl
      · exact isHarmless_openAsync n op hop
      · exact isHarmless_openSync i op hop
      · trivial

/-- The pool is in service, and nothing that is going on will change that. -/
structure Unharmed (s : Pool α) : Prop where
  serving : s.Serving
  main : ∀ op ∈ s.main, IsHarmless op

theorem unharmed_mainStep (h : s.Unharmed) (hst : MainStep s s') : s'.Unharmed := by
  have hserving := h.serving
  cases hst with
  | spawned hmain =>
      refine ⟨⟨hserving.shutdown, ?_⟩, (forall_main h.main hmain).2⟩
      intro w hw
      rcases List.mem_append.mp hw with hw | hw
      · exact hserving.workers w hw
      · rw [List.mem_singleton.mp hw]
        exact ⟨rfl, by decide⟩
  | asyncKept hmain => exact ⟨⟨hserving.shutdown, hserving.workers⟩, (forall_main h.main hmain).2⟩
  | openingDropped hmain => exact (forall_main h.main hmain).1.elim
  | asyncCleared hmain => exact (forall_main h.main hmain).1.elim
  | syncKept hmain => exact ⟨⟨hserving.shutdown, hserving.workers⟩, (forall_main h.main hmain).2⟩
  | syncCleared hmain => exact ⟨⟨hserving.shutdown, hserving.workers⟩, (forall_main h.main hmain).2⟩
  | tokenSet hmain => exact (forall_main h.main hmain).1.elim
  | cancelled hmain => exact (forall_main h.main hmain).1.elim
  | joined hmain _ => exact (forall_main h.main hmain).1.elim
  | returned hmain => exact ⟨⟨hserving.shutdown, hserving.workers⟩, (forall_main h.main hmain).2⟩

/-- No `Close`, and no attempt that fails at an asynchronous connection. -/
def IsGentle : Label α → Prop
  | .open attempt => ¬ attempt.FailsAsync
  | .close => False
  | _ => True

theorem unharmed_next {l : Label α} (h : s.Unharmed) (hl : IsGentle l)
    (hn : s.next l = some s') : s'.Unharmed := by
  have hserving := h.serving
  cases next_cases hn with
  | opened _ => exact ⟨⟨hserving.shutdown, hserving.workers⟩, isHarmless_program hl _ _⟩
  | closed _ => exact hl.elim
  | main hst => exact unharmed_mainStep h hst
  | enqueued => exact ⟨⟨hserving.shutdown, hserving.workers⟩, h.main⟩
  | worker hst =>
      obtain ⟨hserving', -, hmain⟩ := serving_workerStep hserving hst
      exact ⟨hserving', hmain ▸ h.main⟩

theorem unharmed_new (n m : ℕ) : (new n m : Pool α).Unharmed :=
  ⟨⟨rfl, by simp [new]⟩, by simp [new]⟩

/-! ## Attempts that fail at an asynchronous connection -/

/-- The program will cancel the queue; `opening` tells whether there is a connection
that `dropOpening` would destroy. -/
def dooms : Bool → List MainOp → Bool
  | _, [] => false
  | opening, op :: rest =>
      match op with
      | .spawn => dooms true rest
      | .keepAsync => dooms false rest
      | .dropOpening => opening || dooms false rest
      | .cancel => true
      | _ => dooms opening rest

/-- The queue is cancelled, or will be. -/
def Doomed (s : Pool α) : Prop := s.shutdown = true ∨ dooms s.opening.isSome s.main = true

theorem dooms_openAsync (opening : Bool) (i : ℕ) (rest : List MainOp) :
    dooms opening (Attempt.openAsync i ++ .spawn :: rest) = dooms true rest := by
  induction i generalizing opening with
  | zero => rfl
  | succ i ih => exact ih false

theorem dooms_program {attempt : Attempt} (h : attempt.FailsAsync) (opening : Bool) (n m : ℕ) :
    dooms opening (attempt.program n m) = true := by
  cases attempt with
  | asyncError i code => exact dooms_openAsync opening i [.clearAsync, .dropOpening, .ret code]
  | asyncVersion i => exact dooms_openAsync opening i [.dropOpening, .ret 1]
  | success => exact h.elim
  | syncError i code => exact h.elim
  | syncVersion i => exact h.elim

/-- To destroy a worker is to cancel the queue. -/
theorem dooms_destroyWorkers {opening : Bool} {rest : List MainOp} (workers : List ℕ)
    (h : dooms opening rest = true) :
    dooms opening (workers.flatMap destroyWorker ++ rest) = true := by
  cases workers with
  | nil => exact h
  | cons w workers => rfl

theorem doomed_mainStep (h : s.Doomed) (hst : MainStep s s') : s'.Doomed := by
  rcases h with h | h
  · refine .inl ?_
    cases hst <;> first | exact h | rfl
  · cases hst with
    | spawned hmain => rw [hmain] at h; exact .inr h
    | asyncKept hmain => rw [hmain] at h; exact .inr h
    | openingDropped hmain =>
        rw [hmain] at h
        refine .inr ?_
        cases hopening : s.opening with
        | none => rw [hopening] at h; exact h
        | some w => rfl
    | asyncCleared hmain => rw [hmain] at h; exact .inr (dooms_destroyWorkers s.async h)
    | syncKept hmain => rw [hmain] at h; exact .inr h
    | syncCleared hmain => rw [hmain] at h; exact .inr h
    | tokenSet hmain => rw [hmain] at h; exact .inr h
    | cancelled hmain => exact .inl rfl
    | joined hmain _ => rw [hmain] at h; exact .inr h
    | returned hmain => rw [hmain] at h; exact .inr h

/-- Nothing saves a doomed queue. -/
theorem doomed_next {l : Label α} (h : s.Doomed) (hn : s.next l = some s') : s'.Doomed := by
  -- a new program starts only when the old one is done, and then the queue is cancelled
  have hdone (hmain : s.main = []) : s.shutdown = true := by
    rcases h with h | h
    · exact h
    · rw [hmain] at h
      cases h
  cases next_cases hn with
  | opened hmain => exact .inl (hdone hmain)
  | closed hmain => exact .inl (hdone hmain)
  | main hst => exact doomed_mainStep h hst
  | enqueued => exact h
  | worker hst => cases hst <;> exact h

theorem doomed_of_failsAsync {attempt : Attempt} (h : attempt.FailsAsync)
    (hn : s.next (.open attempt) = some s') : s'.Doomed := by
  cases next_cases hn with
  | opened _ => exact .inr (dooms_program h _ _ _)

theorem doomed_run {ls : List (Label α)} {attempt : Attempt} (hmem : .open attempt ∈ ls)
    (h : attempt.FailsAsync) (hrun : Machine.run next s ls = some s') : s'.Doomed := by
  induction ls generalizing s with
  | nil => cases hmem
  | cons l ls ih =>
      rw [Machine.run_cons, Option.bind_eq_some_iff] at hrun
      obtain ⟨u, hu, hrun⟩ := hrun
      rcases List.mem_cons.mp hmem with rfl | hmem
      · exact Machine.run_induction (fun _ _ _ => doomed_next) (doomed_of_failsAsync h hu) hrun
      · exact ih hmem hrun

/-! ## All attempts together -/

/-- **Whenever `Open` has returned, the queue works exactly if no attempt so far failed
at an asynchronous connection.** -/
theorem workingQueue_iff {n m : ℕ} {ls : List (Label α)} (hls : .close ∉ ls)
    (hrun : Machine.run next (new n m) ls = some s) (hmain : s.main = []) :
    s.WorkingQueue ↔ ∀ attempt, .open attempt ∈ ls → ¬ attempt.FailsAsync := by
  constructor
  · intro h attempt hmem hfails
    have hflag := h.serving.shutdown
    rcases doomed_run hmem hfails hrun with hdoomed | hdoomed
    · rw [hdoomed] at hflag
      cases hflag
    · rw [hmain] at hdoomed
      cases hdoomed
  · intro h
    have hgentle : ∀ l ∈ ls, IsGentle l := by
      intro l hl
      cases l with
      | «open» attempt => exact h attempt hl
      | close => exact absurd hl hls
      | _ => trivial
    have hserving : s.Serving := (Machine.run_induction_of (fun _ _ _ => unharmed_next)
      (Machine.along_of_forall hgentle _) (unharmed_new n m) hrun).serving
    have hconserved : s.Conserved :=
      Machine.run_induction (fun _ _ _ => conserved_next) (conserved_new n m) hrun
    exact ⟨hserving, hserving.serves hconserved⟩

/-- The first attempt fails at the synchronous connection, the second succeeds. -/
def syncRetry : List (Label Unit) :=
  [.open (.syncError 0 2002), .main, .main, .main, .main, .open .success, .main, .main, .main,
    .main]

theorem workingQueue_syncRetry :
    ∃ s, Machine.run next (new 1 1) syncRetry = some s ∧ s.result = some 0 ∧ s.WorkingQueue := by
  have hclose : Label.close ∉ syncRetry := by simp [syncRetry]
  refine ⟨_, rfl, rfl, (workingQueue_iff (n := 1) (m := 1) hclose rfl rfl).mpr ?_⟩
  intro attempt hmem
  simp only [syncRetry, List.mem_cons, Label.open.injEq, reduceCtorEq, List.not_mem_nil,
    false_or, or_false] at hmem
  rcases hmem with rfl | rfl
  · exact not_false
  · exact not_false

/-- The first attempt fails at the asynchronous connection, the second succeeds: the
queue is shut down, the worker of the second attempt has left its loop, and what is
enqueued stays where it is. -/
theorem shutdown_after_asyncRetry :
    ∃ s : Pool Unit, Machine.run next (new 1 1)
        [.open (.asyncError 0 2002), .main, .main, .main, .main, .main, .worker 0 0, .worker 0 0,
          .main, .main, .open .success, .main, .main, .main, .main, .worker 1 0, .worker 1 0,
          .push 0 ()] = some s ∧
      s.main = [] ∧ s.result = some 0 ∧ s.shutdown = true ∧
      s.workers.map Worker.pc = [.exited, .exited] ∧ s.ops = [0] ∧
      ∀ i now, s.workerStep i now = none := by
  refine ⟨_, rfl, rfl, rfl, rfl, rfl, rfl, ?_⟩
  intro i now
  match i with
  | 0 => rfl
  | 1 => rfl
  | i + 2 => rfl

/-! ## One attempt that succeeds -/

theorem run_openAsync {n : ℕ} {rest : List MainOp} (hmain : s.main = Attempt.openAsync n ++ rest)
    (hopening : s.opening = none) :
    Machine.run next s (List.replicate (2 * n) .main) =
      some { s with
        workers := s.workers ++ List.replicate n {}
        async := s.async ++ List.range' s.workers.length n
        main := rest } := by
  induction n generalizing s with
  | zero =>
      obtain rfl : s.main = rest := hmain
      simp
  | succ n ih =>
      let u : Pool α :=
        { s with
          workers := s.workers ++ [{}]
          async := s.async ++ [s.workers.length]
          main := Attempt.openAsync n ++ rest }
      have hstep : Machine.run next s [.main, .main] = some u := by
        have hcons : s.main = .spawn :: .keepAsync :: (Attempt.openAsync n ++ rest) := hmain
        simp [Machine.run_cons, next, mainStep, hcons, hopening, u]
      have hlabels : List.replicate (2 * (n + 1)) (Label.main : Label α) =
          [.main, .main] ++ List.replicate (2 * n) .main := rfl
      rw [hlabels, Machine.run_append, hstep, Option.bind_some, ih (s := u) rfl hopening]
      simp [List.replicate_succ, List.range'_succ, u]

theorem run_openSync {m : ℕ} {rest : List MainOp} (hmain : s.main = Attempt.openSync m ++ rest) :
    Machine.run next s (List.replicate m .main) =
      some { s with sync := s.sync + m, main := rest } := by
  induction m generalizing s with
  | zero =>
      obtain rfl : s.main = rest := hmain
      simp
  | succ m ih =>
      let u : Pool α := { s with sync := s.sync + 1, main := Attempt.openSync m ++ rest }
      have hstep : s.next .main = some u := by
        have hcons : s.main = .keepSync :: (Attempt.openSync m ++ rest) := hmain
        simp [next, mainStep, hcons, u]
      rw [List.replicate_succ, Machine.run_cons, hstep, Option.bind_some, ih (s := u) rfl]
      simp [Nat.add_assoc, Nat.add_comm 1 m, u]

/-- An attempt that succeeds at once ends in `opened`. -/
theorem run_open_success (n m : ℕ) :
    Machine.run next (new n m : Pool α)
        (.open .success :: (List.replicate (2 * n) .main ++ (List.replicate m .main ++ [.main]))) =
      some (opened n m) := by
  have hopen : (new n m : Pool α).next (.open .success) =
      some { (new n m : Pool α) with
        main := Attempt.openAsync n ++ (Attempt.openSync m ++ [.ret 0]) } := by
    simp [next, new, Attempt.Possible, Attempt.program]
  rw [Machine.run_cons, hopen, Option.bind_some, Machine.run_append, run_openAsync rfl rfl,
    Option.bind_some, Machine.run_append, run_openSync rfl, Option.bind_some]
  simp [Machine.run_cons, next, mainStep, new, opened, List.range_eq_range']

end Pool
end WarheadDiscord
