import WarheadDiscord.Database.WorkerPool

/-!
# Closing a pool

`Close` destroys the asynchronous connections one after the other.  The first destructor
cancels the queue, which deletes what is in it; a worker that has an operation in its
hand but has not looked at its token yet leaves with it.  An operation is therefore
safe from `Close` once a worker runs it, and not before: while it is `AtRisk`, it can
still be deleted.

No step but an enqueue puts a ticket at risk.  So if nothing is at risk when `Close` is
called, every operation enqueued by then has been executed when `Close` has joined all
workers and returns (`executed_of_closed`).

## Main definitions

* `Pool.AtRisk` — the ticket is or can be deleted.
* `Pool.QuietClose` — the condition on the calls of `Close`.
* `Pool.CloseInv` — the invariant of the runs that meet it.
-/

namespace WarheadDiscord

/-- The steps of `Close`. -/
def MainOp.IsClosing : MainOp → Prop
  | .clearAsync => True
  | .clearSync => True
  | .setToken _ => True
  | .cancel => True
  | .join _ => True
  | _ => False

namespace Pool
variable {α : Type} {s s' : Pool α} {i t : ℕ}

/-- The ticket is queued, or in the hand of a worker that has not looked at its token
yet, or deleted already. -/
def AtRisk (s : Pool α) (t : ℕ) : Prop :=
  t ∈ s.ops ∨ (∃ w ∈ s.workers, w.pc = .popped (some t)) ∨ t ∈ s.lost

/-- `Close` is called once, and when the queue is empty and every worker is waiting for
an operation or is past the check of its token. -/
def QuietClose (s : Pool α) : Label α → Prop
  | .close => s.closedAt = none ∧ s.ops = [] ∧ ∀ w ∈ s.workers, ∀ t, w.pc ≠ .popped (some t)
  | .open _ => False
  | _ => True

/-- The thread that closes the pool still waits for the worker, or has to. -/
def Managed (s : Pool α) : Prop :=
  ∀ i w, s.workers[i]? = some w → i ∈ s.async ∨ .join i ∈ s.main ∨ w.pc = .exited

/-- Before `Close` the queue is served; after it, nothing is at risk that was enqueued
before. -/
structure CloseInv (s : Pool α) : Prop where
  conserved : s.Conserved
  main : ∀ op ∈ s.main, op.IsClosing
  managed : s.Managed
  before : s.closedAt = none → s.Serving ∧ s.lost = [] ∧ s.main = []
  after : ∀ N, s.closedAt = some N →
    N ≤ s.pushed.length ∧ (s.async = [] ∨ .clearAsync ∈ s.main) ∧ ∀ t, s.AtRisk t → N ≤ t

/-! ## Steps of the workers -/

theorem popped_of_mem_set {w : Worker} {pc : WorkerPc}
    (h : ∃ v ∈ s.workers.set i { w with pc := pc }, v.pc = .popped (some t)) :
    (∃ v ∈ s.workers, v.pc = .popped (some t)) ∨ pc = .popped (some t) := by
  obtain ⟨v, hv, hpc⟩ := h
  rcases List.mem_or_eq_of_mem_set hv with hmem | rfl
  · exact .inl ⟨v, hmem, hpc⟩
  · exact .inr hpc

/-- A worker moves, but not by taking an operation or by leaving with it. -/
theorem atRisk_of_set {w : Worker} {pc : WorkerPc} (h : s'.AtRisk t) (hops : s'.ops = s.ops)
    (hworkers : s'.workers = s.workers.set i { w with pc := pc }) (hlost : s'.lost = s.lost)
    (hpc : pc ≠ .popped (some t)) : s.AtRisk t := by
  rcases h with h | h | h
  · exact .inl (hops ▸ h)
  · rw [hworkers] at h
    rcases popped_of_mem_set h with h | h
    · exact .inr (.inl h)
    · exact absurd h hpc
  · exact .inr (.inr (hlost ▸ h))

/-- A worker puts nothing at risk. -/
theorem atRisk_of_workerStep (hst : WorkerStep s i s') (h : s'.AtRisk t) : s.AtRisk t := by
  cases hst with
  | tookNothing _ _ _ => exact atRisk_of_set h rfl rfl rfl (by simp)
  | took hw _ _ hops =>
      rcases h with h | h | h
      · exact .inl (hops ▸ List.mem_cons_of_mem _ h)
      · rcases popped_of_mem_set h with h | h
        · exact .inr (.inl h)
        · cases h
          exact .inl (hops ▸ List.mem_cons_self)
      · exact .inr (.inr h)
  | left _ _ => exact atRisk_of_set h rfl rfl rfl (by simp)
  | dropped hw hpc _ =>
      rcases h with h | h | h
      · exact .inl h
      · rcases popped_of_mem_set h with h | h
        · exact .inr (.inl h)
        · cases h
      · rcases List.mem_append.mp h with h | h
        · exact .inr (.inr h)
        · obtain rfl := List.mem_singleton.mp h
          exact .inr (.inl ⟨_, List.mem_of_getElem? hw, hpc⟩)
  | began _ _ _ => exact atRisk_of_set h rfl rfl rfl (by simp)
  | executed _ _ _ => exact atRisk_of_set h rfl rfl rfl (by simp)

/-- What a worker leaves alone, and that a worker that has left stays away. -/
theorem workerStep_frame (hst : WorkerStep s i s') :
    s'.main = s.main ∧ s'.async = s.async ∧ s'.closedAt = s.closedAt ∧ s'.pushed = s.pushed ∧
      ∃ w w', s.workers[i]? = some w ∧ w.pc ≠ .exited ∧ s'.workers = s.workers.set i w' := by
  cases hst with
  | tookNothing hw hpc _ => exact ⟨rfl, rfl, rfl, rfl, _, _, hw, by simp [hpc], rfl⟩
  | took hw hpc _ _ => exact ⟨rfl, rfl, rfl, rfl, _, _, hw, by simp [hpc], rfl⟩
  | left hw hpc => exact ⟨rfl, rfl, rfl, rfl, _, _, hw, by simp [hpc], rfl⟩
  | dropped hw hpc _ => exact ⟨rfl, rfl, rfl, rfl, _, _, hw, by simp [hpc], rfl⟩
  | began hw hpc _ => exact ⟨rfl, rfl, rfl, rfl, _, _, hw, by simp [hpc], rfl⟩
  | executed _ hw hpc => exact ⟨rfl, rfl, rfl, rfl, _, _, hw, by simp [hpc], rfl⟩

theorem managed_workerStep (h : s.Managed) (hst : WorkerStep s i s') : s'.Managed := by
  obtain ⟨hmain, hasync, -, -, w, w', hw, hpc, hset⟩ := workerStep_frame hst
  intro j v hv
  rw [hmain, hasync]
  rw [hset] at hv
  by_cases hji : j = i
  · subst hji
    rcases h j w hw with h | h | h
    · exact .inl h
    · exact .inr (.inl h)
    · exact absurd h hpc
  · rw [List.getElem?_set_ne (Ne.symm hji)] at hv
    exact h j v hv

theorem closeInv_workerStep (h : s.CloseInv) (hst : WorkerStep s i s') : s'.CloseInv := by
  obtain ⟨hmain, hasync, hclosed, hpushed, -⟩ := workerStep_frame hst
  refine ⟨conserved_workerStep h.conserved hst, by rw [hmain]; exact h.main,
    managed_workerStep h.managed hst, ?_, ?_⟩
  · intro hnone
    obtain ⟨hserving, hlost, hnil⟩ := h.before (hclosed ▸ hnone)
    obtain ⟨hserving', hlost', -⟩ := serving_workerStep hserving hst
    exact ⟨hserving', hlost'.trans hlost, hmain.trans hnil⟩
  · intro N hN
    obtain ⟨hle, hasync', hrisk⟩ := h.after N (hclosed ▸ hN)
    rw [hpushed, hasync, hmain]
    refine ⟨hle, hasync', ?_⟩
    intro t ht
    exact hrisk t (atRisk_of_workerStep hst ht)

/-! ## Steps of `Close` -/

/-- A token does not move its worker. -/
theorem getElem?_of_setToken {workers : List Worker} {j : ℕ} {v : Worker}
    (h : (workers.modify i fun w => { w with token := true })[j]? = some v) :
    ∃ w, workers[j]? = some w ∧ w.pc = v.pc := by
  rw [List.getElem?_modify, Option.map_eq_map, Option.map_eq_some_iff] at h
  obtain ⟨w, hw, rfl⟩ := h
  refine ⟨w, hw, ?_⟩
  split <;> rfl

/-- The steps of `Close` put nothing at risk either: to delete what is queued is to make
good on the threat. -/
theorem atRisk_of_mainStep (hst : MainStep s s') (h : s'.AtRisk t) : s.AtRisk t := by
  cases hst with
  | spawned _ =>
      rcases h with h | ⟨w, hw, hpc⟩ | h
      · exact .inl h
      · rcases List.mem_append.mp hw with hw | hw
        · exact .inr (.inl ⟨w, hw, hpc⟩)
        · obtain rfl := List.mem_singleton.mp hw
          cases hpc
      · exact .inr (.inr h)
  | @tokenSet i _ _ =>
      rcases h with h | ⟨w, hw, hpc⟩ | h
      · exact .inl h
      · obtain ⟨j, hj⟩ := List.mem_iff_getElem?.mp hw
        obtain ⟨v, hv, hvpc⟩ := getElem?_of_setToken hj
        exact .inr (.inl ⟨v, List.mem_of_getElem? hv, hvpc.trans hpc⟩)
      · exact .inr (.inr h)
  | cancelled _ =>
      rcases h with h | h | h
      · cases h
      · exact .inr (.inl h)
      · rcases List.mem_append.mp h with h | h
        · exact .inr (.inr h)
        · exact .inl h
  | _ => exact h

theorem join_mem_of_mem_cons {op : MainOp} {rest : List MainOp} (hop : op ≠ .join i)
    (h : MainOp.join i ∈ op :: rest) : MainOp.join i ∈ rest := by
  rcases List.mem_cons.mp h with rfl | h
  · exact absurd rfl hop
  · exact h

theorem join_mem_destroyWorker {workers : List ℕ} (h : i ∈ workers) :
    MainOp.join i ∈ workers.flatMap destroyWorker :=
  List.mem_flatMap.mpr ⟨i, h, by simp [destroyWorker]⟩

theorem isClosing_of_mem_destroyWorker {workers : List ℕ} {op : MainOp}
    (h : op ∈ workers.flatMap destroyWorker) : op.IsClosing := by
  obtain ⟨j, -, hop⟩ := List.mem_flatMap.mp h
  simp only [destroyWorker, List.mem_cons, List.not_mem_nil, or_false] at hop
  rcases hop with rfl | rfl | rfl <;> trivial

/-- `Close` has one operation less to do. -/
theorem managed_of_tail {op : MainOp} (h : s.Managed) (hmain : s.main = op :: s'.main)
    (hop : ∀ j, op ≠ .join j) (hasync : s'.async = s.async) (hworkers : s'.workers = s.workers) :
    s'.Managed := by
  intro j v hv
  rw [hasync]
  rcases h j v (hworkers ▸ hv) with h | h | h
  · exact .inl h
  · exact .inr (.inl (join_mem_of_mem_cons (hop j) (hmain ▸ h)))
  · exact .inr (.inr h)

theorem managed_mainStep (h : s.Managed) (hclosing : ∀ op ∈ s.main, op.IsClosing)
    (hst : MainStep s s') : s'.Managed := by
  cases hst with
  | spawned hmain => exact (forall_main hclosing hmain).1.elim
  | asyncKept hmain => exact (forall_main hclosing hmain).1.elim
  | openingDropped hmain => exact (forall_main hclosing hmain).1.elim
  | asyncCleared hmain =>
      intro j v hv
      rcases h j v hv with h | h | h
      · exact .inr (.inl (List.mem_append_left _ (join_mem_destroyWorker h)))
      · rw [hmain] at h
        exact .inr (.inl (List.mem_append_right _ (join_mem_of_mem_cons (by simp) h)))
      · exact .inr (.inr h)
  | syncKept hmain => exact (forall_main hclosing hmain).1.elim
  | syncCleared hmain => exact managed_of_tail h hmain (by simp) rfl rfl
  | @tokenSet i rest hmain =>
      intro j v hv
      obtain ⟨w, hw, hpc⟩ := getElem?_of_setToken hv
      rcases h j w hw with h | h | h
      · exact .inl h
      · exact .inr (.inl (join_mem_of_mem_cons (by simp) (hmain ▸ h)))
      · exact .inr (.inr (hpc ▸ h))
  | cancelled hmain => exact managed_of_tail h hmain (by simp) rfl rfl
  | @joined i rest hmain hexited =>
      intro j v hv
      rcases h j v hv with h | h | h
      · exact .inl h
      · by_cases hji : i = j
        · subst hji
          rw [hv] at hexited
          exact .inr (.inr (Option.some.inj hexited))
        · refine .inr (.inl (join_mem_of_mem_cons ?_ (hmain ▸ h)))
          simpa using hji
      · exact .inr (.inr h)
  | returned hmain => exact (forall_main hclosing hmain).1.elim

/-- What the steps of `Close` leave alone, and what they leave to do. -/
theorem mainStep_frame (hclosing : ∀ op ∈ s.main, op.IsClosing) (hst : MainStep s s') :
    s'.closedAt = s.closedAt ∧ s'.pushed = s.pushed ∧ (∀ op ∈ s'.main, op.IsClosing) ∧
      (s.async = [] ∨ .clearAsync ∈ s.main → s'.async = [] ∨ .clearAsync ∈ s'.main) := by
  have hclear {op : MainOp} {rest : List MainOp} (hmain : s.main = op :: rest)
      (hop : op ≠ .clearAsync) :
      s.async = [] ∨ .clearAsync ∈ s.main → s.async = [] ∨ .clearAsync ∈ rest := by
    rintro (h | h)
    · exact .inl h
    · rcases List.mem_cons.mp (hmain ▸ h) with rfl | h
      · exact absurd rfl hop
      · exact .inr h
  cases hst with
  | spawned hmain => exact (forall_main hclosing hmain).1.elim
  | asyncKept hmain => exact (forall_main hclosing hmain).1.elim
  | openingDropped hmain => exact (forall_main hclosing hmain).1.elim
  | asyncCleared hmain =>
      refine ⟨rfl, rfl, ?_, fun _ => .inl rfl⟩
      intro op hop
      rcases List.mem_append.mp hop with h | h
      · exact isClosing_of_mem_destroyWorker h
      · exact (forall_main hclosing hmain).2 op h
  | syncKept hmain => exact (forall_main hclosing hmain).1.elim
  | syncCleared hmain => exact ⟨rfl, rfl, (forall_main hclosing hmain).2, hclear hmain (by simp)⟩
  | tokenSet hmain => exact ⟨rfl, rfl, (forall_main hclosing hmain).2, hclear hmain (by simp)⟩
  | cancelled hmain => exact ⟨rfl, rfl, (forall_main hclosing hmain).2, hclear hmain (by simp)⟩
  | joined hmain _ => exact ⟨rfl, rfl, (forall_main hclosing hmain).2, hclear hmain (by simp)⟩
  | returned hmain => exact (forall_main hclosing hmain).1.elim

theorem closeInv_mainStep (h : s.CloseInv) (hst : MainStep s s') : s'.CloseInv := by
  obtain ⟨hclosed, hpushed, hmain, hclear⟩ := mainStep_frame h.main hst
  refine ⟨conserved_mainStep h.conserved hst, hmain, managed_mainStep h.managed h.main hst, ?_, ?_⟩
  · intro hnone
    have hnil := (h.before (hclosed ▸ hnone)).2.2
    cases hst <;> simp_all
  · intro N hN
    obtain ⟨hle, hasync, hrisk⟩ := h.after N (hclosed ▸ hN)
    rw [hpushed]
    refine ⟨hle, hclear hasync, ?_⟩
    intro t ht
    exact hrisk t (atRisk_of_mainStep hst ht)

/-! ## Runs -/

theorem closeInv_enqueue (h : s.CloseInv) (thread : ℕ) (op : α) :
    (s.enqueue thread op).CloseInv := by
  refine ⟨conserved_enqueue h.conserved thread op, h.main, h.managed, ?_, ?_⟩
  · intro hnone
    obtain ⟨hserving, hrest⟩ := h.before hnone
    exact ⟨⟨hserving.shutdown, hserving.workers⟩, hrest⟩
  · intro N hN
    obtain ⟨hle, hasync, hrisk⟩ := h.after N hN
    refine ⟨by simp only [enqueue, List.length_append]; omega, hasync, ?_⟩
    rintro t (ht | ht | ht)
    · rcases List.mem_append.mp ht with ht | ht
      · exact hrisk t (.inl ht)
      · obtain rfl := List.mem_singleton.mp ht
        exact hle
    · exact hrisk t (.inr (.inl ht))
    · exact hrisk t (.inr (.inr ht))

theorem closeInv_close (h : s.CloseInv) (hquiet : s.QuietClose .close) :
    CloseInv { s with main := closeProgram, closedAt := some s.pushed.length } := by
  obtain ⟨hnone, hops, hpopped⟩ := hquiet
  obtain ⟨-, hlost, hmain⟩ := h.before hnone
  refine ⟨h.conserved, by simp [closeProgram, MainOp.IsClosing], ?_, by simp, ?_⟩
  · intro i w hw
    rcases h.managed i w hw with h | h | h
    · exact .inl h
    · rw [hmain] at h
      cases h
    · exact .inr (.inr h)
  · intro N hN
    obtain rfl := Option.some.inj hN
    refine ⟨le_refl _, by simp [closeProgram], ?_⟩
    rintro t (ht | ⟨w, hw, hpc⟩ | ht)
    · simp [hops] at ht
    · exact absurd hpc (hpopped w hw t)
    · simp [hlost] at ht

theorem closeInv_next {l : Label α} (h : s.CloseInv) (hl : s.QuietClose l)
    (hn : s.next l = some s') : s'.CloseInv := by
  cases next_cases hn with
  | opened _ => exact hl.elim
  | closed _ => exact closeInv_close h hl
  | main hst => exact closeInv_mainStep h hst
  | enqueued => exact closeInv_enqueue h _ _
  | worker hst => exact closeInv_workerStep h hst

theorem closeInv_opened (n m : ℕ) : (opened n m : Pool α).CloseInv := by
  have hworker : ∀ w ∈ (opened n m : Pool α).workers, w = {} := by
    intro w hw
    exact List.eq_of_mem_replicate hw
  refine ⟨?_, by simp [opened], ?_, ?_, by simp [opened]⟩
  · intro t
    simp [opened, held, sumWorkers, timesExecuted, WorkerPc.holds]
  · intro i w hw
    have hi := (List.getElem?_eq_some_iff.mp hw).1
    refine .inl (List.mem_range.mpr ?_)
    simpa [opened] using hi
  · intro _
    refine ⟨⟨rfl, ?_⟩, rfl, rfl⟩
    intro w hw
    rw [hworker w hw]
    exact ⟨rfl, by decide⟩

/-- When `Close` has returned, all workers have. -/
theorem CloseInv.exited (h : s.CloseInv) {N : ℕ} (hclosed : s.closedAt = some N)
    (hmain : s.main = []) : ∀ w ∈ s.workers, w.pc = .exited := by
  intro w hw
  obtain ⟨i, hi⟩ := List.mem_iff_getElem?.mp hw
  have hasync := (h.after N hclosed).2.1
  simp only [hmain, List.not_mem_nil, or_false] at hasync
  simpa [hmain, hasync] using h.managed i w hi

/-- **If nothing is at risk when `Close` is called, every operation enqueued by then
has been executed once when `Close` returns.** -/
theorem executed_of_closed {n m : ℕ} {ls : List (Label α)}
    (hls : Machine.Along next QuietClose (opened n m) ls)
    (hrun : Machine.run next (opened n m) ls = some s) {N : ℕ} (hclosed : s.closedAt = some N)
    (hmain : s.main = []) (t : ℕ) (ht : t < N) : s.timesExecuted t = 1 := by
  have h : s.CloseInv := Machine.run_induction_of (fun _ _ _ => closeInv_next) hls
    (closeInv_opened n m) hrun
  obtain ⟨hle, -, hrisk⟩ := h.after N hclosed
  have hsafe : ¬ s.AtRisk t := by
    intro hat
    have := hrisk t hat
    omega
  have hops : s.ops.count t = 0 := List.count_eq_zero.mpr fun h => hsafe (.inl h)
  have hlost : s.lost.count t = 0 := List.count_eq_zero.mpr fun h => hsafe (.inr (.inr h))
  have hheld : s.held t = 0 := by
    refine List.sum_eq_zero_iff_forall_eq_nat.mpr ?_
    intro x hx
    obtain ⟨w, hw, rfl⟩ := List.mem_map.mp hx
    rw [h.exited hclosed hmain w hw]
    rfl
  have hconserved := h.conserved t
  rw [if_pos (by omega)] at hconserved
  omega

/-- One operation, one worker, and `Close` while the worker executes the operation. -/
def quietRun : List (Label Unit) :=
  [.push 0 (), .worker 0 0, .worker 0 0, .close, .main, .main, .main, .worker 0 0, .worker 0 0,
    .worker 0 0, .main, .main]

theorem executed_of_closed_one :
    ∃ s : Pool Unit, Machine.run next (opened 1 1) quietRun = some s ∧
      s.timesExecuted 0 = 1 := by
  have hquiet : Machine.Along next QuietClose (opened 1 1) quietRun := by
    have hclose : ∀ w ∈ [({ pc := .running 0 } : Worker)], ∀ t, w.pc ≠ .popped (some t) := by simp
    iterate 3 refine Machine.along_cons trivial rfl ?_
    refine Machine.along_cons ⟨rfl, rfl, hclose⟩ rfl ?_
    iterate 8 refine Machine.along_cons trivial rfl ?_
    trivial
  exact ⟨_, rfl, executed_of_closed hquiet rfl rfl rfl 0 (by decide)⟩

/-- `Close` while the operation is still in the queue: it is deleted. -/
theorem lost_at_close :
    ∃ s : Pool Unit, Machine.run next (opened 1 1)
        [.push 0 (), .close, .main, .main, .main, .worker 0 0, .worker 0 0, .main, .main] =
          some s ∧
      s.closedAt = some 1 ∧ s.main = [] ∧ s.timesExecuted 0 = 0 :=
  ⟨_, rfl, rfl, rfl, rfl⟩

end Pool
end WarheadDiscord
