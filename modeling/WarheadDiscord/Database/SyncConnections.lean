import Mathlib.Algebra.BigOperators.Group.Finset.Basic
import Mathlib.Algebra.Order.BigOperators.Group.Finset
import WarheadDiscord.Database.TransactionTask
import WarheadDiscord.Lib.Machine
import WarheadDiscord.Lib.TryLock

/-!
# The synchronous connections

Any thread may run a query on a synchronous connection.  `GetFreeConnection` goes round the
connections until `LockIfReady` of one succeeds, and the caller unlocks it when it is done;
`DirectCommitTransaction` has several ways to get there.  `KeepAlive` pings the connections that it
finds unlocked.

The counter of `GetFreeConnection` has eight bits, so that its way round the connections has a jump
in it wherever the number of connections does not divide 256.  It still meets every connection
within twice as many attempts as there are connections (`exists_attempt`).

A step is an attempt to lock, a command on the connection, or an unlock.  The state also notes what
must not happen: a command on a connection that the thread does not hold, an unlock of one, a second
lock, and a division by zero.

## Main definitions

* `Call`, `Pc`, `State` — the calls, where a thread is, and the state of all.
* `State.step`, `State.next` — the steps of a thread, and the machine.
* `State.Inv` — the invariant.
* `State.Stepped` — what a step leaves as it is.
* `State.left` — the steps until a call ends.
-/

namespace WarheadDiscord.SyncConnections

open TryLock

/-- The functions of the pool that take a connection. -/
inductive Call
  | query
  | directExecute
  | directCommitTransaction
  deriving DecidableEq, Repr

/-- Where a thread is.  A connection is known by its place. -/
inductive Pc
  | idle
  /-- In the loop of `GetFreeConnection`. -/
  | scanning (call : Call) (i : UInt8)
  /-- In front of the command of the call. -/
  | executing (call : Call) (connection : ℕ)
  /-- In the loop of `DirectCommitTransaction` after a deadlock. -/
  | retrying (connection : ℕ) (i : ℕ)
  | unlocking (connection : ℕ)
  /-- In `KeepAlive`, in front of `LockIfReady`, `Ping` and `Unlock`. -/
  | visiting (connection : ℕ)
  | pinging (connection : ℕ)
  | leaving (connection : ℕ)
  deriving DecidableEq, Repr

/-- The connection that the thread holds. -/
def Pc.holds : Pc → Option ℕ
  | .executing _ connection | .retrying connection _ | .unlocking connection
  | .pinging connection | .leaving connection => some connection
  | .idle | .scanning _ _ | .visiting _ => none

structure State where
  /-- The size of `_connections[IDX_SYNCH]`. -/
  numCons : UInt8
  /-- The threads that hold the mutexes. -/
  owner : ℕ → Option ℕ := fun _ => none
  pc : ℕ → Pc := fun _ => .idle
  /-- The commands, with their threads and connections. -/
  used : List (ℕ × ℕ) := []
  /-- The threads that called `Cleanup` of their transaction. -/
  cleaned : List ℕ := []
  faulted : Bool := false

namespace State

def setPc (s : State) (thread : ℕ) (pc : Pc) : State :=
  { s with pc := Function.update s.pc thread pc }

def lockIfReady (s : State) (thread connection : ℕ) : Bool × State :=
  match s.owner connection with
  | none => (true, { s with owner := Function.update s.owner connection (some thread) })
  | some owner => (false, { s with faulted := s.faulted || owner = thread })

def unlock (s : State) (thread connection : ℕ) : State :=
  { s with
    owner := Function.update s.owner connection none
    faulted := s.faulted || s.owner connection ≠ some thread }

/-- A command on a connection. -/
def use (s : State) (thread connection : ℕ) : State :=
  { s with
    used := s.used ++ [(thread, connection)]
    faulted := s.faulted || s.owner connection ≠ some thread }

def cleanup (s : State) (thread : ℕ) : State := { s with cleaned := s.cleaned ++ [thread] }

def loopBreaker : ℕ := 5

/-- A turn of the loop of `GetFreeConnection`. -/
def getFreeConnection (s : State) (thread : ℕ) (call : Call) (i : UInt8) : State :=
  if s.numCons = 0 then { s with faulted := true }
  else
    let i := i + 1
    let connection := i.toNat % s.numCons.toNat
    match s.lockIfReady thread connection with
    | (true, s) => s.setPc thread (.executing call connection)
    | (false, s) => s.setPc thread (.scanning call i)

/-- The command of the call; `code` is what `ExecuteTransaction` returns. -/
def execute (s : State) (thread : ℕ) (call : Call) (connection : ℕ) (code : ℤ) : State :=
  let s := s.use thread connection
  match call with
  | .query | .directExecute => s.setPc thread (.unlocking connection)
  | .directCommitTransaction =>
      if code = 0 then s.setPc thread (.unlocking connection)
      else if code = lockDeadlock then s.setPc thread (.retrying connection 0)
      else (s.cleanup thread).setPc thread (.unlocking connection)

/-- A turn of the loop of `DirectCommitTransaction`. -/
def retry (s : State) (thread connection i : ℕ) (code : ℤ) : State :=
  if i < loopBreaker then
    let s := s.use thread connection
    if code = 0 then (s.cleanup thread).setPc thread (.unlocking connection)
    else s.setPc thread (.retrying connection (i + 1))
  else (s.cleanup thread).setPc thread (.unlocking connection)

/-- A turn of the loop of `KeepAlive`, up to `Ping`. -/
def visit (s : State) (thread connection : ℕ) : State :=
  if connection < s.numCons.toNat then
    match s.lockIfReady thread connection with
    | (true, s) => s.setPc thread (.pinging connection)
    | (false, s) => s.setPc thread (.visiting (connection + 1))
  else s.setPc thread .idle

/-- A step of a thread that is in one of the functions. -/
def step (s : State) (thread : ℕ) (code : ℤ) : Option State :=
  match s.pc thread with
  | .idle => none
  | .scanning call i => some (s.getFreeConnection thread call i)
  | .executing call connection => some (s.execute thread call connection code)
  | .retrying connection i => some (s.retry thread connection i code)
  | .unlocking connection => some ((s.unlock thread connection).setPc thread .idle)
  | .visiting connection => some (s.visit thread connection)
  | .pinging connection =>
      some ((s.use thread connection).setPc thread (.leaving connection))
  | .leaving connection =>
      some ((s.unlock thread connection).setPc thread (.visiting (connection + 1)))

/-- What can happen. -/
inductive Label
  | call (thread : ℕ) (call : Call)
  | keepAlive (thread : ℕ)
  | step (thread : ℕ) (code : ℤ)

def next (s : State) : Label → Option State
  | .call thread call =>
      if s.pc thread = .idle then some (s.setPc thread (.scanning call 0)) else none
  | .keepAlive thread =>
      if s.pc thread = .idle then some (s.setPc thread (.visiting 0)) else none
  | .step thread code => s.step thread code

variable {s s' : State} {t t' c : ℕ} {p : Pc} {call : Call} {i : UInt8} {code : ℤ} {label : Label}

@[simp] theorem setPc_pc : (s.setPc t p).pc t = p := by simp [setPc]

theorem setPc_pc_of_ne (h : t' ≠ t) : (s.setPc t p).pc t' = s.pc t' := by simp [setPc, h]

theorem holds_setPc : (fun u => ((s.setPc t p).pc u).holds) =
    Function.update (fun u => (s.pc u).holds) t p.holds := by
  ext1 u
  by_cases h : u = t
  · simp [h]
  · simp [setPc_pc_of_ne h, h]

theorem lockIfReady_of_free (h : s.owner c = none) : s.lockIfReady t c =
    (true, { s with owner := Function.update s.owner c (some t) }) := by
  simp [lockIfReady, h]

theorem lockIfReady_of_locked (h : s.owner c = some t') :
    s.lockIfReady t c = (false, { s with faulted := s.faulted || t' = t }) := by
  simp [lockIfReady, h]

/-- The connection that the next attempt is about. -/
def candidate (s : State) (i : UInt8) : ℕ := (i + 1).toNat % s.numCons.toNat

theorem candidate_lt (hnum : s.numCons ≠ 0) : s.candidate i < s.numCons.toNat := by
  apply Nat.mod_lt
  apply Nat.pos_of_ne_zero
  simpa [← UInt8.toNat_inj] using hnum

theorem getFreeConnection_of_free (hnum : s.numCons ≠ 0) (h : s.owner (s.candidate i) = none) :
    s.getFreeConnection t call i =
      { s with owner := Function.update s.owner (s.candidate i) (some t) }.setPc t
        (.executing call (s.candidate i)) := by
  unfold candidate at h
  rw [getFreeConnection, if_neg hnum]
  simp only [lockIfReady_of_free h]
  rfl

theorem getFreeConnection_of_locked (hnum : s.numCons ≠ 0)
    (h : s.owner (s.candidate i) = some t') :
    s.getFreeConnection t call i =
      { s with faulted := s.faulted || t' = t }.setPc t (.scanning call (i + 1)) := by
  unfold candidate at h
  rw [getFreeConnection, if_neg hnum]
  simp only [lockIfReady_of_locked h]

/-! ## The invariant -/

/-- What the threads hold is what the mutexes know, and nothing went wrong. -/
structure Inv (s : State) : Prop where
  matched : Matched (fun thread => (s.pc thread).holds) s.owner
  bound : ∀ thread connection, (s.pc thread).holds = some connection →
    connection < s.numCons.toNat
  faulted : s.faulted = false

/-- The mutexes stay as they are. -/
theorem Inv.setPc (hs : Inv s) (hp : p.holds = (s.pc t).holds) : Inv (s.setPc t p) where
  matched := by
    rw [holds_setPc, hp, Function.update_eq_self (f := fun u => (s.pc u).holds)]
    exact hs.matched
  bound := by
    intro u c hu
    have hu : Function.update (fun u => (s.pc u).holds) t p.holds u = some c := by
      rw [← holds_setPc]
      exact hu
    rw [hp, Function.update_eq_self (f := fun u => (s.pc u).holds)] at hu
    exact hs.bound u c hu
  faulted := hs.faulted

/-- `try_lock` has succeeded. -/
theorem Inv.acquire (hs : Inv s) (hfree : s.owner c = none) (hnone : (s.pc t).holds = none)
    (hc : c < s.numCons.toNat) (hp : p.holds = some c) :
    Inv ({ s with owner := Function.update s.owner c (some t) }.setPc t p) where
  matched := by
    rw [holds_setPc, hp]
    exact hs.matched.acquire hfree hnone
  bound := by
    intro u c' hu
    by_cases h : u = t
    · rw [h, setPc_pc, hp] at hu
      cases hu
      exact hc
    · rw [setPc_pc_of_ne h] at hu
      exact hs.bound u c' hu
  faulted := hs.faulted

theorem Inv.unlock (hs : Inv s) (hc : (s.pc t).holds = some c) (hp : p.holds = none) :
    Inv ((s.unlock t c).setPc t p) where
  matched := by
    rw [holds_setPc, hp]
    exact hs.matched.release hc
  bound := by
    intro u c' hu
    by_cases h : u = t
    · rw [h, setPc_pc, hp] at hu
      cases hu
    · rw [setPc_pc_of_ne h] at hu
      exact hs.bound u c' hu
  faulted := by
    have howner : s.owner c = some t := (hs.matched t c).mpr hc
    change (s.faulted || decide (s.owner c ≠ some t)) = false
    simp [hs.faulted, howner]

theorem Inv.use (hs : Inv s) (hc : (s.pc t).holds = some c) : Inv (s.use t c) where
  matched := hs.matched
  bound := hs.bound
  faulted := by
    have howner : s.owner c = some t := (hs.matched t c).mpr hc
    change (s.faulted || decide (s.owner c ≠ some t)) = false
    simp [hs.faulted, howner]

theorem Inv.cleanup (hs : Inv s) : Inv (s.cleanup t) := ⟨hs.matched, hs.bound, hs.faulted⟩

/-- A thread that holds no connection finds one locked by another. -/
theorem Inv.owner_ne (hs : Inv s) (hnone : (s.pc t).holds = none) (h : s.owner c = some t') :
    t' ≠ t := by
  rintro rfl
  have hholds : (s.pc t').holds = some c := (hs.matched t' c).mp h
  rw [hnone] at hholds
  cases hholds

theorem faulted_of_ne (h : t' ≠ t) :
    { s with faulted := s.faulted || t' = t } = s := by
  simp [h]

theorem Inv.getFreeConnection (hs : Inv s) (hnum : s.numCons ≠ 0)
    (hpc : s.pc t = .scanning call i) : Inv (s.getFreeConnection t call i) := by
  have hnone : (s.pc t).holds = none := by rw [hpc]; rfl
  cases howner : s.owner (s.candidate i) with
  | none =>
      rw [getFreeConnection_of_free hnum howner]
      exact hs.acquire howner hnone (candidate_lt hnum) rfl
  | some owner =>
      rw [getFreeConnection_of_locked hnum howner, faulted_of_ne (hs.owner_ne hnone howner)]
      exact hs.setPc hnone.symm

theorem Inv.execute (hs : Inv s) (hpc : s.pc t = .executing call c) :
    Inv (s.execute t call c code) := by
  have hholds : (s.pc t).holds = some c := by rw [hpc]; rfl
  have huse := hs.use hholds
  have hkept : ∀ p : Pc, p.holds = some c → Inv ((s.use t c).setPc t p) :=
    fun p hp => huse.setPc (hp.trans hholds.symm)
  unfold State.execute
  cases call with
  | query => exact hkept _ rfl
  | directExecute => exact hkept _ rfl
  | directCommitTransaction =>
      dsimp only
      split_ifs
      · exact hkept _ rfl
      · exact hkept _ rfl
      · exact huse.cleanup.setPc hholds.symm

theorem Inv.retry {i : ℕ} (hs : Inv s) (hpc : s.pc t = .retrying c i) :
    Inv (s.retry t c i code) := by
  have hholds : (s.pc t).holds = some c := by rw [hpc]; rfl
  have huse := hs.use hholds
  unfold State.retry
  dsimp only
  split_ifs
  · exact huse.cleanup.setPc hholds.symm
  · exact huse.setPc hholds.symm
  · exact hs.cleanup.setPc hholds.symm

theorem Inv.visit (hs : Inv s) (hpc : s.pc t = .visiting c) : Inv (s.visit t c) := by
  have hnone : (s.pc t).holds = none := by rw [hpc]; rfl
  unfold State.visit
  split_ifs with hc
  · cases howner : s.owner c with
    | none =>
        rw [lockIfReady_of_free howner]
        exact hs.acquire howner hnone hc rfl
    | some owner =>
        rw [lockIfReady_of_locked howner, faulted_of_ne (hs.owner_ne hnone howner)]
        exact hs.setPc hnone.symm
  · exact hs.setPc hnone.symm

theorem Inv.step (hs : Inv s) (hnum : s.numCons ≠ 0) (h : s.step t code = some s') : Inv s' := by
  unfold State.step at h
  cases hpc : s.pc t with
  | idle => simp [hpc] at h
  | scanning call i =>
      obtain rfl : s.getFreeConnection t call i = s' := by simpa [hpc] using h
      exact hs.getFreeConnection hnum hpc
  | executing call c =>
      obtain rfl : s.execute t call c code = s' := by simpa [hpc] using h
      exact hs.execute hpc
  | retrying c i =>
      obtain rfl : s.retry t c i code = s' := by simpa [hpc] using h
      exact hs.retry hpc
  | unlocking c =>
      obtain rfl : (s.unlock t c).setPc t .idle = s' := by simpa [hpc] using h
      exact hs.unlock (by rw [hpc]; rfl) rfl
  | visiting c =>
      obtain rfl : s.visit t c = s' := by simpa [hpc] using h
      exact hs.visit hpc
  | pinging c =>
      obtain rfl : (s.use t c).setPc t (.leaving c) = s' := by simpa [hpc] using h
      have hholds : (s.pc t).holds = some c := by rw [hpc]; rfl
      exact (hs.use hholds).setPc hholds.symm
  | leaving c =>
      obtain rfl : (s.unlock t c).setPc t (.visiting (c + 1)) = s' := by simpa [hpc] using h
      exact hs.unlock (by rw [hpc]; rfl) rfl

theorem Inv.next (hs : Inv s) (hnum : s.numCons ≠ 0) (h : s.next label = some s') : Inv s' := by
  cases label with
  | call t call =>
      obtain ⟨hpc, rfl⟩ : s.pc t = .idle ∧ s.setPc t (.scanning call 0) = s' := by
        simpa [State.next] using h
      exact hs.setPc (by rw [hpc]; rfl)
  | keepAlive t =>
      obtain ⟨hpc, rfl⟩ : s.pc t = .idle ∧ s.setPc t (.visiting 0) = s' := by
        simpa [State.next] using h
      exact hs.setPc (by rw [hpc]; rfl)
  | step t code => exact hs.step hnum h

/-! ## Steps of one thread -/

/-- A step of the thread leaves the places of the others as they are. -/
def Stepped (s : State) (thread : ℕ) (s' : State) : Prop :=
  s'.numCons = s.numCons ∧ ∀ other, other ≠ thread → s'.pc other = s.pc other

theorem stepped_setPc {u : State} (hnum : u.numCons = s.numCons) (hpc : u.pc = s.pc) :
    Stepped s t (u.setPc t p) := by
  refine ⟨hnum, ?_⟩
  intro other hother
  rw [setPc_pc_of_ne hother, hpc]

theorem stepped_getFreeConnection (hnum : s.numCons ≠ 0) :
    Stepped s t (s.getFreeConnection t call i) := by
  cases howner : s.owner (s.candidate i) with
  | none =>
      rw [getFreeConnection_of_free hnum howner]
      exact stepped_setPc rfl rfl
  | some owner =>
      rw [getFreeConnection_of_locked hnum howner]
      exact stepped_setPc rfl rfl

theorem stepped_execute : Stepped s t (s.execute t call c code) := by
  unfold execute
  cases call with
  | query => exact stepped_setPc rfl rfl
  | directExecute => exact stepped_setPc rfl rfl
  | directCommitTransaction =>
      dsimp only
      split_ifs
      · exact stepped_setPc rfl rfl
      · exact stepped_setPc rfl rfl
      · exact stepped_setPc rfl rfl

theorem stepped_retry {i : ℕ} : Stepped s t (s.retry t c i code) := by
  unfold retry
  dsimp only
  split_ifs
  · exact stepped_setPc rfl rfl
  · exact stepped_setPc rfl rfl
  · exact stepped_setPc rfl rfl

theorem stepped_visit : Stepped s t (s.visit t c) := by
  unfold visit
  split_ifs
  · cases howner : s.owner c with
    | none =>
        rw [lockIfReady_of_free howner]
        exact stepped_setPc rfl rfl
    | some owner =>
        rw [lockIfReady_of_locked howner]
        exact stepped_setPc rfl rfl
  · exact stepped_setPc rfl rfl

theorem stepped_step (hnum : s.numCons ≠ 0) (h : s.step t code = some s') : Stepped s t s' := by
  unfold step at h
  split at h
  · cases h
  · cases h
    exact stepped_getFreeConnection hnum
  · cases h
    exact stepped_execute
  · cases h
    exact stepped_retry
  · cases h
    exact stepped_setPc rfl rfl
  · cases h
    exact stepped_visit
  · cases h
    exact stepped_setPc rfl rfl
  · cases h
    exact stepped_setPc rfl rfl

/-- The thread of a label. -/
def Label.thread : Label → ℕ
  | .call thread _ | .keepAlive thread | .step thread _ => thread

theorem stepped_next (hnum : s.numCons ≠ 0) (h : s.next label = some s') :
    Stepped s label.thread s' := by
  cases label with
  | call t call =>
      obtain ⟨-, rfl⟩ : s.pc t = .idle ∧ s.setPc t (.scanning call 0) = s' := by
        simpa [next] using h
      exact stepped_setPc rfl rfl
  | keepAlive t =>
      obtain ⟨-, rfl⟩ : s.pc t = .idle ∧ s.setPc t (.visiting 0) = s' := by
        simpa [next] using h
      exact stepped_setPc rfl rfl
  | step t code => exact stepped_step hnum h

/-! ## Runs -/

variable {numCons : UInt8} {labels before : List Label}

theorem inv_start (numCons : UInt8) : Inv { numCons } :=
  ⟨matched_none, nofun, rfl⟩

/-- The pool keeps its connections. -/
theorem reachable (hnum : numCons ≠ 0) (h : Machine.run next { numCons } labels = some s) :
    Inv s ∧ s.numCons = numCons := by
  refine Machine.run_induction (P := fun s => Inv s ∧ s.numCons = numCons) ?_
    ⟨inv_start numCons, rfl⟩ h
  rintro s label s' ⟨hs, hsnum⟩ hstep
  have hne : s.numCons ≠ 0 := hsnum ▸ hnum
  exact ⟨hs.next hne hstep, (stepped_next hne hstep).1.trans hsnum⟩

/-- **A connection is for one thread at a time**, and a lock is held exactly as long as a thread is
at a place where it will give it back. -/
theorem connections_run (hnum : numCons ≠ 0)
    (h : Machine.run next { numCons } labels = some s) :
    s.faulted = false ∧
      (∀ t t' c, (s.pc t).holds = some c → (s.pc t').holds = some c → t = t') ∧
      (∀ t c, s.owner c = some t ↔ (s.pc t).holds = some c) ∧
      ∀ t c, (s.pc t).holds = some c → c < numCons.toNat := by
  obtain ⟨hs, rfl⟩ := reachable hnum h
  exact ⟨hs.faulted, fun t t' c => hs.matched.exclusive, hs.matched, hs.bound⟩

/-- Two threads, of which the second finds the first connection that it tries locked. -/
theorem connections_run_contended : ∃ s : State,
    Machine.run next { numCons := 2 } [.call 0 .query, .step 0 0,
      .call 1 .directCommitTransaction, .step 1 0, .step 1 0] = some s ∧
      s.pc 0 = .executing .query 1 ∧ s.pc 1 = .executing .directCommitTransaction 0 ∧
      s.faulted = false ∧
      (∀ t t' c, (s.pc t).holds = some c → (s.pc t').holds = some c → t = t') ∧
      (∀ t c, s.owner c = some t ↔ (s.pc t).holds = some c) ∧
      ∀ t c, (s.pc t).holds = some c → c < (2 : UInt8).toNat := by
  have hrun : Machine.run next { numCons := 2 } [.call 0 .query, .step 0 0,
      .call 1 .directCommitTransaction, .step 1 0, .step 1 0] = some _ := rfl
  exact ⟨_, hrun, rfl, rfl, connections_run (by decide) hrun⟩

/-! ## Attempts -/

/-- Twice as many attempts as there are connections meet each of them: either the counter does not
start again meanwhile, or what comes after it starts again is a whole turn. -/
theorem exists_attempt {i n c : ℕ} (hn : n < 256) (hc : c < n) :
    ∃ k < 2 * n, (i + 1 + k) % 256 % n = c := by
  have hmod : (i + 1) % 256 % n < n := Nat.mod_lt _ (by omega)
  by_cases hwrap : (i + 1) % 256 + n ≤ 256
  · have hlt : (c + n - (i + 1) % 256 % n) % n < n := Nat.mod_lt _ (by omega)
    refine ⟨(c + n - (i + 1) % 256 % n) % n, ?_, ?_⟩
    · omega
    · have hplain : (i + 1 + (c + n - (i + 1) % 256 % n) % n) % 256 =
          (i + 1) % 256 + (c + n - (i + 1) % 256 % n) % n := by omega
      have hsum : (i + 1) % 256 % n + (c + n - (i + 1) % 256 % n) = c + n := by omega
      rw [hplain, Nat.add_mod_mod, ← Nat.mod_add_mod, hsum, Nat.add_mod_right, Nat.mod_eq_of_lt hc]
  · refine ⟨256 - (i + 1) % 256 + c, by omega, ?_⟩
    have hzero : (i + 1 + (256 - (i + 1) % 256 + c)) % 256 = c := by omega
    rw [hzero, Nat.mod_eq_of_lt hc]

/-- The number of steps that the thread takes. -/
def turns (thread : ℕ) (labels : List Label) : ℕ :=
  labels.countP fun label => match label with
    | .step other _ => other = thread
    | .call _ _ | .keepAlive _ => false

/-- The call gets a connection, or finds that another thread has `c` when its turn comes. -/
theorem executing_or_locked_of_attempt {k : ℕ} (hs : Inv s) (hnum : s.numCons ≠ 0)
    (hpc : s.pc t = .scanning call i) (hrun : Machine.run next s labels = some s')
    (hturns : k < turns t labels) (hk : (i.toNat + 1 + k) % 256 % s.numCons.toNat = c) :
    ∃ front m, front <+: labels ∧ Machine.run next s front = some m ∧
      ((∃ connection, m.pc t = .executing call connection) ∨
        ∃ t', t' ≠ t ∧ m.owner c = some t') := by
  induction labels generalizing s i k with
  | nil => simp [turns] at hturns
  | cons label labels ih =>
      rw [Machine.run_cons, Option.bind_eq_some_iff] at hrun
      obtain ⟨u, hu, hrun⟩ := hrun
      have hstep := stepped_next hnum hu
      have hnumu : u.numCons ≠ 0 := hstep.1 ▸ hnum
      have hkeep : (∃ front m, front <+: labels ∧ Machine.run next u front = some m ∧
          ((∃ connection, m.pc t = .executing call connection) ∨
            ∃ t', t' ≠ t ∧ m.owner c = some t')) →
          ∃ front m, front <+: label :: labels ∧ Machine.run next s front = some m ∧
            ((∃ connection, m.pc t = .executing call connection) ∨
              ∃ t', t' ≠ t ∧ m.owner c = some t') := by
        rintro ⟨front, m, hfront, hm, hgoal⟩
        refine ⟨label :: front, m, by simpa using hfront, ?_, hgoal⟩
        rw [Machine.run_cons, hu]
        exact hm
      by_cases hthread : label.thread = t
      · cases label with
        | call t' call' =>
            obtain rfl : t' = t := hthread
            simp [next, hpc] at hu
        | keepAlive t' =>
            obtain rfl : t' = t := hthread
            simp [next, hpc] at hu
        | step t' code =>
            obtain rfl : t' = t := hthread
            have hget : s.getFreeConnection t' call i = u := by simpa [next, step, hpc] using hu
            cases howner : s.owner (s.candidate i) with
            | none =>
                rw [getFreeConnection_of_free hnum howner] at hget
                refine ⟨[.step t' code], u, by simp, by simp [Machine.run_cons, hu], .inl ?_⟩
                rw [← hget]
                exact ⟨_, setPc_pc⟩
            | some owner =>
                have hnone : (s.pc t').holds = none := by rw [hpc]; rfl
                have hother := hs.owner_ne hnone howner
                cases k with
                | zero =>
                    have hcand : s.candidate i = c := by simpa [candidate] using hk
                    rw [hcand] at howner
                    exact ⟨[], s, by simp, rfl, .inr ⟨owner, hother, howner⟩⟩
                | succ k =>
                    rw [getFreeConnection_of_locked hnum howner] at hget
                    apply hkeep
                    refine ih (i := i + 1) (k := k) (hs.next hnum hu) hnumu ?_ hrun ?_ ?_
                    · rw [← hget, setPc_pc]
                    · simpa [turns] using hturns
                    · rw [hstep.1, ← hk]
                      congr 1
                      simp only [UInt8.toNat_add, UInt8.toNat_one]
                      omega
      · apply hkeep
        refine ih (hs.next hnum hu) hnumu ?_ hrun ?_ (by rw [hstep.1]; exact hk)
        · rw [hstep.2 t (Ne.symm hthread), hpc]
        · have hsame : turns t (label :: labels) = turns t labels := by
            cases label with
            | call _ _ => simp [turns]
            | keepAlive _ => simp [turns]
            | step t' _ =>
                have hne : ¬ t' = t := hthread
                simp [turns, hne]
          omega

/-- **`GetFreeConnection` overlooks no connection**: whatever the other threads do, twice as many
turns as there are connections give the call a connection, unless another thread had each of them
at some time. -/
theorem executing_or_locked (hnum : numCons ≠ 0)
    (hbefore : Machine.run next { numCons } before = some s) (hpc : s.pc t = .scanning call i)
    (hrun : Machine.run next s labels = some s') (hturns : 2 * numCons.toNat ≤ turns t labels)
    (hc : c < numCons.toNat) :
    ∃ front m, front <+: labels ∧ Machine.run next s front = some m ∧
      ((∃ connection, m.pc t = .executing call connection) ∨
        ∃ t', t' ≠ t ∧ m.owner c = some t') := by
  obtain ⟨hs, rfl⟩ := reachable hnum hbefore
  obtain ⟨k, hk, hattempt⟩ := exists_attempt (i := i.toNat) (UInt8.toNat_lt _) hc
  exact executing_or_locked_of_attempt hs hnum hpc hrun (by omega) hattempt

/-- The second thread tries the locked connection, then the free one. -/
theorem executing_or_locked_contended : ∃ s s' : State,
    Machine.run next { numCons := 2 } [.call 0 .query, .step 0 0,
      .call 1 .directCommitTransaction] = some s ∧
      Machine.run next s [.step 1 0, .step 1 0, .step 1 0, .step 1 0] = some s' ∧
      ∃ front m, front <+: [.step 1 0, .step 1 0, .step 1 0, .step 1 0] ∧
        Machine.run next s front = some m ∧
        ((∃ connection, m.pc 1 = .executing .directCommitTransaction connection) ∨
          ∃ t', t' ≠ 1 ∧ m.owner 0 = some t') := by
  have hbefore : Machine.run next { numCons := 2 } [.call 0 .query, .step 0 0,
      .call 1 .directCommitTransaction] = some _ := rfl
  refine ⟨_, _, hbefore, rfl, ?_⟩
  exact executing_or_locked (by decide) hbefore rfl rfl (by decide) (by decide)

/-! ## Every call ends -/

/-- The steps until a thread is idle, if each of its attempts succeeds. -/
def left (s : State) : Pc → ℕ
  | .idle => 0
  | .unlocking _ => 1
  | .retrying _ i => loopBreaker - i + 2
  | .executing _ _ => loopBreaker + 3
  | .scanning _ _ => loopBreaker + 4
  | .visiting connection => 3 * (s.numCons.toNat - connection) + 1
  | .pinging connection => 3 * (s.numCons.toNat - connection)
  | .leaving connection => 3 * (s.numCons.toNat - connection) - 1

/-- All threads that are in a call are among `threads`. -/
def Within (s : State) (threads : Finset ℕ) : Prop := ∀ t, s.pc t ≠ .idle → t ∈ threads

/-- The steps that all threads have left. -/
def total (threads : Finset ℕ) (s : State) : ℕ := ∑ t ∈ threads, s.left (s.pc t)

end State
end WarheadDiscord.SyncConnections
