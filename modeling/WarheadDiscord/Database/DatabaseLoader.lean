import Mathlib.Data.List.TakeWhile
import Mathlib.Data.Nat.Find
import Mathlib.Tactic.Common
import WarheadDiscord.Database.WorkerPool

/-!
# `DatabaseLoader`: what a failed `Open` leaves in the pool

`OpenConnections` has two exits for a connection that cannot be used.  If it cannot be
opened, the list that is being filled is cleared; if the server is too old, it is not.
`Open` itself clears nothing, so a failure at a synchronous connection leaves all the
asynchronous ones behind.  `AddDatabase` calls `Open` again on the same pool, and the
connections of the attempts add up.

`allOrNothing_iff` says which failures are harmless: one at the very first connection, and
one that cannot be opened while nothing is in the other list.  `addDatabase_eq` says that
`AddDatabase` makes calls of this kind and nothing else, and `lists_of_open` that the
machine of the pool has the same lists.

## Main definitions

* `MySQLClient` — the client library of the build.
* `ConnectReply`, `OpenCall` — how the attempts at the connections go.
* `Connections`, `openConnections`, `Connections.open` — the functions of the source.
* `addDatabase` — the function that `AddDatabase` pushes.
* `AllOrNothing` — what is promised of a sequence of calls.
* `OpenCall.Clean` — the failures that leave nothing behind.
-/

namespace WarheadDiscord

/-- The client library that the server is built with. -/
class MySQLClient where
  /-- `MIN_MYSQL_SERVER_VERSION`: 50700, or 100300 with MariaDB. -/
  minServerVersion : ℕ

export MySQLClient (minServerVersion)

section
variable [MySQLClient]

/-- What the `Open` of a connection returns, and its `GetServerVersion`. -/
structure ConnectReply where
  error : ℕ
  version : ℕ
  deriving DecidableEq, Repr

/-- The connection can be used. -/
def ConnectReply.Usable (r : ConnectReply) : Prop := r.error = 0 ∧ minServerVersion ≤ r.version

instance (r : ConnectReply) : Decidable r.Usable := inferInstanceAs (Decidable (_ ∧ _))

/-- The replies to the attempts of one call of `Open`, in their order. -/
abbrev OpenCall := ℕ → ConnectReply

/-- `_connections`; a connection is known by the number of its attempt. -/
structure Connections where
  asyncThreads : ℕ
  synchThreads : ℕ
  async : List ℕ := []
  sync : List ℕ := []
  deriving DecidableEq, Repr

/-- `OpenConnections` with `n` connections to go, the next of which is the attempt `i`. -/
def openConnections (call : OpenCall) : ℕ → ℕ → List ℕ → ℕ × List ℕ
  | 0, _, connections => (0, connections)
  | n + 1, i, connections =>
      if (call i).error ≠ 0 then ((call i).error, [])
      else if (call i).version < minServerVersion then (1, connections)
      else openConnections call n (i + 1) (connections ++ [i])

namespace Connections

def «open» (call : OpenCall) (p : Connections) : ℕ × Connections :=
  match openConnections call p.asyncThreads 0 p.async with
  | (0, async) =>
      match openConnections call p.synchThreads p.asyncThreads p.sync with
      | (error, sync) => (error, { p with async := async, sync := sync })
  | (error, async) => (error, { p with async := async })

/-- The pool before the first `Open`. -/
def new (asyncThreads synchThreads : ℕ) : Connections := ⟨asyncThreads, synchThreads, [], []⟩

/-- The calls one after the other, as long as they fail: each failure leaves both lists
empty, and a success as many connections as there are to be. -/
def AllOrNothing (p : Connections) : List OpenCall → Prop
  | [] => True
  | call :: calls =>
      if (p.open call).1 = 0 then
        (p.open call).2.async.length = p.asyncThreads ∧
          (p.open call).2.sync.length = p.synchThreads
      else
        (p.open call).2.async = [] ∧ (p.open call).2.sync = [] ∧
          (p.open call).2.AllOrNothing calls

end Connections

namespace OpenCall

/-- The call returns zero. -/
def Succeeds (n m : ℕ) (call : OpenCall) : Prop := ∀ k < n + m, (call k).Usable

instance (n m : ℕ) (call : OpenCall) : Decidable (call.Succeeds n m) :=
  inferInstanceAs (Decidable (∀ k < n + m, (call k).Usable))

/-- With `n` asynchronous and `m` synchronous connections, the first attempt that fails is
the very first one, or it is a connection that cannot be opened, and not a synchronous one
behind asynchronous ones. -/
def Clean (n m : ℕ) (call : OpenCall) : Prop :=
  ∀ k < n + m, (∀ j < k, (call j).Usable) → ¬ (call k).Usable →
    k = 0 ∨ ((call k).error ≠ 0 ∧ (k < n ∨ n = 0))

end OpenCall

/-! ## One call of `OpenConnections` -/

variable {call : OpenCall} {n m i k : ℕ} {l : List ℕ}

theorem openConnections_of_usable (h : ∀ j < n, (call (i + j)).Usable) :
    openConnections call n i l = (0, l ++ List.range' i n) := by
  induction n generalizing i l with
  | zero => simp [openConnections]
  | succ n ih =>
      have hhead : (call i).Usable := h 0 (by omega)
      have htail : ∀ j < n, (call (i + 1 + j)).Usable := by
        intro j hj
        rw [Nat.add_right_comm]
        exact h (j + 1) (by omega)
      rw [openConnections, if_neg (not_not_intro hhead.1), if_neg (Nat.not_lt.mpr hhead.2),
        ih htail, List.range'_succ, List.append_assoc]
      rfl

/-- The call ends at the first connection that cannot be used. -/
theorem openConnections_of_not_usable (hk : k < n) (h : ∀ j < k, (call (i + j)).Usable)
    (hfail : ¬ (call (i + k)).Usable) :
    openConnections call n i l =
      if (call (i + k)).error ≠ 0 then ((call (i + k)).error, [])
      else (1, l ++ List.range' i k) := by
  induction n generalizing i k l with
  | zero => omega
  | succ n ih =>
      cases k with
      | zero =>
          rw [openConnections, Nat.add_zero]
          by_cases herror : (call i).error = 0
          · have hversion : (call i).version < minServerVersion := by
              by_contra hge
              exact hfail ⟨herror, Nat.not_lt.mp hge⟩
            simp [herror, hversion]
          · simp [herror]
      | succ k =>
          have hhead : (call i).Usable := h 0 (by omega)
          have hshift (j : ℕ) : i + 1 + j = i + (j + 1) := by omega
          rw [openConnections, if_neg (not_not_intro hhead.1), if_neg (Nat.not_lt.mpr hhead.2),
            ih (k := k) (by omega) (fun j hj => by rw [hshift]; exact h (j + 1) (by omega))
              (by rw [hshift]; exact hfail),
            hshift, List.range'_succ, List.append_assoc]
          rfl

/-- A call that does not succeed has a first connection that cannot be used. -/
theorem OpenCall.exists_first_failure (h : ¬ call.Succeeds n m) :
    ∃ k < n + m, (∀ j < k, (call j).Usable) ∧ ¬ (call k).Usable := by
  have hex : ∃ k, k < n + m ∧ ¬ (call k).Usable := by
    by_contra hall
    refine h fun k hk => ?_
    by_contra hfail
    exact hall ⟨k, hk, hfail⟩
  classical
  obtain ⟨hlt, hfail⟩ := Nat.find_spec hex
  refine ⟨Nat.find hex, hlt, ?_, hfail⟩
  intro j hj
  by_contra hj'
  exact Nat.find_min hex hj ⟨by omega, hj'⟩

/-! ## One call of `Open` -/

namespace Connections
variable {p : Connections}

theorem open_threads (p : Connections) (call : OpenCall) :
    (p.open call).2.asyncThreads = p.asyncThreads ∧
      (p.open call).2.synchThreads = p.synchThreads := by
  rw [«open»]
  split <;> exact ⟨rfl, rfl⟩

theorem open_of_succeeds (h : call.Succeeds p.asyncThreads p.synchThreads) :
    p.open call =
      (0, { p with
        async := p.async ++ List.range' 0 p.asyncThreads
        sync := p.sync ++ List.range' p.asyncThreads p.synchThreads }) := by
  have hasync : ∀ j < p.asyncThreads, (call (0 + j)).Usable := by
    intro j hj
    rw [Nat.zero_add]
    exact h j (by omega)
  have hsync : ∀ j < p.synchThreads, (call (p.asyncThreads + j)).Usable :=
    fun j hj => h (p.asyncThreads + j) (by omega)
  simp only [«open», openConnections_of_usable hasync, openConnections_of_usable hsync]

/-- The code of a connection that cannot be used. -/
def failureCode (r : ConnectReply) : ℕ := if r.error ≠ 0 then r.error else 1

omit [MySQLClient] in
theorem failureCode_ne_zero (r : ConnectReply) : failureCode r ≠ 0 := by
  rw [failureCode]
  split
  · assumption
  · decide

theorem open_of_async_failure (hk : k < p.asyncThreads) (h : ∀ j < k, (call j).Usable)
    (hfail : ¬ (call k).Usable) :
    p.open call =
      (failureCode (call k),
        { p with async := if (call k).error ≠ 0 then [] else p.async ++ List.range' 0 k }) := by
  have hcall := openConnections_of_not_usable (i := 0) (l := p.async) hk
    (by simpa using h) (by simpa using hfail)
  rw [Nat.zero_add] at hcall
  rw [«open», hcall, failureCode]
  by_cases herror : (call k).error = 0
  · simp [herror]
  · simp only [ne_eq, herror, not_false_eq_true, if_true]

theorem open_of_sync_failure (hk : k < p.synchThreads)
    (h : ∀ j < p.asyncThreads + k, (call j).Usable)
    (hfail : ¬ (call (p.asyncThreads + k)).Usable) :
    p.open call =
      (failureCode (call (p.asyncThreads + k)),
        { p with
          async := p.async ++ List.range' 0 p.asyncThreads
          sync :=
            if (call (p.asyncThreads + k)).error ≠ 0 then []
            else p.sync ++ List.range' p.asyncThreads k }) := by
  have hasync : ∀ j < p.asyncThreads, (call (0 + j)).Usable := by
    intro j hj
    rw [Nat.zero_add]
    exact h j (by omega)
  have hsync := openConnections_of_not_usable (l := p.sync) hk
    (fun j hj => h (p.asyncThreads + j) (by omega)) hfail
  simp only [«open», openConnections_of_usable hasync, hsync, failureCode]
  split <;> rfl

theorem open_ne_zero (h : ¬ call.Succeeds p.asyncThreads p.synchThreads) :
    (p.open call).1 ≠ 0 := by
  obtain ⟨k, hk, hbefore, hfail⟩ := OpenCall.exists_first_failure h
  by_cases hasync : k < p.asyncThreads
  · rw [open_of_async_failure hasync hbefore hfail]
    exact failureCode_ne_zero _
  · obtain ⟨k, rfl⟩ := Nat.exists_eq_add_of_le (Nat.not_lt.mp hasync)
    rw [open_of_sync_failure (by omega) hbefore hfail]
    exact failureCode_ne_zero _

theorem open_eq_zero_iff : (p.open call).1 = 0 ↔ call.Succeeds p.asyncThreads p.synchThreads := by
  constructor
  · intro h
    by_contra hfail
    exact open_ne_zero hfail h
  · intro h
    rw [open_of_succeeds h]

/-- A failure of a fresh pool leaves it fresh exactly if it is clean. -/
theorem open_new_empty_iff (h : ¬ call.Succeeds n m) :
    ((new n m).open call).2.async = [] ∧ ((new n m).open call).2.sync = [] ↔ call.Clean n m := by
  obtain ⟨k, hk, hbefore, hfail⟩ := OpenCall.exists_first_failure h
  -- there is only one first failure
  have hclean : call.Clean n m ↔ k = 0 ∨ ((call k).error ≠ 0 ∧ (k < n ∨ n = 0)) := by
    constructor
    · intro hclean
      exact hclean k hk hbefore hfail
    · intro hclean k' hk' hbefore' hfail'
      obtain rfl : k = k' := by
        by_contra hne
        rcases Nat.lt_or_gt_of_ne hne with hlt | hlt
        · exact hfail (hbefore' k hlt)
        · exact hfail' (hbefore k' hlt)
      exact hclean
  rw [hclean]
  by_cases hasync : k < n
  · rw [open_of_async_failure (p := new n m) hasync hbefore hfail]
    by_cases herror : (call k).error = 0
    · simp [new, herror]
    · simp [new, herror, hasync]
  · obtain ⟨k, rfl⟩ := Nat.exists_eq_add_of_le (Nat.not_lt.mp hasync)
    rw [open_of_sync_failure (p := new n m) (k := k) (by simp only [new]; omega) hbefore hfail]
    by_cases herror : (call (n + k)).error = 0
    · simp [new, herror]
    · simp only [new, ne_eq, herror, not_false_eq_true, if_true, List.nil_append,
        List.range'_eq_nil_iff, and_true, true_and]
      omega

/-! ## All calls -/

/-- **Opening the pool is all or nothing exactly if every call that fails is clean.** -/
theorem allOrNothing_iff (n m : ℕ) (calls : List OpenCall) :
    (new n m).AllOrNothing calls ↔
      ∀ call ∈ calls.takeWhile fun call => ¬ call.Succeeds n m, call.Clean n m := by
  induction calls with
  | nil => simp [AllOrNothing]
  | cons call calls ih =>
      rw [AllOrNothing]
      by_cases h : call.Succeeds n m
      · rw [if_pos (open_eq_zero_iff.mpr h), open_of_succeeds (p := new n m) h]
        simp [new, h]
      · rw [if_neg (open_ne_zero (p := new n m) h), List.takeWhile_cons_of_pos (by simpa using h),
          List.forall_mem_cons, ← open_new_empty_iff h, ← ih, and_assoc]
        refine and_congr_right fun hasync => and_congr_right fun hsync => ?_
        have hnew : ((new n m).open call).2 = new n m := by
          have hthreads := open_threads (new n m) call
          cases hp : ((new n m).open call).2
          simp_all [new]
        rw [hnew]

end Connections
end

/-- The client library of MySQL. -/
instance mysqlClient : MySQLClient := ⟨50700⟩

namespace Connections

/-- All connections open. -/
def goodCall : OpenCall := fun _ => ⟨0, 80000⟩

/-- The second attempt, a synchronous connection if there is one of each kind, cannot be
opened. -/
def refusedCall : OpenCall := fun k => if k = 1 then ⟨2002, 0⟩ else ⟨0, 80000⟩

/-- The first call fails at the synchronous connection, the second one succeeds: there is an
asynchronous connection left by the first, and then one too many. -/
theorem leftover_after_sync_failure :
    ((new 1 1).open refusedCall).1 = 2002 ∧ ((new 1 1).open refusedCall).2.async = [0] ∧
      (((new 1 1).open refusedCall).2.open goodCall).1 = 0 ∧
      (((new 1 1).open refusedCall).2.open goodCall).2.async.length = 2 ∧
      ¬ (new 1 1).AllOrNothing [refusedCall, goodCall] := by
  refine ⟨by decide, by decide, by decide, by decide, ?_⟩
  intro h
  exact absurd h.1 (by decide)

end Connections

section
variable [MySQLClient]

/-! ## `AddDatabase` -/

/-- What `AddDatabase` finds in the configuration, and the result of `DBUpdater::Create`. -/
structure LoaderConfig where
  dbString : String
  asyncThreads : ℕ
  synchThreads : ℕ
  /-- `Database.Reconnect.Attempts` -/
  attempts : ℕ
  updatesEnabledForThis : Bool
  autoSetup : Bool
  created : Bool

/-- The retry loop after `made` calls of `Open`, the last of which returned the error. -/
def reopenLoop (calls : ℕ → OpenCall) : ℕ → ℕ → ℕ → Connections → ℕ × ℕ × Connections
  | 0, made, error, p => (error, made, p)
  | attempts + 1, made, _, p =>
      match p.open (calls made) with
      | (error, p) =>
          -- CR_CONNECTION_ERROR
          if error = 2002 then reopenLoop calls attempts (made + 1) error p
          else (error, made + 1, p)

/-- The function that `AddDatabase` pushes: its result, the number of its calls of `Open`
and the pool. -/
def addDatabase (config : LoaderConfig) (calls : ℕ → OpenCall) : Bool × ℕ × Connections :=
  let p := Connections.new config.asyncThreads config.synchThreads
  if config.dbString = "" then (false, 0, p)
  else if config.asyncThreads < 1 ∨ 32 < config.asyncThreads then (false, 0, p)
  else
    match p.open (calls 0) with
    | (0, p) => (true, 1, p)
    | (error, p) =>
        match if error = 2002 then reopenLoop calls config.attempts 1 error p
          else (error, 1, p) with
        | (error, made, p) =>
            -- ER_BAD_DB_ERROR
            if error = 1049 ∧ config.updatesEnabledForThis ∧ config.autoSetup then
              if config.created then
                ((p.open (calls made)).1 = 0, made + 1, (p.open (calls made)).2)
              else (false, made, p)
            else (error = 0, made, p)

namespace Connections
variable {calls : ℕ → OpenCall} {p : Connections}

/-- The pool after so many calls. -/
def after (calls : ℕ → OpenCall) (p : Connections) : ℕ → Connections
  | 0 => p
  | k + 1 => ((after calls p k).open (calls k)).2

/-- What the call `k` returns. -/
def errorOf (calls : ℕ → OpenCall) (p : Connections) (k : ℕ) : ℕ :=
  ((after calls p k).open (calls k)).1

/-- The calls made were failures but for the last, which `error` is the code of. -/
structure Called (calls : ℕ → OpenCall) (p : Connections) (error made : ℕ) (q : Connections) :
    Prop where
  pool : q = after calls p made
  pos : 0 < made
  last : error = errorOf calls p (made - 1)
  earlier : ∀ k, k + 1 < made → errorOf calls p k ≠ 0

theorem Called.next {error made : ℕ} {q : Connections} (h : Called calls p error made q)
    (herror : error ≠ 0) :
    Called calls p (q.open (calls made)).1 (made + 1) (q.open (calls made)).2 := by
  have hpool := h.pool
  subst hpool
  refine ⟨rfl, by omega, rfl, ?_⟩
  intro k hk
  by_cases hlast : k + 1 < made
  · exact h.earlier k hlast
  · obtain rfl : k = made - 1 := by omega
    rw [← h.last]
    exact herror

theorem called_reopenLoop {attempts error made : ℕ} {q : Connections}
    (h : Called calls p error made q) (herror : error ≠ 0) :
    Called calls p (reopenLoop calls attempts made error q).1
      (reopenLoop calls attempts made error q).2.1
      (reopenLoop calls attempts made error q).2.2 := by
  induction attempts generalizing error made q with
  | zero => exact h
  | succ attempts ih =>
      have hnext := h.next herror
      simp only [reopenLoop]
      split
      · rename_i hcode
        exact ih hnext (by rw [hcode]; decide)
      · exact hnext

/-- **`AddDatabase` calls `Open` until it succeeds or gives up**, and returns whether the
last call succeeded. -/
theorem addDatabase_eq (config : LoaderConfig) (calls : ℕ → OpenCall) :
    (addDatabase config calls).2.1 = 0 ∧ (addDatabase config calls).1 = false ∨
      ∃ error, Called calls (new config.asyncThreads config.synchThreads) error
          (addDatabase config calls).2.1 (addDatabase config calls).2.2 ∧
        ((addDatabase config calls).1 = true ↔ error = 0) := by
  unfold addDatabase
  dsimp only
  split
  · exact .inl ⟨rfl, rfl⟩
  split
  · exact .inl ⟨rfl, rfl⟩
  refine .inr ?_
  have hfirst : Called calls (new config.asyncThreads config.synchThreads)
      ((new config.asyncThreads config.synchThreads).open (calls 0)).1 1
      ((new config.asyncThreads config.synchThreads).open (calls 0)).2 :=
    ⟨rfl, by omega, rfl, fun k hk => absurd hk (by omega)⟩
  cases hopen : (new config.asyncThreads config.synchThreads).open (calls 0) with
  | mk error q =>
      rw [hopen] at hfirst
      cases error with
      | zero => exact ⟨0, hfirst, by simp⟩
      | succ error =>
          -- the retry loop, and then perhaps the call after the database was created
          have hretried : ∃ error' made q',
              (if error + 1 = 2002 then reopenLoop calls config.attempts 1 (error + 1) q
                else (error + 1, 1, q)) = (error', made, q') ∧
              Called calls (new config.asyncThreads config.synchThreads) error' made q' := by
            split
            · exact ⟨_, _, _, rfl, called_reopenLoop hfirst (by omega)⟩
            · exact ⟨_, _, _, rfl, hfirst⟩
          obtain ⟨error', made, q', heq, hcalled⟩ := hretried
          simp only [heq]
          split
          · rename_i hcreate
            have herror : error' ≠ 0 := by
              rw [hcreate.1]
              decide
            split
            · exact ⟨_, hcalled.next herror, by simp⟩
            · exact ⟨_, hcalled, by simpa using herror⟩
          · exact ⟨_, hcalled, by simp⟩

theorem after_succ (calls : ℕ → OpenCall) (p : Connections) (k : ℕ) :
    after calls p (k + 1) = after (fun k => calls (k + 1)) (p.open (calls 0)).2 k := by
  induction k with
  | zero => rfl
  | succ k ih => rw [after, ih, after]

theorem errorOf_succ (calls : ℕ → OpenCall) (p : Connections) (k : ℕ) :
    errorOf calls p (k + 1) = errorOf (fun k => calls (k + 1)) (p.open (calls 0)).2 k := by
  rw [errorOf, errorOf, after_succ]

/-- What is promised of the calls holds of the last one, if that is the first to succeed. -/
theorem length_after {made : ℕ} (hall : p.AllOrNothing ((List.range (made + 1)).map calls))
    (hfail : ∀ k < made, errorOf calls p k ≠ 0) (hlast : errorOf calls p made = 0) :
    (after calls p (made + 1)).async.length = p.asyncThreads ∧
      (after calls p (made + 1)).sync.length = p.synchThreads := by
  induction made generalizing p calls with
  | zero =>
      have hzero : (p.open (calls 0)).1 = 0 := hlast
      simpa [AllOrNothing, hzero, after] using hall
  | succ made ih =>
      have hne : (p.open (calls 0)).1 ≠ 0 := hfail 0 (by omega)
      rw [List.range_succ_eq_map, List.map_cons, List.map_map, AllOrNothing, if_neg hne] at hall
      obtain ⟨hasync, hsync⟩ := open_threads p (calls 0)
      rw [after_succ, ← hasync, ← hsync]
      refine ih hall.2.2 ?_ ?_
      · intro k hk
        rw [← errorOf_succ]
        exact hfail (k + 1) (by omega)
      · rw [← errorOf_succ]
        exact hlast

/-- If `AddDatabase` returns true and its calls were all or nothing, the pool has the connections
it is configured to have. -/
theorem addDatabase_opened {config : LoaderConfig} (hok : (addDatabase config calls).1 = true)
    (hall : (new config.asyncThreads config.synchThreads).AllOrNothing
      ((List.range (addDatabase config calls).2.1).map calls)) :
    (addDatabase config calls).2.2.async.length = config.asyncThreads ∧
      (addDatabase config calls).2.2.sync.length = config.synchThreads := by
  obtain ⟨-, hfalse⟩ | ⟨error, hcalled, hiff⟩ := addDatabase_eq config calls
  · rw [hok] at hfalse
    cases hfalse
  · obtain rfl := hiff.mp hok
    obtain ⟨made, hmade⟩ := Nat.exists_eq_add_of_lt hcalled.pos
    rw [Nat.zero_add] at hmade
    have hlast := hcalled.last
    rw [hcalled.pool]
    rw [hmade] at hall hlast ⊢
    refine length_after (p := new config.asyncThreads config.synchThreads) hall ?_ hlast.symm
    intro k hk
    exact hcalled.earlier k (by omega)

end Connections

end

/-! ## The lists of the machine -/

/-- How the call goes, as the machine of the pool has it. -/
def OpenCall.attempt [MySQLClient] (n m : ℕ) (call : OpenCall) : Attempt :=
  match (List.range (n + m)).find? fun k => ¬ (call k).Usable with
  | none => .success
  | some k =>
      if k < n then
        if (call k).error ≠ 0 then .asyncError k (call k).error else .asyncVersion k
      else if (call k).error ≠ 0 then .syncError (k - n) (call k).error
      else .syncVersion (k - n)

namespace Pool
variable {α : Type} {s s' : Pool α} {n m : ℕ}

/-- The sizes of the lists, and the result, once the program is done; `opening` tells
whether there is a connection that `keepAsync` would keep. -/
def settle : Bool → List MainOp → ℕ × ℕ × Option ℕ → ℕ × ℕ × Option ℕ
  | _, [], t => t
  | opening, op :: rest, (async, sync, result) =>
      match op with
      | .spawn => settle true rest (async, sync, result)
      | .keepAsync => settle false rest (async + opening.toNat, sync, result)
      | .dropOpening => settle false rest (async, sync, result)
      | .clearAsync => settle opening rest (0, sync, result)
      | .keepSync => settle opening rest (async, sync + 1, result)
      | .clearSync => settle opening rest (async, 0, result)
      | .ret code => settle opening rest (async, sync, some code)
      | _ => settle opening rest (async, sync, result)

/-- Where the lists of the pool are going. -/
def settled (s : Pool α) : ℕ × ℕ × Option ℕ :=
  settle s.opening.isSome s.main (s.async.length, s.sync, s.result)

theorem settle_destroyWorkers (opening : Bool) (workers : List ℕ) (rest : List MainOp)
    (t : ℕ × ℕ × Option ℕ) :
    settle opening (workers.flatMap destroyWorker ++ rest) t = settle opening rest t := by
  induction workers with
  | nil => rfl
  | cons w workers ih => exact ih

theorem settled_mainStep (h : MainStep s s') : s'.settled = s.settled := by
  cases h with
  | spawned hmain => simp [settled, settle, hmain]
  | asyncKept hmain =>
      simp only [settled, settle, hmain, List.length_append]
      cases s.opening <;> rfl
  | openingDropped hmain =>
      simp only [settled, settle, hmain, settle_destroyWorkers]
      rfl
  | asyncCleared hmain => simp [settled, settle, hmain, settle_destroyWorkers]
  | syncKept hmain => simp [settled, settle, hmain]
  | syncCleared hmain => simp [settled, settle, hmain]
  | tokenSet hmain => simp [settled, settle, hmain]
  | cancelled hmain => simp [settled, settle, hmain]
  | joined hmain _ => simp [settled, settle, hmain]
  | returned hmain => simp [settled, settle, hmain]

/-- Neither `Open` nor `Close` is called. -/
def IsCall : Label α → Prop
  | .open _ => True
  | .close => True
  | _ => False

theorem settled_next {l : Label α} (hl : ¬ IsCall l) (h : s.next l = some s') :
    s'.settled = s.settled := by
  cases next_cases h with
  | opened _ => exact absurd trivial hl
  | closed _ => exact absurd trivial hl
  | main hst => exact settled_mainStep hst
  | enqueued => rfl
  | worker hst => cases hst <;> rfl

theorem settle_openAsync (opening : Bool) (k : ℕ) (rest : List MainOp) (async sync : ℕ)
    (result : Option ℕ) :
    settle opening (Attempt.openAsync k ++ rest) (async, sync, result) =
      settle (opening && k == 0) rest (async + k, sync, result) := by
  induction k generalizing opening async with
  | zero => simp [Attempt.openAsync]
  | succ k ih =>
      have hcons : Attempt.openAsync (k + 1) ++ rest =
          .spawn :: .keepAsync :: (Attempt.openAsync k ++ rest) := rfl
      rw [hcons, settle, settle, ih]
      simp [Nat.add_assoc, Nat.add_comm 1 k]

theorem settle_openSync (opening : Bool) (k : ℕ) (rest : List MainOp) (async sync : ℕ)
    (result : Option ℕ) :
    settle opening (Attempt.openSync k ++ rest) (async, sync, result) =
      settle opening rest (async, sync + k, result) := by
  induction k generalizing sync with
  | zero => simp [Attempt.openSync]
  | succ k ih =>
      have hcons : Attempt.openSync (k + 1) ++ rest =
          .keepSync :: (Attempt.openSync k ++ rest) := rfl
      rw [hcons, settle, ih]
      simp [Nat.add_assoc, Nat.add_comm 1 k]

variable [MySQLClient]

/-- The program of a call settles what `Open` computes. -/
theorem settle_program (opening : Bool) (p : Connections) (call : OpenCall) (result : Option ℕ) :
    settle opening ((call.attempt p.asyncThreads p.synchThreads).program p.asyncThreads
        p.synchThreads) (p.async.length, p.sync.length, result) =
      ((p.open call).2.async.length, (p.open call).2.sync.length, some (p.open call).1) := by
  by_cases h : call.Succeeds p.asyncThreads p.synchThreads
  · have hfind : (List.range (p.asyncThreads + p.synchThreads)).find?
        (fun k => ¬ (call k).Usable) = none := by
      rw [List.find?_eq_none]
      intro k hk
      simpa using h k (List.mem_range.mp hk)
    rw [Connections.open_of_succeeds h, OpenCall.attempt, hfind, Attempt.program,
      List.append_assoc, settle_openAsync, settle_openSync]
    simp [settle]
  · obtain ⟨k, hk, hbefore, hfail⟩ := OpenCall.exists_first_failure h
    have hfind : (List.range (p.asyncThreads + p.synchThreads)).find?
        (fun k => ¬ (call k).Usable) = some k := by
      rw [List.find?_range_eq_some]
      refine ⟨by simpa using hfail, List.mem_range.mpr hk, ?_⟩
      intro j hj
      simpa using hbefore j hj
    rw [OpenCall.attempt, hfind]
    by_cases hasync : k < p.asyncThreads
    · rw [Connections.open_of_async_failure hasync hbefore hfail]
      by_cases herror : (call k).error = 0
      · simp [hasync, herror, Attempt.program, settle_openAsync, settle, Connections.failureCode]
      · simp [hasync, herror, Attempt.program, settle_openAsync, settle, Connections.failureCode]
    · obtain ⟨k, rfl⟩ := Nat.exists_eq_add_of_le (Nat.not_lt.mp hasync)
      rw [Connections.open_of_sync_failure (by omega) hbefore hfail]
      simp only [if_neg hasync]
      by_cases herror : (call (p.asyncThreads + k)).error = 0
      · simp [herror, Attempt.program, settle_openAsync, settle_openSync, settle,
          Connections.failureCode]
      · simp [herror, Attempt.program, settle_openAsync, settle_openSync, settle,
          Connections.failureCode]

/-- **When `Open` has returned, the machine has the lists that `Connections.open`
computes.** -/
theorem lists_of_open {p : Connections} {call : OpenCall} {s₀ : Pool α} {ls : List (Label α)}
    (hthreads : s.asyncThreads = p.asyncThreads ∧ s.synchThreads = p.synchThreads)
    (hlists : s.async.length = p.async.length ∧ s.sync = p.sync.length)
    (hopen : s.next (.open (call.attempt p.asyncThreads p.synchThreads)) = some s₀)
    (hls : ∀ l ∈ ls, ¬ IsCall l) (hrun : Machine.run next s₀ ls = some s') (hmain : s'.main = []) :
    s'.async.length = (p.open call).2.async.length ∧ s'.sync = (p.open call).2.sync.length ∧
      s'.result = some (p.open call).1 := by
  have hkept : s'.settled = s₀.settled := by
    refine Machine.run_induction_of (P := fun u => u.settled = s₀.settled) ?_
      (Machine.along_of_forall hls s₀) rfl hrun
    intro u l v hu hl hv
    exact (settled_next hl hv).trans hu
  have hstart : s₀.settled =
      ((p.open call).2.async.length, (p.open call).2.sync.length, some (p.open call).1) := by
    cases next_cases hopen with
    | opened _ =>
        simp only [settled, hthreads.1, hthreads.2, hlists.1, hlists.2]
        exact settle_program _ p call none
  rw [hstart, settled, hmain] at hkept
  simpa [settle] using hkept

end Pool
end WarheadDiscord
