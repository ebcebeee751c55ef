import Mathlib.Tactic.Common
import WarheadDiscord.Database.MySQLConnection

/-!
# What a lost connection leaves behind

`_HandleMySQLErrno` closes the handle of a lost connection and calls `Open` up to five
times.  After a call that fails it calls itself with the code of the failure, and there
the code goes through the whole `switch` again: one that is not about the connection
makes it return false, although the handle is closed and there are attempts left.  From
then on `Execute` returns false without sending anything.

A call of `Open` that succeeds is followed by `PrepareStatements`.  During a reconnect
it does not resize `m_stmts`, so the statements must have been prepared before.

`PreparedConnection` adds the statements to the connection, and `handleErrno` is
`handleMySQLErrno` with them (`toConnection_handleErrno`).  `recovers_iff` says for which
answers to `Open` the connection, or the process, is not left dead.

## Main definitions

* `StatementTable` — the calls of `PrepareStatement` in `DoPrepareStatements`.
* `PreparedConnection`, `prepareStatement`, `prepareStatements`, `handleErrno` — the
  functions of the source.
* `Recovers` — a live connection with all its statements, or the end of the process.
* `KeepsTrying` — the condition on the answers.
-/

namespace WarheadDiscord

inductive ConnectionFlags
  | async
  | synch
  | both
  deriving DecidableEq, Repr

/-- `m_connectionFlags & flags` is not zero. -/
def ConnectionFlags.meets : ConnectionFlags → ConnectionFlags → Bool
  | .async, .synch => false
  | .synch, .async => false
  | _, _ => true

/-- The statements that `DoPrepareStatements` prepares, in its order, and the size it gives
to `m_stmts`. -/
structure StatementTable where
  max : ℕ
  statements : List (ℕ × ConnectionFlags)
  lt_max : ∀ e ∈ statements, e.1 < max
  /-- A statement that is given twice is for the same connections both times. -/
  consistent : ∀ e ∈ statements, ∀ e' ∈ statements, e.1 = e'.1 → e.2 = e'.2

/-- `DiscordDatabaseConnection::DoPrepareStatements`.  It prepares
`DISCORD_UPD_ACCOUNT_BAN_EXPIRED` twice and `DISCORD_UPD_IP_BAN_EXPIRED` not at all. -/
def discordStatements : StatementTable where
  max := 13
  statements :=
    [(0, .async), (1, .async), (2, .async), (3, .async), (4, .synch), (5, .async), (6, .async),
      (7, .async), (8, .async), (9, .async), (10, .async), (10, .async), (12, .async)]
  lt_max := by decide
  consistent := by decide

/-- How a call of `Open` goes, and after it the calls of `mysql_stmt_init` and
`mysql_stmt_prepare`. -/
inductive ReopenReply
  /-- `mysql_init` fails. -/
  | noHandle
  /-- `mysql_real_connect` fails. -/
  | refused (errNo : ℕ)
  /-- The connection is open; `prepares k` is the outcome of the `k`-th statement. -/
  | connected (prepares : ℕ → Bool)

/-- A connection with its prepared statements. -/
structure PreparedConnection (σ : Type) extends MySQLConnection σ where
  /-- `m_connectionFlags` -/
  flags : ConnectionFlags := .async
  reconnecting : Bool := false
  prepareError : Bool := false
  /-- How many handles were opened; the last one is `m_Mysql`, while that is not null. -/
  handle : ℕ := 0
  /-- `m_stmts`: the handle on which each statement was prepared. -/
  stmts : List (Option ℕ) := []

namespace PreparedConnection

/-- The end of a call of `_HandleMySQLErrno`. -/
inductive Outcome (σ : Type)
  | returned (ok : Bool) (c : PreparedConnection σ)
  /-- `std::abort`, after so many calls of `Open`. -/
  | aborted (opens : ℕ)
  /-- `m_stmts` was accessed out of its range. -/
  | undefined

variable {σ : Type}

/-- `m_stmts[index] = stmt` -/
def setStmt (c : PreparedConnection σ) (index : ℕ) (stmt : Option ℕ) :
    Option (PreparedConnection σ) :=
  if index < c.stmts.length then some { c with stmts := c.stmts.set index stmt } else none

def prepareStatement (c : PreparedConnection σ) (index : ℕ) (flags : ConnectionFlags)
    (prepared : Bool) : Option (PreparedConnection σ) :=
  if c.flags.meets flags then
    if prepared then c.setStmt index (some c.handle) else some { c with prepareError := true }
  else c.setStmt index none

/-- The calls of `PrepareStatement`. -/
def prepareAll : List (ℕ × ConnectionFlags) → (ℕ → Bool) → PreparedConnection σ →
    Option (PreparedConnection σ)
  | [], _, c => some c
  | e :: table, prepares, c =>
      (c.prepareStatement e.1 e.2 (prepares 0)).bind
        (prepareAll table fun k => prepares (k + 1))

/-- `m_stmts.resize(max)` -/
def resize (c : PreparedConnection σ) (max : ℕ) : PreparedConnection σ :=
  { c with stmts := c.stmts.take max ++ List.replicate (max - c.stmts.length) none }

def doPrepareStatements (db : StatementTable) (prepares : ℕ → Bool) (c : PreparedConnection σ) :
    Option (PreparedConnection σ) :=
  prepareAll db.statements prepares (if c.reconnecting then c else c.resize db.max)

/-- `PrepareStatements`; the result is that no statement failed so far. -/
def prepareStatements (db : StatementTable) (prepares : ℕ → Bool) (c : PreparedConnection σ) :
    Option (Bool × PreparedConnection σ) :=
  (doPrepareStatements db prepares c).map fun c => (!c.prepareError, c)

/-- `mysql_real_connect` returned a handle. -/
def connected (c : PreparedConnection σ) : PreparedConnection σ :=
  { c with toMySQLConnection := c.toMySQLConnection.connect, handle := c.handle + 1 }

/-- The reconnect in `_HandleMySQLErrno` after `opens` calls of `Open`, the last of which
is answered by the reply. -/
def reopen (db : StatementTable) (retry : ℕ → PreparedConnection σ → Outcome σ)
    (attempts opens : ℕ) (c : PreparedConnection σ) : ReopenReply → Outcome σ
  | .connected prepares =>
      match c.connected.prepareStatements db prepares with
      | none => .undefined
      | some (false, _) => .aborted opens
      | some (true, c) => .returned true { c with reconnecting := false }
  | .refused lErrno =>
      if attempts = 0 then .aborted opens else retry lErrno { c with live := false }
  -- CR_UNKNOWN_ERROR
  | .noHandle => if attempts = 0 then .aborted opens else retry 2000 c

/-- `_HandleMySQLErrno` with so many attempts left, after so many calls of `Open`. -/
def handleErrno (db : StatementTable) (replies : ℕ → ReopenReply) :
    ℕ → ℕ → ℕ → PreparedConnection σ → Outcome σ
  | 0, opens, _, _ => .aborted opens
  | attempts + 1, opens, errNo, c =>
      let retry := handleErrno db replies attempts (opens + 1)
      match classify errNo with
      | .lost =>
          reopen db retry attempts (opens + 1)
            { c with toMySQLConnection := c.closeHandle, reconnecting := true } (replies opens)
      | .unreachable =>
          reopen db retry attempts (opens + 1) { c with reconnecting := true } (replies opens)
      | .deadlock => .returned false c
      | .skip => .returned false c
      | .terminate => .aborted opens

/-! ## What is promised, and when it is kept -/

/-- Every statement for this kind of connection is prepared on the handle in use. -/
def AllPrepared (db : StatementTable) (c : PreparedConnection σ) : Prop :=
  ∀ e ∈ db.statements, c.flags.meets e.2 = true → c.stmts[e.1]? = some (some c.handle)

/-- The connection is live and has its statements, or the process ends after at most
`attempts` calls of `Open`. -/
def Recovers (db : StatementTable) (attempts : ℕ) : Outcome σ → Prop
  | .returned ok c => ok = true ∧ c.live = true ∧ c.AllPrepared db
  | .aborted opens => opens ≤ attempts
  | .undefined => False

end PreparedConnection

namespace ReopenReply

/-- The attempt fails, and the next one follows. -/
def Retried : ReopenReply → Prop
  | .refused errNo => Reconnects errNo
  | _ => False

/-- The attempt fails, with a code for which `_HandleMySQLErrno` returns false. -/
def GivesUp : ReopenReply → Prop
  | .refused errNo => classify errNo = .deadlock ∨ classify errNo = .skip
  | .noHandle => True
  | .connected _ => False

end ReopenReply

namespace PreparedConnection
variable {σ : Type}

/-- There is a place in `m_stmts` for every statement that is put into it or reset. -/
def HasRoom (table : List (ℕ × ConnectionFlags)) (prepares : ℕ → Bool)
    (c : PreparedConnection σ) : Prop :=
  ∀ k e, table[k]? = some e → (c.flags.meets e.2 = true → prepares k = true) →
    e.1 < c.stmts.length

/-- With `attempts` attempts left after `opens` calls of `Open`: none of them but the last
fails with a code that ends the attempts, and one that succeeds finds its statements. -/
structure KeepsTrying (db : StatementTable) (replies : ℕ → ReopenReply) (attempts opens : ℕ)
    (c : PreparedConnection σ) : Prop where
  codes : ∀ k, k + 1 < attempts → (∀ j < k, (replies (opens + j)).Retried) →
    ¬ (replies (opens + k)).GivesUp
  room : ∀ k < attempts, (∀ j < k, (replies (opens + j)).Retried) →
    ∀ prepares, replies (opens + k) = .connected prepares → c.HasRoom db.statements prepares

/-! ## `PrepareStatements` -/

variable {c c' : PreparedConnection σ} {db : StatementTable} {table : List (ℕ × ConnectionFlags)}
  {prepares : ℕ → Bool} {index : ℕ} {flags : ConnectionFlags} {prepared : Bool}

/-- A statement is prepared, fails, or is not for this connection. -/
theorem prepareStatement_cases (h : c.prepareStatement index flags prepared = some c') :
    (c.flags.meets flags = true ∧ index < c.stmts.length ∧
        c' = { c with stmts := c.stmts.set index (some c.handle) }) ∨
      (c.flags.meets flags = true ∧ c' = { c with prepareError := true }) ∨
      (c.flags.meets flags = false ∧ c' = { c with stmts := c.stmts.set index none }) := by
  unfold prepareStatement setStmt at h
  split at h
  · rename_i hmeets
    split at h
    · split at h
      · rename_i hlt
        exact .inl ⟨hmeets, hlt, (Option.some.inj h).symm⟩
      · cases h
    · exact .inr (.inl ⟨hmeets, (Option.some.inj h).symm⟩)
  · rename_i hmeets
    split at h
    · exact .inr (.inr ⟨by simpa using hmeets, (Option.some.inj h).symm⟩)
    · cases h

theorem prepareStatement_isSome_iff :
    (c.prepareStatement index flags prepared).isSome = true ↔
      ((c.flags.meets flags = true → prepared = true) → index < c.stmts.length) := by
  unfold prepareStatement setStmt
  cases c.flags.meets flags <;> cases prepared <;> simp

/-- What a statement does not touch. -/
theorem prepareStatement_frame (h : c.prepareStatement index flags prepared = some c') :
    c'.toMySQLConnection = c.toMySQLConnection ∧ c'.flags = c.flags ∧ c'.handle = c.handle ∧
      c'.stmts.length = c.stmts.length ∧ (c'.prepareError = false → c.prepareError = false) ∧
      ∀ i, i ≠ index → c'.stmts[i]? = c.stmts[i]? := by
  obtain ⟨-, -, rfl⟩ | ⟨-, rfl⟩ | ⟨-, rfl⟩ := prepareStatement_cases h
  · refine ⟨rfl, rfl, rfl, List.length_set, id, ?_⟩
    intro i hi
    exact List.getElem?_set_ne (Ne.symm hi)
  · refine ⟨rfl, rfl, rfl, rfl, ?_, fun _ _ => rfl⟩
    intro herror
    cases herror
  · refine ⟨rfl, rfl, rfl, List.length_set, id, ?_⟩
    intro i hi
    exact List.getElem?_set_ne (Ne.symm hi)

theorem prepareAll_frame (h : prepareAll table prepares c = some c') :
    c'.toMySQLConnection = c.toMySQLConnection ∧ c'.flags = c.flags ∧ c'.handle = c.handle ∧
      (c'.prepareError = false → c.prepareError = false) ∧
      ∀ i, (∀ e ∈ table, i ≠ e.1) → c'.stmts[i]? = c.stmts[i]? := by
  induction table generalizing prepares c with
  | nil =>
      cases h
      exact ⟨rfl, rfl, rfl, id, fun _ _ => rfl⟩
  | cons e table ih =>
      rw [prepareAll, Option.bind_eq_some_iff] at h
      obtain ⟨u, hu, h⟩ := h
      obtain ⟨hconn, hflags, hhandle, -, herror, hstmts⟩ := prepareStatement_frame hu
      obtain ⟨hconn', hflags', hhandle', herror', hstmts'⟩ := ih h
      refine ⟨hconn'.trans hconn, hflags'.trans hflags, hhandle'.trans hhandle,
        fun h => herror (herror' h), ?_⟩
      intro i hi
      rw [hstmts' i fun e he => hi e (List.mem_cons_of_mem _ he),
        hstmts i (hi e List.mem_cons_self)]

theorem hasRoom_cons {e : ℕ × ConnectionFlags} :
    c.HasRoom (e :: table) prepares ↔
      ((c.flags.meets e.2 = true → prepares 0 = true) → e.1 < c.stmts.length) ∧
        c.HasRoom table fun k => prepares (k + 1) := by
  constructor
  · intro h
    exact ⟨h 0 e rfl, fun k e' he' => h (k + 1) e' he'⟩
  · rintro ⟨hhead, htail⟩ k e' he'
    cases k with
    | zero =>
        cases he'
        exact hhead
    | succ k => exact htail k e' he'

theorem hasRoom_congr (hflags : c'.flags = c.flags) (hlength : c'.stmts.length = c.stmts.length) :
    c'.HasRoom table prepares ↔ c.HasRoom table prepares := by
  rw [HasRoom, HasRoom, hflags, hlength]

theorem prepareAll_isSome_iff :
    (prepareAll table prepares c).isSome = true ↔ c.HasRoom table prepares := by
  induction table generalizing prepares c with
  | nil => simp [prepareAll, HasRoom]
  | cons e table ih =>
      rw [prepareAll, hasRoom_cons, ← prepareStatement_isSome_iff]
      cases hu : c.prepareStatement e.1 e.2 (prepares 0) with
      | none => simp
      | some u =>
          obtain ⟨-, hflags, -, hlength, -⟩ := prepareStatement_frame hu
          rw [Option.bind_some, ih, hasRoom_congr hflags hlength]
          simp

/-- If no statement fails, all of them are on the handle in use. -/
theorem stmts_prepareAll (htable : ∀ e ∈ table, ∀ e' ∈ table, e.1 = e'.1 → e.2 = e'.2)
    (h : prepareAll table prepares c = some c') (herror : c'.prepareError = false)
    {e : ℕ × ConnectionFlags} (he : e ∈ table) (hmeets : c.flags.meets e.2 = true) :
    c'.stmts[e.1]? = some (some c.handle) := by
  induction table generalizing prepares c e with
  | nil => cases he
  | cons e₀ table ih =>
      rw [prepareAll, Option.bind_eq_some_iff] at h
      obtain ⟨u, hu, h⟩ := h
      obtain ⟨-, hflags, hhandle, -, -⟩ := prepareStatement_frame hu
      obtain ⟨-, -, -, herror', hstmts⟩ := prepareAll_frame h
      have hrest : ∀ e₁ ∈ table, e₁.1 = e.1 → c'.stmts[e.1]? = some (some c.handle) := by
        intro e₁ he₁ heq
        have hsame : e₁.2 = e.2 := htable e₁ (List.mem_cons_of_mem _ he₁) e he heq
        rw [← heq, ← hhandle]
        refine ih (fun a ha b hb => htable a (List.mem_cons_of_mem _ ha) b
          (List.mem_cons_of_mem _ hb)) h he₁ ?_
        rw [hflags, hsame]
        exact hmeets
      by_cases hlater : ∃ e₁ ∈ table, e₁.1 = e.1
      · obtain ⟨e₁, he₁, heq⟩ := hlater
        exact hrest e₁ he₁ heq
      · -- the last time that the statement is prepared
        have hnot : ∀ e₁ ∈ table, e.1 ≠ e₁.1 := fun e₁ he₁ heq => hlater ⟨e₁, he₁, heq.symm⟩
        obtain rfl : e = e₀ := by
          rcases List.mem_cons.mp he with rfl | he
          · rfl
          · exact absurd rfl (hnot e he)
        rw [hstmts e.1 hnot]
        obtain ⟨-, hlt, rfl⟩ | ⟨-, rfl⟩ | ⟨hmeets', -⟩ := prepareStatement_cases hu
        · simp [hlt]
        · cases herror' herror
        · rw [hmeets] at hmeets'
          cases hmeets'

/-- Once the statements have been prepared there is room for them. -/
theorem hasRoom_of_max_le (h : db.max ≤ c.stmts.length) : c.HasRoom db.statements prepares := by
  intro k e he _
  exact Nat.lt_of_lt_of_le (db.lt_max e (List.mem_of_getElem? he)) h

/-! ## The attempts -/

variable {replies : ℕ → ReopenReply} {attempts opens total errNo : ℕ}

theorem recovers_prepared (hreconnecting : c.reconnecting = true) (prepares : ℕ → Bool)
    (hopens : opens ≤ total) (retry : ℕ → PreparedConnection σ → Outcome σ) :
    Recovers db total (reopen db retry attempts opens c (.connected prepares)) ↔
      c.HasRoom db.statements prepares := by
  have hdo : c.connected.doPrepareStatements db prepares =
      prepareAll db.statements prepares c.connected := by
    simp [doPrepareStatements, connected, hreconnecting]
  have hroom : c.connected.HasRoom db.statements prepares ↔ c.HasRoom db.statements prepares :=
    Iff.rfl
  rw [← hroom, ← prepareAll_isSome_iff, reopen, prepareStatements, hdo]
  cases hall : prepareAll db.statements prepares c.connected with
  | none => simp [Recovers]
  | some u =>
      obtain ⟨hconn, hflags, hhandle, -, -⟩ := prepareAll_frame hall
      cases herror : u.prepareError with
      | true => simpa [Recovers, herror] using hopens
      | false =>
          simp only [Option.map_some, herror, Bool.not_false, Recovers, Option.isSome_some,
            iff_true, true_and]
          constructor
          · rw [hconn]
            rfl
          · intro e he hmeets
            rw [hhandle]
            exact stmts_prepareAll db.consistent hall herror he (hflags ▸ hmeets)

/-- The first attempt decides, or leaves it to the others. -/
theorem keepsTrying_succ :
    KeepsTrying db replies (attempts + 1) opens c ↔
      (0 < attempts → ¬ (replies opens).GivesUp) ∧
        (∀ prepares, replies opens = .connected prepares → c.HasRoom db.statements prepares) ∧
        ((replies opens).Retried → KeepsTrying db replies attempts (opens + 1) c) := by
  have hshift (j : ℕ) : opens + 1 + j = opens + (j + 1) := by omega
  constructor
  · intro h
    refine ⟨fun hpos => h.codes 0 (by omega) (by simp), h.room 0 (by omega) (by simp), ?_⟩
    intro hretried
    have hearlier {k : ℕ} (hk : ∀ j < k, (replies (opens + 1 + j)).Retried) :
        ∀ j < k + 1, (replies (opens + j)).Retried := by
      intro j hj
      cases j with
      | zero => exact hretried
      | succ j =>
          rw [← hshift]
          exact hk j (by omega)
    constructor
    · intro k hlt hk
      rw [hshift]
      exact h.codes (k + 1) (by omega) (hearlier hk)
    · intro k hlt hk
      rw [hshift]
      exact h.room (k + 1) (by omega) (hearlier hk)
  · rintro ⟨hcode, hroom, hrest⟩
    have hlater {k : ℕ} (hk : ∀ j < k + 1, (replies (opens + j)).Retried) :
        KeepsTrying db replies attempts (opens + 1) c ∧
          ∀ j < k, (replies (opens + 1 + j)).Retried := by
      refine ⟨hrest (hk 0 (by omega)), ?_⟩
      intro j hj
      rw [hshift]
      exact hk (j + 1) (by omega)
    constructor
    · intro k hlt hk
      cases k with
      | zero => exact hcode (by omega)
      | succ k =>
          obtain ⟨htries, hk⟩ := hlater hk
          rw [← hshift]
          exact htries.codes k (by omega) hk
    · intro k hlt hk
      cases k with
      | zero => exact hroom
      | succ k =>
          obtain ⟨htries, hk⟩ := hlater hk
          rw [← hshift]
          exact htries.room k (by omega) hk

theorem keepsTrying_congr (hflags : c'.flags = c.flags) (hstmts : c'.stmts = c.stmts) :
    KeepsTrying db replies attempts opens c' ↔ KeepsTrying db replies attempts opens c := by
  have hroom (prepares : ℕ → Bool) :
      c'.HasRoom db.statements prepares ↔ c.HasRoom db.statements prepares :=
    hasRoom_congr hflags (by rw [hstmts])
  constructor
  · intro h
    exact ⟨h.codes, fun k hk hj prepares he => (hroom prepares).mp (h.room k hk hj prepares he)⟩
  · intro h
    exact ⟨h.codes, fun k hk hj prepares he => (hroom prepares).mpr (h.room k hk hj prepares he)⟩

/-- A code that does not make `_HandleMySQLErrno` reconnect. -/
theorem recovers_of_not_reconnects (herr : ¬ Reconnects errNo) (hopens : opens ≤ total) :
    Recovers db total (handleErrno db replies (attempts + 1) opens errNo c) ↔
      ¬ (ReopenReply.refused errNo).GivesUp := by
  rw [handleErrno]
  cases hclass : classify errNo with
  | lost => exact absurd (.inl hclass) herr
  | unreachable => exact absurd (.inr hclass) herr
  | deadlock => simp [Recovers, ReopenReply.GivesUp, hclass]
  | skip => simp [Recovers, ReopenReply.GivesUp, hclass]
  | terminate => simpa [Recovers, ReopenReply.GivesUp, hclass] using hopens

/-- One attempt, if those after it are understood. -/
theorem recovers_reopen_iff (hreconnecting : c.reconnecting = true) (hopens : opens + 1 ≤ total)
    {retry : ℕ → PreparedConnection σ → Outcome σ}
    (hretry : ∀ lErrno d, d.flags = c.flags → d.stmts = c.stmts → Reconnects lErrno → 0 < attempts →
      (Recovers db total (retry lErrno d) ↔ KeepsTrying db replies attempts (opens + 1) c))
    (hend : ∀ lErrno d, ¬ Reconnects lErrno → 0 < attempts →
      (Recovers db total (retry lErrno d) ↔ ¬ (ReopenReply.refused lErrno).GivesUp)) :
    Recovers db total (reopen db retry attempts (opens + 1) c (replies opens)) ↔
      KeepsTrying db replies (attempts + 1) opens c := by
  rw [keepsTrying_succ]
  have hnone : KeepsTrying db replies 0 (opens + 1) c :=
    ⟨fun k hk => absurd hk (by omega), fun k hk => absurd hk (by omega)⟩
  cases hreply : replies opens with
  | connected prepares =>
      rw [recovers_prepared hreconnecting prepares hopens]
      simp [ReopenReply.GivesUp, ReopenReply.Retried]
  | noHandle =>
      rw [reopen]
      by_cases hattempts : attempts = 0
      · simpa [hattempts, Recovers, ReopenReply.Retried] using hopens
      · have hpos : 0 < attempts := by omega
        have hskip : (ReopenReply.refused 2000).GivesUp := .inr (by decide)
        rw [if_neg hattempts, hend 2000 c (by decide) hpos]
        exact iff_of_false (not_not_intro hskip) fun h => h.1 hpos trivial
  | refused lErrno =>
      rw [reopen]
      by_cases hattempts : attempts = 0
      · subst hattempts
        simpa [Recovers, hnone] using hopens
      · have hpos : 0 < attempts := by omega
        rw [if_neg hattempts]
        by_cases herr : Reconnects lErrno
        · have hgives : ¬ (ReopenReply.refused lErrno).GivesUp := by
            rintro (h | h) <;> rcases herr with herr | herr <;> rw [h] at herr <;> cases herr
          refine (hretry lErrno _ (by rfl) (by rfl) herr hpos).trans ?_
          simp [hgives, ReopenReply.Retried, herr]
        · refine (hend lErrno _ herr hpos).trans ?_
          simp [hpos, ReopenReply.Retried, herr]

/-- An error that makes `_HandleMySQLErrno` reconnect. -/
theorem recovers_of_reconnects (herr : Reconnects errNo) (hopens : opens + 1 ≤ total)
    (hretry : ∀ lErrno (d : PreparedConnection σ), Reconnects lErrno → 0 < attempts →
      (Recovers db total (handleErrno db replies attempts (opens + 1) lErrno d) ↔
        KeepsTrying db replies attempts (opens + 1) d))
    (hend : ∀ lErrno (d : PreparedConnection σ), ¬ Reconnects lErrno → 0 < attempts →
      (Recovers db total (handleErrno db replies attempts (opens + 1) lErrno d) ↔
        ¬ (ReopenReply.refused lErrno).GivesUp)) :
    Recovers db total (handleErrno db replies (attempts + 1) opens errNo c) ↔
      KeepsTrying db replies (attempts + 1) opens c := by
  -- the state in front of `Open` has the statements it had before the error
  have hattempt (u : PreparedConnection σ) (hu : u.reconnecting = true)
      (hflags : u.flags = c.flags) (hstmts : u.stmts = c.stmts) :
      Recovers db total (reopen db (handleErrno db replies attempts (opens + 1)) attempts
        (opens + 1) u (replies opens)) ↔ KeepsTrying db replies (attempts + 1) opens c := by
    rw [← keepsTrying_congr hflags hstmts]
    refine recovers_reopen_iff hu hopens ?_ hend
    intro lErrno d hdflags hdstmts herr hpos
    rw [hretry lErrno d herr hpos, keepsTrying_congr hdflags hdstmts]
  rw [handleErrno]
  rcases herr with hclass | hclass
  · rw [hclass]
    exact hattempt _ rfl rfl rfl
  · rw [hclass]
    exact hattempt _ rfl rfl rfl

theorem recovers_handleErrno_iff (herr : Reconnects errNo) (htotal : opens + attempts + 1 ≤ total) :
    Recovers db total (handleErrno db replies (attempts + 1) opens errNo c) ↔
      KeepsTrying db replies (attempts + 1) opens c := by
  induction attempts generalizing opens errNo c with
  | zero =>
      refine recovers_of_reconnects herr htotal ?_ ?_
      · intro _ _ _ hpos
        exact absurd hpos (Nat.lt_irrefl 0)
      · intro _ _ _ hpos
        exact absurd hpos (Nat.lt_irrefl 0)
  | succ attempts ih =>
      refine recovers_of_reconnects herr (by omega) ?_ ?_
      · intro lErrno d herr _
        exact ih herr (by omega)
      · intro lErrno d herr _
        exact recovers_of_not_reconnects herr (by omega)

/-- **After a lost connection `_HandleMySQLErrno` ends with a live connection and its
statements, or ends the process, exactly if the answers to `Open` keep it trying.** -/
theorem recovers_iff (db : StatementTable) (replies : ℕ → ReopenReply) (errNo : ℕ)
    (c : PreparedConnection σ) (hlost : classify errNo = .lost) :
    Recovers db 5 (handleErrno db replies 5 0 errNo c) ↔ KeepsTrying db replies 5 0 c :=
  recovers_handleErrno_iff (.inl hlost) (by omega)

/-- An asynchronous connection after its first `PrepareStatements`. -/
def ready : PreparedConnection Unit := { stmts := List.replicate 13 (some 0) }

/-- The server is back at the third attempt. -/
def backAgain : ℕ → ReopenReply
  | 0 => .refused 2003
  | 1 => .refused 2013
  | _ => .connected fun _ => true

theorem recovers_backAgain :
    classify 2006 = .lost ∧
      Recovers discordStatements 5 (handleErrno discordStatements backAgain 5 0 2006 ready) := by
  refine ⟨by decide, (recovers_iff discordStatements backAgain 2006 ready (by decide)).mpr ?_⟩
  constructor
  · intro k hk hj
    match k with
    | 0 => rintro (h | h) <;> exact absurd h (by decide)
    | 1 => rintro (h | h) <;> exact absurd h (by decide)
    | k + 2 =>
        rw [Nat.zero_add]
        exact id
  · intro k _ _ prepares _
    exact hasRoom_of_max_le (by decide)

/-- A connection without a handle sends nothing. -/
theorem execute_of_not_live {c : MySQLConnection σ} (h : c.live = false) (command : Command σ)
    (failures : List Failure) : c.execute command failures = some (false, c) := by
  cases failures <;> simp [MySQLConnection.execute, h]

/-- The socket of the server is not there yet, `CR_CONNECTION_ERROR`: after one attempt the
connection is dead, and stays so. -/
theorem dead_after_connection_error :
    classify 2006 = .lost ∧
      ∃ c, handleErrno discordStatements (fun _ => .refused 2002) 5 0 2006 ready =
          .returned false c ∧
        c.live = false ∧
        ¬ Recovers discordStatements 5
          (handleErrno discordStatements (fun _ => .refused 2002) 5 0 2006 ready) ∧
        ∀ command failures, c.toMySQLConnection.execute command failures =
          some (false, c.toMySQLConnection) := by
  refine ⟨by decide, _, rfl, rfl, ?_, execute_of_not_live rfl⟩
  intro h
  cases h.1

/-! ## The statements left out -/

/-- Some statement for these connections cannot be prepared. -/
def failsToPrepare (flags : ConnectionFlags) : List (ℕ × ConnectionFlags) → (ℕ → Bool) → Bool
  | [], _ => false
  | e :: table, prepares =>
      (flags.meets e.2 && !prepares 0) || failsToPrepare flags table fun k => prepares (k + 1)

/-- The reply, as `handleMySQLErrno` has it. -/
def openReply (db : StatementTable) (c : PreparedConnection σ) : ReopenReply → OpenReply
  | .noHandle => .noHandle
  | .refused errNo => .refused errNo
  | .connected prepares =>
      .connected !(c.prepareError || failsToPrepare c.flags db.statements prepares)

/-- The result, as `handleMySQLErrno` has it. -/
def Outcome.toConnection : Outcome σ → Option (Bool × MySQLConnection σ)
  | .returned ok c => some (ok, c.toMySQLConnection)
  | .aborted _ => none
  | .undefined => none

theorem prepareError_prepareStatement (h : c.prepareStatement index flags prepared = some c') :
    c'.prepareError = (c.prepareError || (c.flags.meets flags && !prepared)) := by
  unfold prepareStatement setStmt at h
  split at h
  · rename_i hmeets
    cases prepared with
    | true =>
        simp only [if_true, Option.ite_none_right_eq_some, Option.some.injEq] at h
        rw [← h.2]
        simp
    | false =>
        simp only [Bool.false_eq_true, if_false, Option.some.injEq] at h
        rw [← h, hmeets]
        simp
  · rename_i hmeets
    simp only [Option.ite_none_right_eq_some, Option.some.injEq] at h
    rw [← h.2]
    simp [hmeets]

theorem prepareError_prepareAll (h : prepareAll table prepares c = some c') :
    c'.prepareError = (c.prepareError || failsToPrepare c.flags table prepares) := by
  induction table generalizing prepares c with
  | nil =>
      cases h
      simp [failsToPrepare]
  | cons e table ih =>
      rw [prepareAll, Option.bind_eq_some_iff] at h
      obtain ⟨u, hu, h⟩ := h
      obtain ⟨-, hflags, -⟩ := prepareStatement_frame hu
      rw [ih h, prepareError_prepareStatement hu, hflags, failsToPrepare, Bool.or_assoc]

/-- One attempt without its statements. -/
theorem toConnection_reopen {retry : ℕ → PreparedConnection σ → Outcome σ}
    {retry' : ℕ → MySQLConnection σ → Option (Bool × MySQLConnection σ)}
    (hreconnecting : c.reconnecting = true) (hroom : db.max ≤ c.stmts.length)
    (hretry : ∀ lErrno d, d.flags = c.flags → d.stmts = c.stmts →
      d.prepareError = c.prepareError →
        (retry lErrno d).toConnection = retry' lErrno d.toMySQLConnection)
    (reply : ReopenReply) :
    (reopen db retry attempts opens c reply).toConnection =
      MySQLConnection.reopen retry' attempts c.toMySQLConnection (c.openReply db reply) := by
  cases reply with
  | noHandle =>
      simp only [reopen, openReply, MySQLConnection.reopen]
      split
      · rfl
      · exact hretry 2000 c rfl rfl rfl
  | refused lErrno =>
      simp only [reopen, openReply, MySQLConnection.reopen]
      split
      · rfl
      · exact hretry lErrno _ rfl rfl rfl
  | connected prepares =>
      have hdo : c.connected.doPrepareStatements db prepares =
          prepareAll db.statements prepares c.connected := by
        simp [doPrepareStatements, connected, hreconnecting]
      have hsome : (prepareAll db.statements prepares c.connected).isSome = true :=
        prepareAll_isSome_iff.mpr (hasRoom_of_max_le hroom)
      obtain ⟨u, hu⟩ := Option.isSome_iff_exists.mp hsome
      obtain ⟨hconn, -⟩ := prepareAll_frame hu
      have herror := prepareError_prepareAll hu
      simp only [reopen, prepareStatements, hdo, hu, Option.map_some, openReply, herror]
      cases hfail : c.connected.prepareError ||
          failsToPrepare c.connected.flags db.statements prepares with
      | true =>
          have hfail' : (c.prepareError || failsToPrepare c.flags db.statements prepares) = true :=
            hfail
          simp only [hfail', Bool.not_true, Outcome.toConnection, MySQLConnection.reopen]
      | false =>
          have hfail' : (c.prepareError || failsToPrepare c.flags db.statements prepares) = false :=
            hfail
          simp only [hfail', Bool.not_false, Outcome.toConnection, MySQLConnection.reopen, hconn]
          rfl

/-- **`handleErrno` is `handleMySQLErrno`** once the statements have been prepared. -/
theorem toConnection_handleErrno (hroom : db.max ≤ c.stmts.length) :
    (handleErrno db replies attempts opens errNo c).toConnection =
      MySQLConnection.handleMySQLErrno attempts errNo
        ((List.range' opens attempts).map fun k => c.openReply db (replies k))
        c.toMySQLConnection := by
  induction attempts generalizing opens errNo c with
  | zero => rfl
  | succ attempts ih =>
      have hretry (u : PreparedConnection σ) (hflags : u.flags = c.flags)
          (hstmts : u.stmts = c.stmts) (herror : u.prepareError = c.prepareError)
          (lErrno : ℕ) :
          (handleErrno db replies attempts (opens + 1) lErrno u).toConnection =
            MySQLConnection.handleMySQLErrno attempts lErrno
              ((List.range' (opens + 1) attempts).map fun k => c.openReply db (replies k))
              u.toMySQLConnection := by
        have hreply : u.openReply db = c.openReply db := by
          funext reply
          cases reply <;> simp [openReply, hflags, herror]
        rw [ih (by rw [hstmts]; exact hroom), hreply]
      rw [handleErrno, MySQLConnection.handleMySQLErrno, List.range'_succ, List.map_cons,
        List.headD_cons, List.tail_cons]
      cases hclass : classify errNo with
      | lost =>
          exact toConnection_reopen
            (c := { c with toMySQLConnection := c.closeHandle, reconnecting := true }) rfl hroom
            (fun lErrno d hflags hstmts herror => hretry d hflags hstmts herror lErrno) _
      | unreachable =>
          exact toConnection_reopen (c := { c with reconnecting := true }) rfl hroom
            (fun lErrno d hflags hstmts herror => hretry d hflags hstmts herror lErrno) _
      | deadlock => rfl
      | skip => rfl
      | terminate => rfl

end PreparedConnection
end WarheadDiscord
