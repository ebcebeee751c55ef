import Mathlib.Data.Int.Notation
import Mathlib.Data.List.Basic

/-!
# `MySQLConnection`: statements, errors and reconnects

A statement that the client library refuses goes to `_HandleMySQLErrno`.  If the
connection is lost, that function opens a new one, and `Execute` sends the statement
again, on the new connection.  Whoever called `Execute` does not notice.

The outcome of every call of the library is an input: a call of `Execute` comes with the
list of the failures it meets, each with the answers that the calls of `Open` it causes
get.  After the list the calls succeed.

Of the server, the model has the session of the connection: the open transaction, if
there is one, and the units committed so far.  A statement outside a transaction is a
unit of its own.  A call that fails may roll the transaction back, as a deadlock does,
and has no other effect; a lost connection takes its transaction with it, and a new
connection has none.

## Main definitions

* `ErrnoClass`, `classify` — the cases of the `switch` of `_HandleMySQLErrno`.
* `MySQLConnection` — the handle and the session.
* `handleMySQLErrno`, `execute`, `executeTransaction` — the functions of the source;
  `none` is `std::abort`.
-/

namespace WarheadDiscord

/-- What `_HandleMySQLErrno` does about an error. -/
inductive ErrnoClass
  /-- Close the handle and open a new connection. -/
  | lost
  /-- Open a new connection. -/
  | unreachable
  | deadlock
  /-- Give up the statement. -/
  | skip
  /-- Terminate the process. -/
  | terminate
  deriving DecidableEq, Repr

/-- The cases of the `switch`. -/
def classify (errNo : ℕ) : ErrnoClass :=
  -- CR_SERVER_GONE_ERROR, CR_SERVER_LOST, CR_SERVER_LOST_EXTENDED
  if errNo = 2006 ∨ errNo = 2013 ∨ errNo = 2055 then .lost
  -- CR_CONN_HOST_ERROR
  else if errNo = 2003 then .unreachable
  -- ER_LOCK_DEADLOCK
  else if errNo = 1213 then .deadlock
  -- ER_BAD_FIELD_ERROR, ER_NO_SUCH_TABLE, ER_PARSE_ERROR
  else if errNo = 1054 ∨ errNo = 1146 ∨ errNo = 1064 then .terminate
  -- ER_WRONG_VALUE_COUNT, ER_DUP_ENTRY and the default
  else .skip

/-- The error makes `_HandleMySQLErrno` call `Open`. -/
def Reconnects (errNo : ℕ) : Prop := classify errNo = .lost ∨ classify errNo = .unreachable

instance (errNo : ℕ) : Decidable (Reconnects errNo) :=
  inferInstanceAs (Decidable (_ ∨ _))

/-- How a call of `Open` goes. -/
inductive OpenReply
  /-- `mysql_init` fails: `CR_UNKNOWN_ERROR`, and the handle stays what it is. -/
  | noHandle
  /-- `mysql_real_connect` fails. -/
  | refused (errNo : ℕ)
  /-- The connection is open; `PrepareStatements` succeeds or not. -/
  | connected (prepared : Bool)
  deriving DecidableEq, Repr

/-- A call of the library that fails, in `Execute`: `mysql_query`,
`mysql_stmt_bind_param` or `mysql_stmt_execute`. -/
structure Failure where
  /-- `mysql_errno(m_Mysql)` after the call.  Some errors of a prepared statement are kept
  on the statement only; then it is what it was before, as a rule 0. -/
  errNo : ℕ
  /-- The server has rolled back the open transaction. -/
  rollsBack : Bool
  /-- The answers to the calls of `Open`, as far as it comes to that. -/
  opens : List OpenReply
  deriving DecidableEq, Repr

/-- What a connection sends. -/
inductive Command (σ : Type)
  | startTransaction
  | statement (stmt : σ)
  | commit
  | rollback

/-- A connection, and its session on the server. -/
structure MySQLConnection (σ : Type) where
  /-- `m_Mysql` is not null. -/
  live : Bool := true
  /-- `mysql_errno(m_Mysql)` -/
  lastError : ℕ := 0
  /-- The statements of the open transaction. -/
  transaction : Option (List σ) := none
  /-- The units committed. -/
  committed : List (List σ) := []

namespace MySQLConnection
variable {σ : Type}

/-- What a commit of the transaction adds to the units; an empty one adds nothing. -/
def toUnits : Option (List σ) → List (List σ)
  | some (stmt :: pending) => [stmt :: pending]
  | _ => []

/-- The server executes a command. -/
def perform (c : MySQLConnection σ) : Command σ → MySQLConnection σ
  | .startTransaction =>
      -- a transaction that is still open is committed
      { c with
        lastError := 0
        transaction := some []
        committed := c.committed ++ toUnits c.transaction }
  | .statement stmt =>
      match c.transaction with
      | some pending => { c with lastError := 0, transaction := some (pending ++ [stmt]) }
      | none => { c with lastError := 0, committed := c.committed ++ [[stmt]] }
  | .commit =>
      { c with
        lastError := 0, transaction := none, committed := c.committed ++ toUnits c.transaction }
  | .rollback => { c with lastError := 0, transaction := none }

/-- A command fails. -/
def fail (c : MySQLConnection σ) (f : Failure) : MySQLConnection σ :=
  { c with
    lastError := f.errNo, transaction := if f.rollsBack then none else c.transaction }

/-- `mysql_close`, and `m_Mysql = nullptr`. -/
def closeHandle (c : MySQLConnection σ) : MySQLConnection σ :=
  { c with live := false, transaction := none }

/-- `mysql_real_connect` returned a handle. -/
def connect (c : MySQLConnection σ) : MySQLConnection σ :=
  { c with live := true, lastError := 0, transaction := none }

/-- The reconnect in `_HandleMySQLErrno`, where `retry` is the call of itself with one
attempt less. -/
def reopen (retry : ℕ → MySQLConnection σ → Option (Bool × MySQLConnection σ)) (attempts : ℕ)
    (c : MySQLConnection σ) : OpenReply → Option (Bool × MySQLConnection σ)
  | .connected true => some (true, c.connect)
  | .connected false => none
  | .refused lErrno => if attempts = 0 then none else retry lErrno { c with live := false }
  -- CR_UNKNOWN_ERROR
  | .noHandle => if attempts = 0 then none else retry 2000 c

/-- `_HandleMySQLErrno`; the result is that an error was handled. -/
def handleMySQLErrno :
    ℕ → ℕ → List OpenReply → MySQLConnection σ → Option (Bool × MySQLConnection σ)
  | 0, _, _, _ => none
  | attempts + 1, errNo, opens, c =>
      let retry := fun lErrno d => handleMySQLErrno attempts lErrno opens.tail d
      match classify errNo with
      | .lost => reopen retry attempts c.closeHandle (opens.headD (.connected true))
      | .unreachable => reopen retry attempts c (opens.headD (.connected true))
      | .deadlock => some (false, c)
      | .skip => some (false, c)
      | .terminate => none

/-- `Execute`, of a text or of a prepared statement. -/
def execute (command : Command σ) :
    List Failure → MySQLConnection σ → Option (Bool × MySQLConnection σ)
  | [], c => if c.live then some (true, c.perform command) else some (false, c)
  | f :: failures, c =>
      if c.live then
        match handleMySQLErrno 5 f.errNo f.opens (c.fail f) with
        | none => none
        | some (true, c) => execute command failures c
        | some (false, c) => some (false, c)
      else some (false, c)

/-- The loop of `ExecuteTransaction` and what comes after it.  The results of `COMMIT`
and `ROLLBACK` are ignored. -/
def executeQueries (commit rollback : List Failure) :
    List (σ × List Failure) → MySQLConnection σ → Option (ℤ × MySQLConnection σ)
  | [], c => (execute .commit commit c).bind fun r => some (0, r.2)
  | (stmt, failures) :: queries, c =>
      (execute (.statement stmt) failures c).bind fun r =>
        if r.1 then executeQueries commit rollback queries r.2
        else (execute .rollback rollback r.2).bind fun r' => some (r.2.lastError, r'.2)

/-- `ExecuteTransaction`, with the failures that `START TRANSACTION`, each statement,
`COMMIT` and `ROLLBACK` meet.  The result of `START TRANSACTION` is ignored. -/
def executeTransaction (c : MySQLConnection σ) (start : List Failure)
    (queries : List (σ × List Failure)) (commit rollback : List Failure) :
    Option (ℤ × MySQLConnection σ) :=
  if queries.isEmpty then some (-1, c)
  else
    (execute .startTransaction start c).bind fun r => executeQueries commit rollback queries r.2

end MySQLConnection
end WarheadDiscord
