import WarheadDiscord.Common.StringConvert
import WarheadDiscord.Database.DatabaseLoader
import WarheadDiscord.Lib.Loop

/-!
# Which configurations of a database can be used

The text of `DatabaseInfo` is cut at its semicolons, and if there are not five or six parts the
connection info stays empty.  Nothing looks at it before a connection is opened, and `Open` takes
the port for a number without asking whether it is one.  It does not ask on Unix if the host is a
dot, but then it makes the host `localhost` in the info that all connections of the pool share, and
the next one takes the path of the socket for a number.  The number of worker threads is checked,
the number of synchronous ones is not, and `GetFreeConnection` divides by it.

`safeToUse_iff` says which configurations do not come to this.  `Dial` has the functions of
`AddDatabase` with the connection info; where the port is a number they are those of
`DatabaseLoader` (`Dial.addDatabase_of_dialable`).

## Main definitions

* `MySQLConnectionInfo`, `MySQLConnectionInfo.connectArgs` — the info, and what `Open` makes of it.
* `Dial.openConnection`, `Dial.openConnections`, `Dial.open`, `Dial.addDatabase` — the code;
  `none` is a missing value that is dereferenced.
* `freeConnectionTurn` — the loop of `GetFreeConnection`.
* `SafeToUse` — what is promised of a configuration.
-/

namespace WarheadDiscord

structure MySQLConnectionInfo where
  user : List UInt8 := []
  password : List UInt8 := []
  database : List UInt8 := []
  host : List UInt8 := []
  portOrSocket : List UInt8 := []
  ssl : List UInt8 := []
  deriving DecidableEq, Repr

/-- What `mysql_real_connect` is called with, and the option for `ssl`, if it is set. -/
structure ConnectArgs where
  host : List UInt8
  user : List UInt8
  password : List UInt8
  database : List UInt8
  port : ℤ
  unixSocket : Option (List UInt8)
  useSsl : Option Bool
  deriving DecidableEq, Repr

namespace MySQLConnectionInfo

/-- The constructor. -/
def ofText (infoString : List UInt8) : MySQLConnectionInfo :=
  match tokenize infoString 0x3b true with
  | [host, portOrSocket, user, password, database] =>
      { host, portOrSocket, user, password, database }
  | [host, portOrSocket, user, password, database, ssl] =>
      { host, portOrSocket, user, password, database, ssl }
  | _ => {}

/-- The arguments for a port and a socket. -/
def argsOf (info : MySQLConnectionInfo) (port : ℤ) (unixSocket : Option (List UInt8)) :
    ConnectArgs where
  host := info.host
  user := info.user
  password := info.password
  database := info.database
  port := port
  unixSocket := unixSocket
  useSsl := if info.ssl = [] then none else some (info.ssl = ascii "ssl")

/-- The part of `Open` between `mysql_init` and `mysql_real_connect`, on Windows or on Unix,
and the info as it is then. -/
def connectArgs (windows : Bool) (info : MySQLConnectionInfo) :
    Option (ConnectArgs × MySQLConnectionInfo) :=
  if info.host = ascii "." then
    if windows then some (info.argsOf 0 none, info)
    else
      let info := { info with host := ascii "localhost" }
      some (info.argsOf 0 (some info.portOrSocket), info)
  else (stringTo .uint32 info.portOrSocket).map fun port => (info.argsOf port none, info)

/-- However often it is used, there is a port. -/
def Dialable (windows : Bool) (info : MySQLConnectionInfo) : Prop :=
  (stringTo .uint32 info.portOrSocket).isSome ∨ windows = true ∧ info.host = ascii "."

instance (windows : Bool) (info : MySQLConnectionInfo) : Decidable (info.Dialable windows) :=
  inferInstanceAs (Decidable (_ ∨ _))

end MySQLConnectionInfo

/-- The options that `AddDatabase` reads, and the result of `DBUpdater::Create`. -/
structure DatabaseOptions where
  databaseInfo : List UInt8
  workerThreads : UInt8
  synchThreads : UInt8
  reconnectAttempts : UInt8 := 20
  updatesEnabledForThis : Bool := true
  autoSetup : Bool := true
  created : Bool := true
  deriving DecidableEq, Repr

/-! ## The code -/

namespace Dial

/-- What the client library does at one connection. -/
structure Reply where
  /-- `mysql_init` gives a handle. -/
  init : Bool
  connect : ConnectReply
  deriving DecidableEq, Repr

variable [MySQLClient] (windows : Bool)

/-- `MySQLConnection::Open` -/
def openConnection (info : MySQLConnectionInfo) (r : Reply) : Option (ℕ × MySQLConnectionInfo) :=
  if r.init then (info.connectArgs windows).map fun args => (r.connect.error, args.2)
  -- CR_UNKNOWN_ERROR
  else some (2000, info)

def openConnections (replies : ℕ → Reply) : ℕ → ℕ → List ℕ → MySQLConnectionInfo →
    Option (ℕ × List ℕ × MySQLConnectionInfo)
  | 0, _, connections, info => some (0, connections, info)
  | n + 1, i, connections, info => do
      let (error, info) ← openConnection windows info (replies i)
      if error ≠ 0 then some (error, [], info)
      else if (replies i).connect.version < minServerVersion then some (1, connections, info)
      else openConnections replies n (i + 1) (connections ++ [i]) info

def «open» (replies : ℕ → Reply) (p : Connections) (info : MySQLConnectionInfo) :
    Option (ℕ × Connections × MySQLConnectionInfo) := do
  let (error, async, info) ← openConnections windows replies p.asyncThreads 0 p.async info
  if error ≠ 0 then some (error, { p with async := async }, info)
  else
    let (error, sync, info) ←
      openConnections windows replies p.synchThreads p.asyncThreads p.sync info
    some (error, { p with async := async, sync := sync }, info)

/-- The retry loop after `made` calls of `Open`, the last of which returned the error. -/
def reopenLoop (replies : ℕ → ℕ → Reply) : ℕ → ℕ → ℕ → Connections → MySQLConnectionInfo →
    Option (ℕ × ℕ × Connections × MySQLConnectionInfo)
  | 0, made, error, p, info => some (error, made, p, info)
  | attempts + 1, made, _, p, info => do
      let (error, p, info) ← «open» windows (replies made) p info
      if error = 2002 then reopenLoop replies attempts (made + 1) error p info
      else some (error, made + 1, p, info)

/-- The calls of `Open` after a first one that failed. -/
def retry (replies : ℕ → ℕ → Reply) (attempts error : ℕ) (p : Connections)
    (info : MySQLConnectionInfo) : Option (ℕ × ℕ × Connections × MySQLConnectionInfo) :=
  -- CR_CONNECTION_ERROR
  if error = 2002 then reopenLoop windows replies attempts 1 error p info
  else some (error, 1, p, info)

/-- The function that `AddDatabase` pushes: its result, the number of its calls of `Open`, the
pool and its connection info. -/
def addDatabase (options : DatabaseOptions) (replies : ℕ → ℕ → Reply) :
    Option (Bool × ℕ × Connections × MySQLConnectionInfo) :=
  let p := Connections.new options.workerThreads.toNat options.synchThreads.toNat
  let info := MySQLConnectionInfo.ofText options.databaseInfo
  if options.databaseInfo = [] then some (false, 0, p, info)
  else if options.workerThreads.toNat < 1 ∨ 32 < options.workerThreads.toNat then
    some (false, 0, p, info)
  else do
    let (error, p, info) ← «open» windows (replies 0) p info
    if error = 0 then some (true, 1, p, info)
    else
      let (error, made, p, info) ←
        retry windows replies options.reconnectAttempts.toNat error p info
      -- ER_BAD_DB_ERROR
      if error = 1049 ∧ options.updatesEnabledForThis ∧ options.autoSetup then
        if options.created then
          let (error, p, info) ← «open» windows (replies made) p info
          some (error = 0, made + 1, p, info)
        else some (false, made, p, info)
      else some (error = 0, made, p, info)

end Dial

/-- One turn of the loop of `GetFreeConnection`: `ready t` says whose lock is free at the poll
`t`.  The result `none` is a division by zero, or an index outside of the list. -/
def freeConnectionTurn (sync : List ℕ) (ready : ℕ → ℕ → Bool) :
    UInt8 × ℕ → (UInt8 × ℕ) ⊕ Option ℕ
  | (i, t) =>
      if sync.length = 0 then .inr none
      else
        match sync[(i + 1).toNat % sync.length]? with
        | none => .inr none
        | some connection =>
            if ready t connection then .inr (some connection) else .inl (i + 1, t + 1)

/-- Every call of `GetFreeConnection` is safe, and finds a connection if there is one that is
free from some time on. -/
def FindsConnection (sync : List ℕ) : Prop :=
  ∀ ready : ℕ → ℕ → Bool,
    ¬ Loop.Returns (freeConnectionTurn sync ready) (0, 0) none ∧
    ((∃ connection ∈ sync, ∃ t₀, ∀ t ≥ t₀, ready t connection = true) →
      ∃ connection ∈ sync, Loop.Returns (freeConnectionTurn sync ready) (0, 0) (some connection))

/-- Whatever the server does, the port is never missing, and a pool that is open has a
connection for every call. -/
def SafeToUse [MySQLClient] (windows : Bool) (options : DatabaseOptions) : Prop :=
  ∀ replies, ∃ result made p info,
    Dial.addDatabase windows options replies = some (result, made, p, info) ∧
      (result = true → FindsConnection p.sync)

/-! ## `GetFreeConnection` -/

section FreeConnection
variable {sync : List ℕ} {ready : ℕ → ℕ → Bool}

/-- In a list that is not empty a turn polls a connection of the list. -/
theorem freeConnectionTurn_of_ne_nil (ready : ℕ → ℕ → Bool) (hsync : sync ≠ []) (i : UInt8)
    (t : ℕ) :
    ∃ connection ∈ sync, sync[(i + 1).toNat % sync.length]? = some connection ∧
      freeConnectionTurn sync ready (i, t) =
        if ready t connection then .inr (some connection) else .inl (i + 1, t + 1) := by
  have hpos : 0 < sync.length := List.length_pos_iff.mpr hsync
  have hlt : (i + 1).toNat % sync.length < sync.length := Nat.mod_lt _ hpos
  refine ⟨_, List.getElem_mem hlt, List.getElem?_eq_getElem hlt, ?_⟩
  simp only [freeConnectionTurn, if_neg (Nat.ne_of_gt hpos), List.getElem?_eq_getElem hlt]

theorem not_returns_none (ready : ℕ → ℕ → Bool) (hsync : sync ≠ []) :
    ¬ Loop.Returns (freeConnectionTurn sync ready) (0, 0) none := by
  intro hnone
  obtain ⟨⟨i, t⟩, -, hend⟩ := hnone.exists_end (P := fun _ => True) (fun _ _ _ _ => trivial)
    trivial
  obtain ⟨connection, -, -, hturn⟩ := freeConnectionTurn_of_ne_nil ready hsync i t
  rw [hturn] at hend
  split at hend
  · cases hend
  · cases hend

/-- The polls that are left until the index is polled whose connection is free from `t₀` on. -/
def pollsLeft (index : UInt8) (t₀ : ℕ) (s : UInt8 × ℕ) : ℕ :=
  (t₀ - s.2) * 256 + (index - (s.1 + 1)).toNat

theorem pollsLeft_next {index i : UInt8} {t₀ t : ℕ} (h : t < t₀ ∨ index ≠ i + 1) :
    pollsLeft index t₀ (i + 1, t + 1) < pollsLeft index t₀ (i, t) := by
  have hlt := (index - (i + 1)).toNat_lt
  have hlt' := (index - (i + 1 + 1)).toNat_lt
  simp only [pollsLeft]
  by_cases ht : t < t₀
  · omega
  · have hne : index.toNat ≠ (i + 1).toNat := fun heq =>
      h.resolve_left ht (UInt8.toNat_inj.mp heq)
    have hindex := index.toNat_lt
    have hi := (i + 1).toNat_lt
    have hdown : (index - (i + 1 + 1)).toNat + 1 = (index - (i + 1)).toNat := by
      simp only [UInt8.toNat_sub, UInt8.toNat_add (i + 1) 1, UInt8.toNat_one]
      omega
    omega

/-- A turn that does not end the loop brings it nearer to a poll of the free connection. -/
theorem freeConnectionTurn_cases {index t₀ : ℕ} (hle : sync.length ≤ 256)
    (hindex : index < sync.length) (hready : ∀ t ≥ t₀, ready t sync[index] = true)
    (s : UInt8 × ℕ) :
    (∃ r, freeConnectionTurn sync ready s = .inr r ∧ ∃ connection ∈ sync, r = some connection) ∨
      ∃ s', freeConnectionTurn sync ready s = .inl s' ∧ True ∧
        pollsLeft (UInt8.ofNat index) t₀ s' < pollsLeft (UInt8.ofNat index) t₀ s := by
  obtain ⟨i, t⟩ := s
  have hsync : sync ≠ [] := List.ne_nil_of_length_pos (Nat.zero_lt_of_lt hindex)
  obtain ⟨connection, hconnection, hpolled, hturn⟩ :=
    freeConnectionTurn_of_ne_nil ready hsync i t
  rw [hturn]
  by_cases hnow : ready t connection = true
  · exact .inl ⟨_, if_pos hnow, connection, hconnection, rfl⟩
  · refine .inr ⟨_, if_neg hnow, trivial, pollsLeft_next ?_⟩
    by_contra hdone
    obtain ⟨ht, hi⟩ := not_or.mp hdone
    have hnat : (i + 1).toNat = index := by
      rw [← not_not.mp hi, UInt8.toNat_ofNat']
      omega
    rw [hnat, Nat.mod_eq_of_lt hindex, List.getElem?_eq_getElem hindex,
      Option.some.injEq] at hpolled
    rw [← hpolled] at hnow
    exact hnow (hready t (Nat.not_lt.mp ht))

/-- **A pool with synchronous connections always gives one.** -/
theorem findsConnection_of_length (hpos : 0 < sync.length) (hle : sync.length ≤ 256) :
    FindsConnection sync := by
  intro ready
  refine ⟨not_returns_none ready (List.length_pos_iff.mp hpos), ?_⟩
  intro hfree
  obtain ⟨free, hmem, t₀, hready⟩ := hfree
  obtain ⟨index, hindex, rfl⟩ := List.getElem_of_mem hmem
  obtain ⟨result, hreturns, connection, hconnection, rfl⟩ :=
    Loop.exists_returns_of_lt (s := (0, 0)) (pollsLeft (UInt8.ofNat index) t₀)
      (fun s _ => freeConnectionTurn_cases hle hindex hready s) trivial
  exact ⟨connection, hconnection, hreturns⟩

theorem not_findsConnection_nil : ¬ FindsConnection [] := by
  intro hfinds
  exact (hfinds fun _ _ => true).1 ⟨1, rfl⟩

end FreeConnection

/-! ## Where there is a port -/

namespace DatabaseOptions

/-- The text, with a character for each octet. -/
def text (options : DatabaseOptions) : String :=
  String.ofList (options.databaseInfo.map fun c => Char.ofNat c.toNat)

@[reducible]
def loaderConfig (options : DatabaseOptions) : LoaderConfig where
  dbString := options.text
  asyncThreads := options.workerThreads.toNat
  synchThreads := options.synchThreads.toNat
  attempts := options.reconnectAttempts.toNat
  updatesEnabledForThis := options.updatesEnabledForThis
  autoSetup := options.autoSetup
  created := options.created

theorem dbString_eq_empty {options : DatabaseOptions} :
    options.loaderConfig.dbString = "" ↔ options.databaseInfo = [] := by
  rw [loaderConfig, text, String.ofList_eq_empty_iff, List.map_eq_nil_iff]

end DatabaseOptions

namespace Dial
variable {windows : Bool} {info : MySQLConnectionInfo} {n i : ℕ} {l : List ℕ} {p : Connections}

/-- What the pool sees of it. -/
def Reply.seen (r : Reply) : ConnectReply :=
  if r.init then r.connect else { r.connect with error := 2000 }

theorem Reply.version_seen (r : Reply) : r.seen.version = r.connect.version := by
  rw [seen]
  split <;> rfl

theorem openConnection_of_dialable (h : info.Dialable windows) (r : Reply) :
    ∃ info', info'.Dialable windows ∧
      openConnection windows info r = some (r.seen.error, info') := by
  rw [openConnection, Reply.seen]
  by_cases hinit : r.init = true
  · rw [if_pos hinit, if_pos hinit, MySQLConnectionInfo.connectArgs]
    split_ifs with hdot hwindows
    · exact ⟨info, h, rfl⟩
    · have hport : (stringTo .uint32 info.portOrSocket).isSome := by
        refine h.resolve_right ?_
        intro hpipe
        exact hwindows hpipe.1
      exact ⟨{ info with host := ascii "localhost" }, .inl hport, rfl⟩
    · have hport : (stringTo .uint32 info.portOrSocket).isSome := by
        refine h.resolve_right ?_
        intro hpipe
        exact hdot hpipe.2
      obtain ⟨port, hport⟩ := Option.isSome_iff_exists.mp hport
      exact ⟨info, h, by rw [hport]; rfl⟩
  · rw [if_neg hinit, if_neg hinit]
    exact ⟨info, h, rfl⟩

variable [MySQLClient]

theorem openConnections_of_dialable (h : info.Dialable windows) (replies : ℕ → Reply) :
    ∃ info', info'.Dialable windows ∧
      openConnections windows replies n i l info =
        some ((WarheadDiscord.openConnections (fun k => (replies k).seen) n i l).1,
          (WarheadDiscord.openConnections (fun k => (replies k).seen) n i l).2, info') := by
  induction n generalizing i l info with
  | zero => exact ⟨info, h, rfl⟩
  | succ n ih =>
      obtain ⟨info', h', hopen⟩ := openConnection_of_dialable h (replies i)
      simp only [openConnections, WarheadDiscord.openConnections, hopen, Option.bind_eq_bind,
        Option.bind_some, Reply.version_seen]
      split_ifs with herror hversion
      · exact ⟨info', h', rfl⟩
      · exact ⟨info', h', rfl⟩
      · exact ih h'

theorem open_of_dialable (h : info.Dialable windows) (replies : ℕ → Reply) :
    ∃ info', info'.Dialable windows ∧
      «open» windows replies p info =
        some ((p.open fun k => (replies k).seen).1, (p.open fun k => (replies k).seen).2,
          info') := by
  obtain ⟨info₁, h₁, hasync⟩ := openConnections_of_dialable (n := p.asyncThreads) (i := 0)
    (l := p.async) h replies
  obtain ⟨info₂, h₂, hsync⟩ := openConnections_of_dialable (n := p.synchThreads)
    (i := p.asyncThreads) (l := p.sync) h₁ replies
  rw [«open», hasync, Connections.open]
  generalize WarheadDiscord.openConnections (fun k => (replies k).seen) p.asyncThreads 0 p.async
    = async
  obtain ⟨error, async⟩ := async
  cases error with
  | zero =>
      simp only [Option.bind_eq_bind, Option.bind_some, ne_eq, not_true_eq_false, if_false, hsync]
      exact ⟨info₂, h₂, rfl⟩
  | succ error => exact ⟨info₁, h₁, rfl⟩

theorem reopenLoop_of_dialable (h : info.Dialable windows) (replies : ℕ → ℕ → Reply)
    (attempts made error : ℕ) :
    ∃ info', info'.Dialable windows ∧
      reopenLoop windows replies attempts made error p info =
        let loop := WarheadDiscord.reopenLoop (fun c k => (replies c k).seen) attempts made error p
        some (loop.1, loop.2.1, loop.2.2, info') := by
  induction attempts generalizing made error p info with
  | zero => exact ⟨info, h, rfl⟩
  | succ attempts ih =>
      obtain ⟨info', h', hopen⟩ := open_of_dialable (p := p) h (replies made)
      simp only [reopenLoop, WarheadDiscord.reopenLoop, hopen, Option.bind_eq_bind,
        Option.bind_some]
      split_ifs with herror
      · exact ih h' (made + 1) _
      · exact ⟨info', h', rfl⟩

theorem retry_of_dialable (h : info.Dialable windows) (replies : ℕ → ℕ → Reply)
    (attempts error : ℕ) :
    ∃ info', info'.Dialable windows ∧
      retry windows replies attempts error p info =
        let loop :=
          if error = 2002 then
            WarheadDiscord.reopenLoop (fun c k => (replies c k).seen) attempts 1 error p
          else (error, 1, p)
        some (loop.1, loop.2.1, loop.2.2, info') := by
  rw [retry]
  split_ifs with herror
  · exact reopenLoop_of_dialable h replies attempts 1 error
  · exact ⟨info, h, rfl⟩

/-- **Where there is a port, the pool is the one of the loader.** -/
theorem addDatabase_of_dialable {options : DatabaseOptions}
    (h : (MySQLConnectionInfo.ofText options.databaseInfo).Dialable windows)
    (replies : ℕ → ℕ → Reply) :
    ∃ info', ∀ result made p,
      WarheadDiscord.addDatabase options.loaderConfig (fun c k => (replies c k).seen) =
          (result, made, p) →
        addDatabase windows options replies = some (result, made, p, info') := by
  unfold addDatabase WarheadDiscord.addDatabase
  by_cases hempty : options.databaseInfo = []
  · refine ⟨.ofText options.databaseInfo, fun result made p hresult => ?_⟩
    rw [if_pos (DatabaseOptions.dbString_eq_empty.mpr hempty)] at hresult
    cases hresult
    rw [if_pos hempty]
  rw [if_neg hempty, if_neg (DatabaseOptions.dbString_eq_empty.not.mpr hempty)]
  dsimp only [DatabaseOptions.loaderConfig]
  by_cases hthreads : options.workerThreads.toNat < 1 ∨ 32 < options.workerThreads.toNat
  · refine ⟨.ofText options.databaseInfo, fun result made p hresult => ?_⟩
    rw [if_pos hthreads] at hresult
    cases hresult
    rw [if_pos hthreads]
  rw [if_neg hthreads, if_neg hthreads]
  obtain ⟨info₁, h₁, hopen⟩ := open_of_dialable
    (p := Connections.new options.workerThreads.toNat options.synchThreads.toNat) h (replies 0)
  rw [hopen]
  generalize (Connections.new options.workerThreads.toNat options.synchThreads.toNat).open _ = first
  obtain ⟨error, p⟩ := first
  cases error with
  | zero => exact ⟨info₁, fun result made p hresult => by cases hresult; rfl⟩
  | succ error =>
      obtain ⟨info₂, h₂, hretry⟩ := retry_of_dialable (p := p) h₁ replies
        options.reconnectAttempts.toNat (error + 1)
      simp only [Option.bind_eq_bind, Option.bind_some, Nat.add_eq_zero_iff, one_ne_zero, and_false,
        if_false, hretry]
      generalize (if error + 1 = 2002 then _ else (error + 1, 1, p)) = last
      obtain ⟨error, made, p⟩ := last
      obtain ⟨info₃, h₃, hcreated⟩ := open_of_dialable (p := p) h₂ (replies made)
      dsimp only
      split_ifs with hcreate hdone
      · exact ⟨info₃, fun result made p hresult => by cases hresult; rw [hcreated]; rfl⟩
      · exact ⟨info₂, fun result made p hresult => by cases hresult; rfl⟩
      · exact ⟨info₂, fun result made p hresult => by cases hresult; rfl⟩

end Dial

/-! ## The synchronous connections of an open pool -/

namespace Connections
variable [MySQLClient] {call : OpenCall} {calls : ℕ → OpenCall} {p q : Connections} {n error : ℕ}

/-- What `Open` has left in the list of synchronous connections, by the code it returned: it is
kept when the server is too old, and that is not tried again. -/
structure SyncSettled (n error : ℕ) (q : Connections) : Prop where
  threads : q.synchThreads = n
  opened : error = 0 → q.sync.length = n
  closed : error ≠ 0 → error ≠ 1 → q.sync = []

theorem syncSettled_open (hthreads : p.synchThreads = n) (hsync : p.sync = []) :
    SyncSettled n (p.open call).1 (p.open call).2 := by
  have hkept : (p.open call).2.synchThreads = n := (open_threads p call).2.trans hthreads
  by_cases h : call.Succeeds p.asyncThreads p.synchThreads
  · rw [open_of_succeeds h] at hkept ⊢
    exact ⟨hkept, fun _ => by simp [hsync, hthreads], fun hne => absurd rfl hne⟩
  · refine ⟨hkept, fun hzero => absurd hzero (open_ne_zero h), ?_⟩
    obtain ⟨k, hk, hbefore, hfail⟩ := OpenCall.exists_first_failure h
    by_cases hasync : k < p.asyncThreads
    · rw [open_of_async_failure hasync hbefore hfail]
      exact fun _ _ => hsync
    · obtain ⟨k, rfl⟩ := Nat.exists_eq_add_of_le (Nat.not_lt.mp hasync)
      rw [open_of_sync_failure (by omega) hbefore hfail, failureCode]
      intro _ hone
      split_ifs with herror
      · rfl
      · exact absurd (if_neg herror) hone

theorem syncSettled_reopenLoop (attempts made : ℕ) (h : SyncSettled n 2002 p) :
    SyncSettled n (reopenLoop calls attempts made 2002 p).1
      (reopenLoop calls attempts made 2002 p).2.2 := by
  induction attempts generalizing made p with
  | zero => exact h
  | succ attempts ih =>
      have hopen : SyncSettled n (p.open (calls made)).1 (p.open (calls made)).2 :=
        syncSettled_open h.threads (h.closed (by decide) (by decide))
      simp only [reopenLoop]
      split_ifs with herror
      · rw [herror] at hopen ⊢
        exact ih (made + 1) hopen
      · exact hopen

/-- **A pool that is open has the synchronous connections of the configuration.** -/
theorem length_sync_addDatabase {config : LoaderConfig} (h : (addDatabase config calls).1 = true) :
    (addDatabase config calls).2.2.sync.length = config.synchThreads := by
  have hfirst : SyncSettled config.synchThreads
      ((new config.asyncThreads config.synchThreads).open (calls 0)).1
      ((new config.asyncThreads config.synchThreads).open (calls 0)).2 := syncSettled_open rfl rfl
  unfold addDatabase at h ⊢
  dsimp only at h ⊢
  by_cases hempty : config.dbString = ""
  · rw [if_pos hempty] at h
    cases h
  by_cases hthreads : config.asyncThreads < 1 ∨ 32 < config.asyncThreads
  · rw [if_neg hempty, if_pos hthreads] at h
    cases h
  rw [if_neg hempty, if_neg hthreads] at h ⊢
  generalize (new config.asyncThreads config.synchThreads).open (calls 0) = first at hfirst h ⊢
  obtain ⟨error, p⟩ := first
  cases error with
  | zero => exact hfirst.opened rfl
  | succ error =>
      have hretried : ∃ error' made q,
          (if error + 1 = 2002 then reopenLoop calls config.attempts 1 (error + 1) p
            else (error + 1, 1, p)) = (error', made, q) ∧
          SyncSettled config.synchThreads error' q := by
        split_ifs with herror
        · rw [herror] at hfirst ⊢
          exact ⟨_, _, _, rfl, syncSettled_reopenLoop _ _ hfirst⟩
        · exact ⟨_, _, _, rfl, hfirst⟩
      obtain ⟨error', made, q, heq, hsettled⟩ := hretried
      simp only [heq] at h ⊢
      split_ifs at h ⊢ with hcreate hcreated
      · have hcleared : q.sync = [] :=
          hsettled.closed (by rw [hcreate.1]; decide) (by rw [hcreate.1]; decide)
        exact (syncSettled_open hsettled.threads hcleared).opened (by simpa using h)
      · exact hsettled.opened (by simpa using h)

end Connections

/-! ## Which configurations are safe -/

namespace Dial
variable {windows : Bool} {info info' : MySQLConnectionInfo} {n i error : ℕ} {l l' : List ℕ}

/-- The info after a connection that is made without a port. -/
theorem connectArgs_of_not_dialable (h : ¬ info.Dialable windows) :
    info.connectArgs windows = none ∨
      ∃ args info', info.connectArgs windows = some (args, info') ∧ ¬ info'.Dialable windows ∧
        info'.host ≠ ascii "." := by
  rw [MySQLConnectionInfo.connectArgs]
  obtain ⟨hport, hpipe⟩ := not_or.mp h
  split_ifs with hdot hwindows
  · exact absurd ⟨hwindows, hdot⟩ hpipe
  · have hne : ascii "localhost" ≠ ascii "." := by decide
    refine .inr ⟨_, _, rfl, ?_, hne⟩
    rintro (hport' | hpipe')
    · exact hport hport'
    · exact hne hpipe'.2
  · rw [Option.not_isSome_iff_eq_none.mp hport]
    exact .inl rfl

theorem connectArgs_eq_none (h : ¬ info.Dialable windows) (hdot : info.host ≠ ascii ".") :
    info.connectArgs windows = none := by
  rw [MySQLConnectionInfo.connectArgs, if_neg hdot,
    Option.not_isSome_iff_eq_none.mp (not_or.mp h).1]
  rfl

variable [MySQLClient]

/-- Every connection opens. -/
def goodReply : Reply := ⟨true, 0, minServerVersion⟩

theorem openConnections_succ_goodReply :
    openConnections windows (fun _ => goodReply) (n + 1) i l info =
      (info.connectArgs windows).bind fun args =>
        openConnections windows (fun _ => goodReply) n (i + 1) (l ++ [i]) args.2 := by
  rw [openConnections, openConnection, if_pos (by rfl)]
  cases info.connectArgs windows with
  | none => rfl
  | some args => simp [goodReply]

theorem openConnections_goodReply
    (h : openConnections windows (fun _ => goodReply) n i l info = some (error, l', info')) :
    error = 0 ∧ l' = l ++ List.range' i n := by
  induction n generalizing i l info with
  | zero =>
      cases h
      simp
  | succ n ih =>
      rw [openConnections_succ_goodReply, Option.bind_eq_some_iff] at h
      obtain ⟨args, -, h⟩ := h
      obtain ⟨herror, hl⟩ := ih h
      refine ⟨herror, ?_⟩
      rw [hl, List.range'_succ, List.append_assoc]
      rfl

/-- Only the first connection can do without a port. -/
theorem openConnections_of_not_dialable (h : ¬ info.Dialable windows)
    (hopen : openConnections windows (fun _ => goodReply) n i l info = some (error, l', info')) :
    n = 0 ∨ ¬ info'.Dialable windows ∧ info'.host ≠ ascii "." := by
  induction n generalizing i l info with
  | zero => exact .inl rfl
  | succ n ih =>
      rw [openConnections_succ_goodReply] at hopen
      rcases connectArgs_of_not_dialable h with hnone | ⟨args, info₁, hargs, h₁, hdot⟩
      · rw [hnone] at hopen
        cases hopen
      · rw [hargs] at hopen
        rcases ih h₁ hopen with rfl | hnext
        · cases hopen
          exact .inr ⟨h₁, hdot⟩
        · exact .inr hnext

theorem open_goodReply {p q : Connections}
    (h : «open» windows (fun _ => goodReply) p info = some (error, q, info')) :
    error = 0 ∧ q.sync = p.sync ++ List.range' p.asyncThreads p.synchThreads := by
  rw [«open»] at h
  cases hasync : openConnections windows (fun _ => goodReply) p.asyncThreads 0 p.async info with
  | none =>
      rw [hasync] at h
      cases h
  | some first =>
      obtain ⟨error₁, async, info₁⟩ := first
      obtain ⟨rfl, -⟩ := openConnections_goodReply hasync
      rw [hasync] at h
      cases hsync : openConnections windows (fun _ => goodReply) p.synchThreads p.asyncThreads
          p.sync info₁ with
      | none =>
          simp [hsync] at h
      | some second =>
          obtain ⟨error₂, sync, info₂⟩ := second
          obtain ⟨rfl, rfl⟩ := openConnections_goodReply hsync
          simp only [Option.bind_eq_bind, Option.bind_some, ne_eq, not_true_eq_false, if_false,
            hsync, Option.some.injEq, Prod.mk.injEq] at h
          obtain ⟨rfl, rfl, -⟩ := h
          exact ⟨rfl, rfl⟩

theorem open_of_not_dialable {p : Connections} (h : ¬ info.Dialable windows)
    (hasync : 0 < p.asyncThreads) (hsync : 0 < p.synchThreads) :
    «open» windows (fun _ => goodReply) p info = none := by
  rw [«open»]
  cases hfirst : openConnections windows (fun _ => goodReply) p.asyncThreads 0 p.async info with
  | none => rfl
  | some first =>
      obtain ⟨error, async, info₁⟩ := first
      obtain ⟨rfl, -⟩ := openConnections_goodReply hfirst
      obtain ⟨h₁, hdot⟩ :=
        (openConnections_of_not_dialable h hfirst).resolve_left (Nat.ne_of_gt hasync)
      obtain ⟨m, hm⟩ := Nat.exists_eq_succ_of_ne_zero (Nat.ne_of_gt hsync)
      simp only [Option.bind_eq_bind, Option.bind_some, ne_eq, not_true_eq_false, if_false, hm,
        openConnections, openConnection, connectArgs_eq_none h₁ hdot]
      rfl

end Dial

section
variable [MySQLClient]

/-- A configuration that is refused opens no pool. -/
theorem safeToUse_of_refused {windows : Bool} {options : DatabaseOptions}
    (h : options.databaseInfo = [] ∨
      (options.workerThreads.toNat < 1 ∨ 32 < options.workerThreads.toNat)) :
    SafeToUse windows options := by
  intro replies
  by_cases hempty : options.databaseInfo = []
  · refine ⟨_, _, _, _, by rw [Dial.addDatabase, if_pos hempty], ?_⟩
    intro hfalse
    cases hfalse
  · have hthreads := h.resolve_left hempty
    refine ⟨_, _, _, _, by rw [Dial.addDatabase, if_neg hempty, if_pos hthreads], ?_⟩
    intro hfalse
    cases hfalse

theorem safeToUse_of_dialable {windows : Bool} {options : DatabaseOptions}
    (hpos : 0 < options.synchThreads.toNat)
    (hport : (MySQLConnectionInfo.ofText options.databaseInfo).Dialable windows) :
    SafeToUse windows options := by
  intro replies
  obtain ⟨info, hloader⟩ := Dial.addDatabase_of_dialable hport replies
  generalize hresult : addDatabase options.loaderConfig (fun c k => (replies c k).seen)
    = result at hloader
  obtain ⟨result, made, p⟩ := result
  refine ⟨result, made, p, info, hloader result made p rfl, ?_⟩
  rintro rfl
  have hlength : p.sync.length = options.synchThreads.toNat := by
    have hopened := Connections.length_sync_addDatabase (congrArg Prod.fst hresult)
    rwa [hresult] at hopened
  have hlt := options.synchThreads.toNat_lt
  exact findsConnection_of_length (by rw [hlength]; exact hpos)
    (by rw [hlength]; exact Nat.le_of_lt hlt)

/-- A server that takes every connection reaches what is wrong with a configuration. -/
theorem SafeToUse.dialable {windows : Bool} {options : DatabaseOptions}
    (hsafe : SafeToUse windows options) (hempty : options.databaseInfo ≠ [])
    (hthreads : ¬ (options.workerThreads.toNat < 1 ∨ 32 < options.workerThreads.toNat)) :
    0 < options.synchThreads.toNat ∧
      (MySQLConnectionInfo.ofText options.databaseInfo).Dialable windows := by
  obtain ⟨result, made, p, info, heq, hfinds⟩ := hsafe fun _ _ => Dial.goodReply
  rw [Dial.addDatabase, if_neg hempty, if_neg hthreads] at heq
  cases hopen : Dial.open windows (fun _ => Dial.goodReply)
      (Connections.new options.workerThreads.toNat options.synchThreads.toNat)
      (MySQLConnectionInfo.ofText options.databaseInfo) with
  | none =>
      rw [hopen] at heq
      cases heq
  | some first =>
      obtain ⟨error, q, info'⟩ := first
      obtain ⟨rfl, hsync⟩ := Dial.open_goodReply hopen
      rw [hopen] at heq
      cases heq
      have hpos : 0 < options.synchThreads.toNat := by
        by_contra hzero
        have hnil : p.sync = [] := by
          rw [hsync, Connections.new, Nat.eq_zero_of_not_pos hzero]
          rfl
        exact not_findsConnection_nil (hnil ▸ hfinds rfl)
      refine ⟨hpos, ?_⟩
      by_contra hport
      rw [Dial.open_of_not_dialable hport (by simp only [Connections.new]; omega) hpos] at hopen
      cases hopen

/-- **A configuration is safe to use exactly if it is refused, or there is a port that is a
number and at least one synchronous connection.**  On Windows a named pipe needs no port. -/
theorem safeToUse_iff (windows : Bool) (options : DatabaseOptions) :
    SafeToUse windows options ↔
      options.databaseInfo = [] ∨
        (options.workerThreads.toNat < 1 ∨ 32 < options.workerThreads.toNat) ∨
        0 < options.synchThreads.toNat ∧
          (MySQLConnectionInfo.ofText options.databaseInfo).Dialable windows := by
  constructor
  · intro hsafe
    by_cases hempty : options.databaseInfo = []
    · exact .inl hempty
    by_cases hthreads : options.workerThreads.toNat < 1 ∨ 32 < options.workerThreads.toNat
    · exact .inr (.inl hthreads)
    exact .inr (.inr (hsafe.dialable hempty hthreads))
  · rintro (hempty | hthreads | ⟨hpos, hport⟩)
    · exact safeToUse_of_refused (.inl hempty)
    · exact safeToUse_of_refused (.inr hthreads)
    · exact safeToUse_of_dialable hpos hport

end

/-- The form for a Unix socket: the second connection of the pool takes the path for a port. -/
theorem not_safeToUse_unixSocket :
    ¬ SafeToUse false ⟨ascii ".;/tmp/mysql.sock;warhead;warhead;discord", 1, 1, 20, true, true,
      true⟩ := by
  intro hsafe
  obtain ⟨result, made, p, info, heq, -⟩ := hsafe fun _ _ => Dial.goodReply
  have hnone : Dial.addDatabase false ⟨ascii ".;/tmp/mysql.sock;warhead;warhead;discord", 1, 1, 20,
      true, true, true⟩ (fun _ _ => Dial.goodReply) = none := by
    decide +kernel
  rw [hnone] at heq
  cases heq

end WarheadDiscord
