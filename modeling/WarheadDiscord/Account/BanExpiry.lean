import Mathlib.Data.List.Forall2
import WarheadDiscord.Database.Reconnect

/-!
# Bans that have expired

`BanMgr::Initialize` executes two prepared statements, one for each of the tables of bans.  A
statement is an index into `m_stmts`, and what is there was put there by `DoPrepareStatements`.
That function prepares both statements under the index of the first one, so the second of
them replaces the first, and under the index of the second there is nothing.

`Execute` asserts that there is something (`initialize_eq_none`), and what it finds under the
index for accounts is the statement for addresses (`execute_updAccountBanExpired`).

The connection is live, and a statement that is executed does not fail.  Which of the
statements can be prepared is arbitrary, and so is what the statements do that are not about
the expiry of bans.

## Main definitions

* `DiscordDatabaseStatements`, `Sql` — the indices and the statements.
* `DiscordDatabaseConnection`, `doPrepareStatements`, `execute` — the functions of the
  source; `none` is a failed assertion, or an access out of range.
* `BanTables`, `initializeBans` — the tables, and `BanMgr::Initialize`.
-/

namespace WarheadDiscord

inductive DiscordDatabaseStatements
  | selAccountInfoByName
  | insAccount
  | selIpInfo
  | selAccountIdByUsername
  | selAccounts
  | updLogon
  | delBanAccount
  | delBanIp
  | insAccountBan
  | insIpBan
  | updAccountBanExpired
  | updIpBanExpired
  | insClient
  deriving DecidableEq, Repr

def DiscordDatabaseStatements.index : DiscordDatabaseStatements → ℕ
  | .selAccountInfoByName => 0
  | .insAccount => 1
  | .selIpInfo => 2
  | .selAccountIdByUsername => 3
  | .selAccounts => 4
  | .updLogon => 5
  | .delBanAccount => 6
  | .delBanIp => 7
  | .insAccountBan => 8
  | .insIpBan => 9
  | .updAccountBanExpired => 10
  | .updIpBanExpired => 11
  | .insClient => 12

def MAX_DISCORD_DATABASE_STATEMENTS : ℕ := 13

inductive BanTable
  | accountBanned
  | ipBanned
  deriving DecidableEq, Repr

/-- A statement: one that is about the expiry of bans, or another one by its text. -/
inductive Sql
  | expireBans (table : BanTable)
  | other (text : String)
  deriving DecidableEq, Repr

def BanTable.name : BanTable → String
  | .accountBanned => "`account_banned`"
  | .ipBanned => "`ip_banned`"

/-- The text that is sent to the server. -/
def Sql.text : Sql → String
  | .expireBans table =>
      "UPDATE " ++ table.name ++
        " SET `active` = 0 WHERE `unbandate` <= UNIX_TIMESTAMP() AND `unbandate` <> `bandate`"
  | .other text => text

/-- The calls of `PrepareStatement` in `DiscordDatabaseConnection::DoPrepareStatements`. -/
def discordSql : List (DiscordDatabaseStatements × Sql × ConnectionFlags) :=
  [(.selAccountInfoByName, .other ("SELECT `a`.`ID`, `a`.`Salt`, `a`.`Verifier`, " ++
      "`a`.`GuildID`, `a`.`RealmName`, `a`.`LastIP`, `a`.`CoreName`, `a`.`ModuleVersion`, " ++
      "`ab`.`bandate`, `ab`.`unbandate` FROM `account` a LEFT JOIN `account_banned` ab " ++
      "ON `a`.`id` = `ab`.`id` AND `ab`.`active` = 1 WHERE `a`.`Name` = ? LIMIT 1"), .async),
    (.insAccount, .other ("INSERT INTO account (`Name`, `Salt`, `Verifier`, `GuildID`, " ++
      "`RealmName`, `JoinDate`) VALUES (?, ?, ?, ?, ?, NOW())"), .async),
    (.selIpInfo, .other ("SELECT unbandate > UNIX_TIMESTAMP() OR unbandate = bandate, " ++
      "unbandate = bandate FROM ip_banned WHERE ip = ?"), .async),
    (.selAccountIdByUsername, .other "SELECT `ID` FROM `account` WHERE `Name` = ?", .async),
    (.selAccounts, .other "SELECT `ID`, `Name`, `GuildID`, `RealmName` FROM account", .synch),
    (.updLogon, .other "UPDATE `account` SET `Salt` = ?, `Verifier` = ? WHERE `ID` = ?", .async),
    (.delBanAccount, .other "DELETE FROM `account_banned` WHERE `id` = ?", .async),
    (.delBanIp, .other "DELETE FROM `ip_banned` WHERE `ip` = ?", .async),
    (.insAccountBan, .other ("INSERT INTO `account_banned` (`id`, `bandate`, `unbandate`, " ++
      "`bannedby`, `banreason`, `active`) " ++
      "VALUES (?, UNIX_TIMESTAMP(), UNIX_TIMESTAMP() + ?, ?, ?, 1)"), .async),
    (.insIpBan, .other ("INSERT INTO `ip_banned` (`ip`, `bandate`, `unbandate`, " ++
      "`bannedby`, `banreason`, `active`) " ++
      "VALUES (?, UNIX_TIMESTAMP(), UNIX_TIMESTAMP() + ?, ?, ?, 1)"), .async),
    (.updAccountBanExpired, .expireBans .accountBanned, .async),
    -- the index of the statement before
    (.updAccountBanExpired, .expireBans .ipBanned, .async),
    (.insClient, .other ("INSERT INTO `clients` (`GuildID`, `GuildName`, `MembersCount`, " ++
      "`InviteDate`, `AddedAtStartup`) VALUES (?, ?, ?, FROM_UNIXTIME(?), ?)"), .async)]

/-- These are the statements of `discordStatements`. -/
theorem statements_discordSql :
    discordSql.map (fun e => (e.1.index, e.2.2)) = discordStatements.statements ∧
      MAX_DISCORD_DATABASE_STATEMENTS = discordStatements.max :=
  ⟨rfl, rfl⟩

/-- A live connection, as far as its prepared statements go. -/
structure DiscordDatabaseConnection where
  /-- `m_connectionFlags` -/
  flags : ConnectionFlags
  /-- `m_stmts` -/
  stmts : List (Option Sql)
  prepareError : Bool
  deriving DecidableEq, Repr

namespace DiscordDatabaseConnection

def new (flags : ConnectionFlags) : DiscordDatabaseConnection := ⟨flags, [], false⟩

/-- `m_stmts[index] = stmt` -/
def setStmt (c : DiscordDatabaseConnection) (index : ℕ) (stmt : Option Sql) :
    Option DiscordDatabaseConnection :=
  if index < c.stmts.length then some { c with stmts := c.stmts.set index stmt } else none

/-- `PrepareStatement`; the server prepares the statement or does not. -/
def prepareStatement (c : DiscordDatabaseConnection) (index : ℕ) (sql : Sql)
    (flags : ConnectionFlags) (prepared : Bool) : Option DiscordDatabaseConnection :=
  if c.flags.meets flags then
    if prepared then c.setStmt index (some sql) else some { c with prepareError := true }
  else c.setStmt index none

/-- Some calls of `PrepareStatement`; `prepares k` is the outcome of the `k`-th of them. -/
def prepareAll : List (DiscordDatabaseStatements × Sql × ConnectionFlags) → (ℕ → Bool) →
    DiscordDatabaseConnection → Option DiscordDatabaseConnection
  | [], _, c => some c
  | e :: table, prepares, c =>
      (c.prepareStatement e.1.index e.2.1 e.2.2 (prepares 0)).bind
        (prepareAll table fun k => prepares (k + 1))

/-- `DoPrepareStatements`, on a connection that is not reconnecting. -/
def doPrepareStatements (c : DiscordDatabaseConnection) (prepares : ℕ → Bool) :
    Option DiscordDatabaseConnection :=
  prepareAll discordSql prepares
    { c with
      stmts := c.stmts.take MAX_DISCORD_DATABASE_STATEMENTS ++
        List.replicate (MAX_DISCORD_DATABASE_STATEMENTS - c.stmts.length) none }

/-- `GetPreparedStatement`, with its assertion and the one behind it in `Execute`. -/
def getPreparedStatement (c : DiscordDatabaseConnection) (index : ℕ) : Option Sql :=
  if index < c.stmts.length then (c.stmts[index]?).join else none

end DiscordDatabaseConnection

/-- A row of a table of bans, with keys of type `κ`. -/
structure BannedRow (κ : Type) where
  key : κ
  bandate : UInt32
  unbandate : UInt32
  bannedby : List UInt8
  banreason : List UInt8
  active : UInt8
  deriving DecidableEq, Repr

structure BanTables where
  accountBanned : List (BannedRow UInt32)
  ipBanned : List (BannedRow (List UInt8))
  deriving DecidableEq, Repr

/-- The ban has expired. -/
def BannedRow.Expired {κ : Type} (now : ℕ) (row : BannedRow κ) : Prop :=
  row.unbandate.toNat ≤ now ∧ row.unbandate ≠ row.bandate

instance {κ : Type} (now : ℕ) (row : BannedRow κ) : Decidable (row.Expired now) :=
  inferInstanceAs (Decidable (_ ∧ _))

/-- `SET active = 0` for the rows that meet the condition of the statement. -/
def expireRows {κ : Type} (now : ℕ) (rows : List (BannedRow κ)) : List (BannedRow κ) :=
  rows.map fun row => if row.Expired now then { row with active := 0 } else row

/-- The server executes a statement; `others` is what the other statements do. -/
def Sql.perform (others : String → BanTables → BanTables) (now : ℕ) (tables : BanTables) :
    Sql → BanTables
  | .expireBans .accountBanned =>
      { tables with accountBanned := expireRows now tables.accountBanned }
  | .expireBans .ipBanned => { tables with ipBanned := expireRows now tables.ipBanned }
  | .other text => others text tables

/-- `Execute` of a prepared statement; `none` is a failed assertion. -/
def DiscordDatabaseConnection.execute (others : String → BanTables → BanTables)
    (c : DiscordDatabaseConnection) (now : ℕ) (stmt : DiscordDatabaseStatements)
    (tables : BanTables) : Option BanTables :=
  (c.getPreparedStatement stmt.index).map (Sql.perform others now tables)

/-- The statements of `BanMgr::Initialize`, on a connection that was prepared. -/
def initializeBans (others : String → BanTables → BanTables) (c : DiscordDatabaseConnection)
    (now : ℕ) (tables : BanTables) : Option BanTables :=
  (c.execute others now .updAccountBanExpired tables).bind
    (c.execute others now .updIpBanExpired)

/-! ## What is under an index -/

namespace DiscordDatabaseConnection

variable {c c' : DiscordDatabaseConnection}

theorem setStmt_eq_some {index : ℕ} {stmt : Option Sql} (h : c.setStmt index stmt = some c') :
    index < c.stmts.length ∧ c' = { c with stmts := c.stmts.set index stmt } := by
  unfold setStmt at h
  split at h
  · exact ⟨‹_›, (Option.some.inj h).symm⟩
  · cases h

/-- What `PrepareStatement` can do: it changes the slot of its index, or no slot. -/
theorem prepareStatement_eq_some {index : ℕ} {sql : Sql} {flags : ConnectionFlags}
    {prepared : Bool} (h : c.prepareStatement index sql flags prepared = some c') :
    c'.stmts = c.stmts ∨ ∃ stmt, c'.stmts = c.stmts.set index stmt := by
  unfold prepareStatement at h
  split at h
  · split at h
    · rw [(setStmt_eq_some h).2]
      exact .inr ⟨_, rfl⟩
    · rw [← Option.some.inj h]
      exact .inl rfl
  · rw [(setStmt_eq_some h).2]
    exact .inr ⟨_, rfl⟩

theorem exists_prepareStatement {index : ℕ} (hi : index < c.stmts.length) (sql : Sql)
    (flags : ConnectionFlags) (prepared : Bool) :
    ∃ c', c.prepareStatement index sql flags prepared = some c' ∧
      c'.stmts.length = c.stmts.length := by
  unfold prepareStatement setStmt
  rw [if_pos hi, if_pos hi]
  split
  · split
    · exact ⟨_, rfl, List.length_set⟩
    · exact ⟨_, rfl, rfl⟩
  · exact ⟨_, rfl, List.length_set⟩

/-- No call is out of range when every index is in range before the first one. -/
theorem exists_prepareAll (table : List (DiscordDatabaseStatements × Sql × ConnectionFlags))
    (prepares : ℕ → Bool) (h : ∀ e ∈ table, e.1.index < c.stmts.length) :
    ∃ c', prepareAll table prepares c = some c' := by
  induction table generalizing c prepares with
  | nil => exact ⟨c, rfl⟩
  | cons e table ih =>
    obtain ⟨d, hd, hlen⟩ := exists_prepareStatement
      (h e List.mem_cons_self) e.2.1 e.2.2 (prepares 0)
    simp only [prepareAll, hd, Option.bind_some]
    refine ih _ fun e' he' => ?_
    rw [hlen]
    exact h e' (List.mem_cons_of_mem _ he')

/-- Calls under other indices leave a slot as it is. -/
theorem prepareAll_getElem? {i : ℕ}
    {table : List (DiscordDatabaseStatements × Sql × ConnectionFlags)} {prepares : ℕ → Bool}
    (hi : ∀ e ∈ table, e.1.index ≠ i) (h : prepareAll table prepares c = some c') :
    c'.stmts[i]? = c.stmts[i]? := by
  induction table generalizing c prepares with
  | nil => rw [← Option.some.inj h]
  | cons e table ih =>
    simp only [prepareAll, Option.bind_eq_some_iff] at h
    obtain ⟨d, hd, h⟩ := h
    rw [ih (fun e' he' => hi e' (List.mem_cons_of_mem _ he')) h]
    have hne : e.1.index ≠ i := hi e List.mem_cons_self
    rcases prepareStatement_eq_some hd with hs | ⟨stmt, hs⟩
    · rw [hs]
    · rw [hs, List.getElem?_set_ne hne]

theorem prepareAll_append (t u : List (DiscordDatabaseStatements × Sql × ConnectionFlags))
    (prepares : ℕ → Bool) :
    prepareAll (t ++ u) prepares c =
      (prepareAll t prepares c).bind (prepareAll u fun k => prepares (k + t.length)) := by
  induction t generalizing c prepares with
  | nil => rfl
  | cons e t ih =>
    simp only [List.cons_append, prepareAll, Option.bind_assoc, List.length_cons]
    congr 1
    ext1 d
    rw [ih]
    simp only [Nat.add_assoc]

theorem index_lt_max : ∀ e ∈ discordSql, e.1.index < MAX_DISCORD_DATABASE_STATEMENTS := by
  decide

theorem exists_doPrepareStatements (flags : ConnectionFlags) (prepares : ℕ → Bool) :
    ∃ c, (new flags).doPrepareStatements prepares = some c :=
  exists_prepareAll _ _ index_lt_max

/-- Nothing is prepared for the addresses. -/
theorem getPreparedStatement_updIpBanExpired {flags : ConnectionFlags} {prepares : ℕ → Bool}
    (h : (new flags).doPrepareStatements prepares = some c) :
    c.getPreparedStatement DiscordDatabaseStatements.updIpBanExpired.index = none := by
  have hother : ∀ e ∈ discordSql,
      e.1.index ≠ DiscordDatabaseStatements.updIpBanExpired.index := by decide
  unfold getPreparedStatement
  rw [prepareAll_getElem? hother h]
  split <;> rfl

theorem flags_prepareStatement {index : ℕ} {sql : Sql} {flags : ConnectionFlags}
    {prepared : Bool} (h : c.prepareStatement index sql flags prepared = some c') :
    c'.flags = c.flags := by
  unfold prepareStatement at h
  split at h
  · split at h
    · rw [(setStmt_eq_some h).2]
    · rw [← Option.some.inj h]
  · rw [(setStmt_eq_some h).2]

theorem flags_prepareAll {table : List (DiscordDatabaseStatements × Sql × ConnectionFlags)}
    {prepares : ℕ → Bool} (h : prepareAll table prepares c = some c') :
    c'.flags = c.flags := by
  induction table generalizing c prepares with
  | nil => rw [← Option.some.inj h]
  | cons e table ih =>
    simp only [prepareAll, Option.bind_eq_some_iff] at h
    obtain ⟨d, hd, h⟩ := h
    rw [ih h, flags_prepareStatement hd]

/-- What is prepared for the accounts is the statement for the addresses: the last of the
calls under an index decides. -/
theorem getPreparedStatement_updAccountBanExpired {prepares : ℕ → Bool}
    (hp : prepares 11 = true) (h : (new .async).doPrepareStatements prepares = some c) :
    c.getPreparedStatement DiscordDatabaseStatements.updAccountBanExpired.index =
      some (.expireBans .ipBanned) := by
  have hsplit : discordSql = discordSql.take 11 ++
      (.updAccountBanExpired, .expireBans .ipBanned, .async) :: discordSql.drop 12 := rfl
  have hother : ∀ e ∈ discordSql.drop 12,
      e.1.index ≠ DiscordDatabaseStatements.updAccountBanExpired.index := by decide
  rw [doPrepareStatements, hsplit, prepareAll_append, Option.bind_eq_some_iff] at h
  obtain ⟨d, hd, h⟩ := h
  have hflags : d.flags = .async := flags_prepareAll hd
  simp only [prepareAll, Option.bind_eq_some_iff] at h
  obtain ⟨d', hd', h⟩ := h
  have hstmts := prepareAll_getElem? hother h
  have hp' : prepares (0 + (discordSql.take 11).length) = true := hp
  rw [prepareStatement, hflags, hp'] at hd'
  obtain ⟨hlt, rfl⟩ := setStmt_eq_some hd'
  rw [List.getElem?_set_self hlt] at hstmts
  have hlt' := (List.getElem?_eq_some_iff.1 hstmts).1
  rw [getPreparedStatement, if_pos hlt', hstmts, Option.join_some]

end DiscordDatabaseConnection

/-! ## The expiry -/

/-- What is asked of one table: `active` is 0 for exactly the rows that had it, or whose ban
has expired; nothing else changes. -/
def ExpiredIn {κ : Type} (now : ℕ) (before after : List (BannedRow κ)) : Prop :=
  List.Forall₂ (fun row row' =>
    (row'.active = 0 ↔ row.active = 0 ∨ row.Expired now) ∧
      (¬ row.Expired now → row'.active = row.active) ∧
      row'.key = row.key ∧ row'.bandate = row.bandate ∧ row'.unbandate = row.unbandate ∧
      row'.bannedby = row.bannedby ∧ row'.banreason = row.banreason) before after

/-- The statement does for its table what is asked. -/
theorem expiredIn_expireRows {κ : Type} (now : ℕ) (rows : List (BannedRow κ)) :
    ExpiredIn now rows (expireRows now rows) := by
  unfold ExpiredIn expireRows
  rw [List.forall₂_map_right_iff, List.forall₂_same]
  intro row _
  by_cases hexp : row.Expired now
  · simp [hexp]
  · simp [hexp]

/-- No assertion of `Execute` fails, and both tables are as asked. -/
def ExpiresBans (others : String → BanTables → BanTables) (c : DiscordDatabaseConnection)
    (now : ℕ) (tables : BanTables) : Prop :=
  ∃ tables', initializeBans others c now tables = some tables' ∧
    ExpiredIn now tables.accountBanned tables'.accountBanned ∧
    ExpiredIn now tables.ipBanned tables'.ipBanned

variable {c : DiscordDatabaseConnection} {prepares : ℕ → Bool}

/-- The first statement is executed on the table of the other one. -/
theorem execute_updAccountBanExpired (others : String → BanTables → BanTables) (now : ℕ)
    (tables : BanTables) (hp : prepares 11 = true)
    (h : (DiscordDatabaseConnection.new .async).doPrepareStatements prepares = some c) :
    c.execute others now .updAccountBanExpired tables =
      some { tables with ipBanned := expireRows now tables.ipBanned } := by
  rw [DiscordDatabaseConnection.execute,
    DiscordDatabaseConnection.getPreparedStatement_updAccountBanExpired hp h]
  rfl

/-- The assertion fails, whatever was prepared. -/
theorem initialize_eq_none {flags : ConnectionFlags}
    (others : String → BanTables → BanTables) (now : ℕ) (tables : BanTables)
    (h : (DiscordDatabaseConnection.new flags).doPrepareStatements prepares = some c) :
    initializeBans others c now tables = none := by
  unfold initializeBans
  rw [Option.bind_eq_none_iff]
  intro tables' _
  rw [DiscordDatabaseConnection.execute,
    DiscordDatabaseConnection.getPreparedStatement_updIpBanExpired h]
  rfl

/-- For no content of the tables, at no time and on no connection do the statements of
`BanMgr::Initialize` what is asked of them. -/
theorem not_expiresBans (flags : ConnectionFlags) (prepares : ℕ → Bool)
    (others : String → BanTables → BanTables) (now : ℕ) (tables : BanTables) :
    ∃ c, (DiscordDatabaseConnection.new flags).doPrepareStatements prepares = some c ∧
      ¬ ExpiresBans others c now tables := by
  obtain ⟨c, hc⟩ := DiscordDatabaseConnection.exists_doPrepareStatements flags prepares
  refine ⟨c, hc, ?_⟩
  rintro ⟨tables', htables', -, -⟩
  rw [initialize_eq_none others now tables hc] at htables'
  cases htables'

/-- Two empty tables, on an asynchronous connection on which every statement is prepared. -/
theorem not_expiresBans_empty :
    ¬ ∀ c, (DiscordDatabaseConnection.new .async).doPrepareStatements (fun _ => true) = some c →
      ExpiresBans (fun _ tables => tables) c 1700000000 ⟨[], []⟩ := by
  intro h
  obtain ⟨c, hc⟩ := DiscordDatabaseConnection.exists_doPrepareStatements .async fun _ => true
  obtain ⟨tables', htables', -, -⟩ := h c hc
  rw [initialize_eq_none _ _ _ hc] at htables'
  cases htables'

end WarheadDiscord
