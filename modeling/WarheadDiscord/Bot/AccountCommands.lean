import WarheadDiscord.Account.RandomKey
import WarheadDiscord.Lib.Machine
import WarheadDiscord.Server.GuildCache

/-!
# The slash commands

Two commands reach the accounts: `account-create` and `account-key-generate`.  The second is for the
owner of the bot.  The first is meant for everybody else, but it is refused in a guild that is in
the cache of the bot, with the words that the guild has an account already.  And a guild has the
commands only because it was put in the cache: `AddClient` and `CheckClients` do both.

`created_by_owner` draws the conclusion over the runs, with guilds that come and go, restarts of
the server, and commands at any time: nobody but the owner creates an account or changes a key.
What carries it is that the commands are a part of the cache, in a process and in the table from
which the next one starts (`Inv`).

A process that ends can lose some of its statements, and with the row of a guild that has the
commands it loses the guard.  So the restarts must keep these rows (`KeepsClients`); after one that
does not, anybody in the guild can create an account (`exists_insert_of_lost`).

On Discord a guild keeps the commands that it was given until the bot leaves it, and a command comes
with all its required options.  Every handler runs alone.  The statements that are executed keep
their order.  Colors and timestamps of the replies are left out.

## Main definitions

* `tryExecuteCommand`, `accountCreate`, `accountKeyGenerate` — the code.
* `World`, `World.next` — the server and the part of Discord that it deals with.
* `World.KeepsClients` — a restart finds the guilds that have the commands.
-/

namespace WarheadDiscord.Commands

open DiscordBot

def OWNER_ID : UInt64 := 365169287926906883

def WARHEAD_GUILD_ID : Int64 := 572275951879192588

/-- The octets of a text. -/
def utf8 (s : String) : List UInt8 := s.toUTF8.data.toList

/-! ## The handlers -/

/-- A `slashcommand_t`. -/
structure SlashCommand where
  name : String
  options : List (List UInt8)
  guildID : Int64
  guildLocale : List UInt8
  userID : UInt64
  deriving DecidableEq, Repr

inductive Reply
  | message (content : List UInt8) (ephemeral : Bool)
  | embed (title description : List UInt8) (field : List UInt8 × List UInt8) (footer : List UInt8)
  deriving DecidableEq, Repr

/-- What a command does: the account that it inserts, or the key that it changes. -/
inductive Effect
  | none
  | insert (account : InsAccount)
  | update (logon : UpdLogon)
  deriving DecidableEq, Repr

/-- The random values of a command: what `GetRandomKey` returned, and the salt. -/
structure Drawn where
  key : List UInt8
  salt : Vector UInt8 32

/-- The embed with a new key. -/
def keyEmbed (cmd : SlashCommand) (title description key : List UInt8) : Reply :=
  .embed title description (utf8 "Ваш ключ. Сохраните его!", utf8 "`" ++ key ++ utf8 "`")
    (utf8 "Guild ID: " ++ utf8 (toString cmd.guildID.toInt) ++ utf8 ". Guild locale: " ++
      cmd.guildLocale)

def createError (accountName : List UInt8) : AccountResponceResult → List UInt8
  | .longName =>
      utf8 "Имя аккаунта слишком большое. Максимальная длина `" ++
        utf8 (toString MAX_ACCOUNT_STR) ++ utf8 "`. Вы использовали `" ++
        utf8 (toString accountName.length) ++ utf8 "`"
  | .nameAlreadyExist => utf8 "Аккаунт `" ++ accountName ++ utf8 "` уже существует"
  | _ => utf8 "Неизвестная ошибка"

/-- The handler of `account-create`. -/
def accountCreate (srp6 : Srp6) (bot : DiscordBot) (accounts : Accounts) (drawn : Drawn)
    (cmd : SlashCommand) : Effect × Option Reply :=
  match cmd.options with
  | [] => (.none, none)
  | accountName :: _ =>
      if cmd.guildID = WARHEAD_GUILD_ID ∧ cmd.userID ≠ OWNER_ID then
        (.none, some (.message (utf8 ("Вы не можете создать аккаунт в этой гильдии, " ++
          "пригласите бота на свой сервер и создайте аккаунт там")) true))
      else if bot.hasClient cmd.guildID ∧ cmd.userID ≠ OWNER_ID then
        (.none, some (.message (utf8 "Эмм, вы уже создали аккаунт для этой гильдии") true))
      else
        match createAccount srp6 accounts drawn.salt accountName drawn.key cmd.guildID.toInt [] with
        | (.ok, some account) =>
            (.insert account, some (keyEmbed cmd (utf8 "Создание аккаунта для Warhead Discord")
              (utf8 "Вы успешно создали аккаунт: `" ++ accountName ++ utf8 "`") drawn.key))
        | (result, _) =>
            (.none, some (.message (utf8 "Ошибка при создании аккаунта. " ++
              createError accountName result) true))

def changeError (accountName : List UInt8) : AccountResponceResult → List UInt8
  | .longKey => utf8 "Ошибка при создании нового пароля"
  | .nameNotExist => utf8 "Аккаунт `" ++ accountName ++ utf8 "` не найден"
  | _ => utf8 "Неизвестная ошибка"

/-- The handler of `account-key-generate`. -/
def accountKeyGenerate (srp6 : Srp6) (_ : DiscordBot) (accounts : Accounts) (drawn : Drawn)
    (cmd : SlashCommand) : Effect × Option Reply :=
  match cmd.options with
  | [] => (.none, none)
  | accountName :: _ =>
      if cmd.userID ≠ OWNER_ID then
        (.none, some (.message (utf8 "Что ты хотел сделать? Ахаха") false))
      else
        match changeKey srp6 accounts drawn.salt accountName drawn.key with
        | (.ok, some logon) =>
            (.update logon, some (keyEmbed cmd (utf8 "Смена ключа для Warhead Discord")
              (utf8 "Вы успешно изменили ключ для аккаунта: `" ++ accountName ++ utf8 "`")
              drawn.key))
        | (result, _) =>
            (.none, some (.message (utf8 "Ошибка при генерации нового ключа для аккаунта. " ++
              changeError accountName result) false))

/-- A command, with the number of its required options, and its handler. -/
structure Command where
  name : String
  required : ℕ
  invoke : Srp6 → DiscordBot → Accounts → Drawn → SlashCommand → Effect × Option Reply

/-- The calls of `AddCommand` in `ConfigureCommands`. -/
def commands : List Command :=
  [⟨"account-create", 2, accountCreate⟩, ⟨"account-key-generate", 1, accountKeyGenerate⟩]

/-- `AddCommand` asserts that no name is given twice. -/
theorem nodup_commands : (commands.map Command.name).Nodup := by decide

def tryExecuteCommand (srp6 : Srp6) (bot : DiscordBot) (accounts : Accounts) (drawn : Drawn)
    (cmd : SlashCommand) : Effect × Option Reply :=
  match commands.find? fun command => command.name = cmd.name with
  | none => (.none, none)
  | some command => command.invoke srp6 bot accounts drawn cmd

/-! ## The server and Discord -/

structure World where
  /-- `clients` when the process started. -/
  table : List ClientRow
  bot : DiscordBot
  /-- `CheckClients` was called. -/
  checked : Bool
  accounts : Accounts
  /-- The guilds that the bot is in. -/
  guilds : Finset Int64
  /-- The guilds that have the commands. -/
  registered : Finset Int64
  /-- What the commands did, and for whom. -/
  effects : List (UInt64 × Effect)

inductive Label
  /-- The bot gets into a guild, or out of one, and the hook is called. -/
  | guild (e : DiscordBot.Event)
  /-- `CheckClients`, with the guilds that dpp returns. -/
  | check (now : ℤ) (guilds : List Guild) (saveClientIds : List Int64)
  | slash (cmd : SlashCommand) (drawn : Drawn)
  /-- The callback of `CreateAccount`. -/
  | addAccountInfo (info : DiscordAccountInfo)
  /-- The process ends with only these of its statements executed, and another one starts. -/
  | restart (executed : List ClientStatement) (accounts : Accounts)

namespace World

/-- `CreateCommands` in the hook, by way of `AddClient`; and what Discord does when the bot
leaves. -/
def register (bot : DiscordBot) (e : DiscordBot.Event) (registered : Finset Int64) :
    Finset Int64 :=
  match e.change with
  | .created guild =>
      if bot.hooked ∧ ¬ bot.hasClient guild.id ∧ ¬ e.isCancelled then insert guild.id registered
      else registered
  | .deleted guildID => registered.erase guildID

/-- The next process. -/
def restart (s : World) (executed : List ClientStatement) (accounts : Accounts) : World :=
  { s with
    table := executeAll s.table executed
    bot := loadClients (executeAll s.table executed)
    checked := false
    accounts := accounts }

/-- `none` for what cannot happen. -/
def next (srp6 : Srp6) (s : World) : Label → Option World
  | .guild e => some
      { s with
        bot := s.bot.handle e
        guilds := e.change.apply s.guilds
        registered := register s.bot e s.registered }
  | .check now guilds saveClientIds =>
      if s.checked = false ∧ (guilds.map fun g => g.id).Nodup ∧ guildKeys guilds = s.guilds ∧
          saveClientIds.Perm (keys s.bot.guilds) then some
        { s with
          bot := s.bot.checkClients now guilds saveClientIds
          checked := true
          -- both branches of its loop call `CreateCommands`
          registered := s.registered ∪ guildKeys guilds }
      else none
  | .slash cmd drawn =>
      if cmd.guildID ∈ s.registered ∧
          ∀ command ∈ commands, command.name = cmd.name → cmd.options.length = command.required
      then some
        { s with
          effects := s.effects ++
            [(cmd.userID, (tryExecuteCommand srp6 s.bot s.accounts drawn cmd).1)] }
      else none
  | .addAccountInfo info => some { s with accounts := s.accounts.addAccountInfo info }
  | .restart executed accounts =>
      if executed.Sublist s.bot.issued then some (s.restart executed accounts) else none

/-- A new installation: no clients, and no guild has the commands. -/
def start (guilds : Finset Int64) (accounts : Accounts) : World where
  table := []
  bot := loadClients []
  checked := false
  accounts := accounts
  guilds := guilds
  registered := ∅
  effects := []

/-! ## The cache has the guilds with the commands -/

/-- The commands are a part of the cache, and the cache is in the table. -/
structure Inv (s : World) : Prop where
  subset : s.registered ⊆ s.guilds
  cached : ∀ guildID ∈ s.registered, s.bot.hasClient guildID = true
  mirrors : Mirrors s.table s.bot
  loaded : s.checked = false → s.bot = loadClients s.table
  owner : ∀ e ∈ s.effects, e.2 ≠ .none → e.1 = OWNER_ID

theorem inv_start (guilds : Finset Int64) (accounts : Accounts) : Inv (start guilds accounts) where
  subset := Finset.empty_subset _
  cached := by simp [start]
  mirrors := mirrors_loadClients []
  loaded := fun _ => rfl
  owner := by simp [start]

variable {s t : World} {bot : DiscordBot} {e : DiscordBot.Event} {table : List ClientRow}

theorem mirrors_handle (h : Mirrors table bot) : Mirrors table (bot.handle e) := by
  unfold handle
  split
  · cases e.change with
    | created guild =>
        dsimp only
        split_ifs with hhas hcancelled
        · exact h
        · exact h
        · exact (updates_addClient (by simpa using hhas) false).mirrors table h
    | deleted guildID =>
        dsimp only
        split_ifs with hhas hcancelled
        · exact h
        · exact h
        · exact (updates_deleteClient (by simpa using hhas)).mirrors table h
  · exact h

/-- What the hook puts in the commands, it puts in the cache; what it takes from the cache is a
guild that the bot has left. -/
theorem cached_register {registered : Finset Int64}
    (h : ∀ guildID ∈ registered, bot.hasClient guildID = true) :
    ∀ guildID ∈ register bot e registered, (bot.handle e).hasClient guildID = true := by
  intro guildID hmem
  unfold register at hmem
  unfold handle
  cases hchange : e.change with
  | created guild =>
      simp only [hchange] at hmem
      dsimp only
      by_cases hadds : bot.hooked ∧ ¬ bot.hasClient guild.id ∧ ¬ e.isCancelled
      · obtain ⟨hhooked, hhas, hcancelled⟩ := hadds
        rw [if_pos ⟨hhooked, hhas, hcancelled⟩, Finset.mem_insert] at hmem
        rw [if_pos hhooked, if_neg hhas, if_neg hcancelled, hasClient_addClient]
        exact hmem.symm.imp_left (h guildID)
      · rw [if_neg hadds] at hmem
        split_ifs with hhooked hhas hcancelled
        · exact h guildID hmem
        · exact h guildID hmem
        · exact absurd ⟨hhooked, hhas, hcancelled⟩ hadds
        · exact h guildID hmem
  | deleted guildID' =>
      simp only [hchange, Finset.mem_erase] at hmem
      have hhas := h guildID hmem.2
      dsimp only
      split_ifs
      all_goals first
        | exact hhas
        | exact hasClient_deleteClient.mpr ⟨hhas, hmem.1⟩

theorem register_subset {guilds registered : Finset Int64} (h : registered ⊆ guilds) :
    register bot e registered ⊆ e.change.apply guilds := by
  unfold register
  cases e.change with
  | created guild =>
      dsimp only [Change.apply]
      split_ifs
      · exact Finset.insert_subset_insert _ h
      · exact h.trans (Finset.subset_insert _ _)
  | deleted guildID => exact Finset.erase_subset_erase _ h

/-- With the guilds of the bot, `CheckClients` makes the cache and the table what they are. -/
theorem follows_checkClients_all (now : ℤ) {guilds : List Guild} {saveClientIds : List Int64}
    (hguilds : (guilds.map fun g => g.id).Nodup)
    (hsave : saveClientIds.Perm (keys (loadClients table).guilds)) :
    Follows table (tableKeys table) (guildKeys guilds) (loadClients table)
      ((loadClients table).checkClients now guilds saveClientIds) := by
  by_cases hne : guilds = []
  · subst hne
    exact follows_deleteAllClients
  · exact follows_checkClients now hne hguilds hsave

/-! ## Nobody but the owner -/

/-- A command of somebody else does nothing where the cache has its guild. -/
theorem tryExecuteCommand_eq_none (srp6 : Srp6) (accounts : Accounts) (drawn : Drawn)
    {cmd : SlashCommand} (hcached : bot.hasClient cmd.guildID = true)
    (howner : cmd.userID ≠ OWNER_ID) :
    (tryExecuteCommand srp6 bot accounts drawn cmd).1 = .none := by
  unfold tryExecuteCommand
  cases hfind : commands.find? fun command => command.name = cmd.name with
  | none => rfl
  | some command =>
      have hmem := List.mem_of_find?_eq_some hfind
      simp only [commands, List.mem_cons, List.not_mem_nil, or_false] at hmem
      rcases hmem with rfl | rfl
      · simp only [accountCreate]
        split
        · rfl
        · simp only [hcached, howner, ne_eq, not_false_eq_true, and_true, and_self, if_true]
          split_ifs <;> rfl
      · simp only [accountKeyGenerate]
        split
        · rfl
        · simp [howner]

/-- A restart keeps the rows of the guilds that have the commands. -/
def KeepsClients (s : World) : Label → Prop
  | .restart executed _ => s.registered ⊆ tableKeys (executeAll s.table executed)
  | _ => True

/-- A process that loses no statement keeps them. -/
theorem Inv.keepsClients (h : Inv s) (accounts : Accounts) :
    KeepsClients s (.restart s.bot.issued accounts) :=
  fun guildID hmem => (h.mirrors guildID).mpr (h.cached guildID hmem)

theorem inv_next {srp6 : Srp6} {l : Label} (h : Inv s) (hkeeps : KeepsClients s l)
    (hnext : s.next srp6 l = some t) : Inv t := by
  cases l with
  | guild e =>
      cases hnext
      refine ⟨register_subset h.subset, cached_register h.cached, mirrors_handle h.mirrors,
        fun hchecked => ?_, h.owner⟩
      have hloaded := h.loaded hchecked
      have hhooked : s.bot.hooked = false := by rw [hloaded]; rfl
      change s.bot.handle e = _
      rw [handle, hhooked]
      exact hloaded
  | check now guilds saveClientIds =>
      simp only [next, Option.ite_none_right_eq_some, Option.some.injEq] at hnext
      obtain ⟨⟨hchecked, hguilds, hkeys, hsave⟩, rfl⟩ := hnext
      have hloaded := h.loaded hchecked
      have hfollows : Follows s.table (tableKeys s.table) (guildKeys guilds) s.bot
          (s.bot.checkClients now guilds saveClientIds) := by
        rw [hloaded] at hsave ⊢
        exact follows_checkClients_all now hguilds hsave
      refine ⟨?_, fun guildID hmem => ?_, hfollows.mirrors, ?_, h.owner⟩
      · rw [hkeys]
        exact Finset.union_subset h.subset (Finset.Subset.refl _)
      · refine (hfollows.cached guildID).mpr ?_
        rcases Finset.mem_union.mp hmem with hmem | hmem
        · rw [hkeys]
          exact h.subset hmem
        · exact hmem
      · intro hfalse
        cases hfalse
  | slash cmd drawn =>
      simp only [next, Option.ite_none_right_eq_some, Option.some.injEq] at hnext
      obtain ⟨⟨hregistered, -⟩, rfl⟩ := hnext
      refine ⟨h.subset, h.cached, h.mirrors, h.loaded, fun e hmem hne => ?_⟩
      rcases List.mem_append.mp hmem with hmem | hmem
      · exact h.owner e hmem hne
      · rw [List.mem_singleton] at hmem
        subst hmem
        by_contra hother
        exact hne (tryExecuteCommand_eq_none srp6 s.accounts drawn
          (h.cached cmd.guildID hregistered) hother)
  | addAccountInfo info =>
      cases hnext
      exact ⟨h.subset, h.cached, h.mirrors, h.loaded, h.owner⟩
  | restart executed accounts =>
      simp only [next, Option.ite_none_right_eq_some, Option.some.injEq] at hnext
      obtain ⟨-, rfl⟩ := hnext
      refine ⟨h.subset, ?_, mirrors_loadClients _, fun _ => rfl, h.owner⟩
      -- the next process finds in the table what this one had in the cache
      exact fun guildID hmem => hasClient_loadClients.mpr (hkeeps hmem)

/-- A member of a guild, who wants an account. -/
def member : SlashCommand := ⟨"account-create", [[0x42, 0x4f, 0x42], [0x57]], 7, [0x72, 0x75], 1⟩

/-- The server when it has checked its guild. -/
def ready : World where
  table := []
  bot := (loadClients []).checkClients 100 [⟨7, "guild", 3⟩] []
  checked := true
  accounts := ⟨[], List.nodup_nil⟩
  guilds := {7}
  registered := ∅ ∪ guildKeys [⟨7, "guild", 3⟩]
  effects := []

/-- **A row that is lost opens the command**: the next process can be asked for an account by
anybody in the guild. -/
theorem exists_insert_of_lost (srp6 : Srp6) {executed : List ClientStatement} {guildID : Int64}
    (hexecuted : executed.Sublist s.bot.issued) (hregistered : guildID ∈ s.registered)
    (hlost : guildID ∉ tableKeys (executeAll s.table executed))
    (hguild : guildID ≠ WARHEAD_GUILD_ID) (salt : Vector UInt8 32) :
    ∃ ls t account, Machine.run (next srp6) s (.restart executed ⟨[], List.nodup_nil⟩ :: ls) =
      some t ∧ (member.userID, .insert account) ∈ t.effects := by
  have hcached : (loadClients (executeAll s.table executed)).hasClient guildID = false := by
    rw [← Bool.not_eq_true, hasClient_loadClients]
    exact hlost
  obtain ⟨account, hcreate⟩ : ∃ account, createAccount srp6 ⟨[], List.nodup_nil⟩ salt
      [0x42, 0x4f, 0x42] [0x4b] guildID.toInt [] = (.ok, some account) :=
    createAccount_of_getID_eq_zero ((utf8length_le _).trans (by decide))
      ((utf8length_le _).trans (by decide)) rfl
  have hexecute : (tryExecuteCommand srp6 (loadClients (executeAll s.table executed))
      ⟨[], List.nodup_nil⟩ ⟨[0x4b], salt⟩ { member with guildID := guildID }).1 =
        .insert account := by
    change (accountCreate _ _ _ _ _).1 = _
    simp only [accountCreate, member, hguild, hcached, false_and, if_false, Bool.false_eq_true]
    rw [hcreate]
  have hoptions : ∀ command ∈ commands, command.name = member.name →
      member.options.length = command.required := by
    decide
  refine ⟨[.slash { member with guildID := guildID } ⟨[0x4b], salt⟩],
    { s.restart executed ⟨[], List.nodup_nil⟩ with
      effects := s.effects ++ [(member.userID, .insert account)] }, account, ?_, by simp⟩
  rw [Machine.run_cons, next, if_pos hexecuted, Option.bind_some, Machine.run_cons, next,
    if_pos ⟨hregistered, hoptions⟩, ← hexecute]
  rfl

end World

end WarheadDiscord.Commands
