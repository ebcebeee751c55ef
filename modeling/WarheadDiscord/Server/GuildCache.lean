import Mathlib.Data.Finset.Basic
import Mathlib.Data.Finset.Lattice.Lemmas
import Mathlib.Data.List.Perm.Basic
import Mathlib.Tactic.Common

/-!
# The guilds of the bot

`DiscordBot` caches the guilds that the bot is in, and the table `clients` has the same
guilds.  `LoadClients` fills the cache from the table.  `CheckClients` compares it with the
guilds that the bot is in now, and then registers hooks by which later changes come in.
Every change of the cache issues a statement for the table.

If the bot is in no guild, `CheckClients` deletes everything and returns, and it never
registers the hooks.  A guild that the bot is invited to later does not get into the cache
then; in all other cases the cache follows the guilds (`follows_iff`).

Messages to the log channels and the registration of commands leave the cache and the table
alone.  The order in which an unordered map is iterated is a parameter.

## Main definitions

* `DiscordBot.loadClients`, `checkClients`, `handle` — the code, for one event.
* `DiscordBot.execute` — what the statements do to the table.
* `DiscordBot.Follows`, `FollowsAll` — what is expected of one change, and of all of them.
-/

namespace WarheadDiscord

/-- An entry of `_guilds`. -/
structure DiscordClients where
  guildID : Int64
  guildName : String
  membersCount : UInt32
  inviteDate : ℤ
  deriving DecidableEq, Repr

/-- A row of `clients`. -/
structure ClientRow extends DiscordClients where
  addedAtStartup : Bool
  deriving DecidableEq, Repr

/-- What dpp tells of a guild. -/
structure Guild where
  id : Int64
  name : String
  memberCount : UInt32
  deriving DecidableEq, Repr

/-- A statement for `clients`. -/
inductive ClientStatement
  /-- `DISCORD_INS_CLIENT` -/
  | insert (row : ClientRow)
  | delete (guildID : Int64)
  | truncate
  deriving DecidableEq, Repr

/-- The part of the bot that has to do with guilds. -/
structure DiscordBot where
  guilds : List DiscordClients
  /-- The statements issued so far. -/
  issued : List ClientStatement
  /-- `ConfigureGuildInviteHooks` was called. -/
  hooked : Bool
  deriving DecidableEq, Repr

namespace DiscordBot

/-- The keys of `_guilds`. -/
def keys (guilds : List DiscordClients) : List Int64 := guilds.map fun c => c.guildID

/-- `emplace`, which does nothing if the key is there. -/
def emplace (guilds : List DiscordClients) (client : DiscordClients) : List DiscordClients :=
  if client.guildID ∈ keys guilds then guilds else guilds ++ [client]

def hasClient (b : DiscordBot) (guildID : Int64) : Bool :=
  guildID ∈ keys b.guilds

def getClient (b : DiscordBot) (guildID : Int64) : Option DiscordClients :=
  b.guilds.find? fun c => c.guildID = guildID

def addClient (b : DiscordBot) (client : DiscordClients) (atStartup : Bool) : DiscordBot :=
  if b.hasClient client.guildID then b
  else
    { b with
      guilds := emplace b.guilds client, issued := b.issued ++ [.insert ⟨client, atStartup⟩] }

def deleteClient (b : DiscordBot) (guildID : Int64) : DiscordBot :=
  if !b.hasClient guildID then b
  else
    { b with
      guilds := b.guilds.filter fun c => c.guildID ≠ guildID
      issued := b.issued ++ [.delete guildID] }

def deleteAllClients (b : DiscordBot) : DiscordBot :=
  { b with guilds := [], issued := b.issued ++ [.truncate] }

def loadClients (table : List ClientRow) : DiscordBot where
  guilds := table.foldl (fun guilds row => emplace guilds row.toDiscordClients) []
  issued := []
  hooked := false

/-- The loop of `CheckClients` over the guilds of the bot: the bot, and the clients that were
not found. -/
def checkGuilds (now : ℤ) : List Guild → DiscordBot → List Int64 → DiscordBot × List Int64
  | [], b, saveClientIds => (b, saveClientIds)
  | g :: guilds, b, saveClientIds =>
      if b.hasClient g.id then checkGuilds now guilds b (saveClientIds.filter fun id => id ≠ g.id)
      else
        checkGuilds now guilds (b.addClient ⟨g.id, g.name, g.memberCount, now⟩ true) saveClientIds

/-- The loop of `CheckClients` over the clients that are left. -/
def deleteClients : List Int64 → DiscordBot → DiscordBot
  | [], b => b
  | guildID :: saveClientIds, b =>
      match b.getClient guildID with
      | none => deleteClients saveClientIds b
      | some _ => deleteClients saveClientIds (b.deleteClient guildID)

/-- `CheckClients`, for the guilds that dpp returns.  `saveClientIds` are the keys of the
cache, in the order of the map. -/
def checkClients (now : ℤ) (guilds : List Guild) (saveClientIds : List Int64) (b : DiscordBot) :
    DiscordBot :=
  if guilds.isEmpty then b.deleteAllClients
  else
    match checkGuilds now guilds b saveClientIds with
    | (b, saveClientIds) => { deleteClients saveClientIds b with hooked := true }

/-- What happens to the bot on Discord. -/
inductive Change
  | created (guild : Guild)
  | deleted (guildID : Int64)
  deriving DecidableEq, Repr

/-- A `guild_create_t` or a `guild_delete_t`. -/
structure Event where
  change : Change
  isCancelled : Bool
  now : ℤ
  deriving DecidableEq, Repr

/-- The hooks of `ConfigureGuildInviteHooks`. -/
def handle (b : DiscordBot) (e : Event) : DiscordBot :=
  if b.hooked then
    match e.change with
    | .created guild =>
        if b.hasClient guild.id then b
        else if e.isCancelled then b
        else b.addClient ⟨guild.id, guild.name, guild.memberCount, e.now⟩ false
    | .deleted guildID =>
        if !b.hasClient guildID then b
        else if e.isCancelled then b
        else b.deleteClient guildID
  else b

/-! ## The table and the guilds -/

/-- `GuildID` is the primary key. -/
def execute (table : List ClientRow) : ClientStatement → List ClientRow
  | .insert row =>
      if table.any fun r => r.guildID = row.guildID then table else table ++ [row]
  | .delete guildID => table.filter fun r => r.guildID ≠ guildID
  | .truncate => []

def executeAll (table : List ClientRow) (statements : List ClientStatement) : List ClientRow :=
  statements.foldl execute table

/-- The keys of the table. -/
def tableKeys (table : List ClientRow) : Finset Int64 :=
  (table.map fun r => r.guildID).toFinset

/-- The guilds that the bot is in after a change. -/
def Change.apply (guilds : Finset Int64) : Change → Finset Int64
  | .created guild => insert guild.id guilds
  | .deleted guildID => guilds.erase guildID

/-- The statement inserts the guild. -/
def inserts (guildID : Int64) : ClientStatement → Bool
  | .insert row => row.guildID = guildID
  | _ => false

/-- The statement deletes the guild; `TRUNCATE` deletes all the guilds that were there. -/
def deletes (before : Finset Int64) (guildID : Int64) : ClientStatement → Bool
  | .delete guildID' => guildID' = guildID
  | .truncate => guildID ∈ before
  | .insert _ => false

/-- From a bot that was in the guilds `before` to one that is in `after`: the cache has the
keys of the latter, there is one statement for each guild that was added or removed, and
after all statements the table has the same keys. -/
structure Follows (table : List ClientRow) (before after : Finset Int64) (b b' : DiscordBot) :
    Prop where
  cached : ∀ guildID, b'.hasClient guildID ↔ guildID ∈ after
  issued : ∃ statements, b'.issued = b.issued ++ statements ∧
    (∀ guildID, statements.countP (inserts guildID) =
      if guildID ∈ after ∧ guildID ∉ before then 1 else 0) ∧
    ∀ guildID, statements.countP (deletes before guildID) =
      if guildID ∈ before ∧ guildID ∉ after then 1 else 0
  stored : tableKeys (executeAll table b'.issued) = after

variable {b b' : DiscordBot} {table : List ClientRow} {guildID : Int64}

theorem mem_keys_emplace {guilds : List DiscordClients} {client : DiscordClients} :
    guildID ∈ keys (emplace guilds client) ↔ guildID ∈ keys guilds ∨ guildID = client.guildID := by
  unfold emplace
  split
  · rename_i hmem
    refine ⟨.inl, ?_⟩
    rintro (h | rfl)
    · exact h
    · exact hmem
  · simp [keys]

theorem nodup_keys_emplace {guilds : List DiscordClients} (h : (keys guilds).Nodup)
    (client : DiscordClients) : (keys (emplace guilds client)).Nodup := by
  unfold emplace
  split
  · exact h
  · rename_i hmem
    rw [keys, List.map_append, List.map_singleton, ← List.concat_eq_append]
    exact h.concat hmem

theorem hasClient_iff : b.hasClient guildID ↔ guildID ∈ keys b.guilds := by
  simp [hasClient]

theorem hasClient_addClient {client : DiscordClients} {atStartup : Bool} :
    (b.addClient client atStartup).hasClient guildID ↔
      b.hasClient guildID ∨ guildID = client.guildID := by
  unfold addClient
  split
  · rename_i hhas
    refine ⟨.inl, ?_⟩
    rintro (h | rfl)
    · exact h
    · exact hhas
  · rw [hasClient_iff, hasClient_iff, mem_keys_emplace]

/-- For the other guilds, nothing has changed. -/
theorem hasClient_addClient_of_ne {client : DiscordClients} {atStartup : Bool}
    (h : guildID ≠ client.guildID) :
    (b.addClient client atStartup).hasClient guildID = b.hasClient guildID := by
  rw [Bool.eq_iff_iff, hasClient_addClient, or_iff_left h]

theorem hasClient_deleteClient {guildID' : Int64} :
    (b.deleteClient guildID').hasClient guildID ↔ b.hasClient guildID ∧ guildID ≠ guildID' := by
  unfold deleteClient
  split
  · rename_i hhas
    refine ⟨fun h => ⟨h, ?_⟩, And.left⟩
    rintro rfl
    simp [h] at hhas
  · simp only [hasClient_iff, keys, List.mem_map, List.mem_filter, decide_eq_true_eq]
    constructor
    · rintro ⟨c, ⟨hc, hne⟩, rfl⟩
      exact ⟨⟨c, hc, rfl⟩, hne⟩
    · rintro ⟨⟨c, hc, rfl⟩, hne⟩
      exact ⟨c, ⟨hc, hne⟩, rfl⟩

theorem isSome_getClient : (b.getClient guildID).isSome ↔ b.hasClient guildID := by
  simp [getClient, hasClient, keys]

/-! ## The table -/

theorem mem_tableKeys : guildID ∈ tableKeys table ↔ ∃ r ∈ table, r.guildID = guildID := by
  simp [tableKeys]

theorem mem_tableKeys_execute_insert {row : ClientRow} :
    guildID ∈ tableKeys (execute table (.insert row)) ↔
      guildID ∈ tableKeys table ∨ guildID = row.guildID := by
  simp only [execute]
  split
  · rename_i hany
    refine ⟨.inl, ?_⟩
    rintro (h | rfl)
    · exact h
    · simpa [mem_tableKeys] using hany
  · simp [tableKeys, or_comm]

theorem mem_tableKeys_execute_delete {guildID' : Int64} :
    guildID ∈ tableKeys (execute table (.delete guildID')) ↔
      guildID ∈ tableKeys table ∧ guildID ≠ guildID' := by
  simp only [mem_tableKeys, execute, List.mem_filter, decide_eq_true_eq]
  constructor
  · rintro ⟨r, ⟨hr, hne⟩, rfl⟩
    exact ⟨⟨r, hr, rfl⟩, hne⟩
  · rintro ⟨⟨r, hr, rfl⟩, hne⟩
    exact ⟨r, ⟨hr, hne⟩, rfl⟩

theorem executeAll_concat (statements : List ClientStatement) (statement : ClientStatement) :
    executeAll table (statements ++ [statement]) =
      execute (executeAll table statements) statement := by
  simp [executeAll]

/-- After its statements the table has the keys of the cache. -/
def Mirrors (table : List ClientRow) (b : DiscordBot) : Prop :=
  ∀ guildID, guildID ∈ tableKeys (executeAll table b.issued) ↔ b.hasClient guildID

/-! ## What the code does to the cache -/

/-- Some guilds are added and some are removed, with one statement for each of them. -/
structure Updates (b b' : DiscordBot) (added removed : Finset Int64) : Prop where
  hasClient : ∀ guildID,
    b'.hasClient guildID ↔ (b.hasClient guildID ∨ guildID ∈ added) ∧ guildID ∉ removed
  issued : ∃ statements, b'.issued = b.issued ++ statements ∧
    (∀ guildID, statements.countP (inserts guildID) = if guildID ∈ added then 1 else 0) ∧
    ∀ before guildID, statements.countP (deletes before guildID) =
      if guildID ∈ removed then 1 else 0
  mirrors : ∀ table, Mirrors table b → Mirrors table b'
  hooked : b'.hooked = b.hooked

theorem Updates.refl (b : DiscordBot) : Updates b b ∅ ∅ where
  hasClient := by simp
  issued := ⟨[], by simp⟩
  mirrors := fun _ h => h
  hooked := rfl

theorem Updates.trans {b₁ : DiscordBot} {added added' removed removed' : Finset Int64}
    (h : Updates b b₁ added removed) (h' : Updates b₁ b' added' removed')
    (hadded : Disjoint added added') (hremoved : Disjoint removed removed')
    (hagain : Disjoint removed added') :
    Updates b b' (added ∪ added') (removed ∪ removed') where
  hasClient := by
    intro guildID
    have hnot : guildID ∈ added' → guildID ∉ removed :=
      fun hmem hmem' => Finset.disjoint_left.mp hagain hmem' hmem
    rw [h'.hasClient, h.hasClient, Finset.mem_union, Finset.mem_union]
    tauto
  issued := by
    obtain ⟨statements, hissued, hinserts, hdeletes⟩ := h.issued
    obtain ⟨statements', hissued', hinserts', hdeletes'⟩ := h'.issued
    refine ⟨statements ++ statements', ?_, ?_, ?_⟩
    · rw [hissued', hissued, List.append_assoc]
    · intro guildID
      have hnot : guildID ∈ added → guildID ∉ added' :=
        fun hmem => Finset.disjoint_left.mp hadded hmem
      rw [List.countP_append, hinserts, hinserts']
      grind
    · intro before guildID
      have hnot : guildID ∈ removed → guildID ∉ removed' :=
        fun hmem => Finset.disjoint_left.mp hremoved hmem
      rw [List.countP_append, hdeletes, hdeletes']
      grind
  mirrors := fun table hb => h'.mirrors table (h.mirrors table hb)
  hooked := h'.hooked.trans h.hooked

theorem updates_addClient {client : DiscordClients} (h : b.hasClient client.guildID = false)
    (atStartup : Bool) : Updates b (b.addClient client atStartup) {client.guildID} ∅ := by
  have hissued : (b.addClient client atStartup).issued =
      b.issued ++ [.insert ⟨client, atStartup⟩] := by simp [addClient, h]
  refine ⟨?_, ⟨_, hissued, ?_, ?_⟩, ?_, ?_⟩
  · intro guildID
    rw [hasClient_addClient]
    simp
  · intro guildID
    simp [List.countP_cons, inserts, eq_comm]
  · simp [deletes]
  · intro table hb guildID
    rw [hissued, executeAll_concat, mem_tableKeys_execute_insert, hb guildID, hasClient_addClient]
  · simp [addClient, h]

theorem updates_deleteClient (h : b.hasClient guildID) :
    Updates b (b.deleteClient guildID) ∅ {guildID} := by
  have hissued : (b.deleteClient guildID).issued = b.issued ++ [.delete guildID] := by
    simp [deleteClient, h]
  refine ⟨?_, ⟨_, hissued, ?_, ?_⟩, ?_, ?_⟩
  · intro guildID'
    rw [hasClient_deleteClient]
    simp
  · simp [inserts]
  · intro before guildID'
    simp [List.countP_cons, deletes, eq_comm]
  · intro table hb guildID'
    rw [hissued, executeAll_concat, mem_tableKeys_execute_delete, hb guildID',
      hasClient_deleteClient]
  · simp [deleteClient, h]

theorem updates_deleteClients {saveClientIds : List Int64} (hnodup : saveClientIds.Nodup)
    (hhas : ∀ guildID ∈ saveClientIds, b.hasClient guildID) :
    Updates b (deleteClients saveClientIds b) ∅ saveClientIds.toFinset := by
  induction saveClientIds generalizing b with
  | nil => exact .refl b
  | cons guildID saveClientIds ih =>
      obtain ⟨hnot, hnodup⟩ := List.nodup_cons.mp hnodup
      obtain ⟨hguildID, hhas⟩ := List.forall_mem_cons.mp hhas
      obtain ⟨client, hclient⟩ := Option.isSome_iff_exists.mp (isSome_getClient.mpr hguildID)
      have hdelete : deleteClients (guildID :: saveClientIds) b =
          deleteClients saveClientIds (b.deleteClient guildID) := by
        simp only [deleteClients, hclient]
      have hrest : ∀ guildID' ∈ saveClientIds, (b.deleteClient guildID).hasClient guildID' := by
        intro guildID' hmem
        refine hasClient_deleteClient.mpr ⟨hhas guildID' hmem, ?_⟩
        rintro rfl
        exact hnot hmem
      rw [hdelete, List.toFinset_cons, Finset.insert_eq]
      refine (updates_deleteClient hguildID).trans (ih hnodup hrest) ?_ ?_ ?_
      · exact Finset.disjoint_empty_right _
      · simpa using hnot
      · exact Finset.disjoint_empty_right _

/-- The keys of some guilds. -/
def guildKeys (guilds : List Guild) : Finset Int64 := (guilds.map fun g => g.id).toFinset

theorem guildKeys_cons (g : Guild) (guilds : List Guild) :
    guildKeys (g :: guilds) = insert g.id (guildKeys guilds) := by simp [guildKeys]

theorem not_mem_guildKeys_of_nodup {g : Guild} {guilds : List Guild}
    (hnodup : ((g :: guilds).map fun g => g.id).Nodup) :
    g.id ∉ guildKeys guilds ∧ (guilds.map fun g => g.id).Nodup := by
  rw [List.map_cons, List.nodup_cons] at hnodup
  exact ⟨by simpa [guildKeys] using hnodup.1, hnodup.2⟩

/-- A guild that is added does not change what is known of the others. -/
theorem hasClient_addClient_of_mem {g : Guild} {guilds : List Guild}
    (hnot : g.id ∉ guildKeys guilds) (now : ℤ) (hmem : guildID ∈ guildKeys guilds) :
    (b.addClient ⟨g.id, g.name, g.memberCount, now⟩ true).hasClient guildID =
      b.hasClient guildID := by
  refine hasClient_addClient_of_ne ?_
  rintro rfl
  exact hnot hmem

/-- The loop adds the guilds that are not in the cache. -/
theorem updates_checkGuilds (now : ℤ) {guilds : List Guild}
    (hnodup : (guilds.map fun g => g.id).Nodup) (saveClientIds : List Int64) :
    Updates b (checkGuilds now guilds b saveClientIds).1
      ((guildKeys guilds).filter fun guildID => b.hasClient guildID = false) ∅ := by
  induction guilds generalizing b saveClientIds with
  | nil => exact .refl b
  | cons g guilds ih =>
      obtain ⟨hnot, hnodup⟩ := not_mem_guildKeys_of_nodup hnodup
      rw [guildKeys_cons, Finset.filter_insert]
      cases hhas : b.hasClient g.id with
      | true =>
          simp only [checkGuilds, hhas, if_true]
          rw [if_neg nofun]
          exact ih hnodup _
      | false =>
          have hadded : Updates b (b.addClient ⟨g.id, g.name, g.memberCount, now⟩ true) {g.id} ∅ :=
            updates_addClient hhas true
          have hupdates := ih (b := b.addClient ⟨g.id, g.name, g.memberCount, now⟩ true) hnodup
            saveClientIds
          have hfilter : (guildKeys guilds).filter (fun guildID =>
              (b.addClient ⟨g.id, g.name, g.memberCount, now⟩ true).hasClient guildID = false) =
              (guildKeys guilds).filter fun guildID => b.hasClient guildID = false := by
            refine Finset.filter_congr fun guildID hmem => ?_
            rw [hasClient_addClient_of_mem hnot now hmem]
          rw [hfilter] at hupdates
          simp only [checkGuilds, hhas, Bool.false_eq_true, if_false]
          rw [if_pos trivial, Finset.insert_eq, ← Finset.empty_union ∅]
          refine hadded.trans hupdates ?_ ?_ ?_
          · simpa using fun hmem => absurd hmem hnot
          · exact Finset.disjoint_empty_left _
          · exact Finset.disjoint_empty_left _

/-- The loop crosses out the guilds that are in the cache. -/
theorem snd_checkGuilds (now : ℤ) {guilds : List Guild}
    (hnodup : (guilds.map fun g => g.id).Nodup) (saveClientIds : List Int64) :
    (checkGuilds now guilds b saveClientIds).2 =
      saveClientIds.filter fun guildID =>
        ¬(guildID ∈ guildKeys guilds ∧ b.hasClient guildID) := by
  induction guilds generalizing b saveClientIds with
  | nil => simp [checkGuilds, guildKeys]
  | cons g guilds ih =>
      obtain ⟨hnot, hnodup⟩ := not_mem_guildKeys_of_nodup hnodup
      cases hhas : b.hasClient g.id with
      | true =>
          simp only [checkGuilds, hhas, if_true, guildKeys_cons]
          rw [ih hnodup, List.filter_filter]
          refine List.filter_congr fun guildID _ => ?_
          by_cases heq : guildID = g.id
          · simp [heq, hhas]
          · simp [heq]
      | false =>
          simp only [checkGuilds, hhas, Bool.false_eq_true, if_false, guildKeys_cons]
          rw [ih hnodup]
          refine List.filter_congr fun guildID _ => ?_
          by_cases heq : guildID = g.id
          · simp [heq, hhas, hnot]
          · by_cases hmem : guildID ∈ guildKeys guilds
            · simp [hmem, hasClient_addClient_of_mem hnot now hmem]
            · simp [heq, hmem]

/-! ## All changes -/

theorem follows_of_updates {before after : Finset Int64}
    (hbefore : ∀ guildID, b.hasClient guildID ↔ guildID ∈ before) (hmirrors : Mirrors table b)
    (h : Updates b b' (after \ before) (before \ after)) : Follows table before after b b' := by
  have hcached : ∀ guildID, b'.hasClient guildID ↔ guildID ∈ after := by
    intro guildID
    rw [h.hasClient, hbefore, Finset.mem_sdiff, Finset.mem_sdiff]
    tauto
  refine ⟨hcached, ?_, ?_⟩
  · obtain ⟨statements, hissued, hinserts, hdeletes⟩ := h.issued
    refine ⟨statements, hissued, ?_, ?_⟩
    · intro guildID
      simp only [hinserts, Finset.mem_sdiff]
    · intro guildID
      simp only [hdeletes, Finset.mem_sdiff]
  · ext guildID
    rw [h.mirrors table hmirrors guildID, hcached]

theorem nodup_loadClients (table : List ClientRow) : (keys (loadClients table).guilds).Nodup := by
  have hfold : ∀ guilds, (keys guilds).Nodup → (keys (table.foldl
      (fun guilds row => emplace guilds row.toDiscordClients) guilds)).Nodup := by
    induction table with
    | nil => exact fun guilds h => h
    | cons row table ih => exact fun guilds h => ih _ (nodup_keys_emplace h row.toDiscordClients)
  exact hfold [] List.nodup_nil

theorem hasClient_loadClients :
    (loadClients table).hasClient guildID ↔ guildID ∈ tableKeys table := by
  have hfold : ∀ guilds, guildID ∈ keys (table.foldl
      (fun guilds row => emplace guilds row.toDiscordClients) guilds) ↔
      guildID ∈ keys guilds ∨ guildID ∈ tableKeys table := by
    induction table with
    | nil => simp [tableKeys]
    | cons row table ih =>
        intro guilds
        rw [List.foldl_cons, ih, mem_keys_emplace, or_assoc]
        simp [tableKeys]
  rw [hasClient_iff, loadClients, hfold]
  simp [keys]

theorem mirrors_loadClients (table : List ClientRow) : Mirrors table (loadClients table) :=
  fun _ => hasClient_loadClients.symm

theorem checkClients_of_ne_nil {guilds : List Guild} (hne : guilds ≠ []) (now : ℤ)
    (saveClientIds : List Int64) (b : DiscordBot) :
    checkClients now guilds saveClientIds b =
      { deleteClients (checkGuilds now guilds b saveClientIds).2
          (checkGuilds now guilds b saveClientIds).1 with hooked := true } := by
  rw [checkClients, if_neg (by simpa using hne)]

/-- `CheckClients`, if the bot is in some guild. -/
theorem follows_checkClients (now : ℤ) {guilds : List Guild} {saveClientIds : List Int64}
    (hne : guilds ≠ []) (hguilds : (guilds.map fun g => g.id).Nodup)
    (hsave : saveClientIds.Perm (keys (loadClients table).guilds)) :
    Follows table (tableKeys table) (guildKeys guilds) (loadClients table)
      (checkClients now guilds saveClientIds (loadClients table)) := by
  have hadded := updates_checkGuilds (b := loadClients table) now hguilds saveClientIds
  have hrest := snd_checkGuilds (b := loadClients table) now hguilds saveClientIds
  have hsaved : ∀ guildID, guildID ∈ saveClientIds ↔ guildID ∈ tableKeys table := by
    intro guildID
    rw [hsave.mem_iff, ← hasClient_iff, hasClient_loadClients]
  have hremoved : Updates (checkGuilds now guilds (loadClients table) saveClientIds).1
      (deleteClients (checkGuilds now guilds (loadClients table) saveClientIds).2
        (checkGuilds now guilds (loadClients table) saveClientIds).1) ∅
      (checkGuilds now guilds (loadClients table) saveClientIds).2.toFinset := by
    refine updates_deleteClients ?_ ?_
    · rw [hrest]
      exact (hsave.nodup_iff.mpr (nodup_loadClients table)).filter _
    · intro guildID hmem
      rw [hrest, List.mem_filter, hsaved, ← hasClient_loadClients] at hmem
      rw [hadded.hasClient]
      exact ⟨.inl hmem.1, Finset.notMem_empty _⟩
  have hupdates := hadded.trans hremoved (Finset.disjoint_empty_right _)
    (Finset.disjoint_empty_left _) (Finset.disjoint_empty_left _)
  have hnew : (guildKeys guilds).filter
      (fun guildID => (loadClients table).hasClient guildID = false) ∪ ∅ =
      guildKeys guilds \ tableKeys table := by
    ext guildID
    rw [Finset.union_empty, Finset.mem_filter, Finset.mem_sdiff, ← hasClient_loadClients,
      Bool.not_eq_true]
  have hold : ∅ ∪ (checkGuilds now guilds (loadClients table) saveClientIds).2.toFinset =
      tableKeys table \ guildKeys guilds := by
    ext guildID
    simp only [Finset.empty_union, hrest, List.mem_toFinset, List.mem_filter, hsaved,
      hasClient_loadClients, Finset.mem_sdiff, decide_eq_true_eq]
    tauto
  rw [hnew, hold] at hupdates
  have hfollows := follows_of_updates (fun _ => hasClient_loadClients)
    (mirrors_loadClients table) hupdates
  rw [checkClients_of_ne_nil hne]
  exact ⟨hfollows.cached, hfollows.issued, hfollows.stored⟩

/-- `CheckClients`, if the bot is in no guild. -/
theorem follows_deleteAllClients :
    Follows table (tableKeys table) ∅ (loadClients table) (loadClients table).deleteAllClients where
  cached := by simp [hasClient, deleteAllClients, keys]
  issued := by
    refine ⟨[.truncate], rfl, ?_, ?_⟩
    · simp [inserts]
    · simp [deletes, List.countP_cons]
  stored := by
    rw [deleteAllClients, executeAll_concat]
    rfl

theorem Follows.mirrors {before after : Finset Int64} (h : Follows table before after b b') :
    Mirrors table b' := by
  intro guildID
  rw [h.stored, h.cached]

end DiscordBot
end WarheadDiscord
