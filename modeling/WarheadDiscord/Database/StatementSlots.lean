import WarheadDiscord.Account.BanExpiry
import WarheadDiscord.Database.StatementRuns

/-!
# `PrepareStatement`, seen from three sides

`m_stmts` holds a prepared statement for each index.  What a statement is depends on the question:
for a reconnect it is the handle it was prepared on, for the bans its text, and for a run of
statements its parameters.  So there are three connections with three functions
`PrepareStatement`, which do the same to the slots: they fill or empty the one of the index, or note
that the server could not prepare the statement.

`StatementSlots` is what they share, and each of the three is mapped to it
(`map_slots_prepareStatement`, once for each).  Over all of `DoPrepareStatements` they fill the same
slots (`map_slots_doPrepareStatements`, `slots_prepareStatements`).

## Main definitions

* `StatementSlots`, `StatementSlots.prepare` — which slots are filled.
* `slots` — of each of the three connections.
-/

namespace WarheadDiscord

/-- Which slots of `m_stmts` are filled. -/
structure StatementSlots where
  flags : ConnectionFlags
  filled : List Bool
  prepareError : Bool
  deriving DecidableEq, Repr

namespace StatementSlots

def set (s : StatementSlots) (index : ℕ) (fill : Bool) : Option StatementSlots :=
  if index < s.filled.length then some { s with filled := s.filled.set index fill } else none

def prepare (s : StatementSlots) (index : ℕ) (flags : ConnectionFlags) (prepared : Bool) :
    Option StatementSlots :=
  if s.flags.meets flags then
    if prepared then s.set index true else some { s with prepareError := true }
  else s.set index false

def prepareAll : List (ℕ × ConnectionFlags) → (ℕ → Bool) → StatementSlots → Option StatementSlots
  | [], _, s => some s
  | e :: table, prepares, s =>
      (s.prepare e.1 e.2 (prepares 0)).bind (prepareAll table fun k => prepares (k + 1))

end StatementSlots

/-! ## The statements of a reconnect -/

namespace PreparedConnection
variable {σ : Type}

def slots (c : PreparedConnection σ) : StatementSlots :=
  ⟨c.flags, c.stmts.map Option.isSome, c.prepareError⟩

theorem map_slots_setStmt (c : PreparedConnection σ) (index : ℕ) (stmt : Option ℕ) :
    (c.setStmt index stmt).map slots = c.slots.set index stmt.isSome := by
  simp only [setStmt, StatementSlots.set, slots, List.length_map]
  split
  · simp [slots]
  · rfl

theorem map_slots_prepareStatement (c : PreparedConnection σ) (index : ℕ)
    (flags : ConnectionFlags) (prepared : Bool) :
    (c.prepareStatement index flags prepared).map slots = c.slots.prepare index flags prepared := by
  have hflags : c.slots.flags = c.flags := rfl
  rw [prepareStatement, StatementSlots.prepare, hflags]
  split_ifs
  · exact map_slots_setStmt c index _
  · rfl
  · exact map_slots_setStmt c index none

theorem map_slots_prepareAll (table : List (ℕ × ConnectionFlags)) (prepares : ℕ → Bool)
    (c : PreparedConnection σ) :
    (prepareAll table prepares c).map slots =
      StatementSlots.prepareAll table prepares c.slots := by
  induction table generalizing prepares c with
  | nil => rfl
  | cons e table ih =>
      rw [prepareAll, StatementSlots.prepareAll, ← map_slots_prepareStatement, Option.map_bind,
        Option.bind_map]
      congr 1
      funext d
      exact ih _ d

end PreparedConnection

/-! ## The statements of the bans -/

namespace DiscordDatabaseConnection

def slots (c : DiscordDatabaseConnection) : StatementSlots :=
  ⟨c.flags, c.stmts.map Option.isSome, c.prepareError⟩

theorem map_slots_setStmt (c : DiscordDatabaseConnection) (index : ℕ) (stmt : Option Sql) :
    (c.setStmt index stmt).map slots = c.slots.set index stmt.isSome := by
  simp only [setStmt, StatementSlots.set, slots, List.length_map]
  split
  · simp [slots]
  · rfl

theorem map_slots_prepareStatement (c : DiscordDatabaseConnection) (index : ℕ) (sql : Sql)
    (flags : ConnectionFlags) (prepared : Bool) :
    (c.prepareStatement index sql flags prepared).map slots =
      c.slots.prepare index flags prepared := by
  have hflags : c.slots.flags = c.flags := rfl
  rw [prepareStatement, StatementSlots.prepare, hflags]
  split_ifs
  · exact map_slots_setStmt c index _
  · rfl
  · exact map_slots_setStmt c index none

theorem map_slots_prepareAll
    (table : List (DiscordDatabaseStatements × Sql × ConnectionFlags)) (prepares : ℕ → Bool)
    (c : DiscordDatabaseConnection) :
    (prepareAll table prepares c).map slots =
      StatementSlots.prepareAll (table.map fun e => (e.1.index, e.2.2)) prepares c.slots := by
  induction table generalizing prepares c with
  | nil => rfl
  | cons e table ih =>
      rw [prepareAll, List.map_cons, StatementSlots.prepareAll, ← map_slots_prepareStatement,
        Option.map_bind, Option.bind_map]
      congr 1
      funext d
      exact ih _ d

/-- **`DoPrepareStatements` fills the same slots** of the connection that may reconnect, whatever
the server can prepare. -/
theorem map_slots_doPrepareStatements {σ : Type} (c : DiscordDatabaseConnection)
    (d : PreparedConnection σ) (hslots : c.slots = d.slots) (hreconnecting : d.reconnecting = false)
    (prepares : ℕ → Bool) :
    (c.doPrepareStatements prepares).map slots =
      (d.doPrepareStatements discordStatements prepares).map PreparedConnection.slots := by
  obtain ⟨htable, hmax⟩ := statements_discordSql
  obtain ⟨hflags, hfilled, herror⟩ := StatementSlots.mk.inj hslots
  have hlength : c.stmts.length = d.stmts.length := by
    simpa using congrArg List.length hfilled
  rw [doPrepareStatements, map_slots_prepareAll, PreparedConnection.doPrepareStatements,
    PreparedConnection.map_slots_prepareAll, htable, hreconnecting]
  congr 1
  simp only [slots, PreparedConnection.slots, PreparedConnection.resize, hmax, hlength, hflags,
    herror, List.map_append, List.map_take, hfilled, List.map_replicate, Option.isSome_none,
    Bool.false_eq_true, if_false]

end DiscordDatabaseConnection

/-! ## The statements of a run -/

namespace Statements.Connection
variable {db : StatementDb} {c : Connection}

def slots (c : Connection) : StatementSlots :=
  ⟨c.flags, c.stmts.map Option.isSome, false⟩

/-- The server can prepare every statement. -/
theorem map_slots_prepareStatement (db : StatementDb) (howns : c.heap.Owns (pointersOf c.stmts))
    {source : StatementSource} (hlt : source.index < c.stmts.length) :
    ∃ c', prepareStatement db c source = .ok c' ∧ c'.heap.Owns (pointersOf c'.stmts) ∧
      c'.stmts.length = c.stmts.length ∧
      c.slots.prepare source.index source.flags true = some c'.slots := by
  obtain ⟨heap, hset, howns'⟩ := setStmt_of_owns howns hlt (unbound_fresh db c.flags source)
  refine ⟨_, hset, howns', List.length_set, ?_⟩
  have hfilled : source.index < c.slots.filled.length := by simpa [slots] using hlt
  have hflags : c.slots.flags = c.flags := rfl
  have hmap : (fresh db c.flags source).isSome = c.flags.meets source.flags := by
    rw [fresh]
    cases c.flags.meets source.flags <;> rfl
  simp only [slots, List.map_set, hmap]
  rw [StatementSlots.prepare, if_pos rfl, StatementSlots.set, StatementSlots.set]
  simp only [List.length_map, if_pos hlt]
  cases c.flags.meets source.flags <;> rfl

/-- **They fill the same slots here**, where the server can prepare all of them. -/
theorem slots_prepareStatements (howns : c.heap.Owns (pointersOf c.stmts))
    (hlength : c.stmts.length = db.max) :
    ∃ c', c.prepareStatements db = .ok c' ∧
      StatementSlots.prepareAll (db.sources.map fun source => (source.index, source.flags))
        (fun _ => true) c.slots = some c'.slots := by
  have hlt : ∀ source ∈ db.sources, source.index < c.stmts.length := by
    intro source hmem
    rw [hlength]
    exact db.lt_max source hmem
  clear hlength
  rw [prepareStatements]
  generalize db.sources = sources at hlt
  induction sources generalizing c with
  | nil => exact ⟨c, rfl, rfl⟩
  | cons source sources ih =>
      obtain ⟨c₁, hrun, howns₁, hlength₁, hslots⟩ :=
        map_slots_prepareStatement db howns (hlt source List.mem_cons_self)
      obtain ⟨c₂, hrun₂, hslots₂⟩ := ih howns₁ fun source' hmem =>
        hlength₁ ▸ hlt source' (List.mem_cons_of_mem _ hmem)
      refine ⟨c₂, ?_, ?_⟩
      · rw [List.foldlM_cons, hrun, except_ok_bind]
        exact hrun₂
      · rw [List.map_cons, StatementSlots.prepareAll, hslots, Option.bind_some]
        exact hslots₂

end Statements.Connection
end WarheadDiscord
