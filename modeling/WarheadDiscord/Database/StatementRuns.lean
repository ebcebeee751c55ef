import WarheadDiscord.Database.Reconnect
import WarheadDiscord.Database.StatementBinding

/-!
# Runs of prepared statements

A caller asks the pool for a statement, sets its arguments, and gives it to a connection, which
binds the arguments, executes the statement, and clears it.  A call that loses the connection does
not come to `ClearParameters`: it reconnects, prepares every statement anew, and starts again.  The
copies of the arguments are deleted with the statement that is replaced.  A statement that is given
as a text has nothing to bind, but it reconnects in the same way.

`connection_run` says that all of this is invisible.  Over every run of statements on a connection,
with any losses of it, what MySQL is given is what the callers set; every copy is deleted, and none
twice; no parameter is bound over another.  What is left are the assertions: more arguments than
the statement has parameters, and a statement that is not prepared on this kind of connection.

What MySQL does with its handles is left out, and so is a call that ends in `abort`: it is the end
of the run.

## Main definitions

* `Connection.prepareStatement`, `Connection.execute`, `Connection.executeRaw` — a statement, with
  its reconnects; `Connection.step` — one of them.
* `preparePool` — `_preparedStatementSize`, from the connections of the pool.
* `Served.step` — what a call is for.
-/

namespace WarheadDiscord.Statements

/-! ## The connection -/

/-- A call of `PrepareStatement` in `DoPrepareStatements`. -/
structure StatementSource where
  index : ℕ
  sql : List UInt8
  flags : ConnectionFlags

structure Connection where
  flags : ConnectionFlags
  /-- `m_Mysql` is not null. -/
  live : Bool
  stmts : List (Option MySQLPreparedStatement)
  heap : Memory
  rebound : ℕ
  /-- What `mysql_stmt_bind_param` was given, call by call. -/
  handed : List (ℕ × List (Option SqlValue))

/-- `DoPrepareStatements` of a database, and `mysql_stmt_param_count` for a text. -/
structure StatementDb where
  max : ℕ
  sources : List StatementSource
  paramCount : List UInt8 → ℕ
  lt_max : ∀ source ∈ sources, source.index < max

namespace Connection

/-- `m_stmts[index]` gets another statement, and the old one is destroyed. -/
def setStmt (c : Connection) (index : ℕ) (stmt : Option MySQLPreparedStatement) :
    Except StatementError Connection :=
  match c.stmts[index]? with
  | none => .error .outOfRange
  | some none => .ok { c with stmts := c.stmts.set index stmt }
  | some (some old) =>
      match clearParameters c.heap old.bind with
      | .error fault => .error (.memory fault)
      | .ok (heap, _) => .ok { c with heap := heap, stmts := c.stmts.set index stmt }

/-- `PrepareStatement` -/
def prepareStatement (db : StatementDb) (c : Connection) (source : StatementSource) :
    Except StatementError Connection :=
  c.setStmt source.index
    (if c.flags.meets source.flags then
      some (.new (db.paramCount source.sql) source.sql)
    else none)

/-- `DoPrepareStatements` on a connection that was open before. -/
def prepareStatements (db : StatementDb) (c : Connection) : Except StatementError Connection :=
  db.sources.foldlM (prepareStatement db) c

/-- `GetPreparedStatement`, with the assertion of its callers. -/
def getPreparedStatement (c : Connection) (index : ℕ) :
    Except StatementError MySQLPreparedStatement :=
  match c.stmts[index]? with
  | some (some stmt) => .ok stmt
  | _ => .error .notPrepared

/-- `BindParameters` and `mysql_stmt_bind_param`. -/
def bind (c : Connection) (stmt : PreparedStatement) : Except StatementError Connection := do
  let mStmt ← c.getPreparedStatement stmt.index
  let s ← bindParameters ⟨c.heap, mStmt.bind, c.rebound⟩ 0 stmt.data
  pure
    { c with
      heap := s.heap
      rebound := s.rebound
      stmts := c.stmts.set stmt.index (some { mStmt with bind := s.bind })
      handed := c.handed ++ [(stmt.index, s.bind.map (readBind s.heap))] }

/-- `m_mStmt->ClearParameters()` -/
def clear (c : Connection) (index : ℕ) : Except StatementError Connection := do
  let mStmt ← c.getPreparedStatement index
  match clearParameters c.heap mStmt.bind with
  | .error fault => .error (.memory fault)
  | .ok (heap, bind) =>
      .ok { c with heap := heap, stmts := c.stmts.set index (some { mStmt with bind := bind }) }

/-- `Execute` and `_Query`.  So many attempts fail and are followed by a reconnect; `stays` says
whether there is a handle behind the last attempt, which fails when there is none. -/
def execute (db : StatementDb) (stmt : PreparedStatement) (stays : Bool) :
    ℕ → Connection → Except StatementError Connection
  | 0, c =>
      if c.live then do
        let c ← c.bind stmt
        let c ← c.clear stmt.index
        pure { c with live := stays }
      else .ok c
  | reconnects + 1, c =>
      if c.live then do
        let c ← c.bind stmt
        let c ← c.prepareStatements db
        execute db stmt stays reconnects c
      else .ok c

/-- `Execute` and `_Query` of a text, which bind nothing. -/
def executeRaw (db : StatementDb) (stays : Bool) :
    ℕ → Connection → Except StatementError Connection
  | 0, c => if c.live then .ok { c with live := stays } else .ok c
  | reconnects + 1, c =>
      if c.live then do
        let c ← c.prepareStatements db
        executeRaw db stays reconnects c
      else .ok c

end Connection

/-- A statement of the program, and what becomes of it on the connection. -/
structure Call where
  index : ℕ
  args : List PreparedStatementData
  reconnects : ℕ
  stays : Bool

/-- `DatabaseWorkerPool::GetPreparedStatement`, and `SetArguments`. -/
def Call.make (sizes : List ℕ) (call : Call) : Except StatementError PreparedStatement :=
  match sizes[call.index]? with
  | none => .error .outOfRange
  | some capacity => setArguments ⟨call.index, List.replicate capacity default⟩ 0 call.args

/-- What a connection is asked for: a prepared statement, or a text. -/
inductive Request
  | prepared (call : Call)
  | raw (reconnects : ℕ) (stays : Bool)

def Connection.step (db : StatementDb) (sizes : List ℕ) (c : Connection) :
    Request → Except StatementError Connection
  | .prepared call => do
      let stmt ← call.make sizes
      c.execute db stmt call.stays call.reconnects
  | .raw reconnects stays => c.executeRaw db stays reconnects

/-! ## The pool -/

/-- A connection that was just opened. -/
def Connection.opened (db : StatementDb) (flags : ConnectionFlags) : Connection where
  flags := flags
  live := true
  stmts := List.replicate db.max none
  heap := []
  rebound := 0
  handed := []

/-- The size of one statement, unless it is known; `none` when the assertion fails. -/
def recordSize (size : ℕ) (stmt : Option MySQLPreparedStatement) : Option ℕ :=
  if size > 0 then some size
  else
    match stmt with
    | none => some size
    | some stmt => if stmt.bind.length < 255 then some stmt.bind.length else none

/-- The loop over the statements of a connection, with the `resize` before it. -/
def recordSizes : List ℕ → List (Option MySQLPreparedStatement) → Option (List ℕ)
  | sizes, [] => some sizes
  | sizes, stmt :: stmts =>
      (recordSize (sizes.headD 0) stmt).bind fun size =>
        (recordSizes sizes.tail stmts).map (size :: ·)

/-- The loop of `DatabaseWorkerPool::PrepareStatements` over the connections, when no statement
fails: `_preparedStatementSize`, and the connections. -/
def preparePool (db : StatementDb) :
    List ℕ → List ConnectionFlags → Except StatementError (List ℕ × List Connection)
  | sizes, [] => .ok (sizes, [])
  | sizes, flags :: rest => do
      let c ← (Connection.opened db flags).prepareStatements db
      match recordSizes sizes c.stmts with
      | none => .error .tooManyParameters
      | some sizes =>
          let (sizes, connections) ← preparePool db sizes rest
          pure (sizes, c :: connections)
/-! ## The statements of a connection -/

/-- What the statements own. -/
def pointersOf (stmts : List (Option MySQLPreparedStatement)) : List ℕ :=
  stmts.flatMap fun stmt => stmt.elim [] fun mStmt => mStmt.bind.flatMap MySQLBind.pointers

/-- Nothing is bound to the parameters of the statement. -/
def Unbound (stmt : Option MySQLPreparedStatement) : Prop :=
  ∀ mStmt ∈ stmt, ∀ param ∈ mStmt.bind, param.IsClear

theorem unbound_none : Unbound none := by simp [Unbound]

theorem unbound_new (paramCount : ℕ) (sql : List UInt8) :
    Unbound (some (.new paramCount sql)) := by
  simp only [Unbound, Option.mem_some_iff, forall_eq', MySQLPreparedStatement.new]
  intro param hmem
  rw [List.eq_of_mem_replicate hmem]
  exact ⟨rfl, rfl, rfl⟩

theorem unbound_cleared (mStmt : MySQLPreparedStatement) :
    Unbound (some { mStmt with bind := mStmt.bind.map MySQLBind.cleared }) := by
  simp only [Unbound, Option.mem_some_iff, forall_eq', List.mem_map]
  rintro param ⟨param, -, rfl⟩
  exact param.isClear_cleared

theorem pointersOf_eq_nil {stmts : List (Option MySQLPreparedStatement)}
    (h : ∀ stmt ∈ stmts, Unbound stmt) : pointersOf stmts = [] := by
  refine List.flatMap_eq_nil_iff.mpr fun stmt hmem => ?_
  cases stmt with
  | none => rfl
  | some mStmt => exact pointers_of_isClear (h _ hmem mStmt rfl)

/-- What the statements own when one of them is replaced. -/
theorem pointersOf_set_perm {stmts : List (Option MySQLPreparedStatement)} {index : ℕ}
    {old new : Option MySQLPreparedStatement} (hold : stmts[index]? = some old)
    (hnew : Unbound new) :
    (pointersOf stmts).Perm (pointersOf [old] ++ pointersOf (stmts.set index new)) := by
  obtain ⟨hlt, rfl⟩ := List.getElem?_eq_some_iff.mp hold
  have hsplit : stmts = stmts.take index ++ stmts[index] :: stmts.drop (index + 1) := by simp
  have hset : stmts.set index new = stmts.take index ++ new :: stmts.drop (index + 1) :=
    List.set_eq_take_append_cons_drop.trans (if_pos hlt)
  have hnil : pointersOf [new] = [] := pointersOf_eq_nil (by simpa using hnew)
  have happend (xs ys : List (Option MySQLPreparedStatement)) :
      pointersOf (xs ++ ys) = pointersOf xs ++ pointersOf ys := List.flatMap_append
  have hcons (x : Option MySQLPreparedStatement) (xs : List (Option MySQLPreparedStatement)) :
      pointersOf (x :: xs) = pointersOf [x] ++ pointersOf xs := happend [x] xs
  have hleft : pointersOf stmts = pointersOf (stmts.take index) ++
      (pointersOf [stmts[index]] ++ pointersOf (stmts.drop (index + 1))) := by
    conv_lhs => rw [hsplit]
    rw [happend, hcons]
  rw [hleft, hset, happend, hcons new, hnil, List.nil_append, ← List.append_assoc,
    ← List.append_assoc]
  exact List.perm_append_comm.append_right _

/-- A statement that is there can be cleared, and what replaces it owns nothing. -/
theorem clearParameters_at {heap : Memory} {stmts : List (Option MySQLPreparedStatement)}
    {index : ℕ} {old : MySQLPreparedStatement} (howns : heap.Owns (pointersOf stmts))
    (hold : stmts[index]? = some (some old)) :
    ∃ heap', clearParameters heap old.bind = .ok (heap', old.bind.map MySQLBind.cleared) ∧
      ∀ new, Unbound new → heap'.Owns (pointersOf (stmts.set index new)) := by
  have hone : pointersOf [some old] = old.bind.flatMap MySQLBind.pointers := by simp [pointersOf]
  have hset (new : Option MySQLPreparedStatement) (hnew : Unbound new) :
      (pointersOf stmts).Perm
        (old.bind.flatMap MySQLBind.pointers ++ pointersOf (stmts.set index new)) := by
    rw [← hone]
    exact pointersOf_set_perm hold hnew
  obtain ⟨heap', hclear, howns'⟩ := clearParameters_of_owns (howns.perm (hset none unbound_none))
  refine ⟨heap', hclear, fun new hnew => howns'.perm ?_⟩
  exact (List.perm_append_left_iff _).mp ((hset none unbound_none).symm.trans (hset new hnew))

namespace Connection
variable {db : StatementDb} {c : Connection} {index : ℕ}

theorem setStmt_of_owns {new : Option MySQLPreparedStatement}
    (howns : c.heap.Owns (pointersOf c.stmts)) (hlt : index < c.stmts.length) (hnew : Unbound new) :
    ∃ heap', c.setStmt index new = .ok { c with heap := heap', stmts := c.stmts.set index new } ∧
      heap'.Owns (pointersOf (c.stmts.set index new)) := by
  have hget := List.getElem?_eq_getElem hlt
  rw [setStmt]
  cases hold : c.stmts[index] with
  | none =>
      rw [hold] at hget
      refine ⟨c.heap, by rw [hget], howns.perm ?_⟩
      simpa [pointersOf] using pointersOf_set_perm hget hnew
  | some old =>
      rw [hold] at hget
      obtain ⟨heap', hclear, hset⟩ := clearParameters_at howns hget
      exact ⟨heap', by simp only [hget, hclear], hset new hnew⟩

/-- The statement that `PrepareStatement` makes. -/
def fresh (db : StatementDb) (flags : ConnectionFlags) (source : StatementSource) :
    Option MySQLPreparedStatement :=
  if flags.meets source.flags then some (.new (db.paramCount source.sql) source.sql) else none

theorem unbound_fresh (db : StatementDb) (flags : ConnectionFlags) (source : StatementSource) :
    Unbound (fresh db flags source) := by
  rw [fresh]
  split
  · exact unbound_new _ _
  · exact unbound_none

/-- `m_stmts` behind the calls of `PrepareStatement`. -/
def prepared (db : StatementDb) (flags : ConnectionFlags) (sources : List StatementSource)
    (stmts : List (Option MySQLPreparedStatement)) : List (Option MySQLPreparedStatement) :=
  sources.foldl (fun stmts source => stmts.set source.index (fresh db flags source)) stmts

theorem foldlM_prepareStatement (db : StatementDb) (sources : List StatementSource)
    (howns : c.heap.Owns (pointersOf c.stmts))
    (hlt : ∀ source ∈ sources, source.index < c.stmts.length) :
    ∃ heap', sources.foldlM (prepareStatement db) c =
        .ok { c with heap := heap', stmts := prepared db c.flags sources c.stmts } ∧
      heap'.Owns (pointersOf (prepared db c.flags sources c.stmts)) := by
  induction sources generalizing c with
  | nil => exact ⟨c.heap, rfl, howns⟩
  | cons source sources ih =>
      obtain ⟨heap₁, hset, howns₁⟩ :=
        setStmt_of_owns howns (hlt source (by simp)) (unbound_fresh db c.flags source)
      obtain ⟨heap₂, hrun, howns₂⟩ :=
        ih
          (c :=
            { c with heap := heap₁, stmts := c.stmts.set source.index (fresh db c.flags source) })
          howns₁ (fun source' hmem => by
            rw [List.length_set]
            exact hlt source' (List.mem_cons_of_mem _ hmem))
      refine ⟨heap₂, ?_, howns₂⟩
      rw [List.foldlM_cons, prepareStatement]
      change (c.setStmt source.index (fresh db c.flags source) >>= _) = _
      rw [hset, except_ok_bind]
      exact hrun

theorem length_prepared (flags : ConnectionFlags) (sources : List StatementSource)
    (stmts : List (Option MySQLPreparedStatement)) :
    (prepared db flags sources stmts).length = stmts.length := by
  induction sources generalizing stmts with
  | nil => rfl
  | cons source sources ih =>
      rw [prepared, List.foldl_cons]
      exact (ih _).trans List.length_set

/-- The last call for a statement. -/
def lastSource (sources : List StatementSource) (index : ℕ) : Option StatementSource :=
  sources.reverse.find? fun source => source.index == index

/-- The call that comes last decides about a statement; without one it stays. -/
theorem getElem?_prepared (flags : ConnectionFlags) (sources : List StatementSource)
    {stmts : List (Option MySQLPreparedStatement)} (hlt : index < stmts.length) :
    (prepared db flags sources stmts)[index]? =
      (lastSource sources index).elim stmts[index]? fun source =>
        some (fresh db flags source) := by
  induction sources generalizing stmts with
  | nil => rfl
  | cons source sources ih =>
      rw [prepared, List.foldl_cons]
      refine (ih (by simpa using hlt)).trans ?_
      rw [lastSource, lastSource, List.reverse_cons, List.find?_append]
      cases sources.reverse.find? fun source => source.index == index with
      | some last => rfl
      | none =>
          by_cases hindex : source.index = index
          · simp [hindex, hlt]
          · simp [hindex]

/-- `m_stmts` of a connection that was just opened, with its statements prepared. -/
def initial (db : StatementDb) (flags : ConnectionFlags) : List (Option MySQLPreparedStatement) :=
  prepared db flags db.sources (List.replicate db.max none)

theorem unbound_of_mem_prepared {flags : ConnectionFlags} {sources : List StatementSource}
    {stmts : List (Option MySQLPreparedStatement)} (h : ∀ stmt ∈ stmts, Unbound stmt) :
    ∀ stmt ∈ prepared db flags sources stmts, Unbound stmt := by
  induction sources generalizing stmts with
  | nil => exact h
  | cons source sources ih =>
      refine ih fun stmt hmem => ?_
      rcases List.mem_or_eq_of_mem_set hmem with hmem | rfl
      · exact h stmt hmem
      · exact unbound_fresh _ _ _

theorem unbound_of_mem_initial {flags : ConnectionFlags} :
    ∀ stmt ∈ initial db flags, Unbound stmt :=
  unbound_of_mem_prepared fun stmt hmem => by
    rw [List.eq_of_mem_replicate hmem]
    exact unbound_none

/-- The numbers of parameters. -/
def shape (stmts : List (Option MySQLPreparedStatement)) : List (Option ℕ) :=
  stmts.map (Option.map fun mStmt => mStmt.bind.length)

/-- **Preparing the statements again brings back the start**, whatever is bound. -/
theorem prepared_of_shape {flags : ConnectionFlags} {stmts : List (Option MySQLPreparedStatement)}
    (h : shape stmts = shape (initial db flags)) :
    prepared db flags db.sources stmts = initial db flags := by
  have hlength : stmts.length = db.max := by
    have := congrArg List.length h
    simpa [shape, initial, length_prepared] using this
  refine List.ext_getElem? fun index => ?_
  by_cases hlt : index < db.max
  · have hget := congrArg (fun xs => xs[index]?) h
    have hinit : (prepared db flags db.sources (List.replicate db.max none))[index]? = _ :=
      getElem?_prepared flags db.sources (by simpa using hlt)
    rw [getElem?_prepared flags db.sources (hlength ▸ hlt), initial, hinit]
    simp only [shape, List.getElem?_map, initial, hinit] at hget
    -- a statement that no call prepares is null from the start
    cases hlast : lastSource db.sources index with
    | some source => rfl
    | none =>
        have hsome := List.getElem?_eq_getElem (hlength ▸ hlt : index < stmts.length)
        simp only [hlast, Option.elim_none, hsome, List.getElem?_replicate, if_pos hlt] at hget ⊢
        simpa using hget
  · rw [List.getElem?_eq_none, List.getElem?_eq_none]
    · simpa [initial, length_prepared] using hlt
    · simpa [length_prepared, hlength] using hlt

end Connection

/-! ## A call -/

namespace Connection
variable {db : StatementDb} {c : Connection}

/-- Between two calls nothing is bound, and there is no memory left of what was. -/
structure Ready (db : StatementDb) (c : Connection) : Prop where
  shape : shape c.stmts = shape (initial db c.flags)
  unbound : ∀ stmt ∈ c.stmts, Unbound stmt
  owns : c.heap.Owns []
  rebound : c.rebound = 0

/-- The statement can be given to the connection: it is prepared there, and has its arguments. -/
structure Accepts (c : Connection) (stmt : PreparedStatement) : Prop where
  shape : (Connection.shape c.stmts)[stmt.index]? = some (some stmt.data.length)
  lt : stmt.data.length < 256

/-- What MySQL is given for a statement. -/
def handedFor (stmt : PreparedStatement) : ℕ × List (Option SqlValue) :=
  (stmt.index, stmt.data.map fun value => some value.sqlValue)

theorem Accepts.exists_stmt {stmt : PreparedStatement} (h : c.Accepts stmt) :
    ∃ mStmt, c.stmts[stmt.index]? = some (some mStmt) ∧ mStmt.bind.length = stmt.data.length := by
  have hshape := h.shape
  rw [Connection.shape, List.getElem?_map, Option.map_eq_some_iff] at hshape
  obtain ⟨o, hget, ho⟩ := hshape
  obtain ⟨mStmt, rfl, hlength⟩ := Option.map_eq_some_iff.mp ho
  exact ⟨mStmt, hget, hlength⟩

theorem shape_set {stmts : List (Option MySQLPreparedStatement)} {index : ℕ}
    {mStmt mStmt' : MySQLPreparedStatement} (hget : stmts[index]? = some (some mStmt))
    (hlength : mStmt'.bind.length = mStmt.bind.length) :
    shape (stmts.set index (some mStmt')) = shape stmts := by
  obtain ⟨hlt, heq⟩ := List.getElem?_eq_some_iff.mp hget
  refine List.ext_getElem? fun i => ?_
  simp only [shape, List.getElem?_map, List.getElem?_set]
  split
  · rename_i heq'
    subst heq'
    simp [hlt, heq, hlength]
  · rfl

/-- The connection while the statement is bound. -/
structure Bound (c : Connection) (stmt : PreparedStatement) (c' : Connection)
    (mStmt : MySQLPreparedStatement) : Prop where
  eq : c' =
    { c with
      heap := c'.heap
      stmts := c.stmts.set stmt.index (some mStmt)
      handed := c.handed ++ [handedFor stmt] }
  get : c'.stmts[stmt.index]? = some (some mStmt)
  shape : Connection.shape c'.stmts = Connection.shape c.stmts
  owns : c'.heap.Owns (pointersOf c'.stmts)

theorem bind_bound {stmt : PreparedStatement} (h : c.Ready db) (ha : c.Accepts stmt) :
    ∃ c' mStmt, c.bind stmt = .ok c' ∧ c.Bound stmt c' mStmt := by
  obtain ⟨mStmt, hget, hlength⟩ := ha.exists_stmt
  have hmem : some mStmt ∈ c.stmts := List.mem_of_getElem? hget
  obtain ⟨hlt, heq⟩ := List.getElem?_eq_some_iff.mp hget
  obtain ⟨s, new, hrun, hnew, hrebound, -, hread, howns⟩ :=
    bindParameters_bound stmt.data ⟨c.heap, mStmt.bind, c.rebound⟩ [] mStmt.bind rfl
      (h.unbound _ hmem mStmt rfl) hlength.symm (by simpa using ha.lt) h.owns
  rw [List.nil_append] at hnew
  rw [List.length_nil] at hrun
  subst hnew
  have hset : (c.stmts.set stmt.index (some { mStmt with bind := s.bind }))[stmt.index]? =
      some (some { mStmt with bind := s.bind }) := by simp [hlt]
  have hsame : s.bind.length = mStmt.bind.length := by
    have := congrArg List.length hread
    simpa [hlength] using this
  have hpointers : (pointersOf (c.stmts.set stmt.index (some { mStmt with bind := s.bind }))).Perm
      (s.bind.flatMap MySQLBind.pointers) := by
    refine (pointersOf_set_perm hset (h.unbound _ hmem)).trans ?_
    have hnil : pointersOf c.stmts = [] := pointersOf_eq_nil h.unbound
    have hback : (c.stmts.set stmt.index (some { mStmt with bind := s.bind })).set stmt.index
        (some mStmt) = c.stmts := by
      rw [List.set_set, ← heq, List.set_getElem_self]
    rw [hback, hnil, List.append_nil]
    simp [pointersOf]
  have hbind : c.bind stmt = .ok
      { c with
        heap := s.heap
        stmts := c.stmts.set stmt.index (some { mStmt with bind := s.bind })
        handed := c.handed ++ [handedFor stmt] } := by
    simp only [bind, getPreparedStatement, hget, except_ok_bind, handedFor]
    rw [hrun, except_ok_bind, except_pure, hread, hrebound]
  exact ⟨_, _, hbind, rfl, hset, shape_set hget hsame, howns.perm hpointers.symm⟩

/-- `ClearParameters` makes the connection ready for the next call. -/
theorem Bound.clear {stmt : PreparedStatement} {c' : Connection} {mStmt : MySQLPreparedStatement}
    (h : c.Bound stmt c' mStmt) (hready : c.Ready db) :
    ∃ c'', c'.clear stmt.index = .ok c'' ∧ c''.Ready db ∧ c''.flags = c.flags ∧
      c''.live = c.live ∧ c''.handed = c.handed ++ [handedFor stmt] := by
  obtain ⟨heap, hclear, howns⟩ := clearParameters_at h.owns h.get
  have hshape : Connection.shape (c'.stmts.set stmt.index
      (some { mStmt with bind := mStmt.bind.map MySQLBind.cleared })) =
        Connection.shape (initial db c.flags) := by
    rw [shape_set h.get (by simp), h.shape, hready.shape]
  have hunbound : ∀ stmt' ∈ c'.stmts.set stmt.index
      (some { mStmt with bind := mStmt.bind.map MySQLBind.cleared }), Unbound stmt' := by
    rw [h.eq, List.set_set]
    intro stmt' hmem
    rcases List.mem_or_eq_of_mem_set hmem with hmem | rfl
    · exact hready.unbound stmt' hmem
    · exact unbound_cleared mStmt
  have hflags : c'.flags = c.flags := by rw [h.eq]
  have hrun : c'.clear stmt.index = .ok
      { c' with
        heap := heap
        stmts := c'.stmts.set stmt.index
          (some { mStmt with bind := mStmt.bind.map MySQLBind.cleared }) } := by
    simp only [Connection.clear, getPreparedStatement, h.get, except_ok_bind, hclear]
  have hnil := howns _ (unbound_cleared mStmt)
  rw [pointersOf_eq_nil hunbound] at hnil
  refine ⟨_, hrun, ⟨by rw [← hflags] at hshape; exact hshape, hunbound, hnil, ?_⟩, hflags, ?_, ?_⟩
  · change c'.rebound = 0
    rw [h.eq]
    exact hready.rebound
  · change c'.live = c.live
    rw [h.eq]
  · change c'.handed = _
    rw [h.eq]

/-- So does a reconnect, which replaces every statement, whatever is bound to it. -/
theorem prepareStatements_of_shape (howns : c.heap.Owns (pointersOf c.stmts))
    (hshape : Connection.shape c.stmts = Connection.shape (initial db c.flags))
    (hrebound : c.rebound = 0) :
    ∃ c', c.prepareStatements db = .ok c' ∧ c'.Ready db ∧ c'.flags = c.flags ∧
      c'.live = c.live ∧ c'.handed = c.handed := by
  have hlength : c.stmts.length = db.max := by
    have := congrArg List.length hshape
    simpa [Connection.shape, initial, length_prepared] using this
  obtain ⟨heap, hrun, howns⟩ := foldlM_prepareStatement db db.sources howns
    fun source hmem => hlength ▸ db.lt_max source hmem
  rw [prepared_of_shape hshape] at hrun howns
  rw [pointersOf_eq_nil unbound_of_mem_initial] at howns
  exact ⟨_, hrun, ⟨rfl, unbound_of_mem_initial, howns, hrebound⟩, rfl, rfl, rfl⟩

theorem Bound.prepareStatements {stmt : PreparedStatement} {c' : Connection}
    {mStmt : MySQLPreparedStatement} (h : c.Bound stmt c' mStmt) (hready : c.Ready db) :
    ∃ c'', c'.prepareStatements db = .ok c'' ∧ c''.Ready db ∧ c''.flags = c.flags ∧
      c''.live = c.live ∧ c''.handed = c.handed ++ [handedFor stmt] := by
  have hflags : c'.flags = c.flags := by rw [h.eq]
  have hlive : c'.live = c.live := by rw [h.eq]
  have hhanded : c'.handed = c.handed ++ [handedFor stmt] := by rw [h.eq]
  have hrebound : c'.rebound = 0 := by
    rw [h.eq]
    exact hready.rebound
  have hshape : Connection.shape c'.stmts = Connection.shape (initial db c'.flags) := by
    rw [h.shape, hready.shape, hflags]
  obtain ⟨c'', hrun, hready'', hflags'', hlive'', hhanded''⟩ :=
    prepareStatements_of_shape h.owns hshape hrebound
  exact ⟨c'', hrun, hready'', hflags''.trans hflags, hlive''.trans hlive, hhanded''.trans hhanded⟩

theorem Ready.prepareStatements (h : c.Ready db) :
    ∃ c', c.prepareStatements db = .ok c' ∧ c'.Ready db ∧ c'.flags = c.flags ∧
      c'.live = c.live ∧ c'.handed = c.handed := by
  refine prepareStatements_of_shape ?_ h.shape h.rebound
  rw [pointersOf_eq_nil h.unbound]
  exact h.owns

/-- **A call gives MySQL the arguments once per attempt**, and leaves nothing behind. -/
theorem execute_of_accepts {stmt : PreparedStatement} (stays : Bool) (reconnects : ℕ)
    (h : c.Ready db) (hlive : c.live = true) (ha : c.Accepts stmt) :
    ∃ c', execute db stmt stays reconnects c = .ok c' ∧ c'.Ready db ∧ c'.flags = c.flags ∧
      c'.live = stays ∧
        c'.handed = c.handed ++ List.replicate (reconnects + 1) (handedFor stmt) := by
  induction reconnects generalizing c with
  | zero =>
      obtain ⟨c₁, mStmt, hbind, hbound⟩ := bind_bound h ha
      obtain ⟨c₂, hclear, hready, hflags, -, hhanded⟩ := hbound.clear h
      refine ⟨{ c₂ with live := stays }, ?_, ?_, hflags, rfl, hhanded⟩
      · simp only [execute, hlive, if_true, hbind, hclear, except_ok_bind, except_pure]
      · exact ⟨hready.shape, hready.unbound, hready.owns, hready.rebound⟩
  | succ reconnects ih =>
      obtain ⟨c₁, mStmt, hbind, hbound⟩ := bind_bound h ha
      obtain ⟨c₂, hprepare, hready, hflags, hlive₂, hhanded⟩ := hbound.prepareStatements h
      have ha₂ : c₂.Accepts stmt := by
        refine ⟨?_, ha.lt⟩
        rw [hready.shape, hflags, ← h.shape]
        exact ha.shape
      obtain ⟨c₃, hrun, hready₃, hflags₃, hlive₃, hhanded₃⟩ := ih hready (hlive₂.trans hlive) ha₂
      refine ⟨c₃, ?_, hready₃, hflags₃.trans hflags, hlive₃, ?_⟩
      · simp only [execute, hlive, if_true, hbind, hprepare, except_ok_bind]
        exact hrun
      · rw [hhanded₃, hhanded, List.append_assoc, List.replicate_succ (n := reconnects + 1)]
        rfl

/-- A text gives MySQL no arguments, however often it reconnects. -/
theorem executeRaw_of_ready (stays : Bool) (reconnects : ℕ) (h : c.Ready db)
    (hlive : c.live = true) :
    ∃ c', executeRaw db stays reconnects c = .ok c' ∧ c'.Ready db ∧ c'.flags = c.flags ∧
      c'.live = stays ∧ c'.handed = c.handed := by
  induction reconnects generalizing c with
  | zero =>
      refine ⟨{ c with live := stays }, ?_, ?_, rfl, rfl, rfl⟩
      · rw [executeRaw, if_pos hlive]
      · exact ⟨h.shape, h.unbound, h.owns, h.rebound⟩
  | succ reconnects ih =>
      obtain ⟨c₁, hprepare, hready, hflags, hlive₁, hhanded⟩ := h.prepareStatements
      obtain ⟨c₂, hrun, hready₂, hflags₂, hlive₂, hhanded₂⟩ := ih hready (hlive₁.trans hlive)
      refine ⟨c₂, ?_, hready₂, hflags₂.trans hflags, hlive₂, hhanded₂.trans hhanded⟩
      rw [executeRaw, if_pos hlive, hprepare, except_ok_bind]
      exact hrun

theorem executeRaw_of_not_live (db : StatementDb) (stays : Bool) (reconnects : ℕ)
    (hlive : c.live = false) : executeRaw db stays reconnects c = .ok c := by
  cases reconnects <;> simp [executeRaw, hlive]

theorem execute_of_not_live (db : StatementDb) (stmt : PreparedStatement) (stays : Bool)
    (reconnects : ℕ) (hlive : c.live = false) :
    execute db stmt stays reconnects c = .ok c := by
  cases reconnects <;> simp [execute, hlive]

theorem execute_of_not_prepared (db : StatementDb) {stmt : PreparedStatement} (stays : Bool)
    (reconnects : ℕ) (hlive : c.live = true)
    (hshape : ∀ n, (shape c.stmts)[stmt.index]? ≠ some (some n)) :
    execute db stmt stays reconnects c = .error .notPrepared := by
  have hget : c.getPreparedStatement stmt.index = .error .notPrepared := by
    rw [getPreparedStatement]
    split
    · rename_i mStmt heq
      refine absurd ?_ (hshape mStmt.bind.length)
      rw [shape, List.getElem?_map, heq]
      rfl
    · rfl
  have hbind : c.bind stmt = .error .notPrepared := by
    rw [bind, hget]
    rfl
  cases reconnects <;> simp only [execute, hlive, if_true, hbind] <;> rfl

end Connection

/-! ## The sizes in the pool -/

namespace StatementDb

/-- The number of parameters of a statement on a kind of connection, if it is prepared there. -/
def params (db : StatementDb) (flags : ConnectionFlags) (index : ℕ) : Option ℕ :=
  (Connection.lastSource db.sources index).bind fun source =>
    if flags.meets source.flags then some (db.paramCount source.sql) else none

/-- The number of parameters of a statement that is prepared on one of the connections. -/
def capacity (db : StatementDb) (kinds : List ConnectionFlags) (index : ℕ) : ℕ :=
  (kinds.findSome? fun flags => db.params flags index).getD 0

variable {db : StatementDb} {index : ℕ}

/-- The kinds of connection do not differ in the number. -/
theorem params_unique {flags flags' : ConnectionFlags} {n n' : ℕ}
    (h : db.params flags index = some n) (h' : db.params flags' index = some n') : n = n' := by
  rw [params] at h h'
  cases hlast : Connection.lastSource db.sources index with
  | none => simp [hlast] at h
  | some source =>
      simp only [hlast, Option.bind_some, Option.ite_none_right_eq_some, Option.some.injEq] at h h'
      exact h.2.symm.trans h'.2

theorem capacity_of_params {kinds : List ConnectionFlags} {flags : ConnectionFlags} {n : ℕ}
    (hmem : flags ∈ kinds) (h : db.params flags index = some n) : db.capacity kinds index = n := by
  rw [capacity]
  cases hfind : kinds.findSome? fun flags => db.params flags index with
  | none =>
      rw [List.findSome?_eq_none_iff] at hfind
      rw [hfind flags hmem] at h
      cases h
  | some n' =>
      obtain ⟨flags', -, h'⟩ := List.exists_of_findSome?_eq_some hfind
      exact params_unique h' h

theorem capacity_concat (kinds : List ConnectionFlags) (flags : ConnectionFlags) (index : ℕ) :
    db.capacity (kinds ++ [flags]) index =
      if db.capacity kinds index > 0 then db.capacity kinds index
      else (db.params flags index).getD 0 := by
  have hone : [flags].findSome? (fun flags => db.params flags index) = db.params flags index := by
    simp [List.findSome?]
    cases db.params flags index <;> rfl
  rw [capacity, capacity, List.findSome?_append, hone]
  cases hfind : kinds.findSome? fun flags => db.params flags index with
  | none => simp
  | some n =>
      obtain ⟨flags', -, h'⟩ := List.exists_of_findSome?_eq_some hfind
      cases n with
      | succ n => simp
      | zero =>
          cases hparams : db.params flags index with
          | none => simp
          | some n' => simp [← params_unique h' hparams]

end StatementDb

theorem shape_initial {db : StatementDb} (flags : ConnectionFlags) {index : ℕ}
    (hlt : index < db.max) :
    (Connection.shape (Connection.initial db flags))[index]? = some (db.params flags index) := by
  rw [Connection.shape, List.getElem?_map, Connection.initial,
    Connection.getElem?_prepared flags db.sources (by simpa using hlt), StatementDb.params]
  cases Connection.lastSource db.sources index with
  | none => simp [hlt]
  | some source =>
      simp only [Option.elim_some, Option.map_some, Option.bind_some, Connection.fresh]
      split <;> simp [MySQLPreparedStatement.new]

theorem recordSizes_spec {sizes sizes' : List ℕ} {stmts : List (Option MySQLPreparedStatement)}
    (h : recordSizes sizes stmts = some sizes') (hle : sizes.length ≤ stmts.length) :
    sizes'.length = stmts.length ∧ ∀ index stmt, stmts[index]? = some stmt →
      sizes'[index]? = recordSize (sizes.getD index 0) stmt := by
  induction stmts generalizing sizes sizes' with
  | nil =>
      have hnil : sizes = [] := List.eq_nil_of_length_eq_zero (Nat.le_zero.mp hle)
      subst hnil
      cases h
      simp
  | cons stmt stmts ih =>
      obtain ⟨n, hn, hmap⟩ := Option.bind_eq_some_iff.mp h
      obtain ⟨rest, hrest, rfl⟩ := Option.map_eq_some_iff.mp hmap
      obtain ⟨hlength, hget⟩ := ih hrest (by simpa using hle)
      refine ⟨by simp [hlength], fun index stmt' hstmt => ?_⟩
      cases index with
      | zero =>
          obtain rfl : stmt = stmt' := by simpa using hstmt
          simpa [List.getD_eq_getElem?_getD, List.headD_eq_head?_getD, List.head?_eq_getElem?]
            using hn.symm
      | succ index =>
          simpa [List.getD_eq_getElem?_getD] using hget index stmt' (by simpa using hstmt)

/-- `_preparedStatementSize` when the statements of these connections are prepared. -/
structure Sizes (db : StatementDb) (kinds : List ConnectionFlags) (sizes : List ℕ) : Prop where
  length_le : sizes.length ≤ db.max
  length : kinds ≠ [] → sizes.length = db.max
  get : ∀ index < db.max, sizes.getD index 0 = db.capacity kinds index
  lt : ∀ index, sizes.getD index 0 < 255

theorem sizes_nil (db : StatementDb) : Sizes db [] [] :=
  ⟨Nat.zero_le _, by simp, by simp [StatementDb.capacity], by simp⟩

theorem recordSize_lt {size n : ℕ} {stmt : Option MySQLPreparedStatement} (hsize : size < 255)
    (h : recordSize size stmt = some n) : n < 255 := by
  unfold recordSize at h
  split at h
  · exact Option.some.inj h ▸ hsize
  · cases stmt with
    | none => exact Option.some.inj h ▸ hsize
    | some mStmt =>
        simp only [Option.ite_none_right_eq_some, Option.some.injEq] at h
        exact h.2 ▸ h.1

theorem recordSize_eq {size n : ℕ} {stmt : Option MySQLPreparedStatement}
    (h : recordSize size stmt = some n) :
    n = if size > 0 then size else (stmt.map fun mStmt => mStmt.bind.length).getD 0 := by
  unfold recordSize at h
  split at h
  · rename_i hpos
    rw [if_pos hpos, Option.some.inj h]
  · rename_i hpos
    rw [if_neg hpos]
    cases stmt with
    | none =>
        have := Option.some.inj h
        simp only [Option.map_none, Option.getD_none]
        omega
    | some mStmt =>
        simp only [Option.ite_none_right_eq_some, Option.some.injEq] at h
        exact h.2.symm

theorem Sizes.concat {db : StatementDb} {kinds : List ConnectionFlags} {sizes sizes' : List ℕ}
    {flags : ConnectionFlags} (h : Sizes db kinds sizes)
    (hrecord : recordSizes sizes (Connection.initial db flags) = some sizes') :
    Sizes db (kinds ++ [flags]) sizes' := by
  have hinitial : (Connection.initial db flags).length = db.max := by
    simp [Connection.initial, Connection.length_prepared]
  obtain ⟨hlength, hget⟩ := recordSizes_spec hrecord (hinitial ▸ h.length_le)
  have hsize (index : ℕ) (hlt : index < db.max) :
      recordSize (sizes.getD index 0) (Connection.initial db flags)[index] =
        some (sizes'.getD index 0) := by
    rw [← hget index _ (List.getElem?_eq_getElem _), List.getD_eq_getElem?_getD,
      List.getElem?_eq_getElem (by omega)]
    rfl
  refine ⟨Nat.le_of_eq (hlength.trans hinitial), fun _ => hlength.trans hinitial,
    fun index hlt => ?_, fun index => ?_⟩
  · have hshape := shape_initial flags hlt
    rw [Connection.shape, List.getElem?_map, List.getElem?_eq_getElem (hinitial ▸ hlt),
      Option.map_some, Option.some.injEq] at hshape
    rw [recordSize_eq (hsize index hlt), hshape, StatementDb.capacity_concat, h.get index hlt]
  · by_cases hlt : index < db.max
    · exact recordSize_lt (h.lt index) (hsize index hlt)
    · rw [List.getD_eq_getElem?_getD, List.getElem?_eq_none (by omega)]
      decide

theorem opened_prepareStatements (db : StatementDb) (flags : ConnectionFlags) :
    ∃ c, (Connection.opened db flags).prepareStatements db = .ok c ∧
      c.stmts = Connection.initial db flags ∧ c.flags = flags ∧ c.live = true ∧ c.handed = [] ∧
        c.Ready db := by
  have hnil : pointersOf (Connection.opened db flags).stmts = [] :=
    pointersOf_eq_nil fun stmt hmem => by
      rw [List.eq_of_mem_replicate hmem]
      exact unbound_none
  obtain ⟨heap, hrun, howns⟩ :=
    Connection.foldlM_prepareStatement (c := Connection.opened db flags) db db.sources
      (hnil ▸ ObjectHeap.owns_empty) fun source hmem => by
        rw [Connection.opened, List.length_replicate]
        exact db.lt_max source hmem
  have hinitial : Connection.prepared db flags db.sources (Connection.opened db flags).stmts =
      Connection.initial db flags := rfl
  change heap.Owns (pointersOf (Connection.initial db flags)) at howns
  rw [pointersOf_eq_nil Connection.unbound_of_mem_initial] at howns
  exact ⟨_, hrun, hinitial, rfl, rfl, rfl, rfl, Connection.unbound_of_mem_initial, howns, rfl⟩

/-- **The sizes in the pool are the numbers of parameters.** -/
theorem preparePool_spec {db : StatementDb} {done kinds : List ConnectionFlags}
    {sizes sizes' : List ℕ} {connections : List Connection} (hsizes : Sizes db done sizes)
    (h : preparePool db sizes kinds = .ok (sizes', connections)) :
    Sizes db (done ++ kinds) sizes' ∧ ∀ c ∈ connections,
      c.flags ∈ kinds ∧ c.live = true ∧ c.handed = [] ∧ c.Ready db := by
  induction kinds generalizing done sizes connections with
  | nil =>
      cases h
      simpa using hsizes
  | cons flags kinds ih =>
      obtain ⟨c, hprepare, hstmts, hflags, hlive, hhanded, hready⟩ :=
        opened_prepareStatements db flags
      rw [preparePool, hprepare, except_ok_bind, hstmts] at h
      split at h
      · cases h
      · rename_i sizes₁ hrecord
        cases hrest : preparePool db sizes₁ kinds with
        | error e =>
            rw [hrest] at h
            cases h
        | ok rest =>
            obtain ⟨sizes₂, connections'⟩ := rest
            rw [hrest] at h
            cases h
            obtain ⟨hsizes', hall⟩ := ih (hsizes.concat hrecord) hrest
            refine ⟨by simpa using hsizes', fun c' hmem => ?_⟩
            rcases List.mem_cons.mp hmem with rfl | hmem
            · exact ⟨by simp [hflags], hlive, hhanded, hready⟩
            · obtain ⟨hkind, hrest⟩ := hall c' hmem
              exact ⟨List.mem_cons_of_mem _ hkind, hrest⟩

/-! ## Runs -/

/-- What a connection is for: to give MySQL what the callers set. -/
structure Served where
  live : Bool
  handed : List (ℕ × List SqlValue)
  deriving DecidableEq, Repr

/-- A call on one of the connections of a pool. -/
def Served.call (db : StatementDb) (kinds : List ConnectionFlags) (flags : ConnectionFlags)
    (s : Served) (call : Call) : Except StatementError Served :=
  if db.max ≤ call.index then .error .outOfRange
  else if db.capacity kinds call.index < call.args.length then .error .tooManyArguments
  else if s.live then
    match db.params flags call.index with
    | none => .error .notPrepared
    | some count =>
        .ok
          { live := call.stays
            handed := s.handed ++ List.replicate (call.reconnects + 1)
              (call.index, (padded call.args count).map PreparedStatementData.sqlValue) }
  else .ok s

/-- A text gives MySQL no arguments; the connection may end with it. -/
def Served.step (db : StatementDb) (kinds : List ConnectionFlags) (flags : ConnectionFlags)
    (s : Served) : Request → Except StatementError Served
  | .prepared call => s.call db kinds flags call
  | .raw _ stays => .ok { s with live := s.live && stays }

/-- The connection has done what it is for, and has nothing left of it. -/
structure Serves (db : StatementDb) (flags : ConnectionFlags) (c : Connection) (s : Served) :
    Prop where
  ready : c.Ready db
  flags : c.flags = flags
  live : c.live = s.live
  handed : c.handed = s.handed.map fun (index, values) => (index, values.map some)

theorem call_make {db : StatementDb} {kinds : List ConnectionFlags} {sizes : List ℕ}
    (hsizes : Sizes db kinds sizes) (hkinds : kinds ≠ []) (call : Call) :
    call.make sizes =
      if db.max ≤ call.index then .error .outOfRange
      else if db.capacity kinds call.index < call.args.length then .error .tooManyArguments
      else .ok ⟨call.index, padded call.args (db.capacity kinds call.index)⟩ := by
  have hlength := hsizes.length hkinds
  rw [Call.make]
  by_cases hle : db.max ≤ call.index
  · rw [List.getElem?_eq_none (by omega), if_pos hle]
  · have hlt : call.index < sizes.length := by omega
    have hget := hsizes.get call.index (by omega)
    have hcapacity : db.capacity kinds call.index < 256 := by
      have := hsizes.lt call.index
      omega
    rw [List.getD_eq_getElem?_getD, List.getElem?_eq_getElem hlt, Option.getD_some] at hget
    simp only [List.getElem?_eq_getElem hlt, hget, if_neg hle,
      setArguments_replicate call.index hcapacity]
    rw [← ite_not]
    simp only [not_le]

/-- One prepared statement. -/
theorem serves_prepared {db : StatementDb} {kinds : List ConnectionFlags} {sizes : List ℕ}
    {flags : ConnectionFlags} (hsizes : Sizes db kinds sizes) (hmem : flags ∈ kinds)
    (c : Connection) (s : Served) (call : Call) (h : Serves db flags c s) :
    (∃ c' s', c.step db sizes (.prepared call) = .ok c' ∧ s.call db kinds flags call = .ok s' ∧
      Serves db flags c' s') ∨
      ∃ e, c.step db sizes (.prepared call) = .error e ∧
        s.call db kinds flags call = .error e := by
  rw [Connection.step, call_make hsizes (List.ne_nil_of_mem hmem), Served.call]
  split_ifs with hle hargs hlive
  · exact .inr ⟨_, rfl, rfl⟩
  · exact .inr ⟨_, rfl, rfl⟩
  · have hlt : call.index < db.max := Nat.lt_of_not_le hle
    have hshape := shape_initial flags hlt
    rw [← h.flags, ← h.ready.shape] at hshape
    cases hparams : db.params flags call.index with
    | none =>
        refine .inr ⟨_, ?_, rfl⟩
        refine Connection.execute_of_not_prepared db _ _ (h.live.trans hlive) fun n hn => ?_
        rw [hn, h.flags, hparams] at hshape
        cases hshape
    | some count =>
        have hcapacity := StatementDb.capacity_of_params hmem hparams
        have hlength : (padded call.args count).length = count := by
          simp only [padded, List.length_append, List.length_replicate]
          omega
        have hcount : count < 255 := by
          have := hsizes.lt call.index
          rwa [hsizes.get call.index hlt, hcapacity] at this
        have ha : c.Accepts ⟨call.index, padded call.args count⟩ := by
          constructor
          · rw [hlength, hshape, h.flags, hparams]
          · rw [hlength]
            omega
        obtain ⟨c', hrun, hready, hflags, hlive', hhanded⟩ :=
          Connection.execute_of_accepts call.stays call.reconnects h.ready (h.live.trans hlive) ha
        refine .inl ⟨c', _, ?_, rfl, hready, hflags.trans h.flags, hlive', ?_⟩
        · rw [except_ok_bind, hcapacity]
          exact hrun
        · rw [hhanded, h.handed]
          simp [Connection.handedFor]
  · have hlive' : c.live = false := h.live.trans (by simpa using hlive)
    exact .inl ⟨c, s, Connection.execute_of_not_live db _ _ _ hlive', rfl, h⟩

/-- One text. -/
theorem serves_raw {db : StatementDb} {flags : ConnectionFlags} {c : Connection} {s : Served}
    (reconnects : ℕ) (stays : Bool) (h : Serves db flags c s) :
    ∃ c', c.executeRaw db stays reconnects = .ok c' ∧
      Serves db flags c' { s with live := s.live && stays } := by
  cases hlive : c.live with
  | true =>
      obtain ⟨c', hrun, hready, hflags, hlive', hhanded⟩ :=
        Connection.executeRaw_of_ready stays reconnects h.ready hlive
      refine ⟨c', hrun, hready, hflags.trans h.flags, ?_, hhanded.trans h.handed⟩
      rw [hlive', ← h.live, hlive, Bool.true_and]
  | false =>
      refine ⟨c, Connection.executeRaw_of_not_live db stays reconnects hlive, h.ready, h.flags, ?_,
        h.handed⟩
      rw [← h.live, hlive, Bool.false_and]

theorem serves_step {db : StatementDb} {kinds : List ConnectionFlags} {sizes : List ℕ}
    {flags : ConnectionFlags} (hsizes : Sizes db kinds sizes) (hmem : flags ∈ kinds)
    (c : Connection) (s : Served) (request : Request) (h : Serves db flags c s) :
    (∃ c' s', c.step db sizes request = .ok c' ∧ s.step db kinds flags request = .ok s' ∧
      Serves db flags c' s') ∨
      ∃ e, c.step db sizes request = .error e ∧ s.step db kinds flags request = .error e := by
  cases request with
  | prepared call => exact serves_prepared hsizes hmem c s call h
  | raw reconnects stays =>
      obtain ⟨c', hrun, hserves⟩ := serves_raw reconnects stays h
      exact .inl ⟨c', _, hrun, rfl, hserves⟩

/-- **The arguments of every statement reach MySQL**, over every run of statements on a connection
of the pool, whatever reconnects there are.  They fail only where an argument or the statement
has no place; otherwise no memory is left, none is deleted twice, and nothing was bound twice. -/
theorem connection_run (db : StatementDb) (kinds : List ConnectionFlags) {sizes : List ℕ}
    {connections : List Connection}
    (hpool : preparePool db [] kinds = .ok (sizes, connections)) {c : Connection}
    (hc : c ∈ connections) (requests : List Request) :
    (∃ c' s, requests.foldlM (Connection.step db sizes) c = .ok c' ∧
      requests.foldlM (Served.step db kinds c.flags) ⟨true, []⟩ = .ok s ∧
      c'.handed = s.handed.map (fun (index, values) => (index, values.map some)) ∧
      (∀ p block, ¬ c'.heap.Live p block) ∧ c'.rebound = 0) ∨
    ∃ e, requests.foldlM (Connection.step db sizes) c = .error e ∧
      requests.foldlM (Served.step db kinds c.flags) ⟨true, []⟩ = .error e := by
  obtain ⟨hsizes, hall⟩ := preparePool_spec (sizes_nil db) hpool
  obtain ⟨hmem, hlive, hhanded, hready⟩ := hall c hc
  have hstart : Serves db c.flags c ⟨true, []⟩ := ⟨hready, rfl, hlive, hhanded⟩
  refine (foldlM_simulation (serves_step hsizes hmem) hstart requests).imp_left ?_
  rintro ⟨c', s, hrun, hserved, hend⟩
  refine ⟨c', s, hrun, hserved, hend.handed, fun p block hp => ?_, hend.ready.rebound⟩
  have hnone := (hend.ready.owns.live_iff p).mp ⟨block, hp⟩
  simp at hnone

/-- Two statements of the database, each for its kind of connection. -/
def twoStatements : StatementDb where
  max := 2
  sources :=
    [⟨0, ascii "SELECT `ID` FROM `account` WHERE `Name` = ?", .async⟩,
      ⟨1, ascii "SELECT `ID`, `Name`, `GuildID`, `RealmName` FROM account", .synch⟩]
  paramCount := fun sql => sql.count (UInt8.ofNat 0x3f)
  lt_max := List.forall_mem_cons.mpr ⟨Nat.zero_lt_two, List.forall_mem_singleton.mpr Nat.one_lt_two⟩

/-- The pool with a connection of each kind. -/
def twoConnections : List ℕ × List Connection :=
  (preparePool twoStatements [] [.async, .synch]).toOption.getD ([], [])

/-- A look-up on the asynchronous connection, which is lost once, and a text before it, during
which the connection is lost too. -/
def lookUp : List Request :=
  [.raw 1 true, .prepared ⟨0, [.string (ascii "REALM")], 1, true⟩]

theorem connection_run_lookUp :
    ∃ c ∈ twoConnections.2, ∃ c',
      lookUp.foldlM (Connection.step twoStatements twoConnections.1) c = .ok c' ∧
      c'.handed = List.replicate 2 (0, [some (.text (ascii "REALM"))]) ∧
        ∀ p block, ¬ c'.heap.Live p block := by
  have hpool : preparePool twoStatements [] [.async, .synch] =
      .ok (twoConnections.1, twoConnections.2) := rfl
  obtain ⟨c, hc, hflags⟩ : ∃ c ∈ twoConnections.2, c.flags = .async := ⟨_, .head _, rfl⟩
  have hserved : lookUp.foldlM
      (Served.step twoStatements [.async, .synch] .async) ⟨true, []⟩ =
        .ok ⟨true, List.replicate 2 (0, [.text (ascii "REALM")])⟩ := rfl
  rcases connection_run twoStatements [.async, .synch] hpool hc lookUp with
    ⟨c', s, hrun, hs, hhanded, hheap, -⟩ | ⟨e, -, he⟩
  · rw [hflags, hserved] at hs
    cases hs
    exact ⟨c, hc, c', hrun, hhanded, hheap⟩
  · rw [hflags, hserved] at he
    cases he

end WarheadDiscord.Statements
