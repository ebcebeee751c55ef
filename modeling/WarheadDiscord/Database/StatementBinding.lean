import WarheadDiscord.Common.StringConvert
import WarheadDiscord.Database.PreparedResultSet
import WarheadDiscord.Lib.Bytes
import WarheadDiscord.Lib.ObjectHeap

/-!
# The parameters of a prepared statement

A caller sets the arguments of a `PreparedStatement`.  On a connection `BindParameters` copies each
argument to memory of its own and points a `MYSQL_BIND` to it, and `ClearParameters` deletes the
copies behind the call.

`bindParameters_bound` says what MySQL finds behind the pointers: the arguments, a number with its
sign and a text with its length.  `clearParameters_of_owns` says that all of it can be deleted,
once.  Both rest on the parameters being clear before, since `SetParameter` for numbers forgets a
length without deleting it; that they are is the business of the connection.

An argument that is not set is the `bool` with which the variant starts, not NULL.  Numbers are in
memory with the low byte first.

## Main definitions

* `PreparedStatementData`, `PreparedStatement`, `setArguments` — a statement of a caller.
* `MySQLBind`, `MySQLPreparedStatement`, `setParameter`, `bindParameters`, `clearParameters` — a
  statement of a connection.
* `readBind` — what MySQL makes of a `MYSQL_BIND`.
-/

namespace WarheadDiscord.Statements

open Bytes

/-! ## The statement of the caller -/

/-- The variant in `PreparedStatementData`. -/
inductive PreparedStatementData
  | integral (T : IntegralType) (value : { v : ℤ // T.Represents v })
  | float (bits : BitVec 32)
  | double (bits : BitVec 64)
  | string (value : List UInt8)
  | binary (value : List UInt8)
  | null

/-- The variant holds a `bool` at first. -/
instance : Inhabited PreparedStatementData := ⟨.integral .bool ⟨0, by decide⟩⟩

structure PreparedStatement where
  index : ℕ
  /-- `statement_data` -/
  data : List PreparedStatementData

inductive StatementError
  /-- `ASSERT(index < statement_data.size())` -/
  | tooManyArguments
  /-- `ASSERT(m_mStmt)`, or the assertion in `GetPreparedStatement`. -/
  | notPrepared
  /-- `AssertValidIndex` -/
  | invalidIndex
  /-- `m_stmts` is accessed out of its range. -/
  | outOfRange
  /-- `ASSERT(paramCount < std::numeric_limits<uint8>::max())` -/
  | tooManyParameters
  | memory (fault : Fault)
  deriving DecidableEq, Repr

/-- `SetDataTuple`; the index is a `uint8`. -/
def setArguments (stmt : PreparedStatement) :
    ℕ → List PreparedStatementData → Except StatementError PreparedStatement
  | _, [] => .ok stmt
  | index, value :: args =>
      if index < stmt.data.length then
        setArguments { stmt with data := stmt.data.set index value } ((index + 1) % 256) args
      else .error .tooManyArguments

/-! ## The statement of a connection -/

/-- What a parameter gets from `new`. -/
inductive Block
  | chars (content : List UInt8)
  | ulong (value : ℕ)
  deriving DecidableEq, Repr

abbrev Memory := ObjectHeap Block

/-- `MYSQL_BIND`, all zero at first, with the element of `m_paramsSet` beside it. -/
structure MySQLBind where
  bufferType : MySQLType := .decimal
  buffer : Option ℕ := none
  bufferLength : ℕ := 0
  isNullValue : Bool := false
  length : Option ℕ := none
  isUnsigned : Bool := false
  isSet : Bool := false
  deriving DecidableEq, Repr

/-- `m_paramCount` is the length of the list. -/
structure MySQLPreparedStatement where
  bind : List MySQLBind
  queryString : List UInt8
  deriving DecidableEq, Repr

/-- The constructor; `paramCount` is `mysql_stmt_param_count`. -/
def MySQLPreparedStatement.new (paramCount : ℕ) (queryString : List UInt8) :
    MySQLPreparedStatement :=
  ⟨List.replicate paramCount {}, queryString⟩

/-- `MySQLType<T>::value` -/
def mysqlType : IntegralType → MySQLType
  | .bool => .tiny
  | .uint8 => .tiny
  | .uint16 => .short
  | .uint32 => .long
  | .uint64 => .longLong
  | .int8 => .tiny
  | .int16 => .short
  | .int32 => .long
  | .int64 => .longLong

/-- The bytes of a number in memory. -/
def numberBytes (T : IntegralType) (value : ℤ) : List UInt8 :=
  toLE T.size (value % 2 ^ (8 * T.size)).toNat

/-- `SetParameter` for numbers.  It forgets `length` and does not delete it. -/
def setNumber (type : MySQLType) (isUnsigned : Bool) (content : List UInt8) (heap : Memory)
    (param : MySQLBind) : Except Fault (Memory × MySQLBind) := do
  let heap ← heap.release param.buffer
  pure (heap.alloc (.chars content),
    { param with
      bufferType := type
      buffer := some heap.length
      bufferLength := 0
      isNullValue := false
      length := none
      isUnsigned := isUnsigned
      isSet := true })

/-- `SetParameter` for `std::string` and for `std::vector<uint8>`; the size is a `uint32`. -/
def setBytes (type : MySQLType) (value : List UInt8) (heap : Memory) (param : MySQLBind) :
    Except Fault (Memory × MySQLBind) := do
  let len := value.length % 2 ^ 32
  let heap ← heap.release param.buffer
  let buffer := heap.length
  let heap ← (heap.alloc (.chars (value.take len))).release param.length
  pure (heap.alloc (.ulong len),
    { param with
      bufferType := type
      buffer := some buffer
      bufferLength := len
      isNullValue := false
      length := some heap.length
      isSet := true })

/-- `SetParameter` for `nullptr`. -/
def setNull (heap : Memory) (param : MySQLBind) : Except Fault (Memory × MySQLBind) := do
  let heap ← heap.release param.buffer
  let heap ← heap.release param.length
  pure (heap,
    { param with
      bufferType := .null
      buffer := none
      bufferLength := 0
      isNullValue := true
      length := none
      isSet := true })

/-- The overloads of `SetParameter`, behind their assertion. -/
def setParameter : PreparedStatementData → Memory → MySQLBind → Except Fault (Memory × MySQLBind)
  | .integral T value => setNumber (mysqlType T) (!T.isSigned) (numberBytes T value.1)
  | .float bits => setNumber .float false (toLE 4 bits.toNat)
  | .double bits => setNumber .double false (toLE 8 bits.toNat)
  | .string value => setBytes .varString value
  | .binary value => setBytes .blob value
  | .null => setNull

/-- The statement, the memory, and the lines in the log about a parameter that was bound already. -/
structure BindState where
  heap : Memory
  bind : List MySQLBind
  rebound : ℕ

/-- `SetParameter` with `AssertValidIndex`. -/
def BindState.set (s : BindState) (index : ℕ) (value : PreparedStatementData) :
    Except StatementError BindState :=
  match s.bind[index]? with
  | none => .error .invalidIndex
  | some param =>
      match setParameter value s.heap param with
      | .error fault => .error (.memory fault)
      | .ok (heap, param') =>
          .ok
            { heap := heap
              bind := s.bind.set index param'
              rebound := s.rebound + if param.isSet then 1 else 0 }

/-- `BindParameters`; the position is a `uint8`. -/
def bindParameters (s : BindState) : ℕ → List PreparedStatementData →
    Except StatementError BindState
  | _, [] => .ok s
  | pos, value :: data => do
      let s ← s.set pos value
      bindParameters s ((pos + 1) % 256) data

/-- `ClearParameters` -/
def clearParameters (heap : Memory) : List MySQLBind → Except Fault (Memory × List MySQLBind)
  | [] => .ok (heap, [])
  | param :: bind => do
      let heap ← heap.release param.length
      let heap ← heap.release param.buffer
      let (heap, bind) ← clearParameters heap bind
      pure (heap, { param with length := none, buffer := none, isSet := false } :: bind)

/-! ## What MySQL is given -/

inductive SqlValue
  | int (value : ℤ)
  | float (bits : BitVec 32)
  | double (bits : BitVec 64)
  | text (value : List UInt8)
  | blob (value : List UInt8)
  | null
  deriving DecidableEq, Repr

/-- The memory behind `buffer`. -/
def bufferContent (heap : Memory) (param : MySQLBind) : Option (List UInt8) :=
  param.buffer.bind fun p =>
    match heap[p]? with
    | some (some (.chars content)) => some content
    | _ => none

/-- The size of a value of varying size. -/
def bufferSize (heap : Memory) (param : MySQLBind) : Option ℕ :=
  match param.length with
  | none => some param.bufferLength
  | some p =>
      match heap[p]? with
      | some (some (.ulong size)) => some size
      | _ => none

/-- So many bytes of the buffer, if it has them. -/
def bufferBytes (heap : Memory) (param : MySQLBind) (size : ℕ) : Option (List UInt8) :=
  (bufferContent heap param).bind fun content =>
    if size ≤ content.length then some (content.take size) else none

/-- A number in memory. -/
def numberOf (size : ℕ) (isUnsigned : Bool) (bytes : List UInt8) : ℤ :=
  if isUnsigned ∨ ofLE bytes < 2 ^ (8 * size - 1) then ofLE bytes
  else ofLE bytes - 2 ^ (8 * size)

def readNumber (heap : Memory) (param : MySQLBind) (size : ℕ) : Option SqlValue :=
  (bufferBytes heap param size).map fun bytes => .int (numberOf size param.isUnsigned bytes)

/-- The value that `mysql_stmt_execute` takes from a `MYSQL_BIND`. -/
def readBind (heap : Memory) (param : MySQLBind) : Option SqlValue :=
  match param.bufferType with
  | .null => some .null
  | .tiny => readNumber heap param 1
  | .short => readNumber heap param 2
  | .long => readNumber heap param 4
  | .longLong => readNumber heap param 8
  | .float => (bufferBytes heap param 4).map fun bytes => .float (BitVec.ofNat 32 (ofLE bytes))
  | .double => (bufferBytes heap param 8).map fun bytes => .double (BitVec.ofNat 64 (ofLE bytes))
  | .varString =>
      (bufferSize heap param).bind fun size => (bufferBytes heap param size).map .text
  | .blob => (bufferSize heap param).bind fun size => (bufferBytes heap param size).map .blob
  | _ => none

/-- What an argument means.  A size is a `uint32`. -/
def PreparedStatementData.sqlValue : PreparedStatementData → SqlValue
  | .integral _ value => .int value.1
  | .float bits => .float bits
  | .double bits => .double bits
  | .string value => .text (value.take (value.length % 2 ^ 32))
  | .binary value => .blob (value.take (value.length % 2 ^ 32))
  | .null => .null

/-! ## The arguments -/

/-- The arguments, and behind them what was not set. -/
def padded (args : List PreparedStatementData) (capacity : ℕ) : List PreparedStatementData :=
  args ++ List.replicate (capacity - args.length) default

theorem setArguments_eq (index : ℕ) (done rest args : List PreparedStatementData)
    (hsize : done.length + rest.length < 256) :
    setArguments ⟨index, done ++ rest⟩ done.length args =
      if args.length ≤ rest.length then .ok ⟨index, done ++ args ++ rest.drop args.length⟩
      else .error .tooManyArguments := by
  induction args generalizing done rest with
  | nil => simp [setArguments]
  | cons value args ih =>
      cases rest with
      | nil => simp [setArguments]
      | cons old rest =>
          have hset : (done ++ old :: rest).set done.length value = (done ++ [value]) ++ rest := by
            simp
          have hlt : done.length < (done ++ old :: rest).length := by simp
          have hmod : (done.length + 1) % 256 = (done ++ [value]).length := by
            simp only [List.length_cons, List.length_append, List.length_nil] at hsize ⊢
            omega
          simp only [setArguments, if_pos hlt, hset, hmod]
          rw [ih]
          · simp
          · simp only [List.length_append, List.length_cons, List.length_nil] at hsize ⊢
            omega

/-- **`SetArguments` is refused when there are more arguments than parameters**, and sets the
first ones otherwise. -/
theorem setArguments_replicate (index : ℕ) {capacity : ℕ} (hcapacity : capacity < 256)
    (args : List PreparedStatementData) :
    setArguments ⟨index, List.replicate capacity default⟩ 0 args =
      if args.length ≤ capacity then .ok ⟨index, padded args capacity⟩
      else .error .tooManyArguments := by
  have h := setArguments_eq index [] (List.replicate capacity default) args
    (by simpa using hcapacity)
  simpa [padded] using h

/-! ## Binding and clearing -/

/-- What is deleted for a parameter, in its order. -/
def MySQLBind.pointers (param : MySQLBind) : List ℕ := param.length.toList ++ param.buffer.toList

/-- A parameter that nothing is bound to. -/
structure MySQLBind.IsClear (param : MySQLBind) : Prop where
  buffer : param.buffer = none
  length : param.length = none
  isSet : param.isSet = false

/-- `ClearParameters` for one parameter. -/
def MySQLBind.cleared (param : MySQLBind) : MySQLBind :=
  { param with length := none, buffer := none, isSet := false }

theorem MySQLBind.isClear_cleared (param : MySQLBind) : param.cleared.IsClear := ⟨rfl, rfl, rfl⟩

theorem MySQLBind.IsClear.pointers {param : MySQLBind} (h : param.IsClear) :
    param.pointers = [] := by
  simp [MySQLBind.pointers, h.buffer, h.length]

theorem pointers_of_isClear {bind : List MySQLBind} (h : ∀ param ∈ bind, param.IsClear) :
    bind.flatMap MySQLBind.pointers = [] :=
  List.flatMap_eq_nil_iff.mpr fun param hmem => (h param hmem).pointers

/-- **`ClearParameters` deletes what the parameters own**, and nothing else. -/
theorem clearParameters_of_owns {heap : Memory} {bind : List MySQLBind} {ps : List ℕ}
    (h : heap.Owns (bind.flatMap MySQLBind.pointers ++ ps)) :
    ∃ heap', clearParameters heap bind = .ok (heap', bind.map MySQLBind.cleared) ∧
      heap'.Owns ps := by
  induction bind generalizing heap with
  | nil => exact ⟨heap, rfl, h⟩
  | cons param bind ih =>
      simp only [List.flatMap_cons, MySQLBind.pointers, List.append_assoc] at h
      obtain ⟨heap₁, hlength, h₁⟩ := h.release
      obtain ⟨heap₂, hbuffer, h₂⟩ := h₁.release
      obtain ⟨heap₃, hrest, h₃⟩ := ih h₂
      refine ⟨heap₃, ?_, h₃⟩
      simp [clearParameters, hlength, hbuffer, hrest, MySQLBind.cleared]

/-- The memory that is there stays. -/
def Extends (heap heap' : Memory) : Prop := ∀ p b, heap.Live p b → heap'.Live p b

theorem Extends.trans {heap heap' heap'' : Memory} (h : Extends heap heap')
    (h' : Extends heap' heap'') : Extends heap heap'' := fun p b hp => h' p b (h p b hp)

theorem extends_alloc (heap : Memory) (b : Block) : Extends heap (heap.alloc b) :=
  fun _ _ hp => hp.alloc b

section
variable {heap heap' : Memory} {param : MySQLBind}

theorem bufferContent_eq_some {content : List UInt8} :
    bufferContent heap param = some content ↔
      ∃ p, param.buffer = some p ∧ heap.Live p (.chars content) := by
  rw [bufferContent, Option.bind_eq_some_iff]
  refine exists_congr fun p => and_congr_right fun _ => ?_
  rw [ObjectHeap.Live]
  split
  · rename_i content' heq
    simp [heq]
  · rename_i hne
    simp only [reduceCtorEq, false_iff]
    exact hne content

theorem bufferSize_eq_some {size : ℕ} :
    bufferSize heap param = some size ↔
      param.length = none ∧ param.bufferLength = size ∨
        ∃ p, param.length = some p ∧ heap.Live p (.ulong size) := by
  rw [bufferSize]
  split
  · rename_i heq
    simp [heq]
  · rename_i p heq
    simp only [heq, reduceCtorEq, false_and, false_or, Option.some.injEq, exists_eq_left',
      ObjectHeap.Live]
    split
    · rename_i size' hsize
      simp [hsize]
    · rename_i hne
      simp only [reduceCtorEq, false_iff]
      exact hne size

theorem bufferBytes_mono (h : Extends heap heap') {size : ℕ} {bytes : List UInt8}
    (hbytes : bufferBytes heap param size = some bytes) :
    bufferBytes heap' param size = some bytes := by
  obtain ⟨content, hcontent, hif⟩ := Option.bind_eq_some_iff.mp hbytes
  obtain ⟨p, hp, hlive⟩ := bufferContent_eq_some.mp hcontent
  have hcontent' := bufferContent_eq_some.mpr ⟨p, hp, h p _ hlive⟩
  rw [bufferBytes, hcontent']
  exact hif

theorem bufferSize_mono (h : Extends heap heap') {size : ℕ}
    (hsize : bufferSize heap param = some size) : bufferSize heap' param = some size := by
  rw [bufferSize_eq_some] at hsize ⊢
  exact hsize.imp_right fun ⟨p, hp, hlive⟩ => ⟨p, hp, h p _ hlive⟩

theorem map_bufferBytes_mono (h : Extends heap heap') {size : ℕ} {f : List UInt8 → SqlValue}
    {v : SqlValue} (hv : (bufferBytes heap param size).map f = some v) :
    (bufferBytes heap' param size).map f = some v := by
  obtain ⟨bytes, hbytes, rfl⟩ := Option.map_eq_some_iff.mp hv
  rw [bufferBytes_mono h hbytes]
  rfl

theorem bind_bufferSize_mono (h : Extends heap heap') {f : List UInt8 → SqlValue} {v : SqlValue}
    (hv : ((bufferSize heap param).bind fun size => (bufferBytes heap param size).map f) =
      some v) :
    ((bufferSize heap' param).bind fun size => (bufferBytes heap' param size).map f) = some v := by
  obtain ⟨size, hsize, hbytes⟩ := Option.bind_eq_some_iff.mp hv
  rw [bufferSize_mono h hsize]
  exact map_bufferBytes_mono h hbytes

/-- What is bound stays what it is while other parameters are bound. -/
theorem readBind_mono (h : Extends heap heap') {v : SqlValue} (hv : readBind heap param = some v) :
    readBind heap' param = some v := by
  have hnumber : ∀ size, readNumber heap param size = some v →
      readNumber heap' param size = some v := fun _ => map_bufferBytes_mono h
  cases htype : param.bufferType <;> simp only [readBind, htype, reduceCtorEq] at hv ⊢
  case null => exact hv
  case tiny | short | long | longLong => exact hnumber _ hv
  case float | double => exact map_bufferBytes_mono h hv
  case varString | blob => exact bind_bufferSize_mono h hv

end

/-- The bytes of a number are read as the number. -/
theorem numberOf_numberBytes {T : IntegralType} {v : ℤ} (h : T.Represents v) :
    numberOf T.size (!T.isSigned) (numberBytes T v) = v := by
  have hpos : (0 : ℤ) < 2 ^ (8 * T.size) := by positivity
  have hlt := Int.emod_lt_of_pos v hpos
  have hnonneg := Int.emod_nonneg v hpos.ne'
  have hbytes : (ofLE (numberBytes T v) : ℤ) = v % 2 ^ (8 * T.size) := by
    have hpow : (256 : ℕ) ^ T.size = 2 ^ (8 * T.size) := by
      rw [pow_mul]
      norm_num
    have hnat : (v % 2 ^ (8 * T.size)).toNat < 256 ^ T.size := by
      rw [hpow]
      zify
      omega
    rw [numberBytes, ofLE_toLE, Nat.mod_eq_of_lt hnat, Int.toNat_of_nonneg hnonneg]
  rw [numberOf]
  zify
  rw [hbytes]
  cases T <;> simp [IntegralType.Represents, IntegralType.isSigned, IntegralType.size] at h ⊢ <;>
    omega

/-- **`SetParameter` binds the value** to a parameter that is clear. -/
structure Bound (value : PreparedStatementData) (heap heap' : Memory) (param' : MySQLBind) :
    Prop where
  isSet : param'.isSet = true
  value : readBind heap' param' = some value.sqlValue
  ext : Extends heap heap'
  owns : ∀ ps, heap.Owns ps → heap'.Owns (param'.pointers ++ ps)

section
variable {heap : Memory} {param : MySQLBind}

theorem bufferBytes_of_live (param : MySQLBind) {p : ℕ} {content : List UInt8}
    (hbuffer : param.buffer = some p)
    (hlive : heap.Live p (.chars content)) :
    bufferBytes heap param content.length = some content := by
  rw [bufferBytes, bufferContent_eq_some.mpr ⟨p, hbuffer, hlive⟩]
  simp

theorem setNumber_bound {type : MySQLType} {isUnsigned : Bool} {content : List UInt8}
    {value : PreparedStatementData} (hclear : param.IsClear)
    (hread : ∀ heap' param', param'.bufferType = type → param'.isUnsigned = isUnsigned →
      bufferBytes heap' param' content.length = some content →
        readBind heap' param' = some value.sqlValue) :
    ∃ heap' param', setNumber type isUnsigned content heap param = .ok (heap', param') ∧
      Bound value heap heap' param' := by
  have hset : setNumber type isUnsigned content heap param =
      .ok (heap.alloc (.chars content),
        { param with
          bufferType := type
          buffer := some heap.length
          bufferLength := 0
          isNullValue := false
          length := none
          isUnsigned := isUnsigned
          isSet := true }) := by
    simp [setNumber, hclear.buffer, ObjectHeap.release]
  refine ⟨_, _, hset, rfl, ?_, extends_alloc _ _, fun ps hps => hps.alloc _⟩
  exact hread _ _ rfl rfl (bufferBytes_of_live _ rfl (ObjectHeap.live_alloc_self _ _))

theorem setBytes_bound {type : MySQLType} {bytes : List UInt8} {value : PreparedStatementData}
    (hclear : param.IsClear)
    (hread : ∀ heap' param', param'.bufferType = type →
      bufferSize heap' param' = some (bytes.length % 2 ^ 32) →
      bufferBytes heap' param' (bytes.length % 2 ^ 32) =
        some (bytes.take (bytes.length % 2 ^ 32)) → readBind heap' param' = some value.sqlValue) :
    ∃ heap' param', setBytes type bytes heap param = .ok (heap', param') ∧
      Bound value heap heap' param' := by
  have hlength : (bytes.take (bytes.length % 2 ^ 32)).length = bytes.length % 2 ^ 32 := by
    rw [List.length_take]
    exact Nat.min_eq_left (Nat.mod_le _ _)
  have hset : setBytes type bytes heap param =
      .ok ((heap.alloc (.chars (bytes.take (bytes.length % 2 ^ 32)))).alloc
          (.ulong (bytes.length % 2 ^ 32)),
        { param with
          bufferType := type
          buffer := some heap.length
          bufferLength := bytes.length % 2 ^ 32
          isNullValue := false
          length := some (heap.alloc (.chars (bytes.take (bytes.length % 2 ^ 32)))).length
          isSet := true }) := by
    simp [setBytes, hclear.buffer, hclear.length, ObjectHeap.release]
  refine ⟨_, _, hset, rfl, hread _ _ rfl ?_ ?_, ?_, fun ps hps => (hps.alloc _).alloc _⟩
  · exact bufferSize_eq_some.mpr (.inr ⟨_, rfl, ObjectHeap.live_alloc_self _ _⟩)
  · have hbytes := bufferBytes_of_live { param with buffer := some heap.length } rfl
      ((ObjectHeap.live_alloc_self heap (.chars (bytes.take (bytes.length % 2 ^ 32)))).alloc
        (.ulong (bytes.length % 2 ^ 32)))
    rw [hlength] at hbytes
    exact hbytes
  · exact (extends_alloc _ _).trans (extends_alloc _ _)

theorem setNull_bound (hclear : param.IsClear) :
    ∃ heap' param', setNull heap param = .ok (heap', param') ∧
      Bound .null heap heap' param' := by
  have hset : setNull heap param =
      .ok (heap,
        { param with
          bufferType := .null
          buffer := none
          bufferLength := 0
          isNullValue := true
          length := none
          isSet := true }) := by
    simp [setNull, hclear.buffer, hclear.length, ObjectHeap.release]
  exact ⟨_, _, hset, rfl, rfl, fun _ _ => id, fun ps hps => hps⟩

theorem readBind_integral {T : IntegralType} {value : { v : ℤ // T.Represents v }}
    (htype : param.bufferType = mysqlType T) (hunsigned : param.isUnsigned = !T.isSigned)
    (hbytes : bufferBytes heap param (numberBytes T value.1).length =
      some (numberBytes T value.1)) : readBind heap param = some (.int value.1) := by
  have hlength : (numberBytes T value.1).length = T.size := length_toLE _ _
  have hnumber : readNumber heap param T.size = some (.int value.1) := by
    rw [readNumber, ← hlength, hbytes, hlength, hunsigned, Option.map_some,
      numberOf_numberBytes value.2]
  rw [readBind, htype]
  cases T <;> exact hnumber

theorem readBind_float {bits : BitVec 32} (htype : param.bufferType = .float)
    (hbytes : bufferBytes heap param (toLE 4 bits.toNat).length = some (toLE 4 bits.toNat)) :
    readBind heap param = some (.float bits) := by
  have hlt : bits.toNat < 256 ^ 4 := bits.isLt
  rw [length_toLE] at hbytes
  simp only [readBind, htype, hbytes, Option.map_some, ofLE_toLE, Nat.mod_eq_of_lt hlt,
    BitVec.ofNat_toNat, BitVec.setWidth_eq]

theorem readBind_double {bits : BitVec 64} (htype : param.bufferType = .double)
    (hbytes : bufferBytes heap param (toLE 8 bits.toNat).length = some (toLE 8 bits.toNat)) :
    readBind heap param = some (.double bits) := by
  have hlt : bits.toNat < 256 ^ 8 := bits.isLt
  rw [length_toLE] at hbytes
  simp only [readBind, htype, hbytes, Option.map_some, ofLE_toLE, Nat.mod_eq_of_lt hlt,
    BitVec.ofNat_toNat, BitVec.setWidth_eq]

theorem setParameter_bound (heap : Memory) (value : PreparedStatementData)
    (hclear : param.IsClear) :
    ∃ heap' param', setParameter value heap param = .ok (heap', param') ∧
      Bound value heap heap' param' := by
  cases value with
  | integral T value =>
      exact setNumber_bound hclear fun _ _ htype huns hbytes => readBind_integral htype huns hbytes
  | float bits => exact setNumber_bound hclear fun _ _ htype _ => readBind_float htype
  | double bits => exact setNumber_bound hclear fun _ _ htype _ => readBind_double htype
  | string bytes =>
      refine setBytes_bound hclear fun _ _ htype hsize hbytes => ?_
      simp only [readBind, htype, hsize, hbytes, Option.bind_some, Option.map_some,
        PreparedStatementData.sqlValue]
  | binary bytes =>
      refine setBytes_bound hclear fun _ _ htype hsize hbytes => ?_
      simp only [readBind, htype, hsize, hbytes, Option.bind_some, Option.map_some,
        PreparedStatementData.sqlValue]
  | null => exact setNull_bound hclear

end

/-- **`BindParameters` binds each parameter to its value.**  The induction is over the values;
`done` is what was bound before them. -/
theorem bindParameters_bound (data : List PreparedStatementData) (s : BindState)
    (done rest : List MySQLBind) (hbind : s.bind = done ++ rest)
    (hclear : ∀ param ∈ rest, param.IsClear) (hlength : data.length = rest.length)
    (hsize : done.length + data.length < 256)
    (howns : s.heap.Owns (done.flatMap MySQLBind.pointers)) :
    ∃ s' new, bindParameters s done.length data = .ok s' ∧ s'.bind = done ++ new ∧
      s'.rebound = s.rebound ∧ Extends s.heap s'.heap ∧
      new.map (readBind s'.heap) = data.map (fun value => some value.sqlValue) ∧
      s'.heap.Owns (s'.bind.flatMap MySQLBind.pointers) := by
  induction data generalizing s done rest with
  | nil =>
      have hrest : rest = [] := List.eq_nil_of_length_eq_zero hlength.symm
      subst hrest
      refine ⟨s, [], rfl, hbind, rfl, fun _ _ => id, rfl, ?_⟩
      rw [hbind, List.append_nil]
      exact howns
  | cons value data ih =>
      cases rest with
      | nil => cases hlength
      | cons param rest =>
          have hparam := hclear param (by simp)
          obtain ⟨heap', param', hset, hbound⟩ := setParameter_bound s.heap value hparam
          have hget : s.bind[done.length]? = some param := by simp [hbind]
          have hstep : s.set done.length value =
              .ok ⟨heap', done ++ [param'] ++ rest, s.rebound⟩ := by
            rw [BindState.set, hget]
            simp only [hset, hbind, hparam.isSet]
            simp
          have howns' : heap'.Owns ((done ++ [param']).flatMap MySQLBind.pointers) := by
            refine (hbound.owns _ howns).perm ?_
            rw [List.flatMap_append]
            simpa using List.perm_append_comm
          have hmod : (done.length + 1) % 256 = (done ++ [param']).length := by
            simp only [List.length_cons, List.length_append, List.length_nil] at hsize ⊢
            omega
          obtain ⟨s', new, hrun, hbind', hrebound, hext, hread, howns''⟩ :=
            ih ⟨heap', done ++ [param'] ++ rest, s.rebound⟩ (done ++ [param']) rest rfl
              (fun param hmem => hclear param (List.mem_cons_of_mem _ hmem))
              (by simpa using hlength)
              (by
                simp only [List.length_cons, List.length_append, List.length_nil] at hsize ⊢
                omega)
              howns'
          refine ⟨s', param' :: new, ?_, by rw [hbind']; simp, hrebound, hbound.ext.trans hext, ?_,
            howns''⟩
          · rw [bindParameters, hstep, except_ok_bind, hmod]
            exact hrun
          · rw [List.map_cons, List.map_cons, hread, readBind_mono hext hbound.value]

end WarheadDiscord.Statements
