import Mathlib.Algebra.GroupWithZero.Nat
import WarheadDiscord.Lib.Memory

/-!
# The result of a prepared statement

The constructor of `PreparedResultSet` has the whole result stored by the client library, binds a
buffer to each column, and fetches the rows one after the other.  The buffers of all columns are in
one block of memory, a row after the other; when a column has a value, its buffer moves on by the
size of a row.  Each value is an entry of `m_rows`, with the address and the length of its bytes.

The constructor has four exits.  Three of them leave `m_rows` empty, and one of these, when the
buffers cannot be bound, comes after the number of rows was set.  The functions that read the result
ask for the number of rows only, and so does `Query`.  `preparedInRange_iff` says when this is
enough.

Of the client library, the model has what the calls of the constructor return.  A fetch writes at
most `buffer_length` octets of a value to its buffer, and nothing for a NULL.

## Main definitions

* `MySQLField`, `sizeForType` — the columns.
* `StatementReplies` — what the client library returns.
* `readColumn`, `readColumns`, `readRow`, `readRows` — the loop that fetches the rows.
* `PreparedResultSet`, `PreparedResultSet.new` — the object and its constructor.
* `ResultCall` — the functions that read it.
* `PreparedInRange` — what is promised of it.
-/

namespace WarheadDiscord

open Memory

/-- `enum_field_types`; `other` is whatever `SizeForType` has no case for. -/
inductive MySQLType
  | null
  | tiny
  | year
  | short
  | int24
  | long
  | float
  | double
  | longLong
  | bit
  | timestamp
  | date
  | time
  | dateTime
  | tinyBlob
  | mediumBlob
  | longBlob
  | blob
  | string
  | varString
  | decimal
  | newDecimal
  | other
  deriving DecidableEq, Repr

namespace MySQLType

/-- The types whose values are terminated by a zero if there is room for it. -/
def isTerminated : MySQLType → Bool
  | .tinyBlob => true
  | .mediumBlob => true
  | .longBlob => true
  | .blob => true
  | .string => true
  | .varString => true
  | _ => false

end MySQLType

/-- `MYSQL_FIELD` -/
structure MySQLField where
  type : MySQLType
  maxLength : ℕ
  deriving DecidableEq, Repr

/-- `SizeForType`, a `uint32`; the size of a `MYSQL_TIME` is that of the client library. -/
def sizeForType (timeSize : ℕ) (field : MySQLField) : ℕ :=
  match field.type with
  | .null => 0
  | .tiny => 1
  | .year => 2
  | .short => 2
  | .int24 => 4
  | .long => 4
  | .float => 4
  | .double => 8
  | .longLong => 8
  | .bit => 8
  | .timestamp => timeSize % 2 ^ 32
  | .date => timeSize % 2 ^ 32
  | .time => timeSize % 2 ^ 32
  | .dateTime => timeSize % 2 ^ 32
  | .tinyBlob => (field.maxLength + 1) % 2 ^ 32
  | .mediumBlob => (field.maxLength + 1) % 2 ^ 32
  | .longBlob => (field.maxLength + 1) % 2 ^ 32
  | .blob => (field.maxLength + 1) % 2 ^ 32
  | .string => (field.maxLength + 1) % 2 ^ 32
  | .varString => (field.maxLength + 1) % 2 ^ 32
  | .decimal => 64
  | .newDecimal => 64
  | .other => 0

/-- A row: the octets of its values, and `none` for NULL. -/
abbrev FetchedRow := ℕ → Option (List UInt8)

/-- What the client library returns to the constructor. -/
structure StatementReplies where
  /-- There is a `MYSQL_RES` with the metadata. -/
  metadata : Bool
  /-- `mysql_stmt_store_result` succeeds. -/
  stored : Bool
  /-- `mysql_stmt_num_rows` -/
  numRows : ℕ
  /-- `mysql_stmt_bind_result` succeeds. -/
  bound : Bool
  /-- `mysql_stmt_fetch`, for each row: `none` if it returns neither zero nor
  `MYSQL_DATA_TRUNCATED`. -/
  fetch : ℕ → Option FetchedRow

/-! ## The buffers -/

/-- An element of `m_rBind`.  Addresses count from the start of `dataBuffer`. -/
structure ResultBind where
  type : MySQLType
  bufferLength : ℕ
  buffer : ℕ
  deriving DecidableEq, Repr

/-- The loop that binds the buffers, from an offset on. -/
def bindColumns (timeSize : ℕ) : ℕ → List MySQLField → List ResultBind
  | _, [] => []
  | offset, field :: fields =>
      ⟨field.type, sizeForType timeSize field, offset⟩ ::
        bindColumns timeSize ((offset + sizeForType timeSize field) % 2 ^ 32) fields

def rowSize (timeSize : ℕ) (fields : List MySQLField) : ℕ := (fields.map (sizeForType timeSize)).sum

/-- The size of `dataBuffer`: the product is a `size_t`. -/
def bufferSize (timeSize : ℕ) (fields : List MySQLField) (rowCount : ℕ) : ℕ :=
  rowSize timeSize fields * rowCount % 2 ^ 64

/-- A value that is fetched to its buffer. -/
structure ResultCell where
  row : ℕ
  column : ℕ
  type : MySQLType
  address : ℕ
  bufferLength : ℕ
  data : List UInt8
  deriving DecidableEq, Repr

namespace ResultCell

/-- The write of the fetch. -/
def fetched (c : ResultCell) : Write UInt8 := ⟨c.address, c.data.take c.bufferLength⟩

/-- The write of the terminating zero. -/
def terminator (c : ResultCell) : List (Write UInt8) :=
  if c.type.isTerminated ∧ c.data.length < c.bufferLength then [⟨c.address + c.data.length, [0]⟩]
  else []

end ResultCell

/-- What is in an element of `m_rows`: `unset` before `SetByteValue`. -/
inductive FieldBytes
  | unset
  | null
  | bytes (address length : ℕ)
  deriving DecidableEq, Repr

/-- The state of the loop: `buffers` are those of `m_stmt->bind`.  Beside it are the values that
were fetched and the writes to the memory. -/
structure Buffering where
  rowPosition : ℕ := 0
  buffers : ℕ → ℕ
  rows : List FieldBytes
  cells : List ResultCell := []
  writes : List (Write UInt8) := []

/-- `uint32(m_rowPosition) * m_fieldCount` -/
def rowStart (rowPosition fieldCount : ℕ) : ℕ := rowPosition % 2 ^ 32 * fieldCount % 2 ^ 32

section Loop
variable (rowSize fieldCount : ℕ) (row : FetchedRow)

def readColumn (fIndex : ℕ) (bind : ResultBind) (s : Buffering) : Buffering :=
  let index := (rowStart s.rowPosition fieldCount + fIndex) % 2 ^ 32
  match row fIndex with
  | some data =>
      let buffer := s.buffers fIndex
      let cell : ResultCell :=
        ⟨s.rowPosition, fIndex, bind.type, buffer, bind.bufferLength, data⟩
      { s with
        buffers := Function.update s.buffers fIndex (buffer + rowSize)
        rows := s.rows.set index (.bytes buffer data.length)
        cells := s.cells ++ [cell]
        writes := s.writes ++ cell.terminator }
  | none => { s with rows := s.rows.set index .null }

/-- The loop over the columns, from one of them on. -/
def readColumns : ℕ → List ResultBind → Buffering → Buffering
  | _, [], s => s
  | fIndex, bind :: binds, s =>
      readColumns (fIndex + 1) binds (readColumn rowSize fieldCount row fIndex bind s)

/-- The values of the row, where they are written to. -/
def rowCells (binds : List ResultBind) (s : Buffering) : List ResultCell :=
  binds.zipIdx.filterMap fun bind => (row bind.2).map fun data =>
    ⟨s.rowPosition, bind.2, bind.1.type, s.buffers bind.2, bind.1.bufferLength, data⟩

/-- The writes of the fetch, and then the loop over the columns. -/
def readRow (binds : List ResultBind) (s : Buffering) : Buffering :=
  let s := { s with writes := s.writes ++ (rowCells row binds s).map ResultCell.fetched }
  let s := readColumns rowSize fieldCount row 0 binds s
  { s with rowPosition := s.rowPosition + 1 }

end Loop

/-- `while (_NextRow())`, with so many rows to go. -/
def readRows (rowSize fieldCount : ℕ) (fetch : ℕ → Option FetchedRow) (binds : List ResultBind) :
    ℕ → Buffering → Buffering
  | 0, s => s
  | n + 1, s =>
      match fetch s.rowPosition with
      | none => s
      | some row =>
          readRows rowSize fieldCount fetch binds n (readRow rowSize fieldCount row binds s)

/-- The state after the loop. -/
def bufferRows (timeSize : ℕ) (fields : List MySQLField) (rowCount : ℕ)
    (fetch : ℕ → Option FetchedRow) : Buffering :=
  let binds := bindColumns timeSize 0 fields
  readRows (rowSize timeSize fields) fields.length fetch binds rowCount
    { buffers := fun i => ((binds[i]?).map ResultBind.buffer).getD 0
      rows := List.replicate (rowStart rowCount fields.length) .unset }

/-! ## The object -/

structure PreparedResultSet where
  rowCount : ℕ
  rowPosition : ℕ
  fieldCount : ℕ
  rows : List FieldBytes
  deriving DecidableEq, Repr

namespace PreparedResultSet

/-- The constructor. -/
def new (timeSize : ℕ) (fields : List MySQLField) (rowCount : ℕ) (replies : StatementReplies) :
    PreparedResultSet :=
  if replies.metadata = false then ⟨rowCount, 0, fields.length, []⟩
  else if replies.stored = false then ⟨rowCount, 0, fields.length, []⟩
  else if replies.bound = false then ⟨replies.numRows, 0, fields.length, []⟩
  else
    ⟨replies.numRows, 0, fields.length,
      (bufferRows timeSize fields replies.numRows replies.fetch).rows⟩

/-- The position is a `uint64`. -/
def nextRow (r : PreparedResultSet) : Bool × PreparedResultSet :=
  let rowPosition := (r.rowPosition + 1) % 2 ^ 64
  (rowPosition < r.rowCount, { r with rowPosition := rowPosition })

/-- The index of `Fetch`, if its assertion holds. -/
def fetch (r : PreparedResultSet) : Option ℕ :=
  if r.rowPosition < r.rowCount then some (rowStart r.rowPosition r.fieldCount) else none

/-- The index of `operator[]`, if its assertions hold. -/
def get (r : PreparedResultSet) (index : ℕ) : Option ℕ :=
  if r.rowPosition < r.rowCount ∧ index < r.fieldCount then
    some (rowStart r.rowPosition r.fieldCount + index)
  else none

end PreparedResultSet

/-- The functions that read a result. -/
inductive ResultCall
  | nextRow
  | fetch
  | get (index : ℕ)
  deriving DecidableEq, Repr

namespace PreparedResultSet

def call (r : PreparedResultSet) : ResultCall → PreparedResultSet
  | .nextRow => r.nextRow.2
  | _ => r

/-- The element of `m_rows` that a call is for. -/
def accessed (r : PreparedResultSet) : ResultCall → Option ℕ
  | .nextRow => none
  | .fetch => r.fetch
  | .get index => r.get index

/-- What `DatabaseWorkerPool::Query` returns of a result. -/
def query (r : PreparedResultSet) : Option PreparedResultSet :=
  if r.rowCount = 0 then none else some r

end PreparedResultSet

/-- There is an element for every field of every row, no call is for another one, and `Query`
returns a result only if there is a row in it. -/
structure PreparedInRange (r : PreparedResultSet) : Prop where
  rows : r.rows.length = r.rowCount * r.fieldCount
  calls : ∀ (calls : List ResultCall) (call : ResultCall) (i : ℕ),
    (calls.foldl PreparedResultSet.call r).accessed call = some i → i < r.rows.length
  query : ∀ q, r.query = some q → 0 < q.rowCount ∧ 0 < q.fieldCount ∧
    q.fieldCount ≤ q.rows.length

/-! ## The size of `m_rows` -/

section Rows
variable {size fieldCount : ℕ}

theorem length_rows_readColumns (row : FetchedRow) (fIndex : ℕ) (binds : List ResultBind)
    (s : Buffering) :
    (readColumns size fieldCount row fIndex binds s).rows.length = s.rows.length := by
  induction binds generalizing fIndex s with
  | nil => rfl
  | cons bind binds ih =>
      rw [readColumns, ih, readColumn]
      split
      · exact List.length_set
      · exact List.length_set

theorem length_rows_readRows (fetch : ℕ → Option FetchedRow) (binds : List ResultBind) (n : ℕ)
    (s : Buffering) :
    (readRows size fieldCount fetch binds n s).rows.length = s.rows.length := by
  induction n generalizing s with
  | zero => rfl
  | succ n ih =>
      rw [readRows]
      split
      · rfl
      · rw [ih, readRow]
        exact length_rows_readColumns _ _ _ _

end Rows

theorem length_rows_bufferRows (timeSize : ℕ) (fields : List MySQLField) (rowCount : ℕ)
    (fetch : ℕ → Option FetchedRow) :
    (bufferRows timeSize fields rowCount fetch).rows.length = rowStart rowCount fields.length := by
  rw [bufferRows, length_rows_readRows, List.length_replicate]

theorem rowStart_of_lt {rowPosition fieldCount : ℕ} (h : rowPosition * fieldCount < 2 ^ 32) :
    rowStart rowPosition fieldCount = rowPosition * fieldCount := by
  rw [rowStart]
  cases fieldCount with
  | zero => rfl
  | succ fieldCount =>
      have hle : rowPosition ≤ rowPosition * (fieldCount + 1) :=
        Nat.le_mul_of_pos_right _ (Nat.succ_pos _)
      rw [Nat.mod_eq_of_lt (Nat.lt_of_le_of_lt hle h), Nat.mod_eq_of_lt h]

/-! ## Reading -/

namespace PreparedResultSet
variable {r : PreparedResultSet}

theorem foldl_call (r : PreparedResultSet) (calls : List ResultCall) :
    ∃ rowPosition, calls.foldl call r = { r with rowPosition := rowPosition } := by
  induction calls generalizing r with
  | nil => exact ⟨r.rowPosition, rfl⟩
  | cons c calls ih =>
      obtain ⟨rowPosition, h⟩ := ih (r.call c)
      refine ⟨rowPosition, ?_⟩
      rw [List.foldl_cons, h]
      cases c <;> rfl

/-- With an element for every field of every row, no call is for another one. -/
theorem accessed_lt (hrows : r.rows.length = r.rowCount * r.fieldCount)
    (hlt : r.rowCount * r.fieldCount < 2 ^ 32) (hfields : 0 < r.fieldCount) {c : ResultCall} {i : ℕ}
    (h : r.accessed c = some i) : i < r.rows.length := by
  have hrow (hposition : r.rowPosition < r.rowCount) :
      rowStart r.rowPosition r.fieldCount + r.fieldCount ≤ r.rows.length := by
    have hnext : (r.rowPosition + 1) * r.fieldCount ≤ r.rowCount * r.fieldCount :=
      Nat.mul_le_mul_right _ hposition
    rw [Nat.succ_mul] at hnext
    rw [hrows, rowStart_of_lt (by omega)]
    exact hnext
  cases c with
  | nextRow => cases h
  | fetch =>
      rw [accessed, fetch] at h
      split_ifs at h with hposition
      cases h
      have := hrow hposition
      omega
  | get index =>
      rw [accessed, get] at h
      split_ifs at h with hposition
      cases h
      have := hrow hposition.1
      omega

theorem query_of_pos (h : 0 < r.rowCount) : r.query = some r := if_neg (Nat.ne_of_gt h)

/-- Without rows there is nothing to read. -/
theorem inRange_of_rowCount_eq_zero (hcount : r.rowCount = 0) (hrows : r.rows = []) :
    PreparedInRange r := by
  refine ⟨by rw [hrows, hcount, Nat.zero_mul]; rfl, ?_, ?_⟩
  · intro calls c i h
    obtain ⟨rowPosition, hcalls⟩ := foldl_call r calls
    rw [hcalls] at h
    cases c with
    | nextRow => cases h
    | fetch => simp [accessed, fetch, hcount] at h
    | get index => simp [accessed, get, hcount] at h
  · intro q hq
    rw [query, if_pos hcount] at hq
    cases hq

end PreparedResultSet

/-- The last exit of the constructor. -/
theorem PreparedResultSet.inRange_buffered_iff (timeSize : ℕ) (fields : List MySQLField)
    (numRows : ℕ) (fetch : ℕ → Option FetchedRow) (hlt : numRows * fields.length < 2 ^ 32) :
    PreparedInRange ⟨numRows, 0, fields.length, (bufferRows timeSize fields numRows fetch).rows⟩ ↔
      numRows = 0 ∨ fields ≠ [] := by
  have hlength : (bufferRows timeSize fields numRows fetch).rows.length =
      numRows * fields.length := by rw [length_rows_bufferRows, rowStart_of_lt hlt]
  constructor
  · intro h
    by_cases hrows : numRows = 0
    · exact .inl hrows
    · obtain ⟨-, hfields, -⟩ := h.query _ (query_of_pos (Nat.pos_of_ne_zero hrows))
      exact .inr (List.length_pos_iff.mp hfields)
  · intro h
    by_cases hrows : numRows = 0
    · refine inRange_of_rowCount_eq_zero hrows ?_
      rw [← List.length_eq_zero_iff, hlength, hrows, Nat.zero_mul]
    · have hfields : 0 < fields.length := List.length_pos_iff.mpr (h.resolve_left hrows)
      refine ⟨hlength, ?_, ?_⟩
      · intro calls c i haccessed
        obtain ⟨rowPosition, hcalls⟩ := foldl_call
          ⟨numRows, 0, fields.length, (bufferRows timeSize fields numRows fetch).rows⟩ calls
        rw [hcalls] at haccessed
        exact accessed_lt (r := ⟨numRows, rowPosition, fields.length, _⟩) hlength hlt hfields
          haccessed
      · intro q hq
        rw [query_of_pos (Nat.pos_of_ne_zero hrows)] at hq
        cases hq
        refine ⟨Nat.pos_of_ne_zero hrows, hfields, ?_⟩
        rw [hlength]
        exact Nat.le_mul_of_pos_left _ (Nat.pos_of_ne_zero hrows)

/-- **A result is in range exactly if it has no rows, or all calls of the client library succeeded
and it has a column.** -/
theorem preparedInRange_iff (timeSize : ℕ) (fields : List MySQLField) (rowCount : ℕ)
    (replies : StatementReplies)
    (hlt : (if replies.metadata && replies.stored then replies.numRows else rowCount) *
      fields.length < 2 ^ 32) :
    PreparedInRange (PreparedResultSet.new timeSize fields rowCount replies) ↔
      (if replies.metadata && replies.stored then replies.numRows else rowCount) = 0 ∨
        replies.metadata = true ∧ replies.stored = true ∧ replies.bound = true ∧ fields ≠ [] := by
  have hnot {n : ℕ} (hn : n ≠ 0) : ¬ PreparedInRange ⟨n, 0, fields.length, []⟩ := by
    intro h
    obtain ⟨-, hfields, hrow⟩ := h.query _ (PreparedResultSet.query_of_pos (Nat.pos_of_ne_zero hn))
    exact absurd hrow (Nat.not_le.mpr hfields)
  have hempty {n : ℕ} : PreparedInRange ⟨n, 0, fields.length, []⟩ ↔ n = 0 := by
    constructor
    · intro h
      by_contra hn
      exact hnot hn h
    · intro hn
      exact PreparedResultSet.inRange_of_rowCount_eq_zero hn rfl
  rw [PreparedResultSet.new]
  cases hmetadata : replies.metadata with
  | false => simpa using hempty
  | true =>
      cases hstored : replies.stored with
      | false => simpa using hempty
      | true =>
          cases hbound : replies.bound with
          | false => simpa using hempty
          | true =>
              have hlast := PreparedResultSet.inRange_buffered_iff timeSize fields replies.numRows
                replies.fetch (by simpa [hmetadata, hstored] using hlt)
              simpa using hlast

/-- A column of integers. -/
def idColumn : List MySQLField := [⟨.long, 0⟩]

/-- Two rows, of which the second cannot be fetched. -/
def twoRows (bound : Bool) : StatementReplies where
  metadata := true
  stored := true
  numRows := 2
  bound := bound
  fetch row := if row = 0 then some fun _ => some [1, 0, 0, 0] else none

theorem preparedInRange_twoRows :
    PreparedInRange (PreparedResultSet.new 40 idColumn 0 (twoRows true)) :=
  (preparedInRange_iff 40 idColumn 0 (twoRows true) (by decide)).mpr (.inr (by decide))

/-- The buffers cannot be bound: there is no element, but `Query` returns the result, and `Fetch`
takes the first one. -/
theorem not_preparedInRange_twoRows :
    ¬ PreparedInRange (PreparedResultSet.new 40 idColumn 0 (twoRows false)) ∧
      (PreparedResultSet.new 40 idColumn 0 (twoRows false)).query =
        some ⟨2, 0, 1, []⟩ ∧
      (PreparedResultSet.new 40 idColumn 0 (twoRows false)).fetch = some 0 := by
  refine ⟨?_, rfl, rfl⟩
  intro h
  exact absurd h.rows (by decide)

end WarheadDiscord
