import Mathlib.Tactic.IntervalCases
import Mathlib.Tactic.Positivity
import WarheadDiscord.Common.StringConvert
import WarheadDiscord.Database.Field

/-!
# `Field::GetData` on integer columns

A row of an ad-hoc query has the decimal texts of its columns, and `GetData<T>` converts
the text.  A row of a prepared statement has the columns one behind the other in a buffer,
and `GetData<T>` reads `sizeof(T)` octets at the column.  A `T` that is wider than the
column reads what lies behind it.

Behind that, `GetData` looks at the alias of the column.  An alias that begins like an
aggregate function sends it to `GetData<double>` or `GetData<uint64>`, which look at the
same alias: on an integer column `sum(..)` and `avg(..)` never return, nor does
`count(..)` unless the column is a `BIGINT`.

`agrees_iff` says for which columns and getters the two kinds of rows agree.  What
`GetData<double>` computes from a field is a parameter.

## Main definitions

* `DatabaseFieldTypes`, `IntColumn` — the types of the columns.
* `Field`, `Field.getData`, `Field.getSeconds` — the getters; with no fuel left there is no
  result.
* `Agrees` — both kinds of rows give the value of the column.
* `AliasAllows` — the alias does not get in the way.
-/

namespace WarheadDiscord

open Bytes

inductive DatabaseFieldTypes
  | null
  | int8
  | int16
  | int32
  | int64
  | float
  | double
  | decimal
  | date
  | binary
  deriving DecidableEq, Repr

/-- The integer types among the types of MySQL. -/
inductive IntColumnType
  | tiny
  | short
  | int24
  | long
  | longlong
  deriving DecidableEq, Repr

/-- An integer column of a result, with the names that the result has for it. -/
structure IntColumn where
  type : IntColumnType
  unsigned : Bool
  tableName : List UInt8
  aliasName : List UInt8
  deriving DecidableEq, Repr

/-- What `GetData` uses of `QueryResultFieldMetadata`. -/
structure FieldMeta where
  tableName : List UInt8
  aliasName : List UInt8
  type : DatabaseFieldTypes

namespace IntColumn

/-- `SizeForType` -/
def sizeForType (column : IntColumn) : ℕ :=
  match column.type with
  | .tiny => 1
  | .short => 2
  | .int24 => 4
  | .long => 4
  | .longlong => 8

/-- `MysqlTypeToFieldType` -/
def fieldType (column : IntColumn) : DatabaseFieldTypes :=
  match column.type with
  | .tiny => .int8
  | .short => .int16
  | .int24 => .int32
  | .long => .int32
  | .longlong => .int64

/-- The bits of a value of the column: a `MEDIUMINT` has 24 of them, in four octets. -/
def bits (column : IntColumn) : ℕ :=
  match column.type with
  | .int24 => 24
  | _ => 8 * column.sizeForType

/-- The number is a value of the column. -/
def Holds (column : IntColumn) (v : ℤ) : Prop :=
  if column.unsigned then 0 ≤ v ∧ v < 2 ^ column.bits
  else -2 ^ (column.bits - 1) ≤ v ∧ v < 2 ^ (column.bits - 1)

instance (column : IntColumn) (v : ℤ) : Decidable (column.Holds v) := by
  unfold Holds
  infer_instance

/-- `InitializeDatabaseFieldMetadata` -/
def info (column : IntColumn) : FieldMeta := ⟨column.tableName, column.aliasName, column.fieldType⟩

/-- The value as it is bound: its low octets. -/
def bound (column : IntColumn) (v : ℤ) : Column where
  bytes := toLE column.sizeForType (v % 2 ^ (8 * column.sizeForType)).toNat

end IntColumn

/-- A field of a row: the memory from `data.value` on, or the null pointer. -/
structure Field where
  value : Option (List UInt8)
  raw : Bool
  info : FieldMeta

/-- The types that `GetData` is called with on the way. -/
inductive GetType
  | integral (T : IntegralType)
  | double
  deriving DecidableEq

namespace FieldMeta

/-- `GetCleanAliasName` -/
def cleanAliasName (info : FieldMeta) : Option (List UInt8) :=
  if 0x28 ∈ info.aliasName then some (info.aliasName.takeWhile fun c => c ≠ 0x28) else none

/-- The alias begins with the name of the function and a bracket. -/
def Calls (info : FieldMeta) (name : String) : Prop :=
  ∃ clean, info.cleanAliasName = some clean ∧ stringEqualI clean (ascii name) = true

instance (info : FieldMeta) (name : String) : Decidable (info.Calls name) :=
  match h : info.cleanAliasName with
  | none => .isFalse (by rintro ⟨clean, hclean, -⟩; rw [h] at hclean; cases hclean)
  | some clean =>
      decidable_of_iff (stringEqualI clean (ascii name) = true) (by simp [Calls, h])

/-- `IsCorrectAlias` for `sum` and `avg`. -/
def correctForSum (info : FieldMeta) (T : GetType) : Bool :=
  T = .double && info.type = .decimal

/-- `IsCorrectAlias` for `count`. -/
def correctForCount (info : FieldMeta) (T : GetType) : Bool :=
  T = .integral .uint64 && info.type = .int64

end FieldMeta

/-- The text at a pointer. -/
def cString (memory : List UInt8) : List UInt8 := memory.takeWhile fun c => c ≠ 0

/-- `*reinterpret_cast<T const*>(data.value)` -/
def readRaw (T : IntegralType) (memory : List UInt8) : ℤ :=
  T.convert (ofLE (memory.take T.size))

namespace GetType

/-- The conversion of what another getter returns. -/
def convert : GetType → ℤ → ℤ
  | .integral T, v => T.convert v
  | .double, v => v

/-- `GetDefaultValue` -/
def default : GetType → ℤ
  | .integral _ => 0
  | .double => 1

end GetType

namespace Field

/-- What `GetData<T>` reads before it looks at the metadata. -/
def read (readDouble : Field → Option ℤ) (f : Field) (memory : List UInt8) : GetType → Option ℤ
  | .integral T => if f.raw then some (readRaw T memory) else stringTo T (cString memory)
  | .double => readDouble f

/-- A number in a `_dbc` table that is not a `uint32` but an `int32`. -/
def IsDbcNumber (f : Field) (memory : List UInt8) (T : GetType) (result : Option ℤ) : Prop :=
  T = .integral .uint32 ∧ 4 < f.info.tableName.length ∧
    (stringTo .int32 (cString memory)).isSome ∧ result = none ∧
    f.info.tableName.drop (f.info.tableName.length - 4) = ascii "_dbc"

instance (f : Field) (memory : List UInt8) (T : GetType) (result : Option ℤ) :
    Decidable (f.IsDbcNumber memory T result) := by
  unfold IsDbcNumber
  infer_instance

def getData (readDouble : Field → Option ℤ) : ℕ → GetType → Field → Option ℤ
  | 0, _, _ => none
  | fuel + 1, T, f =>
      match f.value with
      | none => some T.default
      | some memory =>
          let result := f.read readDouble memory T
          if f.IsDbcNumber memory T result then
            (getData readDouble fuel (.integral .int32) f).map T.convert
          else if (f.info.Calls "sum" ∨ f.info.Calls "avg") ∧ ¬ f.info.correctForSum T then
            (getData readDouble fuel .double f).map T.convert
          else if f.info.Calls "count" ∧ ¬ f.info.correctForCount T then
            (getData readDouble fuel (.integral .uint64) f).map T.convert
          else some (result.getD T.default)

/-- `Get<Seconds>`; the count of `Seconds` is an `int64`. -/
def getSeconds (readDouble : Field → Option ℤ) (fuel : ℕ) (convertToUin32 : Bool) (f : Field) :
    Option ℤ :=
  (getData readDouble fuel (.integral (if convertToUin32 then .uint32 else .uint64)) f).map
    IntegralType.int64.convert

/-- A field of an ad-hoc query: the text, its terminator and what is behind it. -/
def ofText (info : FieldMeta) (text rest : List UInt8) : Field :=
  ⟨some (text ++ 0 :: rest), false, info⟩

/-- A field of a prepared statement: the column behind those before it in the row, in
front of the others and of the memory behind the row. -/
def ofRow (info : FieldMeta) (before : List Column) (column : Column) (behind : List Column)
    (beyond : List UInt8) : Field :=
  ⟨((fieldsOf (before ++ column :: behind) beyond).getD before.length ⟨none⟩).value, true, info⟩

end Field

/-- The getter returns the value. -/
def Returns (readDouble : Field → Option ℤ) (T : IntegralType) (f : Field) (v : ℤ) : Prop :=
  ∃ fuel, f.getData readDouble fuel (.integral T) = some v

/-- For every value of the column that the type can represent, both kinds of rows give the
value, whatever is around it, and `Get<Seconds>` too where it goes through that type. -/
def Agrees (readDouble : Field → Option ℤ) (column : IntColumn) (T : IntegralType) : Prop :=
  ∀ v, column.Holds v → T.Represents v → ∀ rest before behind beyond,
    Returns readDouble T (.ofText column.info (decimalText v) rest) v ∧
      Returns readDouble T (.ofRow column.info before (column.bound v) behind beyond) v ∧
      ∀ convertToUin32, T = (if convertToUin32 then .uint32 else .uint64) →
        IntegralType.int64.Represents v →
        (∃ fuel, (Field.ofText column.info (decimalText v) rest).getSeconds readDouble fuel
          convertToUin32 = some v) ∧
        ∃ fuel, (Field.ofRow column.info before (column.bound v) behind beyond).getSeconds
          readDouble fuel convertToUin32 = some v

/-- The alias is not that of a sum or an average, and that of a count only for a `BIGINT`
without negative values that the type could represent. -/
structure AliasAllows (column : IntColumn) (T : IntegralType) : Prop where
  sum : ¬ column.info.Calls "sum"
  avg : ¬ column.info.Calls "avg"
  count : column.info.Calls "count" →
    column.type = .longlong ∧ (T.isSigned = true → column.unsigned = true)

/-! ## What is read -/

variable {readDouble : Field → Option ℤ} {column : IntColumn} {T : IntegralType} {v : ℤ}

theorem fieldsOf_append (before : List Column) (c : Column) (behind : List Column)
    (beyond : List UInt8) (hnull : c.isNull = false) :
    ((fieldsOf (before ++ c :: behind) beyond).getD before.length ⟨none⟩).value =
      some (c.bytes ++ (behind.flatMap Column.bytes ++ beyond)) := by
  induction before with
  | nil => simp [fieldsOf, hnull]
  | cons b before ih => simpa [fieldsOf] using ih

theorem convert_emod_of_represents (h : T.Represents v) :
    T.convert (v % 2 ^ (8 * T.size)) = v := by
  by_cases hT : T = .bool
  · subst hT
    obtain ⟨hlo, hhi⟩ : 0 ≤ v ∧ v ≤ 1 := h
    obtain rfl | rfl : v = 0 ∨ v = 1 := by omega
    · rfl
    · rfl
  · rw [IntegralType.convert_emod hT, IntegralType.convert_of_represents h]

theorem toNat_emod (v : ℤ) (n : ℕ) : ((v % 2 ^ n).toNat : ℤ) = v % 2 ^ n :=
  Int.toNat_of_nonneg (Int.emod_nonneg v (by positivity))

/-- A getter that is not wider than the column reads the value. -/
theorem readRaw_of_size_le (hsize : T.size ≤ column.sizeForType) (h : T.Represents v)
    (memory : List UInt8) : readRaw T ((column.bound v).bytes ++ memory) = v := by
  have htake : ((column.bound v).bytes ++ memory).take T.size =
      toLE T.size (v % 2 ^ (8 * column.sizeForType)).toNat := by
    rw [List.take_append_of_le_length (by simpa [IntColumn.bound] using hsize), IntColumn.bound,
      take_toLE hsize]
  have hpow : (256 : ℕ) ^ T.size = 2 ^ (8 * T.size) := by
    rw [pow_mul]
    rfl
  have hdvd : (2 : ℤ) ^ (8 * T.size) ∣ 2 ^ (8 * column.sizeForType) :=
    pow_dvd_pow 2 (Nat.mul_le_mul_left 8 hsize)
  rw [readRaw, htake, ofLE_toLE, hpow]
  push_cast
  rw [toNat_emod, Int.emod_emod_of_dvd v hdvd]
  exact convert_emod_of_represents h

theorem represents_pow {width : ℕ} (hpos : 1 ≤ width) (hsize : width < T.size) :
    T.Represents (256 ^ width) := by
  cases T <;> simp only [IntegralType.size] at hsize <;> interval_cases width <;> decide

/-- A getter that is wider reads the octet behind the column, too. -/
theorem readRaw_of_lt_size (hsize : column.sizeForType < T.size) :
    readRaw T ((column.bound 0).bytes ++ [1]) ≠ 0 := by
  have hpos : 1 ≤ column.sizeForType := by
    rw [IntColumn.sizeForType]
    split <;> decide
  have htake : ((column.bound 0).bytes ++ [1]).take T.size = (column.bound 0).bytes ++ [1] := by
    apply List.take_of_length_le
    simp only [IntColumn.bound, List.length_append, length_toLE, List.length_singleton]
    omega
  have hvalue : ofLE ((column.bound 0).bytes ++ [1]) = 256 ^ column.sizeForType := by
    rw [ofLE_append]
    simp [IntColumn.bound, ofLE_toLE, ofLE]
  rw [readRaw, htake, hvalue]
  push_cast
  rw [IntegralType.convert_of_represents (represents_pow hpos hsize)]
  positivity

theorem decimalText_ne_zero (v : ℤ) : ∀ c ∈ decimalText v, c ≠ 0 := by
  have hdigits : ∀ c ∈ decimalDigits v.natAbs, c ≠ 0 := by
    intro c hc
    rw [decimalDigits] at hc
    split at hc
    · rw [List.mem_singleton.mp hc]
      decide
    · obtain ⟨d, hd, rfl⟩ := List.mem_map.mp hc
      have hlt : d < 10 := Nat.digits_lt_base (by decide) (List.mem_reverse.mp hd)
      interval_cases d <;> decide
  intro c hc
  rw [decimalText] at hc
  split at hc
  · rcases List.mem_cons.mp hc with rfl | hc
    · decide
    · exact hdigits c hc
  · exact hdigits c hc

theorem cString_text {text : List UInt8} (h : ∀ c ∈ text, c ≠ 0) (rest : List UInt8) :
    cString (text ++ 0 :: rest) = text := by
  rw [cString, List.takeWhile_append_of_pos (by simpa using h)]
  simp

/-! ## The metadata -/

namespace Field
variable {f : Field} {memory : List UInt8}

/-- Nothing in the metadata sends the getter elsewhere. -/
theorem getData_plain {T : GetType} (hvalue : f.value = some memory)
    (hread : f.read readDouble memory T = some v) (hsum : ¬ f.info.Calls "sum")
    (havg : ¬ f.info.Calls "avg") (hcount : f.info.Calls "count" → f.info.correctForCount T = true)
    (fuel : ℕ) : f.getData readDouble (fuel + 1) T = some v := by
  have hdbc : ¬ f.IsDbcNumber memory T (some v) := fun h => by cases h.2.2.2.1
  have hcount' : ¬ (f.info.Calls "count" ∧ ¬ f.info.correctForCount T = true) :=
    fun h => h.2 (hcount h.1)
  simp only [getData, hvalue, hread]
  rw [if_neg hdbc, if_neg (by simp [hsum, havg]), if_neg hcount', Option.getD_some]

/-- The alias of a count sends every other getter to `GetData<uint64>`. -/
theorem getData_count {T : GetType} (hT : T ≠ .integral .uint64) (hvalue : f.value = some memory)
    (hread : (f.read readDouble memory T).isSome) (hsum : ¬ f.info.Calls "sum")
    (havg : ¬ f.info.Calls "avg") (hcount : f.info.Calls "count") (htype : f.info.type = .int64)
    (fuel : ℕ) : f.getData readDouble (fuel + 2) T =
      some (T.convert ((f.read readDouble memory (.integral .uint64)).getD 0)) := by
  obtain ⟨w, hw⟩ := Option.isSome_iff_exists.mp hread
  have hdbc : ¬ f.IsDbcNumber memory T (some w) := fun h => by cases h.2.2.2.1
  have hwrong : ¬ f.info.correctForCount T = true := by simp [FieldMeta.correctForCount, hT]
  have huint64 : f.getData readDouble (fuel + 1) (.integral .uint64) =
      some ((f.read readDouble memory (.integral .uint64)).getD 0) := by
    have hdbc' (r : Option ℤ) : ¬ f.IsDbcNumber memory (.integral .uint64) r :=
      fun h => by cases h.1
    have hright : f.info.correctForCount (.integral .uint64) = true := by
      simp [FieldMeta.correctForCount, htype]
    simp only [getData, hvalue]
    rw [if_neg (hdbc' _), if_neg (by simp [hsum, havg]), if_neg (by simp [hright])]
    rfl
  rw [getData]
  simp only [hvalue, hw]
  rw [if_neg hdbc, if_neg (by simp [hsum, havg]), if_pos ⟨hcount, hwrong⟩, huint64]
  rfl

/-- More fuel does not change a result. -/
theorem getData_succ {fuel : ℕ} {T : GetType} (h : f.getData readDouble fuel T = some v) :
    f.getData readDouble (fuel + 1) T = some v := by
  induction fuel generalizing T v with
  | zero => cases h
  | succ fuel ih =>
      have hmap {T' : GetType} (h : (f.getData readDouble fuel T').map T.convert = some v) :
          (f.getData readDouble (fuel + 1) T').map T.convert = some v := by
        obtain ⟨w, hw, hv⟩ := Option.map_eq_some_iff.mp h
        rw [ih hw, Option.map_some, hv]
      rw [getData] at h ⊢
      cases hvalue : f.value with
      | none => simpa only [hvalue] using h
      | some memory =>
          simp only [hvalue] at h ⊢
          split_ifs at h ⊢
          · exact hmap h
          · exact hmap h
          · exact hmap h
          · exact h

/-- On an integer column the alias of a sum, or of a count that is not a `BIGINT`, sends the
getters round in a circle. -/
theorem getData_diverges (hvalue : f.value = some memory)
    (h : (f.info.Calls "sum" ∨ f.info.Calls "avg") ∧ f.info.type ≠ .decimal ∨
      f.info.Calls "count" ∧ f.info.type ≠ .int64) (fuel : ℕ) (T : GetType) :
    f.getData readDouble fuel T = none := by
  induction fuel generalizing T with
  | zero => rfl
  | succ fuel ih =>
      simp only [getData, hvalue]
      split
      · rw [ih]
        rfl
      split
      · rw [ih]
        rfl
      split
      · rw [ih]
        rfl
      -- nothing is left: one of the two calls was made
      rename_i hsum hcount
      rcases h with ⟨hcalls, htype⟩ | ⟨hcalls, htype⟩
      · exact absurd ⟨hcalls, by simp [FieldMeta.correctForSum, htype]⟩ hsum
      · exact absurd ⟨hcalls, by simp [FieldMeta.correctForCount, htype]⟩ hcount

end Field

/-! ## The two kinds of rows -/

theorem fieldType_ne_decimal (column : IntColumn) : column.info.type ≠ .decimal := by
  simp only [IntColumn.info, IntColumn.fieldType]
  split <;> decide

theorem fieldType_eq_int64_iff : column.info.type = .int64 ↔ column.type = .longlong := by
  simp only [IntColumn.info, IntColumn.fieldType]
  cases column.type <;> simp

theorem holds_zero (column : IntColumn) : column.Holds 0 := by
  rw [IntColumn.Holds]
  split
  · exact ⟨le_refl 0, by positivity⟩
  · exact ⟨neg_nonpos.mpr (by positivity), by positivity⟩

/-- What is read is returned, if `GetData<uint64>` reads the same where it is asked. -/
theorem returns_of_reads {f : Field} {memory : List UInt8} (hinfo : f.info = column.info)
    (halias : AliasAllows column T) (hT : T.Represents v) (hvalue : f.value = some memory)
    (hread : f.read readDouble memory (.integral T) = some v)
    (hcount : column.info.Calls "count" →
      f.read readDouble memory (.integral .uint64) = some v) : Returns readDouble T f v := by
  obtain ⟨hsum, havg, hallowed⟩ := halias
  rw [← hinfo] at hsum havg hallowed hcount
  by_cases hcalls : f.info.Calls "count"
  · have htype : f.info.type = .int64 := by
      rw [hinfo]
      exact fieldType_eq_int64_iff.mpr (hallowed hcalls).1
    by_cases huint64 : T = .uint64
    · subst huint64
      have hcorrect : f.info.correctForCount (.integral .uint64) = true := by
        simp [FieldMeta.correctForCount, htype]
      exact ⟨1, Field.getData_plain hvalue hread hsum havg (fun _ => hcorrect) 0⟩
    · refine ⟨2, ?_⟩
      rw [Field.getData_count (by simpa using huint64) hvalue (by rw [hread]; rfl) hsum havg hcalls
        htype 0, hcount hcalls, Option.getD_some]
      exact congrArg some (IntegralType.convert_of_represents hT)
  · exact ⟨1, Field.getData_plain hvalue hread hsum havg (fun h => absurd h hcalls) 0⟩

/-- The values of a column on which a count is allowed are those of `uint64`. -/
theorem represents_uint64 (halias : AliasAllows column T) (hcalls : column.info.Calls "count")
    (hv : column.Holds v) (hT : T.Represents v) : IntegralType.uint64.Represents v := by
  obtain ⟨htype, hsigned⟩ := halias.count hcalls
  obtain ⟨type, unsigned, tableName, aliasName⟩ := column
  cases htype
  cases unsigned with
  | true => exact hv
  | false =>
      have hunsigned : T.isSigned = false := by
        by_contra h
        cases hsigned (by simpa using h)
      have hnonneg : 0 ≤ v := by
        by_cases hbool : T = .bool
        · subst hbool
          exact hT.1
        · simp only [IntegralType.Represents, if_neg hbool, hunsigned] at hT
          exact hT.1
      obtain ⟨-, hlt⟩ : (-2 ^ 63 : ℤ) ≤ v ∧ v < 2 ^ 63 := hv
      exact ⟨hnonneg, by simp only [IntegralType.size]; omega⟩

theorem size_le_of_count (halias : AliasAllows column T) (hcalls : column.info.Calls "count") :
    IntegralType.uint64.size ≤ column.sizeForType := by
  rw [IntColumn.sizeForType, (halias.count hcalls).1]
  decide

theorem returns_text (halias : AliasAllows column T) (hv : column.Holds v) (hT : T.Represents v)
    (rest : List UInt8) : Returns readDouble T (.ofText column.info (decimalText v) rest) v := by
  have hread {T : IntegralType} (hT : T.Represents v) :
      (Field.ofText column.info (decimalText v) rest).read readDouble
        (decimalText v ++ 0 :: rest) (.integral T) = some v := by
    simp only [Field.read, Field.ofText, Bool.false_eq_true, if_false,
      cString_text (decimalText_ne_zero v)]
    exact stringTo_decimalText hT
  exact returns_of_reads rfl halias hT rfl (hread hT)
    fun hcalls => hread (represents_uint64 halias hcalls hv hT)

theorem returns_row (hsize : T.size ≤ column.sizeForType) (halias : AliasAllows column T)
    (hv : column.Holds v) (hT : T.Represents v) (before behind : List Column)
    (beyond : List UInt8) :
    Returns readDouble T (.ofRow column.info before (column.bound v) behind beyond) v := by
  have hread {T : IntegralType} (hsize : T.size ≤ column.sizeForType) (hT : T.Represents v) :
      (Field.ofRow column.info before (column.bound v) behind beyond).read readDouble
        ((column.bound v).bytes ++ (behind.flatMap Column.bytes ++ beyond)) (.integral T) =
          some v := by
    simp only [Field.read, Field.ofRow, if_true]
    rw [readRaw_of_size_le hsize hT]
  exact returns_of_reads rfl halias hT (fieldsOf_append before _ behind beyond rfl)
    (hread hsize hT)
    fun hcalls => hread (size_le_of_count halias hcalls) (represents_uint64 halias hcalls hv hT)

theorem getSeconds_of_returns {f : Field} {convertToUin32 : Bool}
    (h : Returns readDouble (if convertToUin32 then .uint32 else .uint64) f v)
    (hv : IntegralType.int64.Represents v) :
    ∃ fuel, f.getSeconds readDouble fuel convertToUin32 = some v := by
  obtain ⟨fuel, hfuel⟩ := h
  refine ⟨fuel, ?_⟩
  rw [Field.getSeconds, hfuel, Option.map_some, IntegralType.convert_of_represents hv]

/-- The alias of a count, on a column with negative values: the text is not that of a
`uint64`, and the result is zero. -/
theorem getData_negative_count (htype : column.type = .longlong) (hT : T.isSigned = true)
    (hsum : ¬ column.info.Calls "sum") (havg : ¬ column.info.Calls "avg")
    (hcount : column.info.Calls "count") (hrep : T.Represents (-1)) {fuel : ℕ} {v : ℤ}
    (h : (Field.ofText column.info (decimalText (-1)) []).getData readDouble fuel (.integral T) =
      some v) : v = 0 := by
  have hne : T ≠ .uint64 := by
    rintro rfl
    cases hT
  have hcString : cString (decimalText (-1) ++ 0 :: []) = decimalText (-1) :=
    cString_text (decimalText_ne_zero (-1)) []
  have hread : ((Field.ofText column.info (decimalText (-1)) []).read readDouble
      (decimalText (-1) ++ 0 :: []) (.integral T)).isSome := by
    simp only [Field.read, Field.ofText, Bool.false_eq_true, if_false, hcString,
      stringTo_decimalText hrep, Option.isSome_some]
  have huint64 : (Field.ofText column.info (decimalText (-1)) []).read readDouble
      (decimalText (-1) ++ 0 :: []) (.integral .uint64) = none := by
    simp only [Field.read, Field.ofText, Bool.false_eq_true, if_false, hcString]
    exact stringTo_decimalText_of_neg (by decide) rfl (by decide)
  have h := Field.getData_succ (Field.getData_succ h)
  rw [Field.getData_count (by simpa using hne) rfl hread hsum havg hcount
    (fieldType_eq_int64_iff.mpr htype), huint64, Option.getD_none] at h
  have hzero : T.convert 0 = 0 := IntegralType.convert_of_represents T.represents_zero
  rw [GetType.convert, hzero] at h
  exact (Option.some.inj h).symm

theorem aliasAllows_of_agrees (h : Agrees readDouble column T) : AliasAllows column T := by
  have hdiverges : ¬ ((column.info.Calls "sum" ∨ column.info.Calls "avg") ∧
      column.info.type ≠ .decimal ∨ column.info.Calls "count" ∧ column.info.type ≠ .int64) := by
    intro hcalls
    obtain ⟨fuel, hfuel⟩ := (h 0 (holds_zero column) T.represents_zero [] [] [] []).1
    rw [Field.getData_diverges rfl hcalls] at hfuel
    cases hfuel
  have hsum : ¬ column.info.Calls "sum" :=
    fun hcalls => hdiverges (.inl ⟨.inl hcalls, fieldType_ne_decimal column⟩)
  have havg : ¬ column.info.Calls "avg" :=
    fun hcalls => hdiverges (.inl ⟨.inr hcalls, fieldType_ne_decimal column⟩)
  refine ⟨hsum, havg, ?_⟩
  intro hcalls
  have htype : column.type = .longlong := by
    by_contra htype
    exact hdiverges (.inr ⟨hcalls, fun h => htype (fieldType_eq_int64_iff.mp h)⟩)
  refine ⟨htype, ?_⟩
  intro hsigned
  by_contra hunsigned
  have hrep : T.Represents (-1) := by
    cases T <;> first | exact absurd hsigned (by decide) | decide
  have hholds : column.Holds (-1) := by
    simp only [IntColumn.Holds, hunsigned, if_false, IntColumn.bits, IntColumn.sizeForType, htype]
    decide
  obtain ⟨fuel, hfuel⟩ := (h (-1) hholds hrep [] [] [] []).1
  cases getData_negative_count htype hsigned hsum havg hcalls hrep hfuel

theorem size_le_of_agrees (h : Agrees readDouble column T) : T.size ≤ column.sizeForType := by
  have halias := aliasAllows_of_agrees h
  by_contra hlt
  have hcalls : ¬ column.info.Calls "count" := by
    intro hcalls
    have hwidth := size_le_of_count halias hcalls
    have hmax : T.size ≤ IntegralType.uint64.size := by cases T <;> decide
    omega
  obtain ⟨-, ⟨fuel, hfuel⟩, -⟩ :=
    h 0 (holds_zero column) T.represents_zero [] [] [⟨[1], false⟩] []
  cases fuel with
  | zero => cases hfuel
  | succ fuel =>
      have hvalue : (Field.ofRow column.info [] (column.bound 0) [⟨[1], false⟩] []).value =
          some ((column.bound 0).bytes ++ [1]) :=
        fieldsOf_append [] (column.bound 0) [⟨[1], false⟩] [] rfl
      rw [Field.getData_plain hvalue rfl halias.sum halias.avg (fun h => absurd h hcalls),
        Option.some.injEq] at hfuel
      exact readRaw_of_lt_size (Nat.not_le.mp hlt) hfuel

/-- **Text rows and prepared rows agree on an integer column exactly if the getter is not
wider than the column, and its alias is not that of a sum, of an average, or of a count
that is out of place.** -/
theorem agrees_iff (readDouble : Field → Option ℤ) (column : IntColumn) (T : IntegralType) :
    Agrees readDouble column T ↔ T.size ≤ column.sizeForType ∧ AliasAllows column T := by
  constructor
  · intro h
    exact ⟨size_le_of_agrees h, aliasAllows_of_agrees h⟩
  · rintro ⟨hsize, halias⟩ v hv hT rest before behind beyond
    have htext : Returns readDouble T (.ofText column.info (decimalText v) rest) v :=
      returns_text halias hv hT rest
    have hrow : Returns readDouble T
        (.ofRow column.info before (column.bound v) behind beyond) v :=
      returns_row hsize halias hv hT before behind beyond
    refine ⟨htext, hrow, ?_⟩
    intro convertToUin32 hconvert hv64
    subst hconvert
    exact ⟨getSeconds_of_returns htext hv64, getSeconds_of_returns hrow hv64⟩

/-- `bandate` of `DISCORD_SEL_ACCOUNT_INFO_BY_NAME`. -/
def bandateColumn : IntColumn := ⟨.long, true, ascii "account_banned", ascii "bandate"⟩

/-- A date read with `Get<Seconds>(false)`: right from a text, and from a prepared row with
`unbandate` as its upper half. -/
theorem bandate_disagrees :
    (Field.ofText bandateColumn.info (decimalText 5) []).getSeconds (fun _ => none) 1 false =
        some 5 ∧
      (Field.ofRow bandateColumn.info [] (bandateColumn.bound 5) [⟨toLE 4 7, false⟩] []).getSeconds
        (fun _ => none) 1 false = some (5 + 7 * 2 ^ 32) ∧
      ¬ Agrees (fun _ => none) bandateColumn .uint64 := by
  refine ⟨by decide +kernel, by decide +kernel, ?_⟩
  intro h
  exact absurd (size_le_of_agrees h) (by decide)

/-! ## The getters of a prepared row -/

theorem ofLE_lt (bs : List UInt8) : ofLE bs < 256 ^ bs.length := by
  have h := ofLE_toLE bs.length (ofLE bs)
  rw [toLE_ofLE] at h
  rw [h]
  exact Nat.mod_lt _ (by positivity)

theorem ofLE_take_lt (memory : List UInt8) (n : ℕ) : ofLE (memory.take n) < 256 ^ n :=
  Nat.lt_of_lt_of_le (ofLE_lt _)
    (Nat.pow_le_pow_right (by decide) (List.length_take_le n memory))

/-- An unsigned getter reads what `RawField.getData` reads. -/
theorem readRaw_eq_getData (hT : T = .uint32 ∨ T = .uint64) (memory : List UInt8) :
    readRaw T memory = (⟨some memory⟩ : RawField).getData T.size := by
  have hlt := ofLE_take_lt memory T.size
  apply IntegralType.convert_of_represents
  rcases hT with rfl | rfl
  · exact ⟨by positivity, by simp only [IntegralType.size] at hlt ⊢; omega⟩
  · exact ⟨by positivity, by simp only [IntegralType.size] at hlt ⊢; omega⟩

theorem toInt64_eq_convert {n : ℕ} (h : n < 2 ^ 64) : toInt64 n = IntegralType.int64.convert n := by
  simp only [toInt64, IntegralType.convert, IntegralType.isSigned, IntegralType.size, Nat.reducePow,
    Int.reducePow, reduceCtorEq, if_false, Nat.reduceMul, Nat.add_one_sub_one, true_and]
  omega

/-- `Get<Seconds>` of a prepared row is `RawField.getSeconds`, on which the ban checks rest. -/
theorem getSeconds_eq {f : Field} {memory : List UInt8} (hraw : f.raw = true)
    (hvalue : f.value = some memory) (hsum : ¬ f.info.Calls "sum") (havg : ¬ f.info.Calls "avg")
    (hcount : ¬ f.info.Calls "count") (convertToUin32 : Bool) :
    f.getSeconds readDouble 1 convertToUin32 =
      some ((⟨some memory⟩ : RawField).getSeconds convertToUin32) := by
  have hread (T : IntegralType) :
      f.getData readDouble 1 (.integral T) = some (readRaw T memory) := by
    refine Field.getData_plain hvalue ?_ hsum havg (fun h => absurd h hcount) 0
    simp only [Field.read, hraw, if_true]
  cases convertToUin32 with
  | true =>
      have hlt : ofLE (memory.take 4) < 256 ^ 4 := ofLE_take_lt memory 4
      simp only [Field.getSeconds, if_true, hread, readRaw_eq_getData (.inl rfl), Option.map_some,
        RawField.getSeconds, Option.some.injEq]
      apply IntegralType.convert_of_represents
      simp only [IntegralType.Represents, RawField.getData, IntegralType.size,
        IntegralType.isSigned, reduceCtorEq, if_false, if_true, Nat.reduceMul,
        Nat.add_one_sub_one, Int.reducePow]
      omega
  | false =>
      have hlt : ofLE (memory.take 8) < 256 ^ 8 := ofLE_take_lt memory 8
      simp only [Field.getSeconds, Bool.false_eq_true, if_false, hread,
        readRaw_eq_getData (.inr rfl), Option.map_some, RawField.getSeconds, Option.some.injEq]
      exact (toInt64_eq_convert hlt).symm

end WarheadDiscord
