import WarheadDiscord.Lib.Bytes

/-!
# Fields of a prepared result

`PreparedResultSet` binds the columns of a row one behind the other in one buffer.
A `Field` of it is a pointer into that buffer, and `GetData<T>` reads `sizeof(T)`
bytes there whatever the width of the column: a getter that is wider than its
column also reads the columns behind it, and for the last column what lies behind
the buffer.

## Main definitions

* `Column`, `fieldsOf` — the row buffer and the fields pointing into it.
* `RawField.getData`, `RawField.getSeconds` — the two getters used on dates.
-/

namespace WarheadDiscord

open Bytes

/-- A bound column: the bytes of its part of the row buffer. -/
structure Column where
  bytes : List UInt8
  isNull : Bool := false

/-- A field of a prepared row: the memory from its pointer on, or the null pointer. -/
structure RawField where
  value : Option (List UInt8)

/-- The fields of a row, `beyond` being the memory behind the row buffer. -/
def fieldsOf : List Column → List UInt8 → List RawField
  | [], _ => []
  | c :: cs, beyond =>
      ⟨if c.isNull then none else some (c.bytes ++ (cs.flatMap Column.bytes ++ beyond))⟩ ::
        fieldsOf cs beyond

/-- A 64 bit pattern as a signed number. -/
def toInt64 (n : ℕ) : ℤ := if n < 2 ^ 63 then n else n - 2 ^ 64

namespace RawField

def isNull (f : RawField) : Bool := f.value.isNone

/-- `GetData<T>` for an unsigned `T` of `width` bytes. -/
def getData (f : RawField) (width : ℕ) : ℕ :=
  match f.value with
  | none => 0
  | some memory => ofLE (memory.take width)

/-- `Get<Binary, length>`, of a column `binary(length)`: the `ASSERT` that its value has the length
holds. -/
def getBinary (f : RawField) (length : ℕ) : List UInt8 := (f.value.getD []).take length

/-- `Get<Seconds>`; the count of `Seconds` is a signed 64 bit number. -/
def getSeconds (f : RawField) (convertToUin32 : Bool) : ℤ :=
  if convertToUin32 then f.getData 4 else toInt64 (f.getData 8)

end RawField

/-- Eight bytes read at a column of four: the column and the four bytes behind it. -/
theorem getData_of_short_column {column behind : List UInt8} (rest : List UInt8)
    (hc : column.length = 4) (hb : behind.length = 4) :
    (⟨some (column ++ (behind ++ rest))⟩ : RawField).getData 8 =
      ofLE column + 2 ^ 32 * ofLE behind := by
  have htake : (column ++ (behind ++ rest)).take 8 = column ++ behind := by
    rw [← List.append_assoc, List.take_append_of_le_length (by simp [hc, hb]),
      List.take_of_length_le (by simp [hc, hb])]
  simp only [RawField.getData, htake, ofLE_append, hc]
  rfl

end WarheadDiscord
