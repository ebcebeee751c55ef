import WarheadDiscord.Common.Utf8
import WarheadDiscord.Lib.Bytes

/-!
# The byte buffer of a packet

`ByteBuffer` writes values one behind the other at `_wpos` and reads them back at `_rpos`.
Numbers are stored with the low byte first on every host, strings with a zero behind them.
Reading is not the mirror of writing for every type: a `bool` is compared with zero as a
signed `char`, a number with a fraction has to be finite, and a string is read up to a zero or the
end and has to be valid UTF-8.

What is written is read back (`read_encode`), and a read never gets behind the end
(`within_read`), whatever the buffer holds and also when it throws.

A number with a fraction is its bit pattern.  Capacities are left out, and so is `_wpos`
where a buffer is only read.  Positions do not overflow: they are bounded by the size of a
vector.

## Main definitions

* `Value`, `ValueType` — the values that have an `operator<<` and an `operator>>`.
* `ByteBuffer.append`, `ByteBuffer.write`, `ByteBuffer.writeAll` — `operator<<`.
* `ByteBuffer.readValue`, `ByteBuffer.readCString`, `ByteBuffer.read`, `ByteBuffer.readAll` —
  `operator>>`.
-/

namespace WarheadDiscord

open Bytes Utf8

/-! ## Values -/

/-- The sizes of the integers. -/
inductive Width
  | w8
  | w16
  | w32
  | w64
  deriving DecidableEq, Repr

def Width.bytes : Width → ℕ
  | .w8 => 1
  | .w16 => 2
  | .w32 => 4
  | .w64 => 8

theorem Width.bytes_pos (w : Width) : 0 < w.bytes := by cases w <;> decide

/-- `int8` to `int64`. -/
structure Signed (w : Width) where
  val : ℤ
  le : -2 ^ (8 * w.bytes - 1) ≤ val
  lt : val < 2 ^ (8 * w.bytes - 1)

/-- The number of a pattern in two's complement. -/
def Signed.ofPattern (w : Width) (pattern : BitVec (8 * w.bytes)) : Signed w :=
  ⟨pattern.toInt, pattern.le_toInt, pattern.toInt_lt⟩

inductive ValueType
  | bool
  | uint (w : Width)
  | int (w : Width)
  | float
  | double
  | string
  deriving DecidableEq, Repr

inductive Value
  | bool (value : Bool)
  | uint (w : Width) (value : BitVec (8 * w.bytes))
  | int (w : Width) (value : Signed w)
  | float (bits : BitVec 32)
  | double (bits : BitVec 64)
  | string (value : List UInt8)

def Value.type : Value → ValueType
  | .bool _ => .bool
  | .uint w _ => .uint w
  | .int w _ => .int w
  | .float _ => .float
  | .double _ => .double
  | .string _ => .string

/-- `std::isfinite` on the bits of a `float`: not all bits of the exponent are set. -/
def isFiniteFloat (bits : BitVec 32) : Bool := bits.toNat / 2 ^ 23 % 2 ^ 8 ≠ 2 ^ 8 - 1

/-- `std::isfinite` on the bits of a `double`. -/
def isFiniteDouble (bits : BitVec 64) : Bool := bits.toNat / 2 ^ 52 % 2 ^ 11 ≠ 2 ^ 11 - 1

/-- The values that are read back: finite numbers, and valid text without a zero. -/
def Value.Supported : Value → Prop
  | .float bits => isFiniteFloat bits = true
  | .double bits => isFiniteDouble bits = true
  | .string value => (∀ b ∈ value, b ≠ 0) ∧ isValid value = true
  | _ => True

/-- The bytes a value takes. -/
def Value.encodedSize : Value → ℕ
  | .bool _ => 1
  | .uint w _ => w.bytes
  | .int w _ => w.bytes
  | .float _ => 4
  | .double _ => 8
  | .string value => value.length + 1

/-! ## The byte order of the host -/

/-- A number in the memory of the host. -/
def toMemory (bigEndian : Bool) {w : ℕ} (value : BitVec (8 * w)) : List UInt8 :=
  if bigEndian then toBE w value.toNat else toLE w value.toNat

/-- The number in some memory of the host. -/
def ofMemory (bigEndian : Bool) (w : ℕ) (memory : List UInt8) : BitVec (8 * w) :=
  BitVec.ofNat (8 * w) (if bigEndian then ofBE memory else ofLE memory)

/-- `ByteConverter` turns the bytes around, on hosts with the high byte first. -/
def endianConvert (bigEndian : Bool) (memory : List UInt8) : List UInt8 :=
  if bigEndian then memory.reverse else memory

inductive ByteBufferException
  | position (add : Bool) (pos size valueSize : ℕ)
  | invalidValue (type : String) (value : List UInt8)
  deriving DecidableEq, Repr

structure ByteBuffer where
  storage : List UInt8
  rpos : ℕ
  wpos : ℕ
  deriving DecidableEq, Repr

namespace ByteBuffer

def size (buf : ByteBuffer) : ℕ := buf.storage.length

/-- The buffer that is written to. -/
def empty : ByteBuffer := ⟨[], 0, 0⟩

/-- The buffer of a packet that was received. -/
def ofMessage (content : List UInt8) : ByteBuffer := ⟨content, 0, 0⟩

/-! ## Writing -/

/-- `none` when an assertion fails. -/
def append (buf : ByteBuffer) (src : List UInt8) : Option ByteBuffer :=
  if src.length = 0 then none
  else if ¬ buf.size < 10000000 then none
  else
    let newSize := buf.wpos + src.length
    let storage :=
      if buf.size < newSize then buf.storage ++ List.replicate (newSize - buf.size) 0
      else buf.storage
    some
      { buf with
        storage := storage.take buf.wpos ++ src ++ storage.drop newSize
        wpos := newSize }

/-- `append<T>` -/
def appendValue (bigEndian : Bool) (buf : ByteBuffer) {w : ℕ} (value : BitVec (8 * w)) :
    Option ByteBuffer :=
  buf.append (endianConvert bigEndian (toMemory bigEndian value))

/-- `operator<<` -/
def write (bigEndian : Bool) (buf : ByteBuffer) : Value → Option ByteBuffer
  | .bool value => buf.appendValue bigEndian (w := 1) (if value then 1 else 0)
  | .uint _ value => buf.appendValue bigEndian value
  | .int w value => buf.appendValue bigEndian (BitVec.ofInt (8 * w.bytes) value.val)
  | .float bits => buf.appendValue bigEndian (w := 4) bits
  | .double bits => buf.appendValue bigEndian (w := 8) bits
  | .string value =>
      (if value.length = 0 then some buf else buf.append value).bind fun buf =>
        buf.appendValue bigEndian (w := 1) 0

def writeAll (bigEndian : Bool) : ByteBuffer → List Value → Option ByteBuffer
  | buf, [] => some buf
  | buf, value :: values =>
      (buf.write bigEndian value).bind fun buf => writeAll bigEndian buf values

/-! ## Reading -/

/-- `read<T>(pos)` -/
def readAt (bigEndian : Bool) (buf : ByteBuffer) (w pos : ℕ) :
    Except ByteBufferException (BitVec (8 * w)) :=
  if pos + w > buf.size then .error (.position false pos w buf.size)
  else .ok (ofMemory bigEndian w (endianConvert bigEndian ((buf.storage.drop pos).take w)))

/-- `read<T>()`: the result, and the buffer behind it. -/
def readValue (bigEndian : Bool) (buf : ByteBuffer) (w : ℕ) :
    Except ByteBufferException (BitVec (8 * w)) × ByteBuffer :=
  match buf.readAt bigEndian w buf.rpos with
  | .error e => (.error e, buf)
  | .ok value => (.ok value, { buf with rpos := buf.rpos + w })

theorem readValue_cases (bigEndian : Bool) (buf : ByteBuffer) (w : ℕ) :
    (∃ value, buf.rpos + w ≤ buf.size ∧
      buf.readValue bigEndian w = (.ok value, { buf with rpos := buf.rpos + w })) ∨
    (∃ e, buf.readValue bigEndian w = (.error e, buf)) := by
  rw [readValue, readAt]
  split_ifs with h
  · exact Or.inr ⟨_, rfl⟩
  · exact Or.inl ⟨_, not_lt.mp h, rfl⟩

/-- The loop of `ReadCString`. -/
def readCStringLoop (bigEndian : Bool) (buf : ByteBuffer) (value : List UInt8) :
    Except ByteBufferException (List UInt8) × ByteBuffer :=
  if buf.rpos < buf.size then
    match _hread : buf.readValue bigEndian 1 with
    | (.error e, buf) => (.error e, buf)
    | (.ok c, buf') =>
        if c = 0 then (.ok value, buf')
        else readCStringLoop bigEndian buf' (value ++ [UInt8.ofBitVec c])
  else (.ok value, buf)
termination_by buf.size - buf.rpos
decreasing_by
  rcases readValue_cases bigEndian buf 1 with ⟨value, hle, heq⟩ | ⟨e, heq⟩
  · rw [heq] at _hread
    cases _hread
    simp only [size] at *
    omega
  · rw [heq] at _hread
    cases _hread

def readCString (bigEndian : Bool) (buf : ByteBuffer) (requireValidUtf8 : Bool) :
    Except ByteBufferException (List UInt8) × ByteBuffer :=
  match readCStringLoop bigEndian buf [] with
  | (.error e, buf) => (.error e, buf)
  | (.ok value, buf) =>
      if requireValidUtf8 && !isValid value then (.error (.invalidValue "string" value), buf)
      else (.ok value, buf)

/-- What is made of a value that was read; the position stays. -/
def mapResult {α β : Type} (f : α → Except ByteBufferException β) :
    Except ByteBufferException α × ByteBuffer → Except ByteBufferException β × ByteBuffer
  | (.error e, buf) => (.error e, buf)
  | (.ok value, buf) => (f value, buf)

/-- `operator>>` -/
def read (bigEndian : Bool) (buf : ByteBuffer) :
    ValueType → Except ByteBufferException Value × ByteBuffer
  | .bool => mapResult (fun c => .ok (.bool (0 < c.toInt))) (buf.readValue bigEndian 1)
  | .uint w => mapResult (fun value => .ok (.uint w value)) (buf.readValue bigEndian w.bytes)
  | .int w => mapResult (fun value => .ok (.int w (Signed.ofPattern w value)))
      (buf.readValue bigEndian w.bytes)
  | .float => mapResult
      (fun bits => if !isFiniteFloat bits then
          .error (.invalidValue "float" "infinity".toUTF8.data.toList)
        else .ok (.float bits))
      (buf.readValue bigEndian 4)
  | .double => mapResult
      (fun bits => if !isFiniteDouble bits then
          .error (.invalidValue "double" "infinity".toUTF8.data.toList)
        else .ok (.double bits))
      (buf.readValue bigEndian 8)
  | .string => mapResult (fun value => .ok (.string value)) (buf.readCString bigEndian true)

/-- Reads go on behind one that threw. -/
def readAll (bigEndian : Bool) :
    ByteBuffer → List ValueType → List (Except ByteBufferException Value) × ByteBuffer
  | buf, [] => ([], buf)
  | buf, type :: types =>
      let (result, buf) := buf.read bigEndian type
      let (results, buf) := readAll bigEndian buf types
      (result :: results, buf)

/-! ## A read does not get behind the end -/

variable (bigEndian : Bool) {buf buf' : ByteBuffer}

/-- What a read keeps. -/
structure Within (buf buf' : ByteBuffer) : Prop where
  storage : buf'.storage = buf.storage
  rpos_le : buf'.rpos ≤ buf'.size

theorem Within.trans {buf'' : ByteBuffer} (h : Within buf buf') (h' : Within buf' buf'') :
    Within buf buf'' :=
  ⟨h'.storage.trans h.storage, h'.rpos_le⟩

theorem within_readValue (h : buf.rpos ≤ buf.size) (w : ℕ) :
    Within buf (buf.readValue bigEndian w).2 := by
  rcases readValue_cases bigEndian buf w with ⟨value, hle, heq⟩ | ⟨e, heq⟩
  · rw [heq]
    exact ⟨rfl, hle⟩
  · rw [heq]
    exact ⟨rfl, h⟩

theorem within_readCStringLoop (h : buf.rpos ≤ buf.size) (value : List UInt8) :
    Within buf (readCStringLoop bigEndian buf value).2 := by
  fun_induction readCStringLoop bigEndian buf value with
  | case1 buf value hlt e buf' hread =>
      have hw := within_readValue bigEndian h 1
      rw [hread] at hw
      exact hw
  | case2 buf value hlt buf' hread =>
      have hw := within_readValue bigEndian h 1
      rw [hread] at hw
      exact hw
  | case3 buf value hlt c buf' hread hzero ih =>
      have hw := within_readValue bigEndian h 1
      rw [hread] at hw
      exact hw.trans (ih hw.rpos_le)
  | case4 buf value hlt => exact ⟨rfl, h⟩

theorem within_mapResult {α β : Type} {f : α → Except ByteBufferException β}
    {r : Except ByteBufferException α × ByteBuffer} (h : Within buf r.2) :
    Within buf (mapResult f r).2 := by
  obtain ⟨result, buf'⟩ := r
  cases result <;> exact h

theorem within_readCString (h : buf.rpos ≤ buf.size) (requireValidUtf8 : Bool) :
    Within buf (buf.readCString bigEndian requireValidUtf8).2 := by
  have hw := within_readCStringLoop bigEndian h []
  rw [readCString]
  split
  case h_1 e buf' heq =>
    rw [heq] at hw
    exact hw
  case h_2 value buf' heq =>
    rw [heq] at hw
    split_ifs <;> exact hw

/-- **A read does not get behind the end**, and does not change what is stored. -/
theorem within_read (h : buf.rpos ≤ buf.size) (type : ValueType) :
    Within buf (buf.read bigEndian type).2 := by
  cases type with
  | string => exact within_mapResult (within_readCString bigEndian h true)
  | _ => exact within_mapResult (within_readValue bigEndian h _)

theorem within_readAll (h : buf.rpos ≤ buf.size) (types : List ValueType) :
    Within buf (buf.readAll bigEndian types).2 := by
  induction types generalizing buf with
  | nil => exact ⟨rfl, h⟩
  | cons type types ih =>
      have hw := within_read bigEndian h type
      exact hw.trans (ih hw.rpos_le)

/-! ## What is written -/

/-- The bytes of a value. -/
def encode : Value → List UInt8
  | .bool value => toLE 1 (if value then 1 else 0)
  | .uint w value => toLE w.bytes value.toNat
  | .int w value => toLE w.bytes (BitVec.ofInt (8 * w.bytes) value.val).toNat
  | .float bits => toLE 4 bits.toNat
  | .double bits => toLE 8 bits.toNat
  | .string value => value ++ [0]

theorem length_encode (value : Value) : (encode value).length = value.encodedSize := by
  cases value <;> simp [encode, Value.encodedSize]

/-- The low byte comes first on every host. -/
theorem endianConvert_toMemory {w : ℕ} (value : BitVec (8 * w)) :
    endianConvert bigEndian (toMemory bigEndian value) = toLE w value.toNat := by
  cases bigEndian
  · rfl
  · simp [endianConvert, toMemory, toBE]

/-- At the end of the storage nothing is overwritten. -/
theorem append_of_wpos_eq {src : List UInt8} (hw : buf.wpos = buf.size) (hsrc : 0 < src.length)
    (hsize : buf.size + src.length < 10000000) :
    buf.append src = some ⟨buf.storage ++ src, buf.rpos, buf.size + src.length⟩ := by
  have hwpos : buf.wpos = buf.storage.length := hw
  have hlt : buf.size < buf.wpos + src.length := by omega
  have hdrop : (buf.storage ++ List.replicate (buf.storage.length + src.length -
      buf.storage.length) 0).drop (buf.storage.length + src.length) = ([] : List UInt8) := by
    rw [List.drop_eq_nil_iff, List.length_append, List.length_replicate]
    omega
  rw [append, if_neg (by omega), if_neg (by omega)]
  simp only [if_pos hlt]
  rw [hwpos, size, hdrop, List.append_nil, List.take_left]

theorem appendValue_of_wpos_eq {w : ℕ} (value : BitVec (8 * w)) (hw : buf.wpos = buf.size)
    (hpos : 0 < w) (hsize : buf.size + w < 10000000) :
    buf.appendValue bigEndian value =
      some ⟨buf.storage ++ toLE w value.toNat, buf.rpos, buf.size + w⟩ := by
  rw [appendValue, endianConvert_toMemory, append_of_wpos_eq hw, length_toLE]
  · rwa [length_toLE]
  · rwa [length_toLE]

/-- **`operator<<` puts the bytes of a value behind the others.** -/
theorem write_of_wpos_eq (value : Value) (hw : buf.wpos = buf.size)
    (hsize : buf.size + value.encodedSize < 10000000) :
    buf.write bigEndian value =
      some ⟨buf.storage ++ encode value, buf.rpos, buf.size + value.encodedSize⟩ := by
  cases value with
  | bool value =>
      refine (appendValue_of_wpos_eq bigEndian (w := 1) _ hw (by decide) hsize).trans ?_
      cases value <;> rfl
  | uint w value => exact appendValue_of_wpos_eq bigEndian value hw w.bytes_pos hsize
  | int w value => exact appendValue_of_wpos_eq bigEndian _ hw w.bytes_pos hsize
  | float bits => exact appendValue_of_wpos_eq bigEndian (w := 4) bits hw (by decide) hsize
  | double bits => exact appendValue_of_wpos_eq bigEndian (w := 8) bits hw (by decide) hsize
  | string value =>
      have hbody : (if value.length = 0 then some buf else buf.append value) =
          some ⟨buf.storage ++ value, buf.rpos, buf.size + value.length⟩ := by
        rw [Value.encodedSize] at hsize
        split_ifs with hempty
        · rw [List.length_eq_zero_iff.mp hempty, List.append_nil, List.length_nil, Nat.add_zero,
            ← hw]
        · exact append_of_wpos_eq hw (Nat.pos_of_ne_zero hempty) (by omega)
      have hsize' : (buf.storage ++ value).length = buf.size + value.length := List.length_append
      rw [write, hbody, Option.bind_some, appendValue_of_wpos_eq]
      · simp only [encode, Value.encodedSize, size, hsize', List.append_assoc, Nat.add_assoc]
        rfl
      · exact hsize'.symm
      · decide
      · rw [Value.encodedSize] at hsize
        simp only [size, hsize'] at hsize ⊢
        omega

theorem writeAll_of_wpos_eq (values : List Value) (hw : buf.wpos = buf.size)
    (hsize : buf.size + (values.map Value.encodedSize).sum < 10000000) :
    ∃ wpos, buf.writeAll bigEndian values =
      some ⟨buf.storage ++ values.flatMap encode, buf.rpos, wpos⟩ := by
  induction values generalizing buf with
  | nil =>
      refine ⟨buf.wpos, ?_⟩
      rw [writeAll, List.flatMap_nil, List.append_nil]
  | cons value values ih =>
      rw [List.map_cons, List.sum_cons] at hsize
      have hlength : (buf.storage ++ encode value).length = buf.size + value.encodedSize := by
        rw [List.length_append, length_encode, size]
      rw [writeAll, write_of_wpos_eq bigEndian value hw (by omega), Option.bind_some]
      rw [List.flatMap_cons, ← List.append_assoc]
      refine ih hlength.symm ?_
      rw [size, hlength]
      omega

/-! ## What is read back -/

/-- What has not been read yet. -/
def unread (buf : ByteBuffer) : List UInt8 := buf.storage.drop buf.rpos

def skip (buf : ByteBuffer) (n : ℕ) : ByteBuffer := { buf with rpos := buf.rpos + n }

theorem skip_skip (m n : ℕ) : (buf.skip m).skip n = buf.skip (m + n) := by
  simp only [skip, Nat.add_assoc]

theorem unread_skip (n : ℕ) : (buf.skip n).unread = buf.unread.drop n := by
  rw [unread, unread, List.drop_drop]
  rfl

/-- A number is read back. -/
theorem readValue_of_unread {w : ℕ} {value : BitVec (8 * w)} {rest : List UInt8} (hpos : 0 < w)
    (h : buf.unread = toLE w value.toNat ++ rest) :
    buf.readValue bigEndian w = (.ok value, buf.skip w) := by
  have hlength : buf.size - buf.rpos = w + rest.length := by
    have := congrArg List.length h
    rwa [unread, List.length_drop, List.length_append, length_toLE] at this
  have htake : (buf.storage.drop buf.rpos).take w = toLE w value.toNat := by
    rw [← unread, h, List.take_left' (length_toLE _ _)]
  have hvalue : ofMemory bigEndian w (endianConvert bigEndian (toLE w value.toNat)) = value := by
    have hlt := value.isLt
    have hpow : 256 ^ w = 2 ^ (8 * w) := (pow_mul 2 8 w).symm
    have hback : ofLE (toLE w value.toNat) = value.toNat := by
      rw [ofLE_toLE, hpow, Nat.mod_eq_of_lt hlt]
    cases bigEndian
    · simp [ofMemory, endianConvert, hback]
    · simp [ofMemory, endianConvert, ofBE, hback]
  rw [readValue, readAt, if_neg (by omega), htake, hvalue]
  rfl

theorem readValue_of_unread_cons {c : UInt8} {rest : List UInt8} (h : buf.unread = c :: rest) :
    buf.rpos < buf.size ∧ buf.readValue bigEndian 1 = (.ok c.toBitVec, buf.skip 1) := by
  constructor
  · have hlength := congrArg List.length h
    rw [unread, List.length_drop, List.length_cons] at hlength
    rw [size]
    omega
  · have hbyte : toLE 1 c.toNat = [c] := by simp [toLE]
    have hunread : buf.unread = toLE 1 (BitVec.toNat (w := 8) c.toBitVec) ++ rest := by
      rw [UInt8.toNat_toBitVec, hbyte, h]
      rfl
    exact readValue_of_unread bigEndian (w := 1) (by decide) hunread

/-- Text is read up to the zero behind it. -/
theorem readCStringLoop_of_unread {text rest : List UInt8} (value : List UInt8)
    (hzero : ∀ b ∈ text, b ≠ 0) (h : buf.unread = text ++ 0 :: rest) :
    readCStringLoop bigEndian buf value = (.ok (value ++ text), buf.skip (text.length + 1)) := by
  induction text generalizing buf value with
  | nil =>
      obtain ⟨hlt, hread⟩ := readValue_of_unread_cons bigEndian h
      rw [readCStringLoop, if_pos hlt]
      split
      case h_1 e buf' heq =>
        rw [hread] at heq
        cases heq
      case h_2 c buf' heq =>
        rw [hread] at heq
        cases heq
        have hc : UInt8.toBitVec 0 = 0 := rfl
        rw [if_pos hc, List.append_nil]
        rfl
  | cons c text ih =>
      rw [List.forall_mem_cons] at hzero
      obtain ⟨hlt, hread⟩ := readValue_of_unread_cons bigEndian h
      have hrest : (buf.skip 1).unread = text ++ 0 :: rest := by
        rw [unread_skip, h]
        rfl
      have hne : ¬ c.toBitVec = 0 := fun heq => hzero.1 (UInt8.toBitVec_inj.mp heq)
      rw [readCStringLoop, if_pos hlt]
      split
      case h_1 e buf' heq =>
        rw [hread] at heq
        cases heq
      case h_2 c' buf' heq =>
        rw [hread] at heq
        cases heq
        rw [if_neg hne, ih _ hzero.2 hrest, List.append_assoc]
        rw [skip_skip, List.length_cons, Nat.add_comm 1]
        rfl

theorem readCString_of_unread {text rest : List UInt8} (hzero : ∀ b ∈ text, b ≠ 0)
    (hvalid : isValid text = true) (h : buf.unread = text ++ 0 :: rest) :
    buf.readCString bigEndian true = (.ok text, buf.skip (text.length + 1)) := by
  rw [readCString, readCStringLoop_of_unread bigEndian [] hzero h]
  simp only [List.nil_append, hvalid]
  rfl

theorem signed_ofPattern_ofInt {w : Width} (value : Signed w) :
    Signed.ofPattern w (BitVec.ofInt (8 * w.bytes) value.val) = value := by
  have hpos : 0 < 8 * w.bytes := Nat.mul_pos (by decide) w.bytes_pos
  have hval := BitVec.toInt_ofInt_eq_self hpos value.le value.lt
  cases value
  simp only [Signed.ofPattern, Signed.mk.injEq]
  exact hval

/-- **A value is read back** from where its bytes are. -/
theorem read_encode {value : Value} {rest : List UInt8} (hsupported : value.Supported)
    (h : buf.unread = encode value ++ rest) :
    buf.read bigEndian value.type = (.ok value, buf.skip value.encodedSize) := by
  cases value with
  | bool value =>
      have hread : buf.readValue bigEndian 1 = (.ok (if value then 1 else 0), buf.skip 1) :=
        readValue_of_unread bigEndian (by decide) (by cases value <;> exact h)
      rw [Value.type, read, hread]
      cases value <;> rfl
  | uint w value =>
      rw [Value.type, read, readValue_of_unread bigEndian w.bytes_pos h]
      rfl
  | int w value =>
      rw [Value.type, read, readValue_of_unread bigEndian w.bytes_pos h]
      simp only [mapResult, signed_ofPattern_ofInt]
      rfl
  | float bits =>
      rw [Value.type, read, readValue_of_unread bigEndian (w := 4) (by decide) h]
      have hfinite : isFiniteFloat bits = true := hsupported
      simp only [mapResult, hfinite]
      rfl
  | double bits =>
      rw [Value.type, read, readValue_of_unread bigEndian (w := 8) (by decide) h]
      have hfinite : isFiniteDouble bits = true := hsupported
      simp only [mapResult, hfinite]
      rfl
  | string text =>
      obtain ⟨hzero, hvalid⟩ := hsupported
      have hunread : buf.unread = text ++ 0 :: rest := by
        rw [h, encode, List.append_assoc]
        rfl
      rw [Value.type, read, readCString_of_unread bigEndian hzero hvalid hunread]
      rfl

/-! ## What a read has found -/

/-- All bytes are the bytes of some number. -/
theorem exists_toLE_eq {w : ℕ} {bytes : List UInt8} (h : bytes.length = w) :
    ∃ value : BitVec (8 * w), toLE w value.toNat = bytes := by
  subst h
  have hpow : (256 : ℕ) ^ bytes.length = 2 ^ (8 * bytes.length) := (pow_mul 2 8 _).symm
  have hlt : ofLE bytes < 2 ^ (8 * bytes.length) := by
    have hmod := ofLE_toLE bytes.length (ofLE bytes)
    rw [toLE_ofLE] at hmod
    rw [hmod, hpow]
    exact Nat.mod_lt _ (Nat.two_pow_pos _)
  refine ⟨BitVec.ofNat _ (ofLE bytes), ?_⟩
  rw [BitVec.toNat_ofNat, Nat.mod_eq_of_lt hlt, toLE_ofLE]

/-- A number that was read stands where the read started. -/
theorem unread_of_readValue_eq_ok {w : ℕ} {value : BitVec (8 * w)} (hpos : 0 < w)
    (h : buf.readValue bigEndian w = (.ok value, buf')) :
    buf.unread = toLE w value.toNat ++ buf'.unread ∧ buf' = buf.skip w := by
  rcases readValue_cases bigEndian buf w with ⟨value', hle, heq⟩ | ⟨e, heq⟩
  case inr => rw [heq] at h; cases h
  have hlength : (buf.unread.take w).length = w := by
    rw [List.length_take, unread, List.length_drop]
    simp only [size] at hle
    omega
  obtain ⟨found, hfound⟩ := exists_toLE_eq hlength
  have hunread : buf.unread = toLE w found.toNat ++ buf.unread.drop w := by
    rw [hfound, List.take_append_drop]
  rw [readValue_of_unread bigEndian hpos hunread] at h
  cases h
  rw [unread_skip]
  exact ⟨hunread, rfl⟩

/-- Text that was read has a zero behind it, or goes up to the end. -/
theorem unread_of_readCStringLoop_eq_ok {value result : List UInt8}
    (h : readCStringLoop bigEndian buf value = (.ok result, buf')) :
    ∃ text, result = value ++ text ∧ (∀ b ∈ text, b ≠ 0) ∧
      (buf.unread = text ++ 0 :: buf'.unread ∧ buf' = buf.skip (text.length + 1) ∨
        buf'.unread = []) := by
  fun_induction readCStringLoop bigEndian buf value with
  | case1 buf value hlt e buf'' hread => cases h
  | case2 buf value hlt buf'' hread =>
      cases h
      obtain ⟨hunread, hskip⟩ := unread_of_readValue_eq_ok bigEndian (by decide) hread
      exact ⟨[], (List.append_nil _).symm, by simp, .inl ⟨hunread, hskip⟩⟩
  | case3 buf value hlt c buf'' hread hzero ih =>
      obtain ⟨text, hresult, htext, hends⟩ := ih h
      obtain ⟨hunread, hskip⟩ := unread_of_readValue_eq_ok bigEndian (by decide) hread
      have hbyte : toLE 1 (BitVec.toNat (w := 8) c) = [UInt8.ofBitVec c] := by
        simp [toLE]
      have hne : UInt8.ofBitVec c ≠ 0 := fun heq => hzero (congrArg UInt8.toBitVec heq)
      refine ⟨UInt8.ofBitVec c :: text, ?_, ?_, ?_⟩
      · rw [hresult, List.append_assoc]
        rfl
      · rw [List.forall_mem_cons]
        exact ⟨hne, htext⟩
      · rcases hends with ⟨hunread', hskip'⟩ | hnil
        · left
          rw [hunread, hunread', hskip', hskip, hbyte, skip_skip, List.length_cons]
          exact ⟨rfl, congrArg buf.skip (by omega)⟩
        · exact .inr hnil
  | case4 buf value hlt =>
      cases h
      have hnil : buf'.unread = [] := List.drop_eq_nil_iff.2 (not_lt.1 hlt)
      exact ⟨[], (List.append_nil _).symm, by simp, .inr hnil⟩

theorem unread_of_readCString_eq_ok {text : List UInt8}
    (h : buf.readCString bigEndian true = (.ok text, buf')) :
    (∀ b ∈ text, b ≠ 0) ∧ isValid text = true ∧
      (buf.unread = text ++ 0 :: buf'.unread ∧ buf' = buf.skip (text.length + 1) ∨
        buf'.unread = []) := by
  rw [readCString] at h
  split at h
  case h_1 => cases h
  case h_2 value buf'' hloop =>
    obtain ⟨text', rfl, htext, hends⟩ := unread_of_readCStringLoop_eq_ok bigEndian hloop
    split_ifs at h with hvalid
    · cases h
    · cases h
      refine ⟨htext, ?_, hends⟩
      simpa using hvalid

theorem readAll_flatMap_encode {values : List Value} {rest : List UInt8}
    (hsupported : ∀ value ∈ values, value.Supported)
    (h : buf.unread = values.flatMap encode ++ rest) :
    buf.readAll bigEndian (values.map Value.type) =
      (values.map .ok, buf.skip (values.map Value.encodedSize).sum) := by
  induction values generalizing buf with
  | nil => rfl
  | cons value values ih =>
      rw [List.forall_mem_cons] at hsupported
      rw [List.flatMap_cons, List.append_assoc] at h
      have hrest : (buf.skip value.encodedSize).unread = values.flatMap encode ++ rest := by
        rw [unread_skip, h, List.drop_left' (length_encode value)]
      simp only [List.map_cons, readAll, read_encode bigEndian hsupported.1 h,
        ih hsupported.2 hrest, List.sum_cons, skip_skip]

/-- **What is written is read back**, on every host, and then nothing is left.  Whatever a
buffer holds and whatever is read from it, a read throws or does not get behind the end. -/
theorem byteBuffer_round_trip (bigEndian : Bool) :
    (∀ values : List Value, (∀ value ∈ values, value.Supported) →
      (values.map Value.encodedSize).sum < 10000000 →
      ∃ buf buf', empty.writeAll bigEndian values = some buf ∧
        buf.readAll bigEndian (values.map Value.type) = (values.map .ok, buf') ∧
        buf'.rpos = buf'.size) ∧
    (∀ (content : List UInt8) (types : List ValueType) (type : ValueType),
      let buf := ((ofMessage content).readAll bigEndian types).2
      (∃ e, (buf.read bigEndian type).1 = .error e) ∨
        (buf.read bigEndian type).2.rpos ≤ (buf.read bigEndian type).2.size) := by
  constructor
  · intro values hsupported hsize
    have hfits : empty.size + (values.map Value.encodedSize).sum < 10000000 := by
      simpa [size, empty] using hsize
    obtain ⟨wpos, hwrite⟩ := writeAll_of_wpos_eq bigEndian values rfl hfits
    refine ⟨_, _, hwrite, readAll_flatMap_encode bigEndian hsupported (List.append_nil _).symm, ?_⟩
    have hlength : (values.flatMap encode).length = (values.map Value.encodedSize).sum := by
      simp only [List.length_flatMap, length_encode]
    simp [skip, size, empty, hlength]
  · intro content types type buf
    have hstart : (ofMessage content).rpos ≤ (ofMessage content).size := Nat.zero_le _
    have hbuf := within_readAll bigEndian hstart types
    exact Or.inr (within_read bigEndian hbuf.rpos_le type).rpos_le

/-- A packet with a value of each kind. -/
theorem byteBuffer_round_trip_each : ∃ buf buf',
    empty.writeAll true
      [.bool true, .uint .w16 0xbeef, .int .w8 ⟨-2, by decide, by decide⟩, .float 0x3f800000,
        .double 0x3ff0000000000000, .string [0x68, 0xc3, 0xb6]] = some buf ∧
    buf.readAll true [.bool, .uint .w16, .int .w8, .float, .double, .string] =
      ([.bool true, .uint .w16 0xbeef, .int .w8 ⟨-2, by decide, by decide⟩, .float 0x3f800000,
        .double 0x3ff0000000000000, .string [0x68, 0xc3, 0xb6]].map .ok, buf') ∧
    buf'.rpos = buf'.size := by
  refine (byteBuffer_round_trip true).1 _ ?_ (by decide)
  simp only [List.forall_mem_cons, Value.Supported]
  exact ⟨trivial, trivial, trivial, by decide, by decide, ⟨by simp, by decide +kernel⟩, by simp⟩

end ByteBuffer

end WarheadDiscord
