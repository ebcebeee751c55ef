import Mathlib.Data.Nat.Digits.Lemmas
import WarheadDiscord.Common.Config
import WarheadDiscord.Lib.Loop

/-!
# Bytes as hexadecimal text

`ByteArrayToHexStr` writes two digits for each byte of an array, and `HexStrToByteArray` reads
a byte from every two digits of a text.  With `reverse` both go from the end to the start, the
one over the bytes and the other over the pairs of digits.  The counters are `int32`, and the
loops stop where the counter is equal to the end, so that an end that is missed is never found.

Every index is checked in the model, and so is the arithmetic of `int32`: what the source leaves
undefined is a `Fault`.  A result that is no fault says that both loops stayed in range.

On arrays of less than `2 ^ 30` bytes the two functions undo each other (`hexStr_roundTrip`).
A longer text has a length that is no `int32`, and it is not read any more
(`hexStrToByteArray_overflow`).

## Main definitions

* `format02X`, `strtoul16` — the functions of the C library, as they are used here.
* `HexStr.turn` — a turn of a loop with an `int32` counter.
* `byteArrayToHexStr`, `hexStrToByteArray` — the functions of the source.
* `hexText`, `readPairs` — the text of some bytes, and the bytes of a text.
-/

namespace WarheadDiscord

open IntegralType (int32 uint64)

/-! ## The C library -/

/-- The digit of a number below sixteen. -/
def upperHexDigit (d : ℕ) : UInt8 :=
  if d < 10 then UInt8.ofNat (0x30 + d) else UInt8.ofNat (0x37 + d)

/-- What `sprintf` writes for `%02X`: at least two digits, without the octet that ends it. -/
def format02X (n : ℕ) : List UInt8 :=
  ((Nat.digits 16 n).reverse.map upperHexDigit).leftpad 2 0x30

/-- The number below sixteen that a digit of either case stands for. -/
def hexDigitValue (c : UInt8) : Option ℕ :=
  if isDigit c then some (c.toNat - 0x30)
  else if 0x41 ≤ c.toNat ∧ c.toNat ≤ 0x46 then some (c.toNat - 0x37)
  else if 0x61 ≤ c.toNat ∧ c.toNat ≤ 0x66 then some (c.toNat - 0x57)
  else none

/-- The digits at the start of a text, after a number that is read already. -/
def readHexDigits : ℕ → List UInt8 → ℕ
  | n, [] => n
  | n, c :: str =>
      match hexDigitValue c with
      | some d => readHexDigits (16 * n + d) str
      | none => n

/-- The text behind its sign. -/
def skipSign : List UInt8 → List UInt8
  | [] => []
  | c :: str => if c = 0x2b ∨ c = 0x2d then str else c :: str

/-- The text behind `0x`, which is read only in front of a digit. -/
def skip0x : List UInt8 → List UInt8
  | zero :: x :: c :: str =>
      if zero = 0x30 ∧ (x = 0x78 ∨ x = 0x58) ∧ (hexDigitValue c).isSome then c :: str
      else zero :: x :: c :: str
  | str => str

/-- `strtoul` in base sixteen, on a text that ends at its first zero.  A number beyond
`unsigned long` gives the largest one, and a minus sign the negative modulo `2 ^ 64`. -/
def strtoul16 (buffer : List UInt8) : ℕ :=
  let str := (buffer.takeWhile (· ≠ 0)).dropWhile isspace
  let n := readHexDigits 0 (skip0x (skipSign str))
  if 2 ^ 64 ≤ n then 2 ^ 64 - 1
  else if str.head? = some 0x2d then (2 ^ 64 - n) % 2 ^ 64
  else n

/-! ## The loops -/

namespace HexStr

/-- What the loops must not do. -/
inductive Fault
  /-- A failed `ASSERT`. -/
  | assertion
  /-- A sum of `int32` that is no `int32`. -/
  | overflow
  /-- An access outside an array or a text. -/
  | outOfRange
  deriving DecidableEq, Repr

/-- `xs[i]` -/
def load (xs : List UInt8) (i : ℤ) : Except Fault UInt8 :=
  if i < 0 then .error .outOfRange
  else
    match xs[i.toNat]? with
    | some x => .ok x
    | none => .error .outOfRange

/-- `xs[j] = x` -/
def store (xs : List UInt8) (j : ℕ) (x : UInt8) : Except Fault (List UInt8) :=
  if j < xs.length then .ok (xs.set j x) else .error .outOfRange

/-- The sum of two `int32`. -/
def add (i j : ℤ) : Except Fault ℤ :=
  if int32.Represents (i + j) then .ok (i + j) else .error .overflow

/-- A turn of `for (int32 i = init; i != end; i += op)`, on the counter and the variables that
`body` changes. -/
def turn {β : Type} (stop op : ℤ) (body : ℤ → β → Except Fault β) (s : ℤ × β) :
    (ℤ × β) ⊕ Except Fault β :=
  if s.1 = stop then .inr (.ok s.2)
  else
    match body s.1 s.2 with
    | .error e => .inr (.error e)
    | .ok b =>
        match add s.1 op with
        | .error e => .inr (.error e)
        | .ok i => .inl (i, b)

/-- `char buffer[4]; sprintf(buffer, "%02X", bytes[i]); ss.append(buffer);` -/
def appendByte (bytes : List UInt8) (i : ℤ) (ss : List UInt8) : Except Fault (List UInt8) := do
  let byte ← load bytes i
  let buffer := format02X byte.toNat
  if 4 < buffer.length + 1 then .error .outOfRange
  else .ok (ss ++ buffer)

/-- `out[j++] = uint8(strtoul(buffer, nullptr, 16));` where the buffer is `str[i]`, `str[i + 1]`
and the zero that ends it.  `j` is a `uint32`. -/
def storeByte (str : List UInt8) (i : ℤ) (s : ℕ × List UInt8) :
    Except Fault (ℕ × List UInt8) := do
  let high ← load str i
  let next ← add i 1
  let low ← load str next
  let out ← store s.2 s.1 (UInt8.ofNat (strtoul16 [high, low, 0]))
  .ok ((s.1 + 1) % 2 ^ 32, out)

end HexStr

open HexStr

/-- `Warhead::Impl::ByteArrayToHexStr` on an array in memory, with `none` if the loop takes more
turns than there is fuel for. -/
def Impl.byteArrayToHexStr (fuel : ℕ) (bytes : List UInt8) (arrayLen : ℕ) (reverse : Bool) :
    Option (Except Fault (List UInt8)) :=
  let init := if reverse then int32.convert (uint64.convert (arrayLen - 1)) else 0
  let stop := if reverse then -1 else int32.convert arrayLen
  let op := if reverse then -1 else 1
  Loop.loop (turn stop op (appendByte bytes)) fuel (init, [])

/-- `Warhead::Impl::HexStrToByteArray`, with what is left in `out`. -/
def Impl.hexStrToByteArray (fuel : ℕ) (str out : List UInt8) (outlen : ℕ) (reverse : Bool) :
    Option (Except Fault (List UInt8)) :=
  if str.length ≠ 2 * outlen then some (.error .assertion)
  else
    let init := if reverse then int32.convert (uint64.convert (str.length - 2)) else 0
    let stop := if reverse then -2 else int32.convert str.length
    let op := if reverse then -1 else 1
    (Loop.loop (turn stop (2 * op) (storeByte str)) fuel (init, 0, out)).map
      fun r => r.map Prod.snd

/-- `ByteArrayToHexStr` -/
def byteArrayToHexStr (fuel : ℕ) (c : List UInt8) (reverse : Bool) :
    Option (Except Fault (List UInt8)) :=
  Impl.byteArrayToHexStr fuel c c.length reverse

/-- `HexStrToByteArray`, into an array with the contents `buf`. -/
def hexStrToByteArray (fuel : ℕ) (str buf : List UInt8) (reverse : Bool) :
    Option (Except Fault (List UInt8)) :=
  Impl.hexStrToByteArray fuel str buf buf.length reverse

/-- The order in which the bytes are visited. -/
def walked {α : Type} (reverse : Bool) (xs : List α) : List α :=
  if reverse then xs.reverse else xs

/-- Two digits for each byte. -/
def hexText (bytes : List UInt8) : List UInt8 := bytes.flatMap fun byte => format02X byte.toNat

/-- A byte for every two characters. -/
def readPairs : List UInt8 → List UInt8
  | high :: low :: str => UInt8.ofNat (strtoul16 [high, low, 0]) :: readPairs str
  | _ => []

/-- A digit that `%02X` may write. -/
def isUpperHexDigit (c : UInt8) : Bool := isDigit c || (0x41 ≤ c.toNat && c.toNat ≤ 0x46)

/-! ## Digits -/

theorem toNat_upperHexDigit {d : ℕ} (hd : d < 16) :
    (upperHexDigit d).toNat = if d < 10 then 0x30 + d else 0x37 + d := by
  rw [upperHexDigit]
  split_ifs with hlt
  · rw [UInt8.toNat_ofNat']
    omega
  · rw [UInt8.toNat_ofNat']
    omega

theorem isUpperHexDigit_iff {c : UInt8} : isUpperHexDigit c = true ↔
    (0x30 ≤ c.toNat ∧ c.toNat ≤ 0x39) ∨ (0x41 ≤ c.toNat ∧ c.toNat ≤ 0x46) := by
  simp [isUpperHexDigit, isDigit]

theorem isUpperHexDigit_upperHexDigit {d : ℕ} (hd : d < 16) :
    isUpperHexDigit (upperHexDigit d) = true := by
  rw [isUpperHexDigit_iff, toNat_upperHexDigit hd]
  split_ifs <;> omega

/-- The digits are those that are written. -/
theorem exists_eq_upperHexDigit {c : UInt8} (hc : isUpperHexDigit c = true) :
    ∃ d < 16, c = upperHexDigit d := by
  rcases isUpperHexDigit_iff.mp hc with hc | hc
  · refine ⟨c.toNat - 0x30, by omega, UInt8.toNat_inj.mp ?_⟩
    rw [toNat_upperHexDigit (by omega), if_pos (by omega)]
    omega
  · refine ⟨c.toNat - 0x37, by omega, UInt8.toNat_inj.mp ?_⟩
    rw [toNat_upperHexDigit (by omega), if_neg (by omega)]
    omega

theorem hexDigitValue_upperHexDigit {d : ℕ} (hd : d < 16) :
    hexDigitValue (upperHexDigit d) = some d := by
  have hc := toNat_upperHexDigit hd
  have hdigit : isDigit (upperHexDigit d) = true ↔ d < 10 := by
    simp only [isDigit, hc, Bool.and_eq_true, decide_eq_true_eq]
    split_ifs <;> omega
  rw [hexDigitValue]
  by_cases hlt : d < 10
  · rw [if_pos (hdigit.mpr hlt), hc, if_pos hlt, Nat.add_sub_cancel_left]
  · rw [if_neg (hlt ∘ hdigit.mp), hc, if_neg hlt, if_pos (by omega), Nat.add_sub_cancel_left]

theorem of_hexDigitValue {c : UInt8} {d : ℕ} (h : hexDigitValue c = some d) :
    0x30 ≤ c.toNat ∧ d < 16 := by
  rw [hexDigitValue] at h
  split_ifs at h with hdigit hupper hlower
  · simp only [isDigit, Bool.and_eq_true, decide_eq_true_eq] at hdigit
    simp only [Option.some.injEq] at h
    omega
  · simp only [Option.some.injEq] at h
    omega
  · simp only [Option.some.injEq] at h
    omega

/-- A byte has exactly two digits. -/
theorem format02X_toNat (byte : UInt8) :
    format02X byte.toNat =
      [upperHexDigit (byte.toNat / 16), upperHexDigit (byte.toNat % 16)] := by
  have hlt := byte.toNat_lt
  generalize byte.toNat = n at hlt
  have hzero : upperHexDigit 0 = 0x30 := rfl
  rcases Nat.lt_or_ge n 16 with hsmall | hge
  · rw [Nat.div_eq_of_lt hsmall, Nat.mod_eq_of_lt hsmall, hzero, format02X]
    rcases Nat.eq_zero_or_pos n with rfl | hpos
    · rfl
    · rw [Nat.digits_of_lt 16 n hpos.ne' hsmall]
      rfl
  · have hdigits : Nat.digits 16 n = [n % 16, n / 16] := by
      rw [Nat.digits_def' (by decide) (by omega),
        Nat.digits_of_lt 16 (n / 16) (by omega) (by omega)]
    rw [format02X, hdigits]
    rfl

/-- Two digits are no sign, no space and no `0x`. -/
theorem strtoul16_pair {high low : UInt8} {x y : ℕ} (hx : hexDigitValue high = some x)
    (hy : hexDigitValue low = some y) : strtoul16 [high, low, 0] = 16 * x + y := by
  obtain ⟨hhigh, hx16⟩ := of_hexDigitValue hx
  obtain ⟨hlow, hy16⟩ := of_hexDigitValue hy
  have hne : ∀ c d : UInt8, 0x30 ≤ c.toNat → d.toNat < 0x30 → c ≠ d := by
    rintro c d hc hd rfl
    omega
  have htake : [high, low, 0].takeWhile (· ≠ 0) = [high, low] := by
    simp [hne high 0 hhigh (by decide), hne low 0 hlow (by decide)]
  have hdrop : [high, low].dropWhile isspace = [high, low] := by
    have hspace : isspace high = false := by
      simp only [isspace, Bool.or_eq_false_iff, Bool.and_eq_false_iff, decide_eq_false_iff_not,
        UInt8.le_iff_toNat_le, ← UInt8.toNat_inj, UInt8.reduceToNat]
      omega
    rw [List.dropWhile_cons_of_neg (by simp [hspace])]
  have hminus : high ≠ 0x2d := hne high _ hhigh (by decide)
  have hsign : skipSign [high, low] = [high, low] := by
    rw [skipSign, if_neg (not_or.mpr ⟨hne high _ hhigh (by decide), hminus⟩)]
  have hread : readHexDigits 0 (skip0x [high, low]) = 16 * x + y := by
    rw [skip0x, readHexDigits, hx]
    · simp only [readHexDigits, hy]
      omega
    · simp
  rw [strtoul16, htake]
  simp only [hdrop, hsign, hread]
  rw [if_neg (by omega), if_neg (by simpa using hminus)]

/-! ## The text of a byte -/

theorem hexText_cons (byte : UInt8) (bytes : List UInt8) :
    hexText (byte :: bytes) =
      upperHexDigit (byte.toNat / 16) :: upperHexDigit (byte.toNat % 16) :: hexText bytes := by
  rw [hexText, List.flatMap_cons, format02X_toNat]
  rfl

@[simp] theorem length_hexText (bytes : List UInt8) :
    (hexText bytes).length = 2 * bytes.length := by
  induction bytes with
  | nil => rfl
  | cons byte bytes ih =>
      rw [hexText_cons, List.length_cons, List.length_cons, ih, List.length_cons]
      omega

theorem isUpperHexDigit_of_mem_hexText {bytes : List UInt8} {c : UInt8} (h : c ∈ hexText bytes) :
    isUpperHexDigit c = true := by
  induction bytes with
  | nil => cases h
  | cons byte bytes ih =>
      have hlt := byte.toNat_lt
      rw [hexText_cons, List.mem_cons, List.mem_cons] at h
      rcases h with rfl | rfl | h
      · exact isUpperHexDigit_upperHexDigit (by omega)
      · exact isUpperHexDigit_upperHexDigit (by omega)
      · exact ih h

/-- The byte of two digits. -/
theorem strtoul16_upperHexDigit {x y : ℕ} (hx : x < 16) (hy : y < 16) :
    strtoul16 [upperHexDigit x, upperHexDigit y, 0] = 16 * x + y :=
  strtoul16_pair (hexDigitValue_upperHexDigit hx) (hexDigitValue_upperHexDigit hy)

/-- **The bytes are read back from their text.** -/
@[simp] theorem readPairs_hexText (bytes : List UInt8) : readPairs (hexText bytes) = bytes := by
  induction bytes with
  | nil => rfl
  | cons byte bytes ih =>
      have hlt := byte.toNat_lt
      rw [hexText_cons, readPairs, strtoul16_upperHexDigit (by omega) (by omega), ih,
        Nat.div_add_mod, UInt8.ofNat_toNat]

theorem exists_pair {str : List UInt8} {n : ℕ} (hlength : str.length = 2 * (n + 1)) :
    ∃ high low rest, str = high :: low :: rest ∧ rest.length = 2 * n := by
  match str, hlength with
  | high :: low :: rest, hlength =>
      exact ⟨high, low, rest, rfl, by simpa [Nat.mul_succ] using hlength⟩

/-- **A text of digits is written back from its bytes.** -/
theorem hexText_readPairs {str : List UInt8} {n : ℕ} (hlength : str.length = 2 * n)
    (hdigits : ∀ c ∈ str, isUpperHexDigit c = true) : hexText (readPairs str) = str := by
  induction n generalizing str with
  | zero =>
      rw [List.eq_nil_of_length_eq_zero hlength]
      rfl
  | succ n ih =>
      obtain ⟨high, low, rest, rfl, htail⟩ := exists_pair hlength
      rw [List.forall_mem_cons, List.forall_mem_cons] at hdigits
      obtain ⟨hhigh, hlow, hrest⟩ := hdigits
      obtain ⟨x, hx, rfl⟩ := exists_eq_upperHexDigit hhigh
      obtain ⟨y, hy, rfl⟩ := exists_eq_upperHexDigit hlow
      have hbyte : (UInt8.ofNat (16 * x + y)).toNat = 16 * x + y := by
        rw [UInt8.toNat_ofNat']
        omega
      have hdiv : (16 * x + y) / 16 = x := by omega
      have hmod : (16 * x + y) % 16 = y := by omega
      rw [readPairs, strtoul16_upperHexDigit hx hy, hexText_cons, hbyte, hdiv, hmod,
        ih htail hrest]

theorem length_readPairs {str : List UInt8} {n : ℕ} (hlength : str.length = 2 * n) :
    (readPairs str).length = n := by
  induction n generalizing str with
  | zero =>
      rw [List.eq_nil_of_length_eq_zero hlength]
      rfl
  | succ n ih =>
      obtain ⟨high, low, rest, rfl, htail⟩ := exists_pair hlength
      rw [readPairs, List.length_cons, ih htail]

/-- The byte at a position is the one of two characters at twice the position. -/
theorem getElem?_readPairs {str : List UInt8} {high low : UInt8} {p : ℕ}
    (hhigh : str[2 * p]? = some high) (hlow : str[2 * p + 1]? = some low) :
    (readPairs str)[p]? = some (UInt8.ofNat (strtoul16 [high, low, 0])) := by
  induction p generalizing str with
  | zero =>
      match str, hhigh, hlow with
      | _ :: _ :: _, rfl, rfl => rfl
  | succ p ih =>
      match str, hhigh, hlow with
      | _ :: _ :: rest, hhigh, hlow => exact ih hhigh hlow

/-! ## The order of the bytes -/

section Walked
variable {α : Type} {reverse : Bool} {xs : List α} {k : ℕ}

/-- Where the element of turn `k` is. -/
def position (reverse : Bool) (n k : ℕ) : ℕ := if reverse then n - 1 - k else k

theorem position_lt (reverse : Bool) {n k : ℕ} (hk : k < n) : position reverse n k < n := by
  rw [position]
  split_ifs <;> omega

@[simp] theorem length_walked (reverse : Bool) (xs : List α) :
    (walked reverse xs).length = xs.length := by
  cases reverse <;> simp [walked]

@[simp] theorem walked_walked (reverse : Bool) (xs : List α) :
    walked reverse (walked reverse xs) = xs := by
  cases reverse <;> simp [walked]

@[simp] theorem walked_not_walked (reverse : Bool) (xs : List α) :
    walked (!reverse) (walked reverse xs) = xs.reverse := by
  cases reverse <;> simp [walked]

theorem getElem?_walked (hk : k < xs.length) :
    (walked reverse xs)[k]? = xs[position reverse xs.length k]? := by
  cases reverse with
  | false => rfl
  | true => exact List.getElem?_reverse hk

end Walked

/-! ## The counters -/

namespace HexStr
variable {β : Type} {body : ℤ → β → Except Fault β} {stop op : ℤ} {reverse : Bool}
  {n fuel w : ℕ}

theorem represents_int32_iff {v : ℤ} : int32.Represents v ↔ -2 ^ 31 ≤ v ∧ v < 2 ^ 31 := by
  simp [IntegralType.Represents, IntegralType.isSigned, IntegralType.size]

/-- Through `size_t`, where a negative number is a large one. -/
theorem convert_int32_convert_uint64 {v : ℤ} (hv : int32.Represents v) :
    int32.convert (uint64.convert v) = v := by
  have hmod : uint64.convert v = v % 2 ^ 64 := by
    simp [IntegralType.convert, IntegralType.isSigned, IntegralType.size]
  have hdvd : (2 ^ (8 * int32.size) : ℤ) ∣ 2 ^ 64 := pow_dvd_pow 2 (by decide)
  rw [hmod, ← IntegralType.convert_emod (by decide), Int.emod_emod_of_dvd v hdvd,
    IntegralType.convert_emod (by decide), IntegralType.convert_of_represents hv]

theorem load_eq {xs : List UInt8} {p : ℕ} {x : UInt8} (h : xs[p]? = some x) :
    load xs p = .ok x := by
  rw [load, if_neg (by omega), Int.toNat_natCast, h]

theorem ok_bind {α γ : Type} (a : α) (f : α → Except Fault γ) : (Except.ok a >>= f) = f a := rfl

theorem turn_eq_inl {i : ℤ} {b b' : β} (hne : i ≠ stop) (hbody : body i b = .ok b')
    (hint : int32.Represents (i + op)) : turn stop op body (i, b) = .inl (i + op, b') := by
  simp only [turn, if_neg hne, hbody, add, if_pos hint]

theorem turn_eq_overflow {i : ℤ} {b b' : β} (hne : i ≠ stop) (hbody : body i b = .ok b')
    (hint : ¬ int32.Represents (i + op)) :
    turn stop op body (i, b) = .inr (.error .overflow) := by
  simp only [turn, if_neg hne, hbody, add, if_neg hint]

/-! ### A walk over `n` elements that are `w` apart -/

/-- The counter in front of the first turn. -/
def first (reverse : Bool) (w n : ℕ) : ℤ := if reverse then w * n - w else 0

/-- The counter behind the last turn. -/
def last (reverse : Bool) (w n : ℕ) : ℤ := if reverse then -w else w * n

/-- What is added to the counter. -/
def stride (reverse : Bool) (w : ℕ) : ℤ := if reverse then -w else w

theorem counter_eq {k : ℕ} (hk : k < n) :
    first reverse w n + stride reverse w * k = (w * position reverse n k : ℕ) := by
  cases reverse with
  | false => simp [first, stride, position]
  | true =>
      obtain ⟨m, rfl⟩ := Nat.exists_eq_add_of_lt hk
      have hposition : position true (k + m + 1) k = m := by
        simp only [position, if_true]
        omega
      rw [hposition]
      simp only [first, stride, if_true]
      push_cast
      ring

theorem counter_last : first reverse w n + stride reverse w * n = last reverse w n := by
  cases reverse with
  | false => simp [first, stride, last]
  | true =>
      simp only [first, stride, last, if_true]
      ring

theorem counter_ne_last (hw : 0 < w) {k : ℕ} (hk : k < n) :
    first reverse w n + stride reverse w * k ≠ last reverse w n := by
  have hstride : stride reverse w ≠ 0 := by
    rw [stride]
    split_ifs <;> omega
  intro heq
  rw [← counter_last, add_right_inj, mul_right_inj' hstride, Nat.cast_inj] at heq
  omega

/-- The last counter of a walk back is below zero, and still in range. -/
theorem represents_counter (reverse : Bool) (hw : w < 2 ^ 31) (hint : w * n < 2 ^ 31) {k : ℕ}
    (hk : k ≤ n) :
    int32.Represents (first reverse w n + stride reverse w * k) := by
  have hle : (w : ℤ) * k ≤ w * n := by exact_mod_cast Nat.mul_le_mul_left w hk
  have hnonneg : (0 : ℤ) ≤ w * k := by positivity
  have hlt : (w : ℤ) * n < 2 ^ 31 := by exact_mod_cast hint
  rw [represents_int32_iff, first, stride]
  cases reverse with
  | false =>
      simp only [Bool.false_eq_true, if_false]
      omega
  | true =>
      simp only [if_true, neg_mul]
      omega

/-- The start of the source, through `size_t`: on an empty array it is the end. -/
theorem init_eq (reverse : Bool) (hw : w < 2 ^ 31) (hint : w * n < 2 ^ 31) :
    (if reverse then int32.convert (uint64.convert ((w * n : ℕ) - (w : ℤ))) else 0) =
      first reverse w n := by
  cases reverse with
  | false => rfl
  | true =>
      have hrange := represents_counter true hw hint (Nat.zero_le n)
      simp only [Nat.cast_zero, mul_zero, add_zero, first, if_true] at hrange
      rw [if_pos rfl, Nat.cast_mul, convert_int32_convert_uint64 hrange]
      rfl

theorem stop_eq (reverse : Bool) (hint : w * n < 2 ^ 31) :
    (if reverse then -(w : ℤ) else int32.convert (w * n : ℕ)) = last reverse w n := by
  cases reverse with
  | false =>
      have hrange : int32.Represents (w * n : ℕ) := by
        rw [represents_int32_iff]
        omega
      rw [if_neg (by decide), IntegralType.convert_of_represents hrange, Nat.cast_mul]
      rfl
  | true => rfl

theorem op_eq (reverse : Bool) (w : ℕ) :
    (w : ℤ) * (if reverse then -1 else 1) = stride reverse w := by
  cases reverse <;> simp [stride]

/-- **A walk ends, with all of its counters in range.**  In front of turn `k` the variables of the
loop are `f k`. -/
theorem loop_walk (f : ℕ → β) (hpos : 0 < w) (hw : w < 2 ^ 31) (hint : w * n < 2 ^ 31)
    (hbody : ∀ k < n, body (w * position reverse n k : ℕ) (f k) = .ok (f (k + 1)))
    (hfuel : n < fuel) :
    Loop.loop
      (turn (if reverse then -(w : ℤ) else int32.convert (w * n : ℕ))
        (w * (if reverse then -1 else 1)) body) fuel
      (if reverse then int32.convert (uint64.convert ((w * n : ℕ) - (w : ℤ))) else 0, f 0) =
        some (.ok (f n)) := by
  rw [init_eq reverse hw hint, stop_eq reverse hint, op_eq]
  have hloop : Loop.loop (turn (last reverse w n) (stride reverse w) body) fuel
      (first reverse w n + stride reverse w * (0 : ℕ), f 0) = some (.ok (f n)) := by
    refine Loop.loop_of_turns
      (fun k : ℕ => (first reverse w n + stride reverse w * k, f k)) ?_ ?_ hfuel
    · intro k hk
      have hnext : first reverse w n + stride reverse w * (k + 1 : ℕ) =
          first reverse w n + stride reverse w * k + stride reverse w := by
        push_cast
        ring
      have hrange := represents_counter reverse hw hint hk
      rw [hnext] at hrange ⊢
      refine turn_eq_inl (counter_ne_last hpos hk) ?_ hrange
      rw [counter_eq hk]
      exact hbody k hk
    · simp only [turn, counter_last, if_true]
  simpa using hloop

/-! ### The bodies -/

/-- The text of the first bytes becomes the text of one more. -/
theorem appendByte_eq {bytes xs : List UInt8} {byte : UInt8} {p k : ℕ}
    (hp : bytes[p]? = some byte) (hk : xs[k]? = some byte) :
    appendByte bytes p (hexText (xs.take k)) = .ok (hexText (xs.take (k + 1))) := by
  have htake : hexText (xs.take (k + 1)) = hexText (xs.take k) ++ format02X byte.toNat := by
    rw [List.take_add_one, hk]
    simp [hexText]
  have hbuffer : ¬ 4 < (format02X byte.toNat).length + 1 := by
    simp [format02X_toNat]
  rw [appendByte, load_eq hp, ok_bind, htake]
  exact if_neg hbuffer

theorem store_eq {out xs : List UInt8} {x : UInt8} {k : ℕ} (hk : xs[k]? = some x)
    (hout : k < out.length) :
    store (xs.take k ++ out.drop k) k x = .ok (xs.take (k + 1) ++ out.drop (k + 1)) := by
  have hlength : (xs.take k).length = k := by
    have hlt := (List.getElem?_eq_some_iff.mp hk).choose
    rw [List.length_take]
    omega
  have hset : (xs.take k ++ out.drop k).set k x = xs.take (k + 1) ++ out.drop (k + 1) := by
    rw [List.set_append_right _ _ (by omega), hlength, Nat.sub_self,
      List.drop_eq_getElem_cons hout, List.set_cons_zero, List.take_add_one, hk]
    simp
  rw [store, if_pos, hset]
  rw [List.length_append, hlength, List.length_drop]
  omega

/-- The array is filled with one more byte. -/
theorem storeByte_eq {str out xs : List UInt8} {high low : UInt8} {p k : ℕ}
    (hhigh : str[2 * p]? = some high) (hlow : str[2 * p + 1]? = some low)
    (hk : xs[k]? = some (UInt8.ofNat (strtoul16 [high, low, 0])))
    (hout : k < out.length) (hp : 2 * p + 1 < 2 ^ 31) (hj : k + 1 < 2 ^ 32) :
    storeByte str (2 * p : ℕ) (k, xs.take k ++ out.drop k) =
      .ok (k + 1, xs.take (k + 1) ++ out.drop (k + 1)) := by
  have hnext : add (2 * p : ℕ) 1 = .ok ((2 * p + 1 : ℕ) : ℤ) := by
    rw [add, if_pos]
    · rfl
    · rw [represents_int32_iff]
      omega
  simp only [storeByte, load_eq hhigh, ok_bind, hnext, load_eq hlow, store_eq hk hout,
    Nat.mod_eq_of_lt hj]

end HexStr

/-! ## The functions -/

section Functions
variable {reverse : Bool} {fuel : ℕ}

/-- **`ByteArrayToHexStr` writes the bytes in the order of the walk.** -/
theorem byteArrayToHexStr_eq {c : List UInt8} (hc : c.length < 2 ^ 31) (hfuel : c.length < fuel) :
    byteArrayToHexStr fuel c reverse = some (.ok (hexText (walked reverse c))) := by
  have hbody : ∀ k < c.length, appendByte c (1 * position reverse c.length k : ℕ)
      (hexText ((walked reverse c).take k)) = .ok (hexText ((walked reverse c).take (k + 1))) := by
    intro k hk
    obtain ⟨byte, hbyte⟩ : ∃ byte, (walked reverse c)[k]? = some byte :=
      ⟨_, List.getElem?_eq_getElem (by simpa using hk)⟩
    rw [Nat.one_mul]
    exact appendByte_eq ((getElem?_walked hk).symm.trans hbyte) hbyte
  have hloop := loop_walk (fun k => hexText ((walked reverse c).take k)) Nat.one_pos (by decide)
    (by omega) hbody hfuel
  have hall : (walked reverse c).take c.length = walked reverse c :=
    List.take_of_length_le (by simp)
  rw [Nat.one_mul, Nat.cast_one, one_mul, hall] at hloop
  exact hloop

/-- Arrays are compared as well by their texts, as `UpdateFetcher` compares the hashes of files. -/
theorem byteArrayToHexStr_inj {c c' : List UInt8} (hc : c.length < 2 ^ 31)
    (hc' : c'.length < 2 ^ 31) (hfuel : c.length < fuel) (hfuel' : c'.length < fuel) :
    byteArrayToHexStr fuel c reverse = byteArrayToHexStr fuel c' reverse ↔ c = c' := by
  rw [byteArrayToHexStr_eq hc hfuel, byteArrayToHexStr_eq hc' hfuel', Option.some.injEq,
    Except.ok.injEq]
  constructor
  · intro heq
    have hwalked := congrArg readPairs heq
    rw [readPairs_hexText, readPairs_hexText] at hwalked
    rw [← walked_walked reverse c, hwalked, walked_walked]
  · rintro rfl
    rfl

/-- One turn of `HexStrToByteArray`. -/
theorem storeByte_walk (reverse : Bool) {str buf : List UInt8}
    (hlength : str.length = 2 * buf.length) {k : ℕ} (hk : k < buf.length)
    (hp : position reverse buf.length k < 2 ^ 30) (hj : k + 1 < 2 ^ 32) :
    storeByte str (2 * position reverse buf.length k : ℕ)
      (k, (walked reverse (readPairs str)).take k ++ buf.drop k) =
        .ok (k + 1, (walked reverse (readPairs str)).take (k + 1) ++ buf.drop (k + 1)) := by
  have hpairs := length_readPairs hlength
  have hlt := position_lt reverse hk
  obtain ⟨high, hhigh⟩ : ∃ high, str[2 * position reverse buf.length k]? = some high :=
    ⟨_, List.getElem?_eq_getElem (by omega)⟩
  obtain ⟨low, hlow⟩ : ∃ low, str[2 * position reverse buf.length k + 1]? = some low :=
    ⟨_, List.getElem?_eq_getElem (by omega)⟩
  have hbyte := getElem?_readPairs hhigh hlow
  rw [← hpairs, ← getElem?_walked (hpairs ▸ hk)] at hbyte
  exact storeByte_eq hhigh hlow hbyte hk (by omega) hj

/-- **`HexStrToByteArray` reads a byte from every two characters**, whatever these are, and fills
the array in the order of the walk. -/
theorem hexStrToByteArray_eq {str buf : List UInt8} (hbuf : buf.length < 2 ^ 30)
    (hlength : str.length = 2 * buf.length) (hfuel : buf.length < fuel) :
    hexStrToByteArray fuel str buf reverse = some (.ok (walked reverse (readPairs str))) := by
  have hpairs := length_readPairs hlength
  have hbody : ∀ k < buf.length, storeByte str (2 * position reverse buf.length k : ℕ)
      (k, (walked reverse (readPairs str)).take k ++ buf.drop k) =
        .ok (k + 1, (walked reverse (readPairs str)).take (k + 1) ++ buf.drop (k + 1)) := by
    intro k hk
    have hp := position_lt reverse hk
    exact storeByte_walk reverse hlength hk (by omega) (by omega)
  have hloop := loop_walk (fun k => (k, (walked reverse (readPairs str)).take k ++ buf.drop k))
    Nat.two_pos (by decide) (by omega) hbody hfuel
  have hall : (walked reverse (readPairs str)).take buf.length ++ buf.drop buf.length =
      walked reverse (readPairs str) := by
    rw [List.take_of_length_le (by simp [hpairs]), List.drop_length, List.append_nil]
  rw [← hlength, Nat.cast_two, List.take_zero, List.nil_append, List.drop_zero, hall] at hloop
  rw [hexStrToByteArray, Impl.hexStrToByteArray, if_neg (not_not.mpr hlength)]
  simp only [hloop]
  rfl

/-- From `2 ^ 30` bytes on the length of the text is no `int32`: going forward the end is a
negative number, and the counter overflows on its way up. -/
theorem hexStrToByteArray_overflow {str buf : List UInt8} (hlength : str.length = 2 * buf.length)
    (hge : 2 ^ 30 ≤ buf.length) (hlt : buf.length < 2 ^ 31) (hfuel : 2 ^ 30 ≤ fuel) :
    hexStrToByteArray fuel str buf false = some (.error .overflow) := by
  obtain ⟨n, hn⟩ : ∃ n, n + 1 = 2 ^ 30 := ⟨2 ^ 30 - 1, by omega⟩
  have hstop : int32.convert str.length < 0 := by
    simp only [IntegralType.convert, IntegralType.isSigned, IntegralType.size, true_and, hlength]
    rw [if_neg (by decide), if_pos (by omega)]
    omega
  have hbody : ∀ k ≤ n, storeByte str (2 * k : ℕ) (k, (readPairs str).take k ++ buf.drop k) =
      .ok (k + 1, (readPairs str).take (k + 1) ++ buf.drop (k + 1)) := by
    intro k hk
    have hp : position false buf.length k = k := rfl
    have hstored := storeByte_walk false hlength (by omega : k < buf.length) (by omega) (by omega)
    rwa [hp, walked, if_neg (by decide)] at hstored
  have hne : ∀ k : ℕ, ((2 * k : ℕ) : ℤ) ≠ int32.convert str.length := by
    intro k
    omega
  have hloop : Loop.loop (turn (int32.convert str.length) 2 (storeByte str)) fuel
      (((2 * 0 : ℕ) : ℤ), 0, (readPairs str).take 0 ++ buf.drop 0) =
        some (.error .overflow) := by
    refine Loop.loop_of_turns
      (fun k : ℕ => (((2 * k : ℕ) : ℤ), k, (readPairs str).take k ++ buf.drop k)) ?_ ?_
      (by omega : n < fuel)
    · intro k hk
      have hrange : int32.Represents ((2 * k : ℕ) + 2) := by
        rw [represents_int32_iff]
        omega
      have hnext : ((2 * (k + 1) : ℕ) : ℤ) = (2 * k : ℕ) + 2 := by omega
      rw [hnext]
      exact turn_eq_inl (hne k) (hbody k hk.le) hrange
    · have hrange : ¬ int32.Represents ((2 * n : ℕ) + 2) := by
        rw [represents_int32_iff]
        omega
      exact turn_eq_overflow (hne n) (hbody n le_rfl) hrange
  rw [hexStrToByteArray, Impl.hexStrToByteArray, if_neg (not_not.mpr hlength)]
  simp only [Bool.false_eq_true, if_false, mul_one]
  rw [List.take_zero, List.nil_append, List.drop_zero] at hloop
  rw [Nat.mul_zero, Nat.cast_zero] at hloop
  rw [hloop]
  rfl

end Functions

/-- **The two functions undo each other**, both forward and both backward, and whatever is in the
array that is filled: the bytes come back from their text, and a text of digits for an array of
this length from its bytes.  With `reverse` on one side only the array comes back reversed. -/
theorem hexStr_roundTrip (a : List UInt8) (ha : a.length < 2 ^ 30) (reverse : Bool) :
    (∃ text, text.length = 2 * a.length ∧ (∀ c ∈ text, isUpperHexDigit c = true) ∧
      ∀ fuel > a.length, byteArrayToHexStr fuel a reverse = some (.ok text) ∧
        ∀ buf : List UInt8, buf.length = a.length →
          hexStrToByteArray fuel text buf reverse = some (.ok a) ∧
          hexStrToByteArray fuel text buf (!reverse) = some (.ok a.reverse)) ∧
      ∀ str : List UInt8, str.length = 2 * a.length → (∀ c ∈ str, isUpperHexDigit c = true) →
        ∃ bytes, bytes.length = a.length ∧
          ∀ fuel > a.length, hexStrToByteArray fuel str a reverse = some (.ok bytes) ∧
            byteArrayToHexStr fuel bytes reverse = some (.ok str) := by
  constructor
  · refine ⟨hexText (walked reverse a), by simp, fun c => isUpperHexDigit_of_mem_hexText, ?_⟩
    intro fuel hfuel
    refine ⟨byteArrayToHexStr_eq (by omega) hfuel, ?_⟩
    intro buf hbuf
    have hlength : (hexText (walked reverse a)).length = 2 * buf.length := by simp [hbuf]
    constructor
    · rw [hexStrToByteArray_eq (by omega) hlength (by omega), readPairs_hexText, walked_walked]
    · rw [hexStrToByteArray_eq (by omega) hlength (by omega), readPairs_hexText,
        walked_not_walked]
  · intro str hlength hdigits
    have hbytes : (walked reverse (readPairs str)).length = a.length := by
      rw [length_walked, length_readPairs hlength]
    refine ⟨walked reverse (readPairs str), hbytes, ?_⟩
    intro fuel hfuel
    refine ⟨hexStrToByteArray_eq ha hlength hfuel, ?_⟩
    rw [byteArrayToHexStr_eq (by omega) (by omega), walked_walked,
      hexText_readPairs hlength hdigits]

/-- Two bytes, read and written from the last one on. -/
theorem hexStr_roundTrip_twoBytes :
    byteArrayToHexStr 3 [0x0a, 0xff] true = some (.ok (ascii "FF0A")) ∧
      hexStrToByteArray 3 (ascii "FF0A") [0, 0] true = some (.ok [0x0a, 0xff]) ∧
      hexStrToByteArray 3 (ascii "FF0A") [0, 0] false = some (.ok [0xff, 0x0a]) ∧
      ∃ bytes, hexStrToByteArray 3 (ascii "3CB7") [0x0a, 0xff] true = some (.ok bytes) ∧
        byteArrayToHexStr 3 bytes true = some (.ok (ascii "3CB7")) := by
  obtain ⟨⟨text, -, -, hwritten⟩, hread⟩ := hexStr_roundTrip [0x0a, 0xff] (by decide) true
  obtain ⟨htext, hback⟩ := hwritten 3 (by decide)
  have hdigits : byteArrayToHexStr 3 [0x0a, 0xff] true = some (.ok (ascii "FF0A")) := by
    decide +kernel
  rw [htext, Option.some.injEq, Except.ok.injEq] at hdigits
  rw [hdigits] at htext hback
  obtain ⟨hsame, hreversed⟩ := hback [0, 0] rfl
  obtain ⟨bytes, -, hbytes⟩ := hread (ascii "3CB7") rfl (List.all_eq_true.mp (by decide))
  exact ⟨htext, hsame, hreversed, bytes, hbytes 3 (by decide)⟩

end WarheadDiscord
