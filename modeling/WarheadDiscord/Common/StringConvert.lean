import Mathlib.Data.Nat.Digits.Defs
import Mathlib.Tactic.Common
import WarheadDiscord.Common.Util

/-!
# Numbers as text

`Warhead::StringTo<T>` reads a whole text as a number: `std::from_chars` has to stop at its
end, and the number has to be one of `T`.  A sign is read for a signed `T` only.  For
`bool` a few words are accepted beside the digits.

The decimal text of a number is read back as that number (`stringTo_decimalText`).

## Main definitions

* `IntegralType` — the integral types, with their ranges and their bit patterns.
* `fromChars`, `boolFromString`, `stringTo` — the functions of the source, in base ten.
* `decimalText` — the text of a number.
-/

namespace WarheadDiscord

/-- The octets of an ASCII text. -/
def ascii (s : String) : List UInt8 := s.toList.map fun c => UInt8.ofNat c.toNat

inductive IntegralType
  | bool
  | uint8
  | uint16
  | uint32
  | uint64
  | int8
  | int16
  | int32
  | int64
  deriving DecidableEq, Repr

namespace IntegralType

/-- `sizeof(T)` -/
def size : IntegralType → ℕ
  | .bool => 1
  | .uint8 => 1
  | .uint16 => 2
  | .uint32 => 4
  | .uint64 => 8
  | .int8 => 1
  | .int16 => 2
  | .int32 => 4
  | .int64 => 8

def isSigned : IntegralType → Bool
  | .int8 => true
  | .int16 => true
  | .int32 => true
  | .int64 => true
  | _ => false

/-- The number is a value of the type. -/
def Represents (T : IntegralType) (v : ℤ) : Prop :=
  if T = .bool then 0 ≤ v ∧ v ≤ 1
  else if T.isSigned then -2 ^ (8 * T.size - 1) ≤ v ∧ v < 2 ^ (8 * T.size - 1)
  else 0 ≤ v ∧ v < 2 ^ (8 * T.size)

instance (T : IntegralType) (v : ℤ) : Decidable (T.Represents v) := by
  unfold Represents
  infer_instance

/-- The value that a number is converted to. -/
def convert (T : IntegralType) (v : ℤ) : ℤ :=
  if T = .bool then if v = 0 then 0 else 1
  else
    let pattern := v % 2 ^ (8 * T.size)
    if T.isSigned ∧ 2 ^ (8 * T.size - 1) ≤ pattern then pattern - 2 ^ (8 * T.size) else pattern

theorem convert_of_represents {T : IntegralType} {v : ℤ} (h : T.Represents v) :
    T.convert v = v := by
  cases T <;> simp [Represents, convert, isSigned, size] at h ⊢ <;> omega

/-- Only the low octets of a number matter. -/
theorem convert_emod {T : IntegralType} (hT : T ≠ .bool) (v : ℤ) :
    T.convert (v % 2 ^ (8 * T.size)) = T.convert v := by
  simp only [convert, if_neg hT, Int.emod_emod_of_dvd _ (dvd_refl _)]

/-- A conversion keeps the low octets. -/
theorem emod_convert {T : IntegralType} (hT : T ≠ .bool) (v : ℤ) :
    T.convert v % 2 ^ (8 * T.size) = v % 2 ^ (8 * T.size) := by
  simp only [convert, if_neg hT]
  split_ifs with hnegative
  · rw [Int.sub_emod_right, Int.emod_emod_of_dvd _ (dvd_refl _)]
  · exact Int.emod_emod_of_dvd _ (dvd_refl _)

theorem represents_zero (T : IntegralType) : T.Represents 0 := by cases T <;> decide

end IntegralType

/-! ## Reading -/

def isDigit (c : UInt8) : Bool := 0x30 ≤ c.toNat && c.toNat ≤ 0x39

/-- The digits of a text, all of it, after a number that is read already. -/
def readDigits : ℕ → List UInt8 → Option ℕ
  | n, [] => some n
  | n, c :: str => if isDigit c then readDigits (10 * n + (c.toNat - 0x30)) str else none

/-- At least one digit. -/
def readNumber (str : List UInt8) : Option ℕ := if str = [] then none else readDigits 0 str

/-- `std::from_chars` in base ten reads the whole text. -/
def fromChars (T : IntegralType) (str : List UInt8) : Option ℤ :=
  Option.filter (fun v => T.Represents v)
    (if T.isSigned ∧ str.head? = some 0x2d then (readNumber str.tail).map fun n : ℕ => -(n : ℤ)
      else (readNumber str).map fun n : ℕ => (n : ℤ))

/-- `For<bool>::FromString`, not strict. -/
def boolFromString (str : List UInt8) : Option ℤ :=
  if str = ascii "1" ∨ stringEqualI str (ascii "y") ∨ stringEqualI str (ascii "on") ∨
      stringEqualI str (ascii "yes") ∨ stringEqualI str (ascii "true") then some 1
  else if str = ascii "0" ∨ stringEqualI str (ascii "n") ∨ stringEqualI str (ascii "off") ∨
      stringEqualI str (ascii "no") ∨ stringEqualI str (ascii "false") then some 0
  else none

def stringTo (T : IntegralType) (str : List UInt8) : Option ℤ :=
  if T = .bool then boolFromString str else fromChars T str

/-! ## Writing -/

/-- The digits of a number, the highest first. -/
def decimalDigits (n : ℕ) : List UInt8 :=
  if n = 0 then [0x30] else (Nat.digits 10 n).reverse.map fun d => UInt8.ofNat (0x30 + d)

/-- The text of a number. -/
def decimalText (v : ℤ) : List UInt8 :=
  if v < 0 then 0x2d :: decimalDigits v.natAbs else decimalDigits v.natAbs

theorem decimalDigits_ne_nil (n : ℕ) : decimalDigits n ≠ [] := by
  rw [decimalDigits]
  split
  · simp
  · rename_i hn
    simpa [Nat.digits_ne_nil_iff_ne_zero] using hn

theorem readDigits_map {ds : List ℕ} (hds : ∀ d ∈ ds, d < 10) (n : ℕ) :
    readDigits n (ds.map fun d => UInt8.ofNat (0x30 + d)) =
      some (ds.foldl (fun n d => 10 * n + d) n) := by
  induction ds generalizing n with
  | nil => rfl
  | cons d ds ih =>
      have hd : d < 10 := hds d List.mem_cons_self
      have htoNat : (UInt8.ofNat (0x30 + d)).toNat = 0x30 + d := by
        rw [UInt8.toNat_ofNat']
        omega
      have hdigit : isDigit (UInt8.ofNat (0x30 + d)) = true := by
        simp only [isDigit, htoNat, Bool.and_eq_true, decide_eq_true_eq]
        omega
      rw [List.map_cons, readDigits, if_pos hdigit, htoNat, Nat.add_sub_cancel_left,
        ih fun d hd => hds d (List.mem_cons_of_mem _ hd), List.foldl_cons]

theorem readNumber_decimalDigits (n : ℕ) : readNumber (decimalDigits n) = some n := by
  rw [readNumber, if_neg (decimalDigits_ne_nil n), decimalDigits]
  split
  · rename_i hn
    rw [hn]
    rfl
  · have hlt : ∀ d ∈ (Nat.digits 10 n).reverse, d < 10 := by
      intro d hd
      exact Nat.digits_lt_base (by decide) (List.mem_reverse.mp hd)
    rw [readDigits_map hlt, List.foldl_reverse]
    have hfold := Nat.ofDigits_eq_foldr 10 (Nat.digits 10 n)
    rw [Nat.ofDigits_digits] at hfold
    conv_rhs => rw [hfold]
    simp only [Nat.cast_id, Nat.add_comm]

theorem isDigit_of_readDigits {n m : ℕ} {str : List UInt8} (h : readDigits n str = some m) :
    ∀ c ∈ str, isDigit c = true := by
  induction str generalizing n with
  | nil => simp
  | cons c str ih =>
      rw [readDigits] at h
      split_ifs at h with hc
      simpa [hc] using ih h

theorem isDigit_of_mem_decimalDigits {n : ℕ} {c : UInt8} (h : c ∈ decimalDigits n) :
    isDigit c = true := by
  have hread := readNumber_decimalDigits n
  rw [readNumber, if_neg (decimalDigits_ne_nil n)] at hread
  exact isDigit_of_readDigits hread c h

/-- The first digit of a number is not a sign. -/
theorem head?_decimalDigits (n : ℕ) : (decimalDigits n).head? ≠ some 0x2d := by
  intro hhead
  have hnumber := readNumber_decimalDigits n
  cases hdigits : decimalDigits n with
  | nil => exact decimalDigits_ne_nil n hdigits
  | cons c str =>
      rw [hdigits, List.head?_cons, Option.some.injEq] at hhead
      rw [hdigits, hhead] at hnumber
      cases hnumber

/-- **A number is read back from its text.** -/
theorem stringTo_decimalText {T : IntegralType} {v : ℤ} (h : T.Represents v) :
    stringTo T (decimalText v) = some v := by
  rw [stringTo]
  split
  · rename_i hT
    subst hT
    -- only two numbers fit into a `bool`
    obtain ⟨hlo, hhi⟩ : 0 ≤ v ∧ v ≤ 1 := h
    obtain rfl | rfl : v = 0 ∨ v = 1 := by omega
    · decide +kernel
    · decide +kernel
  · rename_i hT
    rw [fromChars, decimalText]
    by_cases hneg : v < 0
    · have hsigned : T.isSigned = true := by
        by_contra hsigned
        simp only [IntegralType.Represents, if_neg hT, hsigned, if_false] at h
        omega
      rw [if_pos hneg, if_pos ⟨hsigned, rfl⟩, List.tail_cons, readNumber_decimalDigits]
      have habs : -(v.natAbs : ℤ) = v := by omega
      simp only [Option.map_some, habs, Option.filter_some, h, decide_true, if_true]
    · have habs : (v.natAbs : ℤ) = v := by omega
      rw [if_neg hneg, if_neg (fun h => head?_decimalDigits _ h.2), readNumber_decimalDigits]
      simp only [Option.map_some, habs, Option.filter_some, h, decide_true, if_true]

/-- A negative number is not read as an unsigned one. -/
theorem stringTo_decimalText_of_neg {T : IntegralType} {v : ℤ} (hT : T ≠ .bool)
    (hsigned : T.isSigned = false) (hv : v < 0) : stringTo T (decimalText v) = none := by
  have hnumber : readNumber (0x2d :: decimalDigits v.natAbs) = none := rfl
  rw [stringTo, if_neg hT, fromChars, decimalText, if_pos hv, hsigned, if_neg (by simp), hnumber]
  rfl

end WarheadDiscord
