import Mathlib.Data.List.Basic
import Mathlib.Data.Nat.Basic
import Mathlib.Tactic.Ring

/-!
# Fixed-width numbers as byte sequences

A machine integer of `n` bytes is a list of `n` bytes together with a reading
direction.  `toLE n v` lays a number out least significant byte first, `ofLE`
reads such a list back; `toBE` and `ofBE` are the same two maps on the reversed
list.  Laying out truncates: what comes back is the number modulo `256 ^ n`.

## Main definitions

* `ofLE`, `ofBE` — the number a byte sequence denotes.
* `toLE`, `toBE` — the `n` bytes that denote a number.
-/

namespace WarheadDiscord.Bytes

/-- The number denoted by a byte sequence, least significant byte first. -/
def ofLE : List UInt8 → ℕ
  | [] => 0
  | b :: bs => b.toNat + 256 * ofLE bs

/-- The `n` low bytes of a number, least significant byte first. -/
def toLE : ℕ → ℕ → List UInt8
  | 0, _ => []
  | n + 1, v => UInt8.ofNat v :: toLE n (v / 256)

/-- The number denoted by a byte sequence, most significant byte first. -/
def ofBE (bs : List UInt8) : ℕ := ofLE bs.reverse

/-- The `n` low bytes of a number, most significant byte first. -/
def toBE (n v : ℕ) : List UInt8 := (toLE n v).reverse

@[simp] theorem length_toLE (n v : ℕ) : (toLE n v).length = n := by
  induction n generalizing v with
  | zero => rfl
  | succ n ih => simp [toLE, ih]

@[simp] theorem length_toBE (n v : ℕ) : (toBE n v).length = n := by simp [toBE]

/-- Reading back what was laid out truncates to the width. -/
theorem ofLE_toLE (n v : ℕ) : ofLE (toLE n v) = v % 256 ^ n := by
  induction n generalizing v with
  | zero => simp [toLE, ofLE, Nat.mod_one]
  | succ n ih =>
      have hb : (UInt8.ofNat v).toNat = v % 256 := by simp
      simp only [toLE, ofLE, ih, hb]
      rw [pow_succ', Nat.mod_mul]

theorem take_toLE {k n : ℕ} (h : k ≤ n) (v : ℕ) : (toLE n v).take k = toLE k v := by
  induction k generalizing n v with
  | zero => rfl
  | succ k ih =>
      obtain ⟨n, rfl⟩ := Nat.exists_eq_add_of_lt (Nat.lt_of_lt_of_le (Nat.succ_pos k) h)
      rw [Nat.zero_add] at h ⊢
      simp only [toLE, List.take_succ_cons]
      rw [ih (Nat.le_of_succ_le_succ h)]

theorem ofBE_toBE (n v : ℕ) : ofBE (toBE n v) = v % 256 ^ n := by
  simp [ofBE, toBE, ofLE_toLE]

theorem ofLE_append (bs cs : List UInt8) :
    ofLE (bs ++ cs) = ofLE bs + 256 ^ bs.length * ofLE cs := by
  induction bs with
  | nil => simp [ofLE]
  | cons b bs ih =>
      simp only [List.cons_append, ofLE, ih, List.length_cons, pow_succ', Nat.mul_add,
        Nat.mul_assoc, Nat.add_assoc]

/-- A byte sequence is determined by its length and the number it denotes. -/
theorem toLE_ofLE (bs : List UInt8) : toLE bs.length (ofLE bs) = bs := by
  induction bs with
  | nil => rfl
  | cons b bs ih =>
      have hb : b.toNat < 256 := UInt8.toNat_lt b
      have hlow : UInt8.ofNat (b.toNat + 256 * ofLE bs) = b := by
        apply UInt8.toNat_inj.mp
        simp only [UInt8.toNat_ofNat']
        omega
      have hhigh : (b.toNat + 256 * ofLE bs) / 256 = ofLE bs := by omega
      simp only [ofLE, List.length_cons, toLE, hlow, hhigh, ih]

theorem toBE_ofBE (bs : List UInt8) : toBE bs.length (ofBE bs) = bs := by
  have h := toLE_ofLE bs.reverse
  rw [List.length_reverse] at h
  simp [toBE, ofBE, h]

end WarheadDiscord.Bytes
