import Mathlib.Algebra.GroupWithZero.Nat
import Mathlib.Data.List.Basic
import Mathlib.Data.List.Forall2
import Mathlib.Data.Nat.Basic

/-!
# Numbers in units of several sizes

A number is split into units, the largest first: so many of the first, of what is left so
many of the second, and so on.  With a unit of one at the end nothing is lost
(`value_digits`).  Digits that are nowhere above the digits of some number are the digits of
their own value (`digits_value`), so a number can be cut off after any of them.

## Main definitions

* `digits ws d` — the digits of `d` in units of the weights `ws`.
* `value ws cs` — the number with the digits `cs`.
* `keepFirst n cs` — all but the first `n` non-zero digits are cleared.
-/

namespace WarheadDiscord.MixedRadix

universe u
variable {α : Type u} {ws cs cs' : List ℕ} {d : ℕ}

/-- The digits of a number, those of the largest unit first. -/
def digits : List ℕ → ℕ → List ℕ
  | [], _ => []
  | w :: ws, d => d / w :: digits ws (d % w)

/-- The number with the given digits. -/
def value : List ℕ → List ℕ → ℕ
  | w :: ws, c :: cs => c * w + value ws cs
  | _, _ => 0

/-- Clears the digits behind the first `n` that are not zero. -/
def keepFirst : ℕ → List ℕ → List ℕ
  | _, [] => []
  | n, 0 :: cs => 0 :: keepFirst n cs
  | 0, _ :: cs => 0 :: keepFirst 0 cs
  | n + 1, c :: cs => c :: keepFirst n cs

theorem value_digits_le (ws : List ℕ) (d : ℕ) : value ws (digits ws d) ≤ d := by
  induction ws generalizing d with
  | nil => exact Nat.zero_le d
  | cons w ws ih =>
      have hrest := ih (d % w)
      have hsplit := Nat.div_add_mod' d w
      simp only [digits, value]
      omega

/-- Down to a unit of one, a number is the value of its digits. -/
theorem value_digits (hlast : ws.getLast? = some 1) (d : ℕ) : value ws (digits ws d) = d := by
  induction ws generalizing d with
  | nil => cases hlast
  | cons w ws ih =>
      have hsplit := Nat.div_add_mod' d w
      cases ws with
      | nil =>
          cases hlast
          simp [digits, value]
      | cons w' ws =>
          rw [List.getLast?_cons_cons] at hlast
          rw [digits, value, ih hlast]
          exact hsplit

theorem value_le_value (h : List.Forall₂ (· ≤ ·) cs cs') (ws : List ℕ) :
    value ws cs ≤ value ws cs' := by
  induction h generalizing ws with
  | nil => exact le_rfl
  | cons hc _ ih =>
      cases ws with
      | nil => exact le_rfl
      | cons w ws =>
          have hrest := ih ws
          have hmul := Nat.mul_le_mul_right w hc
          simp only [value]
          omega

/-- Digits below those of a number are the digits of their value. -/
theorem digits_value (hpos : ∀ w ∈ ws, 0 < w) (h : List.Forall₂ (· ≤ ·) cs (digits ws d)) :
    digits ws (value ws cs) = cs := by
  induction ws generalizing cs d with
  | nil =>
      cases h
      rfl
  | cons w ws ih =>
      rw [digits] at h
      cases h with
      | cons hc hcs =>
          rename_i c cs
          have hw : 0 < w := hpos w List.mem_cons_self
          -- what the smaller units stand for is less than one of this unit
          have hlt : value ws cs < w :=
            lt_of_le_of_lt (le_trans (value_le_value hcs ws) (value_digits_le ws _))
              (Nat.mod_lt d hw)
          have hdiv : (c * w + value ws cs) / w = c := by
            rw [Nat.mul_comm, Nat.mul_add_div hw, Nat.div_eq_of_lt hlt, Nat.add_zero]
          have hmod : (c * w + value ws cs) % w = value ws cs := by
            rw [Nat.mul_add_mod_of_lt hlt]
          rw [value, digits, hdiv, hmod, ih (fun w hw => hpos w (List.mem_cons_of_mem _ hw)) hcs]

theorem forall₂_keepFirst (n : ℕ) (cs : List ℕ) : List.Forall₂ (· ≤ ·) (keepFirst n cs) cs := by
  induction cs generalizing n with
  | nil => exact .nil
  | cons c cs ih =>
      cases c with
      | zero => exact .cons le_rfl (ih n)
      | succ c =>
          cases n with
          | zero => exact .cons (Nat.zero_le _) (ih 0)
          | succ n => exact .cons le_rfl (ih n)

/-- The first non-zero digits, with what they count. -/
theorem take_filter_zip (n : ℕ) (us : List α) (cs : List ℕ) :
    ((us.zip cs).filter fun e => e.2 ≠ 0).take n =
      (us.zip (keepFirst n cs)).filter fun e => e.2 ≠ 0 := by
  induction cs generalizing n us with
  | nil => simp [keepFirst]
  | cons c cs ih =>
      cases us with
      | nil => simp
      | cons u us =>
          cases c with
          | zero => simpa [keepFirst] using ih n us
          | succ c =>
              cases n with
              | zero => simpa [keepFirst] using ih 0 us
              | succ n => simpa [keepFirst] using ih n us

end WarheadDiscord.MixedRadix
