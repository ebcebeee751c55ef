import Mathlib.Data.List.Basic
import Mathlib.Tactic.Common

/-!
# Writes to a memory

A memory is a function on addresses, and a write gives new values to the addresses from some
address on.  After a sequence of writes an address has the value of the one write that covers it,
if there is only one, in whatever order they were made.

## Main definitions

* `Write`, `Write.Covers` — a write, and the addresses it is to.
* `writeAll` — the memory after a sequence of writes.
-/

namespace WarheadDiscord.Memory

universe u
variable {α : Type u}

/-- The values go to the address and to those after it. -/
structure Write (α : Type u) where
  address : ℕ
  values : List α
  deriving DecidableEq, Repr

namespace Write

/-- The address is written to. -/
def Covers (w : Write α) (x : ℕ) : Prop := w.address ≤ x ∧ x < w.address + w.values.length

/-- The memory after the write. -/
def perform (m : ℕ → α) (w : Write α) : ℕ → α := fun x =>
  if w.address ≤ x then (w.values[x - w.address]?).getD (m x) else m x

theorem perform_of_not_covers {w : Write α} {x : ℕ} (h : ¬ w.Covers x) (m : ℕ → α) :
    w.perform m x = m x := by
  rw [perform]
  split_ifs with hle
  · have hge : w.values.length ≤ x - w.address := by
      by_contra hlt
      exact h ⟨hle, by omega⟩
    rw [List.getElem?_eq_none hge, Option.getD_none]
  · rfl

theorem perform_of_getElem? {w : Write α} {i : ℕ} {a : α} (h : w.values[i]? = some a)
    (m : ℕ → α) : w.perform m (w.address + i) = a := by
  rw [perform, if_pos (Nat.le_add_right _ _), Nat.add_sub_cancel_left, h, Option.getD_some]

end Write

/-- The memory after the writes. -/
def writeAll (m : ℕ → α) (ws : List (Write α)) : ℕ → α := ws.foldl Write.perform m

theorem writeAll_of_not_covers {ws : List (Write α)} {x : ℕ} (h : ∀ w ∈ ws, ¬ w.Covers x)
    (m : ℕ → α) : writeAll m ws x = m x := by
  induction ws generalizing m with
  | nil => rfl
  | cons w ws ih =>
      rw [writeAll, List.foldl_cons, ← writeAll, ih fun v hv => h v (List.mem_cons_of_mem _ hv),
        Write.perform_of_not_covers (h w List.mem_cons_self)]

/-- **What is written once is kept.** -/
theorem writeAll_of_unique {ws : List (Write α)} {w : Write α} {i : ℕ} {a : α} (hw : w ∈ ws)
    (hi : w.values[i]? = some a)
    (hunique : ∀ v ∈ ws, v.Covers (w.address + i) → v = w) (m : ℕ → α) :
    writeAll m ws (w.address + i) = a := by
  induction ws generalizing m with
  | nil => cases hw
  | cons v ws ih =>
      rw [writeAll, List.foldl_cons, ← writeAll]
      by_cases hlater : w ∈ ws
      · exact ih hlater (fun v hv => hunique v (List.mem_cons_of_mem _ hv)) _
      · -- the write is the first one, and none after it is to the address
        obtain rfl : w = v := (List.mem_cons.mp hw).resolve_right hlater
        rw [writeAll_of_not_covers, Write.perform_of_getElem? hi]
        intro v hv hcovers
        rw [hunique v (List.mem_cons_of_mem _ hv) hcovers] at hv
        exact hlater hv

end WarheadDiscord.Memory
