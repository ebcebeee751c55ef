import Mathlib.Data.List.Basic

/-!
# Ring buffers

A table of fixed size is written cell by cell, and from the first cell again when its end is
reached.  Read from the next cell on and around, the table has what was written last, the oldest
first (`oldestFirst_push`): what is written comes behind the others, and the oldest goes.

## Main definitions

* `RingBuffer α size` — the cells, and the index of the next one.
* `RingBuffer.write`, `RingBuffer.advance`, `RingBuffer.push` — one value is written.
* `RingBuffer.oldestFirst` — the values in the order that they were written in.
-/

namespace WarheadDiscord

universe u

structure RingBuffer (α : Type u) (size : ℕ) where
  cells : List α
  index : ℕ
  length_cells : cells.length = size
  index_lt : index < size

namespace RingBuffer

variable {α : Type u} {size : ℕ}

/-- All cells are equal, and the first one is next. -/
def replicate (x : α) (hsize : 0 < size) : RingBuffer α size where
  cells := List.replicate size x
  index := 0
  length_cells := List.length_replicate
  index_lt := hsize

def write (x : α) (r : RingBuffer α size) : RingBuffer α size where
  cells := r.cells.set r.index x
  index := r.index
  length_cells := List.length_set.trans r.length_cells
  index_lt := r.index_lt

/-- The next cell is the first one again when there is no other. -/
def advance (r : RingBuffer α size) : RingBuffer α size where
  cells := r.cells
  index := if size ≤ r.index + 1 then 0 else r.index + 1
  length_cells := r.length_cells
  index_lt := by
    have hlt := r.index_lt
    split_ifs with hsize <;> omega

def push (x : α) (r : RingBuffer α size) : RingBuffer α size := (r.write x).advance

def oldestFirst (r : RingBuffer α size) : List α := r.cells.drop r.index ++ r.cells.take r.index

theorem cells_push (x : α) (r : RingBuffer α size) :
    (r.push x).cells = r.cells.set r.index x := rfl

theorem index_push (x : α) (r : RingBuffer α size) :
    (r.push x).index = if size ≤ r.index + 1 then 0 else r.index + 1 := rfl

theorem getElem?_write (x : α) (r : RingBuffer α size) :
    (r.write x).cells[r.index]? = some x := by
  have hlt : r.index < r.cells.length := r.length_cells.symm ▸ r.index_lt
  exact List.getElem?_set_self hlt

theorem oldestFirst_replicate (x : α) (hsize : 0 < size) :
    (replicate x hsize).oldestFirst = List.replicate size x := by
  rw [oldestFirst, replicate, List.drop_zero, List.take_zero, List.append_nil]

theorem oldestFirst_perm (r : RingBuffer α size) : r.oldestFirst.Perm r.cells :=
  List.perm_append_comm.trans (List.Perm.of_eq (List.take_append_drop r.index r.cells))

/-- **One write**: the oldest value goes, and the new one is the last. -/
theorem oldestFirst_push (x : α) (r : RingBuffer α size) :
    (r.push x).oldestFirst = r.oldestFirst.tail ++ [x] := by
  have hlt : r.index < r.cells.length := r.length_cells.symm ▸ r.index_lt
  have hdrop : r.cells.drop r.index ≠ [] := by
    rw [Ne, List.drop_eq_nil_iff]
    omega
  have hwritten : (r.cells.set r.index x).take (r.index + 1) = r.cells.take r.index ++ [x] := by
    rw [List.take_add_one, List.take_set_of_le (Nat.le_refl _), List.getElem?_set_self hlt]
    rfl
  have hrest : (r.cells.set r.index x).drop (r.index + 1) = (r.cells.drop r.index).tail := by
    rw [List.drop_set_of_lt (Nat.lt_succ_self _), List.tail_drop]
  have hview : r.oldestFirst.tail ++ [x] =
      (r.cells.drop r.index).tail ++ (r.cells.take r.index ++ [x]) := by
    rw [oldestFirst, List.tail_append_of_ne_nil hdrop, List.append_assoc]
  rw [hview, ← hwritten, ← hrest, oldestFirst, cells_push, index_push]
  split_ifs with hsize
  · -- the last cell was written, and all of them are before the next one
    have hlength : (r.cells.set r.index x).length ≤ r.index + 1 := by
      rw [List.length_set, r.length_cells]
      exact hsize
    rw [List.drop_zero, List.take_zero, List.append_nil, List.drop_eq_nil_of_le hlength,
      List.nil_append, List.take_of_length_le hlength]
  · rfl

/-- **Many writes**: as many of the oldest values go. -/
theorem oldestFirst_foldl_push (xs : List α) (r : RingBuffer α size) :
    (xs.foldl (fun r x => r.push x) r).oldestFirst = (r.oldestFirst ++ xs).drop xs.length := by
  induction xs generalizing r with
  | nil => rw [List.foldl_nil, List.append_nil, List.length_nil, List.drop_zero]
  | cons x xs ih =>
    rw [List.foldl_cons, ih, oldestFirst_push, List.append_assoc]
    have hne : r.oldestFirst ≠ [] := by
      intro hnil
      have hlength := (oldestFirst_perm r).length_eq
      have hlt := r.index_lt
      rw [hnil, List.length_nil, r.length_cells] at hlength
      omega
    rw [List.length_cons, List.singleton_append, ← List.tail_append_of_ne_nil hne,
      List.drop_tail]

theorem index_foldl_push (xs : List α) (r : RingBuffer α size) :
    (xs.foldl (fun r x => r.push x) r).index = (r.index + xs.length) % size := by
  induction xs generalizing r with
  | nil => exact (Nat.mod_eq_of_lt r.index_lt).symm
  | cons x xs ih =>
    rw [List.foldl_cons, ih, List.length_cons, index_push]
    split_ifs with hsize
    · have hindex : r.index + (xs.length + 1) = xs.length + size := by
        have hlt := r.index_lt
        omega
      rw [hindex, Nat.add_mod_right, Nat.zero_add]
    · rw [Nat.add_assoc, Nat.add_comm 1]

end RingBuffer

end WarheadDiscord
