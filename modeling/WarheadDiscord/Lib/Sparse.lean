import Mathlib.Algebra.Group.Basic
import Mathlib.Data.List.Basic
import Mathlib.Data.List.Count

/-!
# Lists without their zeros

A list may be kept as a mark for each entry that is not zero, and those entries.  Reading takes one
entry for each mark, so that it also takes entries that are zero: what was read is what would be
kept if and only if none of them is.

## Main definitions

* `marks`, `entries` — a list without its zeros.
* `fill` — the list again, from the front of a longer one.
-/

namespace WarheadDiscord.Sparse

universe u
variable {α : Type u} [Zero α] [DecidableEq α] {ms : List Bool} {xs ys rest : List α}

/-- Which entries are not zero. -/
def marks (xs : List α) : List Bool := xs.map fun x => x ≠ 0

/-- The entries that are not zero. -/
def entries (xs : List α) : List α := xs.filter fun x => x ≠ 0

@[simp] theorem length_marks (xs : List α) : (marks xs).length = xs.length := by simp [marks]

@[simp] theorem marks_cons (x : α) (xs : List α) :
    marks (x :: xs) = (decide (x ≠ 0)) :: marks xs := rfl

theorem entries_cons_zero (xs : List α) : entries (0 :: xs) = entries xs := by simp [entries]

theorem entries_cons_of_ne {x : α} (h : x ≠ 0) (xs : List α) :
    entries (x :: xs) = x :: entries xs := by simp [entries, h]

/-- An entry for each mark, and what is left; `none` when there are too few. -/
def fill : List Bool → List α → Option (List α × List α)
  | [], ys => some ([], ys)
  | false :: ms, ys => (fill ms ys).map fun r => (0 :: r.1, r.2)
  | true :: _, [] => none
  | true :: ms, y :: ys => (fill ms ys).map fun r => (y :: r.1, r.2)

/-- **What is kept is read back.** -/
theorem fill_entries (xs rest : List α) : fill (marks xs) (entries xs ++ rest) = some (xs, rest) := by
  induction xs with
  | nil => rfl
  | cons x xs ih =>
      by_cases h : x = 0
      · subst h
        simp [entries_cons_zero, fill, ih]
      · simp [entries_cons_of_ne h, h, fill, ih]

omit [DecidableEq α] in
theorem length_of_fill (h : fill ms ys = some (xs, rest)) : xs.length = ms.length := by
  fun_induction fill ms ys generalizing xs rest with
  | case1 ys => simp_all
  | case2 ms ys ih =>
      rw [Option.map_eq_some_iff] at h
      obtain ⟨⟨xs', rest'⟩, hfill, heq⟩ := h
      cases heq
      simp [ih hfill]
  | case3 ms => cases h
  | case4 ms y ys ih =>
      rw [Option.map_eq_some_iff] at h
      obtain ⟨⟨xs', rest'⟩, hfill, heq⟩ := h
      cases heq
      simp [ih hfill]

omit [DecidableEq α] in
theorem fill_eq_none_iff : fill ms ys = none ↔ ys.length < ms.count true := by
  fun_induction fill ms ys with
  | case1 ys => simp
  | case2 ms ys ih => simp [ih]
  | case3 ms => simp
  | case4 ms y ys ih => simp [ih]

/-- What was read, with as many entries as marks; it is kept like this if and only if none of them
is zero. -/
theorem exists_taken_of_fill (h : fill ms ys = some (xs, rest)) :
    ∃ taken, ys = taken ++ rest ∧ taken.length = ms.count true ∧
      (marks xs = ms ∧ entries xs = taken ↔ (0 : α) ∉ taken) := by
  fun_induction fill ms ys generalizing xs rest with
  | case1 ys =>
      cases h
      exact ⟨[], by simp, rfl, by simp [marks, entries]⟩
  | case2 ms ys ih =>
      rw [Option.map_eq_some_iff] at h
      obtain ⟨⟨xs', rest'⟩, hfill, heq⟩ := h
      cases heq
      obtain ⟨taken, hys, hlength, hiff⟩ := ih hfill
      exact ⟨taken, hys, by simpa using hlength, by simpa [entries_cons_zero] using hiff⟩
  | case3 ms => cases h
  | case4 ms y ys ih =>
      rw [Option.map_eq_some_iff] at h
      obtain ⟨⟨xs', rest'⟩, hfill, heq⟩ := h
      cases heq
      obtain ⟨taken, hys, hlength, hiff⟩ := ih hfill
      refine ⟨y :: taken, by simp [hys], by simpa using hlength, ?_⟩
      by_cases hy : y = 0
      · simp [hy]
      · simpa [entries_cons_of_ne hy, hy, Ne.symm hy] using hiff

end WarheadDiscord.Sparse
