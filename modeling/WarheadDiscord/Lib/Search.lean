import Mathlib.Data.List.Basic

/-!
# Sorting and binary search

`std::upper_bound` halves a range until nothing of it is left.  It looks at few of the elements,
so what it finds depends on how the others lie: those that meet the condition have to be
behind those that do not.  Then it finds the first element that meets the condition
(`getElem?_upperBound`).

`std::is_sorted` looks at neighbours, the later one first.  `std::sort` may give any order of
the elements in which none is less than one before it.

## Main definitions

* `upperBound p xs` — the index that the search ends with.
* `Partitioned p xs` — what meets the condition is behind what does not.
* `isSorted less xs` — no element is less than the one before it.
* `Sorter less` — an implementation of `std::sort`.
-/

namespace WarheadDiscord.Search

universe u
variable {α : Type u} {p : α → Bool} {xs : List α}

/-- The loop of `std::upper_bound`, on the `count` elements from `first` on. -/
def upperBoundLoop (p : α → Bool) (xs : List α) (first count : ℕ) : ℕ :=
  if 0 < count then
    let step := count / 2
    match xs[first + step]? with
    | none => first
    | some x =>
        if p x then upperBoundLoop p xs first step
        else upperBoundLoop p xs (first + step + 1) (count - (step + 1))
  else first
termination_by count

def upperBound (p : α → Bool) (xs : List α) : ℕ := upperBoundLoop p xs 0 xs.length

/-- `std::is_sorted` -/
def isSorted (less : α → α → Bool) : List α → Bool
  | a :: b :: xs => !less b a && isSorted less (b :: xs)
  | _ => true

/-- An implementation of `std::sort`. -/
structure Sorter (less : α → α → Bool) where
  sort : List α → List α
  perm : ∀ xs, (sort xs).Perm xs
  sorted : ∀ xs, (sort xs).Pairwise fun a b => less b a = false

def Partitioned (p : α → Bool) (xs : List α) : Prop := xs.Pairwise fun a b => p a → p b

/-- The condition holds from one index on. -/
theorem Partitioned.apply_iff (h : Partitioned p xs) {i : ℕ} (hi : i < xs.length) :
    p xs[i] = true ↔ xs.findIdx p ≤ i := by
  constructor
  · intro hp
    refine Nat.not_lt.1 fun hlt => ?_
    have hnot : p xs[i] = false := List.not_of_lt_findIdx hlt
    rw [hnot] at hp
    cases hp
  · intro hle
    have hlength : xs.findIdx p < xs.length := Nat.lt_of_le_of_lt hle hi
    have hfound : p xs[xs.findIdx p] = true := List.findIdx_getElem
    rcases Nat.eq_or_lt_of_le hle with heq | hlt
    · simpa only [heq] using hfound
    · exact List.pairwise_iff_getElem.1 h _ _ hlength hi hlt hfound

/-- As long as the index is in the range, the loop finds it. -/
theorem upperBoundLoop_eq (h : Partitioned p xs) {first count : ℕ}
    (hfirst : first ≤ xs.findIdx p) (hlast : xs.findIdx p ≤ first + count)
    (hlength : first + count ≤ xs.length) : upperBoundLoop p xs first count = xs.findIdx p := by
  induction count using Nat.strongRecOn generalizing first with
  | ind count ih =>
    rw [upperBoundLoop]
    split_ifs with hpos
    · have hhalf : count / 2 < count := Nat.div_lt_self hpos (by decide)
      have hi : first + count / 2 < xs.length := by omega
      simp only [List.getElem?_eq_getElem hi, h.apply_iff hi]
      split_ifs with hle
      · exact ih _ hhalf hfirst hle (by omega)
      · exact ih _ (by omega) (by omega) (by omega) (by omega)
    · omega

theorem getElem?_findIdx (p : α → Bool) (xs : List α) : xs[xs.findIdx p]? = xs.find? p := by
  induction xs with
  | nil => rfl
  | cons a xs ih =>
    rw [List.findIdx_cons, List.find?_cons]
    cases p a with
    | true => rfl
    | false => exact ih

/-- **The search finds the first element that meets the condition.** -/
theorem getElem?_upperBound (h : Partitioned p xs) : xs[upperBound p xs]? = xs.find? p := by
  have hlast : xs.findIdx p ≤ 0 + xs.length := by
    rw [Nat.zero_add]
    exact List.findIdx_le_length
  rw [upperBound, upperBoundLoop_eq h (Nat.zero_le _) hlast (Nat.le_of_eq (Nat.zero_add _)),
    getElem?_findIdx]

theorem isSorted_of_pairwise {less : α → α → Bool}
    (h : xs.Pairwise fun a b => less b a = false) : isSorted less xs = true := by
  induction xs with
  | nil => rfl
  | cons a xs ih =>
    rw [List.pairwise_cons] at h
    cases xs with
    | nil => rfl
    | cons b xs => rw [isSorted, h.1 b List.mem_cons_self, ih h.2, Bool.not_false, Bool.and_true]

end WarheadDiscord.Search
