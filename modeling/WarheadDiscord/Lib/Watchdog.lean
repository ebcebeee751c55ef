import Mathlib.Algebra.Order.Ring.Int
import Mathlib.Data.List.Induction
import Mathlib.Tactic.Common

/-!
# A watchdog over samples of a value

A watchdog looks at a value from time to time.  It remembers the last sample that differed from the
one before, and trips when a sample shows the same value for longer than its limit.

`tripped_iff` says what that comes to in terms of the samples alone: there are two of them that are
further apart than the limit, and everything from the one to the other is the same.  Changes between
two samples that take the value back to what it was go unnoticed.

## Main definitions

* `Watchdog`, `Watchdog.sample` — the state, and what a sample does to it.
* `Stuck` — two samples too far apart with the same value all the way.
-/

namespace WarheadDiscord

universe u
variable {α : Type u}

structure Watchdog (α : Type u) where
  value : α
  lastChange : ℤ
  tripped : Bool

/-- A watchdog that has tripped stays as it is. -/
def Watchdog.sample [DecidableEq α] (limit : ℤ) (w : Watchdog α) (s : ℤ × α) : Watchdog α :=
  if w.tripped then w
  else if w.value ≠ s.2 then { w with value := s.2, lastChange := s.1 }
  else if s.1 - w.lastChange > limit then { w with tripped := true }
  else w

/-- Some sample shows the value that another one showed longer ago than the limit, and so do the
samples between them. -/
def Stuck (limit : ℤ) (samples : List (ℤ × α)) : Prop :=
  ∃ before first between last after, samples = before ++ first :: (between ++ last :: after) ∧
    (∀ s ∈ between ++ [last], s.2 = first.2) ∧ last.1 - first.1 > limit

section
variable {limit : ℤ} {samples : List (ℤ × α)} {s : ℤ × α}

/-- One more sample: it is the last one of a pair, or there was a pair before. -/
theorem stuck_concat :
    Stuck limit (samples ++ [s]) ↔ Stuck limit samples ∨
      ∃ before first between, samples = before ++ first :: between ∧
        (∀ x ∈ between ++ [s], x.2 = first.2) ∧ s.1 - first.1 > limit := by
  constructor
  · rintro ⟨before, first, between, last, after, heq, hsame, hlimit⟩
    rcases List.eq_nil_or_concat after with rfl | ⟨after, x, rfl⟩
    · have hsplit : samples ++ [s] = (before ++ first :: between) ++ [last] := by
        rw [heq]
        simp
      obtain ⟨rfl, hlast⟩ := List.append_inj' hsplit rfl
      obtain rfl : s = last := by simpa using hlast
      exact .inr ⟨before, first, between, rfl, hsame, hlimit⟩
    · have hsplit : samples ++ [s] = (before ++ first :: (between ++ last :: after)) ++ [x] := by
        rw [heq]
        simp
      obtain ⟨rfl, -⟩ := List.append_inj' hsplit rfl
      exact .inl ⟨before, first, between, last, after, rfl, hsame, hlimit⟩
  · rintro (⟨before, first, between, last, after, rfl, hsame, hlimit⟩ |
      ⟨before, first, between, rfl, hsame, hlimit⟩)
    · exact ⟨before, first, between, last, after ++ [s], by simp, hsame, hlimit⟩
    · exact ⟨before, first, between, s, [], by simp, hsame, hlimit⟩

/-- The samples end with some that show the value of the watchdog; the one in front of them, if
there is one, does not. -/
structure Watching (samples : List (ℤ × α)) (w : Watchdog α) (before : List (ℤ × α))
    (first : ℤ × α) (rest : List (ℤ × α)) : Prop where
  eq : samples = before ++ first :: rest
  value : w.value = first.2
  lastChange : w.lastChange = first.1
  same : ∀ x ∈ rest, x.2 = first.2
  differs : ∀ x ∈ before.getLast?, x.2 ≠ first.2

theorem Watching.last {w : Watchdog α} {before rest : List (ℤ × α)} {first : ℤ × α}
    (h : Watching samples w before first rest) : ∀ x ∈ samples.getLast?, x.2 = first.2 := by
  intro x hx
  obtain ⟨y, hy⟩ := Option.isSome_iff_exists.mp
    (List.getLast?_isSome.mpr (List.cons_ne_nil first rest))
  rw [h.eq, List.getLast?_append, hy] at hx
  obtain rfl : y = x := by simpa using hx
  rcases List.mem_cons.mp (List.mem_of_getLast? hy) with rfl | hmem
  · rfl
  · exact h.same y hmem

/-- Samples that show one value up to the end are among those of the watchdog. -/
theorem Watching.le_of_same {w : Watchdog α} {before rest : List (ℤ × α)} {first : ℤ × α}
    (h : Watching samples w before first rest)
    (hsorted : samples.Pairwise fun a b => a.1 ≤ b.1) {before' between : List (ℤ × α)}
    {first' : ℤ × α} (heq : samples = before' ++ first' :: between)
    (hsame : ∀ x ∈ between, x.2 = first'.2) (hvalue : first'.2 = first.2) :
    first.1 ≤ first'.1 := by
  rw [h.eq] at heq hsorted
  rcases List.append_eq_append_iff.mp heq with ⟨front, hbefore', hrest⟩ | ⟨front, hbefore, hrest⟩
  · cases front with
    | nil =>
        obtain ⟨rfl, -⟩ := List.cons_eq_cons.mp hrest
        exact le_refl _
    | cons x front =>
        obtain ⟨rfl, htail⟩ := List.cons_eq_cons.mp hrest
        have hmem : first' ∈ rest := by
          rw [htail]
          simp
        exact (List.pairwise_cons.mp (List.pairwise_append.mp hsorted).2.1).1 first' hmem
  · cases front with
    | nil =>
        obtain ⟨rfl, -⟩ := List.cons_eq_cons.mp hrest
        exact le_refl _
    | cons x front =>
        -- the sample in front of `first` would be one of those that show its value
        obtain ⟨rfl, htail⟩ := List.cons_eq_cons.mp hrest
        obtain ⟨y, hy⟩ := Option.isSome_iff_exists.mp
          (List.getLast?_isSome.mpr (List.cons_ne_nil first' front))
        have hlast : before.getLast? = some y := by rw [hbefore, List.getLast?_append, hy]; rfl
        have hmem := List.mem_of_getLast? hy
        refine absurd ?_ (h.differs y hlast)
        rw [← hvalue]
        rcases List.mem_cons.mp hmem with rfl | hmem
        · rfl
        · exact hsame y (htail ▸ List.mem_append_left _ hmem)

variable [DecidableEq α]

/-- A watchdog that has not tripped, and the samples so far. -/
structure Armed (limit : ℤ) (samples : List (ℤ × α)) (w : Watchdog α) : Prop where
  tripped : w.tripped = false
  not_stuck : ¬ Stuck limit samples
  watching : ∃ before first rest, Watching samples w before first rest

theorem Armed.sample {w : Watchdog α} (h : Armed limit samples w)
    (hsorted : (samples ++ [s]).Pairwise fun a b => a.1 ≤ b.1) :
    Armed limit (samples ++ [s]) (w.sample limit s) ∨
      (w.sample limit s).tripped = true ∧ Stuck limit (samples ++ [s]) := by
  obtain ⟨before, first, rest, hw⟩ := h.watching
  have hsorted' := (List.pairwise_append.mp hsorted).1
  rw [Watchdog.sample, h.tripped]
  simp only [Bool.false_eq_true, if_false]
  by_cases hvalue : w.value = s.2
  · rw [if_neg (not_not.mpr hvalue)]
    have hs : s.2 = first.2 := hvalue.symm.trans hw.value
    by_cases hlate : s.1 - w.lastChange > limit
    · rw [if_pos hlate]
      refine .inr ⟨rfl, stuck_concat.mpr (.inr ⟨before, first, rest, hw.eq, ?_, ?_⟩)⟩
      · simpa [or_imp, forall_and, hs] using hw.same
      · rwa [hw.lastChange] at hlate
    · rw [if_neg hlate]
      refine .inl ⟨h.tripped, fun hstuck => ?_, before, first, rest ++ [s], ?_⟩
      · rcases stuck_concat.mp hstuck with hstuck | ⟨before', first', between, heq, hsame, hlong⟩
        · exact h.not_stuck hstuck
        · have hle := hw.le_of_same hsorted' heq
            (fun x hx => hsame x (List.mem_append_left _ hx))
            ((hsame s (by simp)).symm.trans hs)
          rw [hw.lastChange] at hlate
          omega
      · refine ⟨by simp [hw.eq], hw.value, hw.lastChange, ?_, hw.differs⟩
        simpa [or_imp, forall_and, hs] using hw.same
  · rw [if_pos hvalue]
    refine .inl ⟨rfl, fun hstuck => ?_, samples, s, [], rfl, rfl, rfl, by simp, ?_⟩
    · rcases stuck_concat.mp hstuck with hstuck | ⟨before', first', between, heq, hsame, -⟩
      · exact h.not_stuck hstuck
      · obtain ⟨y, hy⟩ := Option.isSome_iff_exists.mp
          (List.getLast?_isSome.mpr (List.cons_ne_nil first' between))
        have hlast : samples.getLast? = some y := by rw [heq, List.getLast?_append, hy]; rfl
        refine hvalue ?_
        rw [hw.value, ← hw.last y hlast, hsame s (by simp)]
        rcases List.mem_cons.mp (List.mem_of_getLast? hy) with rfl | hmem
        · rfl
        · exact hsame y (List.mem_append_left _ hmem)
    · intro x hx heq
      exact hvalue (hw.value.trans ((hw.last x hx).symm.trans heq))

theorem sample_of_tripped {w : Watchdog α} (h : w.tripped = true) : w.sample limit s = w := by
  simp [Watchdog.sample, h]

/-- **The watchdog trips if and only if the value was stuck.** -/
theorem tripped_iff (limit start : ℤ) (value : α) (samples : List (ℤ × α))
    (hsorted : ((start, value) :: samples).Pairwise fun a b => a.1 ≤ b.1) :
    (samples.foldl (Watchdog.sample limit) ⟨value, start, false⟩).tripped = true ↔
      Stuck limit ((start, value) :: samples) := by
  have hall : Armed limit ((start, value) :: samples)
        (samples.foldl (Watchdog.sample limit) ⟨value, start, false⟩) ∨
      (samples.foldl (Watchdog.sample limit) ⟨value, start, false⟩).tripped = true ∧
        Stuck limit ((start, value) :: samples) := by
    induction samples using List.reverseRecOn with
    | nil =>
        refine .inl ⟨rfl, ?_, [], (start, value), [], rfl, rfl, rfl, by simp, by simp⟩
        rintro ⟨before, first, between, last, after, heq, -, -⟩
        have hlength := congrArg List.length heq
        simp only [List.length_cons, List.length_nil, List.length_append] at hlength
        omega
    | append_singleton samples s ih =>
        rw [List.foldl_append, ← List.cons_append] at *
        rcases ih (List.pairwise_append.mp hsorted).1 with harmed | ⟨htripped, hstuck⟩
        · exact harmed.sample hsorted
        · refine .inr ⟨?_, stuck_concat.mpr (.inl hstuck)⟩
          rw [List.foldl_cons, List.foldl_nil, sample_of_tripped htripped]
          exact htripped
  rcases hall with harmed | ⟨htripped, hstuck⟩
  · exact iff_of_false (by simp [harmed.tripped]) harmed.not_stuck
  · exact iff_of_true htripped hstuck

end

end WarheadDiscord
