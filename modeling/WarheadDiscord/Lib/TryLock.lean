import Mathlib.Logic.Function.Basic

/-!
# Threads that hold one lock at a time

Every lock has at most one owner, and every thread holds at most one lock.  Who owns a lock is what
the lock knows; what a thread holds follows from where the thread is.  `Matched` says that both are
the same, so a thread at a place behind `try_lock` and in front of `unlock` is alone with its lock.

## Main definitions

* `Matched holds owner` — the locks and the threads agree.
-/

namespace WarheadDiscord.TryLock

universe u v
variable {T : Type u} {R : Type v} {holds : T → Option R} {owner : R → Option T} {t t' : T} {r : R}

/-- A lock has the owner that holds it. -/
def Matched (holds : T → Option R) (owner : R → Option T) : Prop :=
  ∀ t r, owner r = some t ↔ holds t = some r

/-- **No two threads hold one lock.** -/
theorem Matched.exclusive (h : Matched holds owner) (ht : holds t = some r)
    (ht' : holds t' = some r) : t = t' := by
  rw [← h] at ht ht'
  exact Option.some.inj (ht.symm.trans ht')

theorem matched_none : Matched (fun _ : T => (none : Option R)) fun _ => none := by
  simp [Matched]

variable [DecidableEq T] [DecidableEq R]

/-- `try_lock` of a free lock, by a thread without one. -/
theorem Matched.acquire (h : Matched holds owner) (hfree : owner r = none)
    (hnone : holds t = none) :
    Matched (Function.update holds t (some r)) (Function.update owner r (some t)) := by
  intro u q
  by_cases hq : q = r
  · subst hq
    by_cases hu : u = t
    · simp [hu]
    · have hnot : holds u ≠ some q := by
        rw [ne_eq, ← h, hfree]
        nofun
      simp [Function.update_of_ne hu, hnot, Ne.symm hu]
  · by_cases hu : u = t
    · have hnot : owner q ≠ some u := by
        rw [hu, ne_eq, h, hnone]
        nofun
      subst hu
      simp [Function.update_of_ne hq, hnot, Ne.symm hq]
    · simpa [Function.update_of_ne hq, Function.update_of_ne hu] using h u q

/-- `unlock` by the thread that holds the lock. -/
theorem Matched.release (h : Matched holds owner) (hr : holds t = some r) :
    Matched (Function.update holds t none) (Function.update owner r none) := by
  intro u q
  by_cases hu : u = t
  · subst hu
    have hnot : q ≠ r → owner q ≠ some u := by
      intro hq howner
      rw [h, hr] at howner
      exact hq (Option.some.inj howner).symm
    by_cases hq : q = r
    · simp [hq]
    · simp [Function.update_of_ne hq, hnot hq]
  · by_cases hq : q = r
    · subst hq
      have hnot : holds u ≠ some q := fun hu' => hu (h.exclusive hu' hr)
      simp [Function.update_of_ne hu, hnot]
    · simpa [Function.update_of_ne hq, Function.update_of_ne hu] using h u q

end WarheadDiscord.TryLock
