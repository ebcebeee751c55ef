import Mathlib.Data.List.Basic
import Mathlib.Data.Option.Basic

/-!
# Runs of a labelled machine

A machine is a partial step function: `next s l` is the state after the step `l`
taken in `s`, and `none` when `l` is not possible there.  A run is a list of
labels; since the step function is computable, so is the state a run ends in, and
a counterexample is a list of labels that the kernel can execute.

What holds of every reachable state is proved by `run_induction`: it holds
initially and each step keeps it.  `run_induction_of` is the same rule for the
runs whose steps all meet a condition.

## Main definitions

* `run next s ls` — the state after the labels `ls`.
* `Along next Q s ls` — every label is taken in a state where `Q` admits it.
* `run_induction`, `run_induction_of` — invariants of runs.
* `run_congr` — machines that agree on the states they reach.
* `exists_run_of_simulation` — a machine each of whose steps is a run of another one.
* `exists_along_of_measure`, `exists_run_of_measure` — a goal that can be approached step by step
  is reached.
-/

namespace WarheadDiscord.Machine

universe u v
variable {σ : Type u} {ℓ : Type v} {next : σ → ℓ → Option σ}

/-- The state reached by taking the steps in order. -/
def run (next : σ → ℓ → Option σ) : σ → List ℓ → Option σ
  | s, [] => some s
  | s, l :: ls => (next s l).bind fun t => run next t ls

@[simp] theorem run_nil (s : σ) : run next s [] = some s := rfl

theorem run_cons (s : σ) (l : ℓ) (ls : List ℓ) :
    run next s (l :: ls) = (next s l).bind fun t => run next t ls := rfl

theorem run_append (s : σ) (ls ls' : List ℓ) :
    run next s (ls ++ ls') = (run next s ls).bind fun t => run next t ls' := by
  induction ls generalizing s with
  | nil => simp
  | cons l ls ih =>
      rw [List.cons_append, run_cons, run_cons, Option.bind_assoc]
      congr 1
      funext t
      exact ih t

/-- Every label of the run is admitted by `Q` in the state it is taken in. -/
def Along (next : σ → ℓ → Option σ) (Q : σ → ℓ → Prop) : σ → List ℓ → Prop
  | _, [] => True
  | s, l :: ls => Q s l ∧ ∀ t, next s l = some t → Along next Q t ls

theorem along_cons {Q : σ → ℓ → Prop} {s t : σ} {l : ℓ} {ls : List ℓ} (hl : Q s l)
    (hnext : next s l = some t) (ht : Along next Q t ls) : Along next Q s (l :: ls) := by
  refine ⟨hl, ?_⟩
  intro u hu
  rw [hnext] at hu
  cases hu
  exact ht

theorem Along.mono {Q Q' : σ → ℓ → Prop} (h : ∀ s l, Q s l → Q' s l) {s : σ} {ls : List ℓ}
    (hQ : Along next Q s ls) : Along next Q' s ls := by
  induction ls generalizing s with
  | nil => trivial
  | cons l ls ih => exact ⟨h s l hQ.1, fun t ht => ih (hQ.2 t ht)⟩

instance Along.decidable {Q : σ → ℓ → Prop} [∀ s l, Decidable (Q s l)] :
    ∀ s ls, Decidable (Along next Q s ls)
  | _, [] => isTrue trivial
  | s, l :: ls =>
      match hnext : next s l with
      | none => decidable_of_iff (Q s l) (by simp [Along, hnext])
      | some t =>
          have : Decidable (Along next Q t ls) := Along.decidable t ls
          decidable_of_iff (Q s l ∧ Along next Q t ls) (by simp [Along, hnext])

/-- **Induction along a run whose steps all meet a condition.** -/
theorem run_induction_of {Q : σ → ℓ → Prop} {P : σ → Prop}
    (hstep : ∀ s l t, P s → Q s l → next s l = some t → P t)
    {s t : σ} {ls : List ℓ} (hQ : Along next Q s ls) (hs : P s)
    (hrun : run next s ls = some t) : P t := by
  induction ls generalizing s with
  | nil => cases hrun; exact hs
  | cons l ls ih =>
      rw [run_cons, Option.bind_eq_some_iff] at hrun
      obtain ⟨u, hu, hrun⟩ := hrun
      exact ih (hQ.2 u hu) (hstep s l u hs hQ.1 hu) hrun

/-- A condition on the labels alone. -/
theorem along_of_forall {Q : ℓ → Prop} {ls : List ℓ} (h : ∀ l ∈ ls, Q l) (s : σ) :
    Along next (fun _ => Q) s ls := by
  induction ls generalizing s with
  | nil => trivial
  | cons l ls ih =>
      exact ⟨h l List.mem_cons_self, fun t _ => ih (fun l hl => h l (List.mem_cons_of_mem _ hl)) t⟩

theorem forall_of_along {Q : ℓ → Prop} {s t : σ} {ls : List ℓ}
    (h : Along next (fun _ => Q) s ls) (hrun : run next s ls = some t) : ∀ l ∈ ls, Q l := by
  induction ls generalizing s with
  | nil => simp
  | cons l ls ih =>
      rw [run_cons, Option.bind_eq_some_iff] at hrun
      obtain ⟨u, hu, hrun⟩ := hrun
      exact List.forall_mem_cons.mpr ⟨h.1, ih (h.2 u hu) hrun⟩

/-- **Induction along a run.**  What holds at the start and is kept by every step
holds at the end. -/
theorem run_induction {P : σ → Prop} (hstep : ∀ s l t, P s → next s l = some t → P t)
    {s t : σ} {ls : List ℓ} (hs : P s) (hrun : run next s ls = some t) : P t :=
  run_induction_of (fun s l t h _ => hstep s l t h) (along_of_forall (fun _ _ => trivial) s) hs hrun

/-- Two machines that take the same steps in every state they reach have the same runs. -/
theorem run_congr {next' : σ → ℓ → Option σ} {P : σ → Prop}
    (hstep : ∀ s l t, P s → next s l = some t → P t)
    (hsame : ∀ s l, P s → next' s l = next s l) {s : σ} (hs : P s) (ls : List ℓ) :
    run next' s ls = run next s ls := by
  induction ls generalizing s with
  | nil => rfl
  | cons l ls ih =>
      rw [run_cons, run_cons, hsame s l hs]
      cases hl : next s l with
      | none => rfl
      | some t => exact ih (hstep s l t hs hl)

theorem along_iff_forall_prefix {Q : σ → ℓ → Prop} {s : σ} {ls : List ℓ} :
    Along next Q s ls ↔
      ∀ pre l t, pre ++ [l] <+: ls → run next s pre = some t → Q t l := by
  induction ls generalizing s with
  | nil => simp [Along]
  | cons l ls ih =>
      constructor
      · rintro ⟨hl, htail⟩ pre l' t hpre hrun
        cases pre with
        | nil =>
            rw [List.nil_append, List.cons_prefix_cons] at hpre
            cases hrun
            rw [hpre.1]
            exact hl
        | cons a pre =>
            rw [List.cons_append, List.cons_prefix_cons] at hpre
            obtain ⟨rfl, hpre⟩ := hpre
            rw [run_cons, Option.bind_eq_some_iff] at hrun
            obtain ⟨u, hu, hrun⟩ := hrun
            exact ih.mp (htail u hu) pre l' t hpre hrun
      · intro h
        refine ⟨h [] l s (by simp) rfl, ?_⟩
        intro u hu
        rw [ih]
        intro pre l' t hpre hrun
        refine h (l :: pre) l' t ?_ ?_
        · rw [List.cons_append, List.cons_prefix_cons]
          exact ⟨rfl, hpre⟩
        · rw [run_cons, hu]
          exact hrun

/-- **A simulation along a run.**  If each step is matched by some steps of the other machine, then
a run is matched by a run. -/
theorem exists_run_of_simulation {τ : Type*} {ℓ' : Type*} {next' : τ → ℓ' → Option τ}
    {R : σ → τ → Prop} (steps : σ → ℓ → List ℓ')
    (hstep : ∀ s l s' t, R s t → next s l = some s' →
      ∃ t', run next' t (steps s l) = some t' ∧ R s' t')
    {s s' : σ} {t : τ} {ls : List ℓ} (hR : R s t) (hrun : run next s ls = some s') :
    ∃ ls' t', run next' t ls' = some t' ∧ R s' t' := by
  induction ls generalizing s t with
  | nil =>
      cases hrun
      exact ⟨[], t, rfl, hR⟩
  | cons l ls ih =>
      rw [run_cons, Option.bind_eq_some_iff] at hrun
      obtain ⟨u, hu, hrun⟩ := hrun
      obtain ⟨v, hv, hR'⟩ := hstep s l u t hR hu
      obtain ⟨ls', t', hrun', ht'⟩ := ih hR' hrun
      exact ⟨steps s l ++ ls', t', by rw [run_append, hv]; exact hrun', ht'⟩

/-- **A goal is reached** if from every state that has not reached it there is an admitted step
that does, or that comes closer. -/
theorem exists_along_of_measure {P Goal : σ → Prop} {Q : σ → ℓ → Prop} (m : σ → ℕ)
    (hstep : ∀ s, P s → ∃ l t, Q s l ∧ next s l = some t ∧ (Goal t ∨ P t ∧ m t < m s))
    {s : σ} (hs : P s) : ∃ ls t, Along next Q s ls ∧ run next s ls = some t ∧ Goal t := by
  induction hm : m s using Nat.strongRecOn generalizing s with
  | ind n ih =>
      subst hm
      obtain ⟨l, t, hl, hnext, hgoal | ⟨ht, hlt⟩⟩ := hstep s hs
      · exact ⟨[l], t, along_cons hl hnext trivial, by simp [run_cons, hnext], hgoal⟩
      · obtain ⟨ls, t', hls, hrun, hgoal⟩ := ih (m t) hlt ht rfl
        exact ⟨l :: ls, t', along_cons hl hnext hls, by rw [run_cons, hnext]; exact hrun, hgoal⟩

theorem exists_run_of_measure {P Goal : σ → Prop} {A : ℓ → Prop} (m : σ → ℕ)
    (hstep : ∀ s, P s → ∃ l t, A l ∧ next s l = some t ∧ (Goal t ∨ P t ∧ m t < m s))
    {s : σ} (hs : P s) : ∃ ls t, (∀ l ∈ ls, A l) ∧ run next s ls = some t ∧ Goal t := by
  obtain ⟨ls, t, hls, hrun, hgoal⟩ := exists_along_of_measure (Q := fun _ => A) m hstep hs
  exact ⟨ls, t, forall_of_along hls hrun, hrun, hgoal⟩

end WarheadDiscord.Machine
