import Mathlib.Logic.Relation
import Mathlib.Order.WellFounded

/-!
# Loops that may go on forever

A loop is a body that is run turn after turn on a state: the turn gives the next state, or
the result of the loop.  `loop` is computable and takes fuel; `Returns` says that some fuel
is enough, and then every larger amount gives the same result.

A loop returns if something decreases in every turn (`exists_returns_of_lt`), and it needs no
more fuel than its number of turns where that is known (`loop_of_turns`).  If a second loop
makes the turns of a first one, then it returns what it makes of the state in which the first
one stops (`returns_iff_of_turns`).

## Main definitions

* `loop body fuel s` — the result, or `none` when the fuel is used up.
* `Returns body s r` — the loop returns `r`.
* `Reaches body s t` — the loop comes from `s` to `t`.
-/

namespace WarheadDiscord.Loop

universe u v w x
variable {σ : Type u} {ρ : Type v} {body : σ → σ ⊕ ρ} {s t : σ} {r r' : ρ} {fuel : ℕ}

/-- The result of the loop, if the fuel is enough for it. -/
def loop (body : σ → σ ⊕ ρ) : ℕ → σ → Option ρ
  | 0, _ => none
  | fuel + 1, s =>
      match body s with
      | .inl t => loop body fuel t
      | .inr r => some r

/-- Some fuel is enough, and the result is `r`. -/
def Returns (body : σ → σ ⊕ ρ) (s : σ) (r : ρ) : Prop := ∃ fuel, loop body fuel s = some r

/-- The states in front of the turns. -/
def Reaches (body : σ → σ ⊕ ρ) : σ → σ → Prop :=
  Relation.ReflTransGen fun s t => body s = .inl t

theorem loop_of_inl (h : body s = .inl t) (fuel : ℕ) :
    loop body (fuel + 1) s = loop body fuel t := by
  rw [loop, h]

theorem loop_of_inr (h : body s = .inr r) (fuel : ℕ) : loop body (fuel + 1) s = some r := by
  rw [loop, h]

theorem loop_mono (h : loop body fuel s = some r) {fuel' : ℕ} (hle : fuel ≤ fuel') :
    loop body fuel' s = some r := by
  induction fuel generalizing s fuel' with
  | zero => cases h
  | succ fuel ih =>
      obtain ⟨fuel', rfl⟩ := Nat.exists_eq_add_of_le' (Nat.lt_of_lt_of_le fuel.succ_pos hle)
      cases hbody : body s with
      | inl t =>
          rw [loop_of_inl hbody] at h ⊢
          exact ih h (Nat.le_of_succ_le_succ hle)
      | inr r' =>
          rw [loop_of_inr hbody] at h ⊢
          exact h

theorem returns_of_inl (h : body s = .inl t) : Returns body s r ↔ Returns body t r := by
  constructor
  · rintro ⟨fuel, hfuel⟩
    exact ⟨fuel, loop_of_inl h fuel ▸ loop_mono hfuel fuel.le_succ⟩
  · rintro ⟨fuel, hfuel⟩
    exact ⟨fuel + 1, (loop_of_inl h fuel).trans hfuel⟩

theorem returns_of_inr (h : body s = .inr r) : Returns body s r' ↔ r = r' := by
  constructor
  · rintro ⟨fuel, hfuel⟩
    have hsucc := loop_mono hfuel fuel.le_succ
    rw [loop_of_inr h] at hsucc
    exact Option.some.inj hsucc
  · rintro rfl
    exact ⟨1, loop_of_inr h 0⟩

/-- **Induction along a loop that returns**, from its end. -/
theorem Returns.induction {P : σ → Prop} (hend : ∀ s, body s = .inr r → P s)
    (hturn : ∀ s t, body s = .inl t → P t → P s) (h : Returns body s r) : P s := by
  obtain ⟨fuel, hfuel⟩ := h
  induction fuel generalizing s with
  | zero => cases hfuel
  | succ fuel ih =>
      cases hbody : body s with
      | inl t =>
          rw [loop_of_inl hbody] at hfuel
          exact hturn s t hbody (ih hfuel)
      | inr r' =>
          rw [loop_of_inr hbody] at hfuel
          cases hfuel
          exact hend s hbody

/-- What every turn keeps holds at the end of the loop. -/
theorem Returns.exists_end {P : σ → Prop} (hturn : ∀ s t, P s → body s = .inl t → P t) (hs : P s)
    (h : Returns body s r) : ∃ t, P t ∧ body t = .inr r := by
  refine Returns.induction (P := fun s => P s → ∃ t, P t ∧ body t = .inr r) ?_ ?_ h hs
  · intro s hbody hs
    exact ⟨s, hs, hbody⟩
  · intro s t hbody ih hs
    exact ih (hturn s t hs hbody)

/-- **A loop returns** if every turn that does not end it makes something smaller. -/
theorem exists_returns_of_lt {α : Type w} [LT α] [WellFoundedLT α] (m : σ → α) {P : σ → Prop}
    {Q : ρ → Prop}
    (hturn : ∀ s, P s →
      (∃ r, body s = .inr r ∧ Q r) ∨ ∃ t, body s = .inl t ∧ P t ∧ m t < m s)
    (hs : P s) : ∃ r, Returns body s r ∧ Q r := by
  induction hm : m s using WellFoundedLT.induction generalizing s with
  | ind a ih =>
      subst hm
      rcases hturn s hs with ⟨r, hbody, hr⟩ | ⟨t, hbody, ht, hlt⟩
      · exact ⟨r, (returns_of_inr hbody).mpr rfl, hr⟩
      · obtain ⟨r, hreturns, hr⟩ := ih (m t) hlt ht rfl
        exact ⟨r, (returns_of_inl hbody).mpr hreturns, hr⟩

/-- **A loop with a known number of turns**, where `f k` is the state in front of turn `k`. -/
theorem loop_of_turns (f : ℕ → σ) {n : ℕ} (hturn : ∀ k < n, body (f k) = .inl (f (k + 1)))
    (hend : body (f n) = .inr r) (hfuel : n < fuel) : loop body fuel (f 0) = some r := by
  have hexact : loop body (n + 1) (f 0) = some r := by
    induction n generalizing f with
    | zero => exact loop_of_inr hend 0
    | succ n ih =>
        rw [loop_of_inl (hturn 0 n.succ_pos)]
        refine ih (fun k => f (k + 1)) ?_ hend (by omega)
        intro k hk
        exact hturn (k + 1) (Nat.succ_lt_succ hk)
  exact loop_mono hexact hfuel

/-- **Two loops.**  The second one makes the turns of the first, and `K` says what it returns
from where the first one stops. -/
theorem returns_iff_of_turns {τ : Type w} {ρ' : Type x} {body' : τ → τ ⊕ ρ'} {f : σ → τ}
    {P : σ → Prop} {K : ρ → ρ' → Prop}
    (hturn : ∀ s t, P s → body s = .inl t → P t ∧ body' (f s) = .inl (f t))
    (hend : ∀ s r, P s → body s = .inr r → ∀ r', Returns body' (f s) r' ↔ K r r') (hs : P s)
    {r' : ρ'} : Returns body' (f s) r' ↔ ∃ r, Returns body s r ∧ K r r' := by
  constructor
  · -- the second loop takes at least as many turns, so its fuel is enough for the first one
    rintro ⟨fuel, hfuel⟩
    induction fuel generalizing s with
    | zero => cases hfuel
    | succ fuel ih =>
        cases hbody : body s with
        | inl t =>
            obtain ⟨ht, hbody'⟩ := hturn s t hs hbody
            rw [loop_of_inl hbody'] at hfuel
            obtain ⟨r, hreturns, hK⟩ := ih ht hfuel
            exact ⟨r, (returns_of_inl hbody).mpr hreturns, hK⟩
        | inr r =>
            exact ⟨r, (returns_of_inr hbody).mpr rfl, (hend s r hs hbody r').mp ⟨_, hfuel⟩⟩
  · rintro ⟨r, hreturns, hK⟩
    refine hreturns.induction (P := fun s => P s → Returns body' (f s) r') ?_ ?_ hs
    · intro s hbody hs
      exact (hend s r hs hbody r').mpr hK
    · intro s t hbody ih hs
      obtain ⟨ht, hbody'⟩ := hturn s t hs hbody
      exact (returns_of_inl hbody').mpr (ih ht)

end WarheadDiscord.Loop
