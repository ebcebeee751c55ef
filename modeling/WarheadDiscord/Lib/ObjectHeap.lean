import Mathlib.Data.List.Basic
import Mathlib.Tactic.Common

/-!
# Objects on a heap, and runs that can fault

A heap is the list of the objects that were created; a pointer is a position in it.  A deleted
object leaves its position empty, so that no pointer is given out twice and a pointer to an object
that is gone stays recognizable.

A step that uses memory wrongly is an error, and ends the run.  `foldlM_cases` takes a run apart: it
keeps its invariant to the end, or there is a first step that faults, in a state that still has it.
`foldlM_simulation` compares two runs.

## Main definitions

* `Fault` — what can go wrong with memory.
* `ObjectHeap`, `ObjectHeap.Live` — the objects, and those that are not deleted.
* `ObjectHeap.deref`, `ObjectHeap.delete`, `ObjectHeap.release` — the checked accesses.
* `ObjectHeap.Owns` — the pointers through which every object can still be deleted, once.
* `foldlM_cases`, `foldlM_simulation` — runs that can fault.
-/

namespace WarheadDiscord

universe u v w

/-- The errors with memory. -/
inductive Fault
  | nullPointer
  | danglingPointer
  | deletedTwice
  /-- An object is used by two threads at once. -/
  | dataRace
  deriving DecidableEq, Repr

/-- The objects in the order of their creation; `none` is a deleted one. -/
abbrev ObjectHeap (α : Type u) := List (Option α)

@[simp] theorem except_ok_bind {ε : Type u} {α β : Type v} (a : α) (f : α → Except ε β) :
    (Except.ok a >>= f) = f a := rfl

@[simp] theorem except_pure {ε : Type u} {α : Type v} (a : α) :
    (pure a : Except ε α) = .ok a := rfl

namespace ObjectHeap
variable {α : Type u} {h : ObjectHeap α} {p q : ℕ} {a b : α}

/-- The pointer is to this object. -/
def Live (h : ObjectHeap α) (p : ℕ) (a : α) : Prop := h[p]? = some (some a)

instance [DecidableEq α] : Decidable (h.Live p a) := inferInstanceAs (Decidable (_ = _))

/-- The heap with one more object; the pointer to it is the old length. -/
def alloc (h : ObjectHeap α) (a : α) : ObjectHeap α := h ++ [some a]

def deref (h : ObjectHeap α) (p : ℕ) : Except Fault α :=
  match h[p]? with
  | some (some a) => .ok a
  | _ => .error .danglingPointer

def delete (h : ObjectHeap α) (p : ℕ) : Except Fault (ObjectHeap α) :=
  match h[p]? with
  | some (some _) => .ok (h.set p none)
  | _ => .error .deletedTwice

/-- `delete` of a pointer that may be null, to which it does nothing. -/
def release (h : ObjectHeap α) : Option ℕ → Except Fault (ObjectHeap α)
  | none => .ok h
  | some p => h.delete p

theorem Live.lt (hp : h.Live p a) : p < h.length := (List.getElem?_eq_some_iff.mp hp).1

theorem Live.unique (hp : h.Live p a) (hq : h.Live p b) : a = b := by
  rw [Live, hp] at hq
  simpa using hq

theorem deref_of_live (hp : h.Live p a) : h.deref p = .ok a := by
  rw [Live] at hp
  simp [deref, hp]

theorem delete_of_live (hp : h.Live p a) : h.delete p = .ok (h.set p none) := by
  rw [Live] at hp
  simp [delete, hp]

theorem live_alloc_self (h : ObjectHeap α) (a : α) : (h.alloc a).Live h.length a := by
  simp [Live, alloc]

theorem Live.alloc (hp : h.Live p a) (b : α) : (h.alloc b).Live p a := by
  rw [Live, ObjectHeap.alloc, List.getElem?_append_left hp.lt]
  exact hp

theorem live_alloc : (h.alloc a).Live p b ↔ h.Live p b ∨ p = h.length ∧ a = b := by
  rw [Live, alloc, List.getElem?_append]
  split
  · rename_i hlt
    simp [Live, Nat.ne_of_lt hlt]
  · rename_i hle
    have hnone : h[p]? = none := List.getElem?_eq_none (by omega)
    simp only [Live, hnone, List.getElem?_singleton]
    split
    · rename_i hzero
      simp [show p = h.length by omega]
    · rename_i hzero
      simp [show p ≠ h.length by omega]

/-- What is left after a deletion. -/
theorem live_set_none : Live (h.set p none) q b ↔ q ≠ p ∧ h.Live q b := by
  rw [Live, Live, List.getElem?_set]
  split
  · rename_i heq
    subst heq
    split <;> simp
  · rename_i hne
    simp [Ne.symm hne]

/-- The objects that are not deleted are those behind the pointers, which are all different. -/
structure Owns (h : ObjectHeap α) (ps : List ℕ) : Prop where
  live_iff : ∀ p, (∃ a, h.Live p a) ↔ p ∈ ps
  nodup : ps.Nodup

variable {ps qs : List ℕ}

theorem owns_empty : Owns ([] : ObjectHeap α) [] := ⟨by simp [Live], List.nodup_nil⟩

theorem Owns.perm (hown : h.Owns ps) (hperm : ps.Perm qs) : h.Owns qs :=
  ⟨fun p => (hown.live_iff p).trans hperm.mem_iff, hperm.nodup hown.nodup⟩

theorem Owns.alloc (hown : h.Owns ps) (a : α) : (h.alloc a).Owns (h.length :: ps) := by
  have hfresh : h.length ∉ ps := by
    rw [← hown.live_iff]
    rintro ⟨b, hb⟩
    exact Nat.lt_irrefl _ hb.lt
  refine ⟨fun p => ?_, List.nodup_cons.mpr ⟨hfresh, hown.nodup⟩⟩
  rw [List.mem_cons, ← hown.live_iff]
  simp only [live_alloc]
  constructor
  · rintro ⟨b, hb | ⟨hp, -⟩⟩
    · exact .inr ⟨b, hb⟩
    · exact .inl hp
  · rintro (hp | ⟨b, hb⟩)
    · exact ⟨a, .inr ⟨hp, rfl⟩⟩
    · exact ⟨b, .inl hb⟩

/-- **What is owned can be deleted**, and the others are owned as before. -/
theorem Owns.release {o : Option ℕ} (hown : h.Owns (o.toList ++ ps)) :
    ∃ h', h.release o = .ok h' ∧ h'.Owns ps := by
  cases o with
  | none => exact ⟨h, rfl, hown⟩
  | some p =>
      obtain ⟨a, hp⟩ := (hown.live_iff p).mpr (by simp)
      have hnodup : p ∉ ps ∧ ps.Nodup := List.nodup_cons.mp hown.nodup
      refine ⟨h.set p none, delete_of_live hp, fun q => ?_, hnodup.2⟩
      have hq := hown.live_iff q
      simp only [Option.toList_some, List.singleton_append, List.mem_cons] at hq
      simp only [live_set_none, exists_and_left, hq]
      constructor
      · rintro ⟨hne, heq | hmem⟩
        · exact absurd heq hne
        · exact hmem
      · intro hmem
        exact ⟨fun heq => hnodup.1 (heq ▸ hmem), .inr hmem⟩

end ObjectHeap

section
variable {σ : Type u} {ℓ : Type v} {ε : Type w} {step : σ → ℓ → Except ε σ}

/-- **A run that can fault** keeps its invariant, or has a first step that faults. -/
theorem foldlM_cases {P : σ → Prop} {Q : σ → ℓ → ε → Prop}
    (hstep : ∀ s l, P s → (∃ t, step s l = .ok t ∧ P t) ∨ ∃ e, step s l = .error e ∧ Q s l e)
    {s : σ} (hs : P s) (ls : List ℓ) :
    (∃ t, ls.foldlM step s = .ok t ∧ P t) ∨
      ∃ pre l rest t e, ls = pre ++ l :: rest ∧ pre.foldlM step s = .ok t ∧ P t ∧ Q t l e ∧
        ls.foldlM step s = .error e := by
  induction ls generalizing s with
  | nil => exact .inl ⟨s, rfl, hs⟩
  | cons l ls ih =>
      rcases hstep s l hs with ⟨t, hok, ht⟩ | ⟨e, herror, hQ⟩
      · rw [List.foldlM_cons, hok]
        rcases ih ht with hdone | ⟨pre, l', rest, u, e, rfl, hpre, hu, hQ, herror⟩
        · exact .inl hdone
        · refine .inr ⟨l :: pre, l', rest, u, e, rfl, ?_, hu, hQ, herror⟩
          rw [List.foldlM_cons, hok]
          exact hpre
      · refine .inr ⟨[], l, ls, s, e, rfl, rfl, hs, hQ, ?_⟩
        rw [List.foldlM_cons, herror]
        rfl

/-- The last step of a run that does not fault. -/
theorem foldlM_concat_eq_ok {s u : σ} {ls : List ℓ} {l : ℓ} :
    (ls ++ [l]).foldlM step s = .ok u ↔ ∃ t, ls.foldlM step s = .ok t ∧ step t l = .ok u := by
  rw [List.foldlM_append]
  cases ls.foldlM step s with
  | error e =>
      constructor
      · intro h
        cases h
      · rintro ⟨t, ht, -⟩
        cases ht
  | ok t =>
      have hlast : [l].foldlM step t = step t l := by
        rw [List.foldlM_cons]
        cases step t l <;> rfl
      rw [except_ok_bind, hlast]
      simp

/-- A step that faults ends the run. -/
theorem foldlM_of_error {s t : σ} {pre rest : List ℓ} {l : ℓ} {e : ε}
    (hpre : pre.foldlM step s = .ok t) (hl : step t l = .error e) :
    (pre ++ l :: rest).foldlM step s = .error e := by
  rw [List.foldlM_append, hpre]
  change (l :: rest).foldlM step t = _
  rw [List.foldlM_cons, hl]
  rfl

/-- **Two systems that make the same steps** up to a relation make the same runs, and fault
alike. -/
theorem foldlM_simulation {τ : Type u} {step' : τ → ℓ → Except ε τ} {R : σ → τ → Prop}
    (hstep : ∀ s t l, R s t →
      (∃ s' t', step s l = .ok s' ∧ step' t l = .ok t' ∧ R s' t') ∨
        ∃ e, step s l = .error e ∧ step' t l = .error e)
    {s : σ} {t : τ} (h : R s t) (ls : List ℓ) :
    (∃ s' t', ls.foldlM step s = .ok s' ∧ ls.foldlM step' t = .ok t' ∧ R s' t') ∨
      ∃ e, ls.foldlM step s = .error e ∧ ls.foldlM step' t = .error e := by
  induction ls generalizing s t with
  | nil => exact .inl ⟨s, t, rfl, rfl, h⟩
  | cons l ls ih =>
      rw [List.foldlM_cons, List.foldlM_cons]
      rcases hstep s t l h with ⟨s', t', hs, ht, h'⟩ | ⟨e, hs, ht⟩
      · rw [hs, ht]
        exact ih h'
      · rw [hs, ht]
        exact .inr ⟨e, rfl, rfl⟩

end

end WarheadDiscord
