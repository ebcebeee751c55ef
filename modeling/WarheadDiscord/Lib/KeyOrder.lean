import Mathlib.Data.List.Basic
import Mathlib.Order.Lattice

/-!
# Lists ordered by a key

An ordered container that admits equal keys, such as a multiset, is a list in which the
keys do not decrease.  An element is inserted behind all those whose keys are not greater,
so elements with equal keys stay in the order of their insertion.

The key is a function, not a part of the element: it may belong to a state that changes
while the element stays where it is.  `ordered_congr` says which keys matter.

## Main definitions

* `Ordered key l` — the keys do not decrease.
* `insertByKey key a l`, `insertAllByKey key as l` — insertion.
-/

namespace WarheadDiscord.KeyOrder

universe u v
variable {α : Type u} {κ : Type v} [LinearOrder κ] {key key' : α → κ} {a b : α} {l as : List α}

/-- The keys do not decrease. -/
def Ordered (key : α → κ) (l : List α) : Prop := l.Pairwise fun a b => key a ≤ key b

/-- Insert behind all elements whose keys are not greater. -/
def insertByKey (key : α → κ) (a : α) : List α → List α
  | [] => [a]
  | b :: l => if key a < key b then a :: b :: l else b :: insertByKey key a l

/-- Insert one after the other. -/
def insertAllByKey (key : α → κ) (as l : List α) : List α :=
  as.foldl (fun l a => insertByKey key a l) l

theorem perm_insertByKey (key : α → κ) (a : α) (l : List α) :
    (insertByKey key a l).Perm (a :: l) := by
  induction l with
  | nil => exact .refl _
  | cons b l ih =>
      rw [insertByKey]
      split
      · exact .refl _
      · exact (ih.cons b).trans (.swap a b l)

@[simp] theorem mem_insertByKey : b ∈ insertByKey key a l ↔ b = a ∨ b ∈ l := by
  rw [(perm_insertByKey key a l).mem_iff, List.mem_cons]

theorem ordered_cons : Ordered key (a :: l) ↔ (∀ b ∈ l, key a ≤ key b) ∧ Ordered key l :=
  List.pairwise_cons

theorem ordered_insertByKey (h : Ordered key l) (a : α) : Ordered key (insertByKey key a l) := by
  induction l with
  | nil => exact List.pairwise_singleton _ a
  | cons b l ih =>
      obtain ⟨hb, hl⟩ := ordered_cons.mp h
      rw [insertByKey]
      split
      · rename_i hlt
        refine ordered_cons.mpr ⟨?_, h⟩
        intro c hc
        rcases List.mem_cons.mp hc with rfl | hc
        · exact le_of_lt hlt
        · exact le_trans (le_of_lt hlt) (hb c hc)
      · rename_i hge
        refine ordered_cons.mpr ⟨?_, ih hl⟩
        intro c hc
        rcases mem_insertByKey.mp hc with rfl | hc
        · exact le_of_not_gt hge
        · exact hb c hc

theorem ordered_congr (h : ∀ a ∈ l, key a = key' a) : Ordered key l ↔ Ordered key' l := by
  refine List.Pairwise.iff_of_mem ?_
  intro a b ha hb
  rw [h a ha, h b hb]

theorem perm_insertAllByKey (key : α → κ) (as l : List α) :
    (insertAllByKey key as l).Perm (as ++ l) := by
  induction as generalizing l with
  | nil => exact .refl _
  | cons a as ih =>
      have hcons := (perm_insertByKey key a l).append_left as
      exact (ih (insertByKey key a l)).trans (hcons.trans List.perm_middle)

theorem ordered_insertAllByKey (h : Ordered key l) (as : List α) :
    Ordered key (insertAllByKey key as l) := by
  induction as generalizing l with
  | nil => exact h
  | cons a as ih => exact ih (ordered_insertByKey h a)

end WarheadDiscord.KeyOrder
