import Mathlib.Data.List.Basic
import Mathlib.Tactic.Common

/-!
# Chains of query callbacks

A `QueryCallback` has the future of a query, which is for the result of a text or of a prepared
statement, and a queue of handlers.  `InvokeIfReady` calls the first handler with the result when
it is there; the handler may set the next query, and then the object waits for that one.

The object is a union with a tag.  Its move constructor and its assignment give it the tag of the
object that is moved, `SetNextQuery` does not, and asserts that the two are the same.  So a chain
in which the kind changes is accepted when it is set up, and does not get past the change
(`runsInOrder_iff`).

## Main definitions

* `Handler`, `QueryCallback` — a handler is what it makes of a result, the next query or none.
* `withChaining`, `moveFrom`, `setNextQuery`, `invokeIfReady` — the code; `none` is an assertion
  that fails or a member of a union that is not the active one.
* `CallbackChain` — a chain as callers set it up.
* `RunsInOrder` — what is promised of it.
-/

namespace WarheadDiscord

/-- `_isPrepared` -/
inductive QueryKind
  | string
  | prepared
  deriving DecidableEq, Repr

/-- A query that runs asynchronously, of which there is a future. -/
structure AsyncQuery (κ : Type) where
  kind : QueryKind
  query : κ
  deriving DecidableEq, Repr

/-- A handler is for one kind of result. -/
structure Handler (κ ρ : Type) where
  kind : QueryKind
  /-- What it passes to `SetNextQuery`, if it calls it. -/
  next : ρ → Option (AsyncQuery κ)

/-- The future is `none` if it is not valid.  Beside the members of the source there are the
handlers that were called, with what they were given. -/
structure QueryCallback (κ ρ : Type) where
  kind : QueryKind
  future : Option κ
  callbacks : List (Handler κ ρ) := []
  called : List (Handler κ ρ × ρ) := []

variable {κ ρ : Type}

namespace QueryCallback

/-- `WithChainingCallback` and `WithChainingPreparedCallback` -/
def withChaining (c : QueryCallback κ ρ) (callback : Handler κ ρ) : Option (QueryCallback κ ρ) :=
  if c.callbacks ≠ [] ∨ c.kind = callback.kind then
    some { c with callbacks := c.callbacks ++ [callback] }
  else none

def moveFrom (c : QueryCallback κ ρ) («from» : AsyncQuery κ) : Option (QueryCallback κ ρ) :=
  if c.kind = «from».kind then some { c with future := some «from».query } else none

def setNextQuery (c : QueryCallback κ ρ) (next : AsyncQuery κ) : Option (QueryCallback κ ρ) :=
  c.moveFrom next

/-- The handler runs on the object, whose future is moved away. -/
def call (c : QueryCallback κ ρ) (callback : Handler κ ρ) (result : ρ) :
    Option (QueryCallback κ ρ) :=
  let c := { c with future := none, called := c.called ++ [(callback, result)] }
  match callback.next result with
  | none => some c
  | some next => c.setNextQuery next

def checkStateAndReturnCompletion (c : QueryCallback κ ρ) : Option (Bool × QueryCallback κ ρ) :=
  let c := { c with callbacks := c.callbacks.tail }
  let hasNext := c.future.isSome
  match c.callbacks with
  | [] => if hasNext then none else some (true, c)
  | callback :: _ =>
      if ¬ hasNext then some (true, c)
      else if c.kind = callback.kind then some (false, c)
      else none

/-- `InvokeIfReady`, when the future is ready or not. -/
def invokeIfReady (result : κ → ρ) (ready : Bool) (c : QueryCallback κ ρ) :
    Option (Bool × QueryCallback κ ρ) :=
  match c.callbacks with
  | [] => none
  | callback :: _ =>
      match c.future with
      | none => some (false, c)
      | some query =>
          if ready then
            -- the member of the union that is taken is the one of the object's kind
            if c.kind = callback.kind then
              (c.call callback (result query)).bind checkStateAndReturnCompletion
            else none
          else some (false, c)

/-- The calls of `InvokeIfReady` until one returns true. -/
def invokeAll (result : κ → ρ) : List Bool → QueryCallback κ ρ → Option (Bool × QueryCallback κ ρ)
  | [], c => some (false, c)
  | ready :: pattern, c =>
      match c.invokeIfReady result ready with
      | none => none
      | some (true, c) => some (true, c)
      | some (false, c) => invokeAll result pattern c

end QueryCallback

/-! ## Chains -/

/-- Each handler but the last passes on a query of the kind that its successor expects, or none,
and the last one passes on none. -/
def Fits : List (Handler κ ρ) → Prop
  | [] => True
  | [h] => ∀ r, h.next r = none
  | h :: h' :: hs => (∀ r, ∀ next ∈ h.next r, next.kind = h'.kind) ∧ Fits (h' :: hs)

/-- A query and its handlers, as a caller sets them up. -/
structure CallbackChain (κ ρ : Type) where
  first : AsyncQuery κ
  handlers : List (Handler κ ρ)
  ne_nil : handlers ≠ []
  kind_head : ∀ h ∈ handlers.head?, h.kind = first.kind
  fits : Fits handlers

/-- The calls of the constructor and of `WithChaining…`. -/
def CallbackChain.build (chain : CallbackChain κ ρ) : Option (QueryCallback κ ρ) :=
  chain.handlers.foldlM QueryCallback.withChaining
    ⟨chain.first.kind, some chain.first.query, [], []⟩

/-- The handlers that are to be called, each with the result of its own query. -/
def expected (result : κ → ρ) : κ → List (Handler κ ρ) → List (Handler κ ρ × ρ)
  | _, [] => []
  | query, h :: hs =>
      (h, result query) ::
        match h.next (result query) with
        | none => []
        | some next => expected result next.query hs

/-- Under every pattern of readiness no assertion fails, every result that is ready calls the next
handler of the chain, and the call that returns true is the one of the last handler. -/
def RunsInOrder (result : κ → ρ) (chain : CallbackChain κ ρ) : Prop :=
  ∃ c₀, chain.build = some c₀ ∧ ∀ pattern : List Bool, ∃ c,
    c₀.invokeAll result pattern =
      some (decide ((expected result chain.first.query chain.handlers).length ≤
        pattern.count true), c) ∧
    c.called = (expected result chain.first.query chain.handlers).take (pattern.count true)

/-- Each handler that is called and passes on a query has a successor of its own kind. -/
def SameKinds (result : κ → ρ) : κ → List (Handler κ ρ) → Prop
  | query, h :: h' :: hs =>
      ∀ next ∈ h.next (result query), h.kind = h'.kind ∧ SameKinds result next.query (h' :: hs)
  | _, _ => True

section Expected
variable {result : κ → ρ} {query : κ} {h : Handler κ ρ} {hs : List (Handler κ ρ)}

theorem expected_last (hnext : h.next (result query) = none) :
    expected result query (h :: hs) = [(h, result query)] := by
  rw [expected, hnext]

theorem expected_next {next : AsyncQuery κ} (hnext : h.next (result query) = some next) :
    expected result query (h :: hs) =
      (h, result query) :: expected result next.query hs := by
  rw [expected, hnext]

end Expected

namespace QueryCallback
variable {result : κ → ρ} {c : QueryCallback κ ρ} {query : κ} {h h' : Handler κ ρ}
  {hs : List (Handler κ ρ)}

theorem foldlM_withChaining (hcallbacks : c.callbacks ≠ []) :
    hs.foldlM withChaining c = some { c with callbacks := c.callbacks ++ hs } := by
  induction hs generalizing c with
  | nil => simp
  | cons h hs ih =>
      rw [List.foldlM_cons, withChaining, if_pos (.inl hcallbacks)]
      have hne : c.callbacks ++ [h] ≠ [] := by simp
      rw [Option.bind_eq_bind, Option.bind_some, ih hne]
      simp

/-! ## One call -/

/-- The object waits for a query, and its first handler is for it. -/
structure Waiting (c : QueryCallback κ ρ) (query : κ) (h : Handler κ ρ)
    (hs : List (Handler κ ρ)) : Prop where
  future : c.future = some query
  callbacks : c.callbacks = h :: hs
  kind : c.kind = h.kind

theorem invokeIfReady_false (hc : c.Waiting query h hs) :
    c.invokeIfReady result false = some (false, c) := by
  rw [invokeIfReady, hc.callbacks, hc.future]
  rfl

/-- The object after a call of its first handler. -/
def afterCall (c : QueryCallback κ ρ) (h : Handler κ ρ) (r : ρ) (future : Option κ)
    (hs : List (Handler κ ρ)) : QueryCallback κ ρ :=
  ⟨c.kind, future, hs, c.called ++ [(h, r)]⟩

theorem invokeIfReady_last (hc : c.Waiting query h hs) (hnext : h.next (result query) = none) :
    c.invokeIfReady result true = some (true, c.afterCall h (result query) none hs) := by
  rw [invokeIfReady, hc.callbacks, hc.future]
  simp only [if_true, if_pos hc.kind, call, hnext, Option.bind_some,
    checkStateAndReturnCompletion, hc.callbacks, List.tail_cons]
  cases hs <;> rfl

theorem invokeIfReady_next {next : AsyncQuery κ} (hc : c.Waiting query h (h' :: hs))
    (hnext : h.next (result query) = some next) (hkind : next.kind = h'.kind) :
    c.invokeIfReady result true =
      if h.kind = h'.kind then
        some (false, c.afterCall h (result query) (some next.query) (h' :: hs))
      else none := by
  rw [invokeIfReady, hc.callbacks, hc.future]
  simp only [if_true, call, hnext, setNextQuery, moveFrom, hkind, hc.kind]
  split_ifs with hsame
  · simp only [Option.bind_some, checkStateAndReturnCompletion, hc.callbacks, List.tail_cons,
      if_pos hsame]
    rw [afterCall, hc.kind]
    rfl
  · rfl

/-! ## All calls -/

theorem invokeAll_of_sameKinds (hc : c.Waiting query h hs) (hfits : Fits (h :: hs))
    (hsame : SameKinds result query (h :: hs)) (pattern : List Bool) :
    ∃ c', c.invokeAll result pattern =
        some (decide ((expected result query (h :: hs)).length ≤ pattern.count true), c') ∧
      c'.called = c.called ++ (expected result query (h :: hs)).take (pattern.count true) := by
  induction pattern generalizing c query h hs with
  | nil => exact ⟨c, by simp [invokeAll, expected], by simp⟩
  | cons ready pattern ih =>
      rw [invokeAll]
      cases ready with
      | false =>
          rw [invokeIfReady_false hc]
          simpa using ih hc hfits hsame
      | true =>
          rw [List.count_cons_self]
          cases hnext : h.next (result query) with
          | none =>
              rw [invokeIfReady_last hc hnext]
              rw [expected_last hnext]
              exact ⟨c.afterCall h (result query) none hs, by simp, by simp [afterCall]⟩
          | some next =>
              cases hs with
              | nil =>
                  rw [hfits] at hnext
                  cases hnext
              | cons h' hs =>
                  have hkind : next.kind = h'.kind := hfits.1 (result query) next hnext
                  obtain ⟨hsuccessor, hrest⟩ := hsame next hnext
                  have hwaiting : (c.afterCall h (result query) (some next.query)
                      (h' :: hs)).Waiting next.query h' hs :=
                    ⟨rfl, rfl, hc.kind.trans hsuccessor⟩
                  obtain ⟨c', hall, hcalled⟩ := ih hwaiting hfits.2 hrest
                  rw [invokeIfReady_next hc hnext hkind, if_pos hsuccessor]
                  rw [expected_next hnext]
                  exact ⟨c', by simpa using hall, by simp [hcalled, afterCall]⟩

/-- If all results are ready, the chain comes to where the kind changes. -/
theorem invokeAll_of_not_sameKinds (hc : c.Waiting query h hs) (hfits : Fits (h :: hs))
    (hsame : ¬ SameKinds result query (h :: hs)) :
    c.invokeAll result (List.replicate hs.length true) = none := by
  induction hs generalizing c query h with
  | nil => exact absurd trivial hsame
  | cons h' hs ih =>
      rw [SameKinds] at hsame
      push Not at hsame
      obtain ⟨next, hnext, hchange⟩ := hsame
      have hkind : next.kind = h'.kind := hfits.1 (result query) next hnext
      rw [List.length_cons, List.replicate_succ, invokeAll, invokeIfReady_next hc hnext hkind]
      by_cases hsuccessor : h.kind = h'.kind
      · rw [if_pos hsuccessor]
        have hwaiting : (c.afterCall h (result query) (some next.query)
            (h' :: hs)).Waiting next.query h' hs :=
          ⟨rfl, rfl, hc.kind.trans hsuccessor⟩
        exact ih hwaiting hfits.2 (hchange hsuccessor)
      · rw [if_neg hsuccessor]

end QueryCallback

/-- A chain is accepted. -/
theorem CallbackChain.exists_build (chain : CallbackChain κ ρ) :
    ∃ h hs, chain.handlers = h :: hs ∧
      chain.build = some ⟨chain.first.kind, some chain.first.query, h :: hs, []⟩ ∧
      h.kind = chain.first.kind := by
  obtain ⟨h, hs, hhandlers⟩ := List.exists_cons_of_ne_nil chain.ne_nil
  have hkind : h.kind = chain.first.kind := chain.kind_head h (by simp [hhandlers])
  refine ⟨h, hs, hhandlers, ?_, hkind⟩
  rw [build, hhandlers, List.foldlM_cons, QueryCallback.withChaining, if_pos (.inr hkind.symm),
    Option.bind_eq_bind, Option.bind_some, QueryCallback.foldlM_withChaining (by simp)]
  rfl

/-- **A chain runs in order exactly if each handler that is called and passes on a query has a
successor of its own kind.** -/
theorem runsInOrder_iff (result : κ → ρ) (chain : CallbackChain κ ρ) :
    RunsInOrder result chain ↔ SameKinds result chain.first.query chain.handlers := by
  obtain ⟨h, hs, hhandlers, hbuild, hkind⟩ := chain.exists_build
  have hwaiting : QueryCallback.Waiting
      ⟨chain.first.kind, some chain.first.query, h :: hs, []⟩ chain.first.query h hs :=
    ⟨rfl, rfl, hkind.symm⟩
  have hfits : Fits (h :: hs) := hhandlers ▸ chain.fits
  rw [RunsInOrder, hhandlers, hbuild]
  constructor
  · intro ⟨c₀, hc₀, hall⟩
    cases hc₀
    by_contra hsame
    obtain ⟨c, hc, -⟩ := hall (List.replicate hs.length true)
    rw [QueryCallback.invokeAll_of_not_sameKinds hwaiting hfits hsame] at hc
    cases hc
  · intro hsame
    refine ⟨_, rfl, fun pattern => ?_⟩
    simpa using QueryCallback.invokeAll_of_sameKinds hwaiting hfits hsame pattern

/-- The handler of a text passes on a prepared statement to the handler for it. -/
def mixedChain : CallbackChain ℕ Unit where
  first := ⟨.string, 0⟩
  handlers := [⟨.string, fun _ => some ⟨.prepared, 1⟩⟩, ⟨.prepared, fun _ => none⟩]
  ne_nil := by simp
  kind_head := by simp
  fits := by simp [Fits]

/-- The first result is there, its handler sets the next query, and the assertion fails. -/
theorem not_runsInOrder_mixedChain : ¬ RunsInOrder (fun _ => ()) mixedChain := by
  intro ⟨c₀, hbuild, hall⟩
  cases hbuild
  obtain ⟨c, hc, -⟩ := hall [true]
  cases hc

end WarheadDiscord
