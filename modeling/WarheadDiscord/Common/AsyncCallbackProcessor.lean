import Mathlib.Data.List.Nodup
import Mathlib.Data.List.Range
import Mathlib.Tactic.Common

/-!
# The callbacks of an `AsyncCallbackProcessor`

`ProcessReadyCallbacks` moves the list of callbacks out, calls `InvokeIfReady` of each of them and
drops those that are completed.  A callback may add others while it is called: they go to the list
of the processor, which is empty then, and what is left of the old list is appended to them.

The type of the callbacks is arbitrary, and so is what `InvokeIfReady` does.  The model gives each
callback a ticket when it is added, and keeps an account of the calls of `InvokeIfReady`; since a
pass calls it once for a callback, what it does in a pass is a function of the ticket.

## Main definitions

* `Invocation` — what a call of `InvokeIfReady` does.
* `AsyncCallbackProcessor`, `addCallback`, `removeIf`, `processReadyCallbacks` — the code.
* `ProcessorOp`, `AsyncCallbackProcessor.run` — a history of a processor.
* `Accounted` — the callbacks against the account.
-/

namespace WarheadDiscord

variable {α : Type}

/-- What a call of `InvokeIfReady` does: its result, the callback after it, and what it has passed
to `AddCallback`. -/
structure Invocation (α : Type) where
  completed : Bool
  callback : α
  added : List α := []
  deriving DecidableEq, Repr

/-- The callbacks with their tickets.  Beside them are the number of tickets, and the tickets of
the callbacks that `InvokeIfReady` was called for, with its results. -/
structure AsyncCallbackProcessor (α : Type) where
  callbacks : List (α × ℕ) := []
  issued : ℕ := 0
  polls : List (ℕ × Bool) := []
  deriving DecidableEq, Repr

namespace AsyncCallbackProcessor

def addCallback (p : AsyncCallbackProcessor α) (callback : α) : AsyncCallbackProcessor α :=
  { p with callbacks := p.callbacks ++ [(callback, p.issued)], issued := p.issued + 1 }

/-- `std::remove_if` over `updateCallbacks`, of which some are kept already. -/
def removeIf (invoke : ℕ → α → Invocation α) : List (α × ℕ) → List (α × ℕ) →
    AsyncCallbackProcessor α → List (α × ℕ) × AsyncCallbackProcessor α
  | [], kept, p => (kept, p)
  | (callback, ticket) :: updateCallbacks, kept, p =>
      let reply := invoke ticket callback
      let p := { p with polls := p.polls ++ [(ticket, reply.completed)] }
      removeIf invoke updateCallbacks
        (if reply.completed then kept else kept ++ [(reply.callback, ticket)])
        (reply.added.foldl addCallback p)

def processReadyCallbacks (invoke : ℕ → α → Invocation α) (p : AsyncCallbackProcessor α) :
    AsyncCallbackProcessor α :=
  if p.callbacks.isEmpty then p
  else
    let (updateCallbacks, p) := removeIf invoke p.callbacks [] { p with callbacks := [] }
    { p with callbacks := p.callbacks ++ updateCallbacks }

end AsyncCallbackProcessor

/-- What happens to a processor from the outside. -/
inductive ProcessorOp (α : Type)
  | add (callback : α)
  | process (invoke : ℕ → α → Invocation α)

namespace AsyncCallbackProcessor

def step (p : AsyncCallbackProcessor α) : ProcessorOp α → AsyncCallbackProcessor α
  | .add callback => p.addCallback callback
  | .process invoke => p.processReadyCallbacks invoke

/-- The processor after a history. -/
def run (ops : List (ProcessorOp α)) : AsyncCallbackProcessor α := ops.foldl step {}

/-! ## One pass -/

section Pass
variable (invoke : ℕ → α → Invocation α)

/-- What is left of a callback after it was polled. -/
def remaining (c : α × ℕ) : Option (α × ℕ) :=
  if (invoke c.2 c.1).completed then none else some ((invoke c.2 c.1).callback, c.2)

/-- The callbacks that are added in a pass over a list. -/
def addedIn (callbacks : List (α × ℕ)) : List α := callbacks.flatMap fun c => (invoke c.2 c.1).added

theorem foldl_addCallback (added : List α) (p : AsyncCallbackProcessor α) :
    added.foldl addCallback p =
      { p with
        callbacks := p.callbacks ++ added.zipIdx p.issued
        issued := p.issued + added.length } := by
  induction added generalizing p with
  | nil => simp
  | cons a added ih =>
      rw [List.foldl_cons, ih, addCallback]
      simp [List.zipIdx_cons, Nat.add_assoc, Nat.add_comm 1]

theorem removeIf_eq (callbacks kept : List (α × ℕ)) (p : AsyncCallbackProcessor α) :
    removeIf invoke callbacks kept p =
      (kept ++ callbacks.filterMap (remaining invoke),
        { callbacks := p.callbacks ++ (addedIn invoke callbacks).zipIdx p.issued
          issued := p.issued + (addedIn invoke callbacks).length
          polls := p.polls ++ callbacks.map fun c => (c.2, (invoke c.2 c.1).completed) }) := by
  induction callbacks generalizing kept p with
  | nil => simp [removeIf, addedIn]
  | cons c callbacks ih =>
      obtain ⟨callback, ticket⟩ := c
      rw [removeIf, ih, foldl_addCallback]
      have hadded : addedIn invoke ((callback, ticket) :: callbacks) =
          (invoke ticket callback).added ++ addedIn invoke callbacks := List.flatMap_cons
      rw [hadded, List.zipIdx_append, List.length_append]
      cases hdone : (invoke ticket callback).completed with
      | true => simp [remaining, hdone, Nat.add_assoc]
      | false => simp [remaining, hdone, Nat.add_assoc]

/-- **What a pass does.** -/
theorem processReadyCallbacks_eq (p : AsyncCallbackProcessor α) :
    p.processReadyCallbacks invoke =
      { callbacks := (addedIn invoke p.callbacks).zipIdx p.issued ++
          p.callbacks.filterMap (remaining invoke)
        issued := p.issued + (addedIn invoke p.callbacks).length
        polls := p.polls ++ p.callbacks.map fun c => (c.2, (invoke c.2 c.1).completed) } := by
  rw [processReadyCallbacks]
  cases hcallbacks : p.callbacks with
  | nil =>
      obtain ⟨callbacks, issued, polls⟩ := p
      cases hcallbacks
      simp [addedIn]
  | cons c callbacks =>
      simp only [List.isEmpty_cons, Bool.false_eq_true, if_false, removeIf_eq, List.nil_append]

end Pass

/-! ## A history -/

/-- The tickets of the callbacks. -/
def tickets (p : AsyncCallbackProcessor α) : List ℕ := p.callbacks.map Prod.snd

/-- Every callback that was added is either in the list, once and not completed, or it was
completed once. -/
structure Accounted (p : AsyncCallbackProcessor α) : Prop where
  nodup : p.tickets.Nodup
  lt_issued : ∀ ticket ∈ p.tickets, ticket < p.issued
  completed : ∀ ticket, p.polls.count (ticket, true) =
    if ticket < p.issued ∧ ticket ∉ p.tickets then 1 else 0

section Account
variable {invoke : ℕ → α → Invocation α} {callbacks : List (α × ℕ)} {ticket : ℕ}

/-- The tickets of what is left are those of the callbacks that are not completed. -/
theorem map_snd_remaining (invoke : ℕ → α → Invocation α) (callbacks : List (α × ℕ)) :
    (callbacks.filterMap (remaining invoke)).map Prod.snd =
      (callbacks.filter fun c => !(invoke c.2 c.1).completed).map Prod.snd := by
  induction callbacks with
  | nil => rfl
  | cons c callbacks ih =>
      cases hdone : (invoke c.2 c.1).completed with
      | true =>
          rw [List.filterMap_cons_none (by simp [remaining, hdone]),
            List.filter_cons_of_neg (by simp [hdone]), ih]
      | false =>
          have hsome : remaining invoke c = some ((invoke c.2 c.1).callback, c.2) := by
            simp [remaining, hdone]
          rw [List.filterMap_cons_some hsome, List.filter_cons_of_pos (by simp [hdone]),
            List.map_cons, List.map_cons, ih]

theorem count_polls_of_notMem (hticket : ticket ∉ callbacks.map Prod.snd) :
    (callbacks.map fun c => (c.2, (invoke c.2 c.1).completed)).count (ticket, true) = 0 := by
  rw [List.count_eq_zero]
  intro hmem
  obtain ⟨c, hc, heq⟩ := List.mem_map.mp hmem
  exact hticket (List.mem_map.mpr ⟨c, hc, congrArg Prod.fst heq⟩)

theorem count_polls_of_mem (hnodup : (callbacks.map Prod.snd).Nodup) {callback : α}
    (hmem : (callback, ticket) ∈ callbacks) :
    (callbacks.map fun c => (c.2, (invoke c.2 c.1).completed)).count (ticket, true) =
      if (invoke ticket callback).completed then 1 else 0 := by
  induction callbacks with
  | nil => cases hmem
  | cons c callbacks ih =>
      rw [List.map_cons, List.nodup_cons] at hnodup
      rw [List.map_cons, List.count_cons]
      rcases List.mem_cons.mp hmem with rfl | htail
      · rw [count_polls_of_notMem hnodup.1]
        simp
      · have hne : c.2 ≠ ticket := by
          rintro rfl
          exact hnodup.1 (List.mem_map.mpr ⟨_, htail, rfl⟩)
        rw [ih hnodup.2 htail]
        simp [hne]

end Account

/-- A callback is left exactly if it was not completed. -/
theorem mem_map_snd_remaining_iff {invoke : ℕ → α → Invocation α} {callbacks : List (α × ℕ)}
    (hnodup : (callbacks.map Prod.snd).Nodup) {callback : α} {ticket : ℕ}
    (hmem : (callback, ticket) ∈ callbacks) :
    ticket ∈ (callbacks.filter fun c => !(invoke c.2 c.1).completed).map Prod.snd ↔
      (invoke ticket callback).completed = false := by
  constructor
  · intro hleft
    obtain ⟨c, hc, heq⟩ := List.mem_map.mp hleft
    rw [List.mem_filter] at hc
    obtain rfl : c = (callback, ticket) :=
      List.inj_on_of_nodup_map hnodup hc.1 hmem heq
    simpa using hc.2
  · intro hdone
    exact List.mem_map.mpr ⟨_, List.mem_filter.mpr ⟨hmem, by simp [hdone]⟩, rfl⟩

theorem tickets_addCallback (p : AsyncCallbackProcessor α) (callback : α) :
    (p.addCallback callback).tickets = p.tickets ++ [p.issued] := by
  rw [addCallback, tickets, List.map_append]
  rfl

theorem tickets_processReadyCallbacks (p : AsyncCallbackProcessor α)
    (invoke : ℕ → α → Invocation α) :
    (p.processReadyCallbacks invoke).tickets =
      List.range' p.issued (addedIn invoke p.callbacks).length ++
        (p.callbacks.filter fun c => !(invoke c.2 c.1).completed).map Prod.snd := by
  rw [processReadyCallbacks_eq, tickets, List.map_append, map_snd_remaining]
  simp

theorem Accounted.addCallback {p : AsyncCallbackProcessor α} (h : p.Accounted) (callback : α) :
    (p.addCallback callback).Accounted := by
  have hnew : p.issued ∉ p.tickets := fun hmem => Nat.lt_irrefl _ (h.lt_issued _ hmem)
  refine ⟨?_, ?_, ?_⟩
  · rw [tickets_addCallback, List.nodup_append_comm, List.singleton_append, List.nodup_cons]
    exact ⟨hnew, h.nodup⟩
  · intro ticket hmem
    rw [tickets_addCallback, List.mem_append, List.mem_singleton] at hmem
    have hissued : (p.addCallback callback).issued = p.issued + 1 := rfl
    rcases hmem with hmem | rfl
    · have hlt := h.lt_issued ticket hmem
      omega
    · omega
  · intro ticket
    have hpolls : (p.addCallback callback).polls = p.polls := rfl
    have hissued : (p.addCallback callback).issued = p.issued + 1 := rfl
    rw [hpolls, h.completed, tickets_addCallback, hissued]
    refine if_congr ?_ rfl rfl
    rw [List.mem_append, List.mem_singleton]
    constructor
    · intro ⟨hlt, hmem⟩
      exact ⟨by omega, fun h => h.elim hmem (Nat.ne_of_lt hlt)⟩
    · intro ⟨hlt, hmem⟩
      exact ⟨by omega, fun h => hmem (.inl h)⟩

/-- The tickets after a pass are new ones, and those of the callbacks that are not completed. -/
theorem mem_tickets_processReadyCallbacks {p : AsyncCallbackProcessor α}
    {invoke : ℕ → α → Invocation α} {ticket : ℕ} :
    ticket ∈ (p.processReadyCallbacks invoke).tickets ↔
      (p.issued ≤ ticket ∧ ticket < p.issued + (addedIn invoke p.callbacks).length) ∨
        ticket ∈ (p.callbacks.filter fun c => !(invoke c.2 c.1).completed).map Prod.snd := by
  rw [tickets_processReadyCallbacks, List.mem_append, List.mem_range'_1]

theorem mem_tickets_of_mem_remaining {p : AsyncCallbackProcessor α}
    {invoke : ℕ → α → Invocation α} {ticket : ℕ}
    (h : ticket ∈ (p.callbacks.filter fun c => !(invoke c.2 c.1).completed).map Prod.snd) :
    ticket ∈ p.tickets :=
  (List.filter_sublist.map Prod.snd).subset h

/-- A pass completes a callback that was there and is gone. -/
theorem Accounted.completed_processReadyCallbacks {p : AsyncCallbackProcessor α} (h : p.Accounted)
    (invoke : ℕ → α → Invocation α) (ticket : ℕ) :
    (p.processReadyCallbacks invoke).polls.count (ticket, true) =
      if ticket < p.issued + (addedIn invoke p.callbacks).length ∧
          ticket ∉ (p.processReadyCallbacks invoke).tickets then 1 else 0 := by
  have hpolls : (p.processReadyCallbacks invoke).polls =
      p.polls ++ p.callbacks.map fun c => (c.2, (invoke c.2 c.1).completed) := by
    rw [processReadyCallbacks_eq]
  have hleft : ticket ∈ (p.processReadyCallbacks invoke).tickets ↔ _ :=
    mem_tickets_processReadyCallbacks
  rw [hpolls, List.count_append, h.completed]
  by_cases hmem : ticket ∈ p.tickets
  · have hlt := h.lt_issued ticket hmem
    obtain ⟨⟨callback, ticket'⟩, hc, rfl⟩ := List.mem_map.mp hmem
    rw [mem_map_snd_remaining_iff h.nodup hc] at hleft
    rw [count_polls_of_mem h.nodup hc, if_neg fun hgone => hgone.2 hmem]
    cases hdone : (invoke ticket' callback).completed with
    | true =>
        rw [if_pos rfl, if_pos]
        refine ⟨by omega, hleft.not.mpr ?_⟩
        rintro (hnew | hold)
        · omega
        · rw [hdone] at hold
          cases hold
    | false =>
        rw [if_neg Bool.false_ne_true, if_neg]
        exact fun hgone => hgone.2 (hleft.mpr (.inr hdone))
  · rw [count_polls_of_notMem hmem, Nat.add_zero]
    refine if_congr ?_ rfl rfl
    constructor
    · intro ⟨hlt, _⟩
      refine ⟨by omega, hleft.not.mpr ?_⟩
      rintro (hnew | hold)
      · omega
      · exact hmem (mem_tickets_of_mem_remaining hold)
    · intro ⟨hlt, hgone⟩
      refine ⟨?_, hmem⟩
      by_contra hge
      exact hgone (hleft.mpr (.inl ⟨by omega, hlt⟩))

theorem Accounted.processReadyCallbacks {p : AsyncCallbackProcessor α} (h : p.Accounted)
    (invoke : ℕ → α → Invocation α) : (p.processReadyCallbacks invoke).Accounted := by
  have hissued : (p.processReadyCallbacks invoke).issued =
      p.issued + (addedIn invoke p.callbacks).length := by rw [processReadyCallbacks_eq]
  refine ⟨?_, ?_, ?_⟩
  · rw [tickets_processReadyCallbacks, List.nodup_append']
    refine ⟨List.nodup_range', h.nodup.sublist (List.filter_sublist.map Prod.snd), ?_⟩
    intro ticket hnew hold
    have hlt := h.lt_issued ticket (mem_tickets_of_mem_remaining hold)
    rw [List.mem_range'_1] at hnew
    omega
  · intro ticket hmem
    rcases mem_tickets_processReadyCallbacks.mp hmem with hnew | hold
    · omega
    · have hlt := h.lt_issued ticket (mem_tickets_of_mem_remaining hold)
      omega
  · intro ticket
    rw [hissued]
    exact h.completed_processReadyCallbacks invoke ticket

theorem Accounted.step {p : AsyncCallbackProcessor α} (h : p.Accounted) (op : ProcessorOp α) :
    (p.step op).Accounted := by
  cases op with
  | add callback => exact h.addCallback callback
  | process invoke => exact h.processReadyCallbacks invoke

theorem Accounted.foldl {p : AsyncCallbackProcessor α} (h : p.Accounted)
    (ops : List (ProcessorOp α)) : (ops.foldl AsyncCallbackProcessor.step p).Accounted := by
  induction ops generalizing p with
  | nil => exact h
  | cons op ops ih => exact ih (h.step op)

theorem accounted_run (ops : List (ProcessorOp α)) : (run ops).Accounted := by
  refine Accounted.foldl ?_ ops
  exact ⟨List.nodup_nil, by simp [tickets], by simp⟩

/-- The callback is completed. -/
def Gone (p : AsyncCallbackProcessor α) (ticket : ℕ) : Prop :=
  ticket < p.issued ∧ ticket ∉ p.tickets

theorem Gone.step {p : AsyncCallbackProcessor α} {ticket : ℕ} (h : p.Gone ticket)
    (op : ProcessorOp α) : (p.step op).Gone ticket := by
  cases op with
  | add callback =>
      refine ⟨Nat.lt_succ_of_lt h.1, ?_⟩
      rw [AsyncCallbackProcessor.step, tickets_addCallback, List.mem_append, List.mem_singleton]
      exact fun hmem => hmem.elim h.2 (Nat.ne_of_lt h.1)
  | process invoke =>
      rw [AsyncCallbackProcessor.step]
      refine ⟨?_, ?_⟩
      · rw [processReadyCallbacks_eq]
        exact Nat.lt_add_right _ h.1
      · rw [tickets_processReadyCallbacks, List.mem_append, List.mem_range'_1]
        rintro (hnew | hold)
        · exact absurd h.1 (Nat.not_lt.mpr hnew.1)
        · exact h.2 ((List.filter_sublist.map Prod.snd).subset hold)

theorem Gone.foldl {p : AsyncCallbackProcessor α} {ticket : ℕ} (h : p.Gone ticket)
    (ops : List (ProcessorOp α)) : (ops.foldl AsyncCallbackProcessor.step p).Gone ticket := by
  induction ops generalizing p with
  | nil => exact h
  | cons op ops ih => exact ih (h.step op)

/-- A pass in which a callback is ready is the end of it. -/
theorem gone_processReadyCallbacks {p : AsyncCallbackProcessor α} (h : p.Accounted)
    {invoke : ℕ → α → Invocation α} {ticket : ℕ} (hticket : ticket < p.issued)
    (hready : ∀ callback, (callback, ticket) ∈ p.callbacks →
      (invoke ticket callback).completed = true) :
    (p.processReadyCallbacks invoke).Gone ticket := by
  refine ⟨?_, ?_⟩
  · rw [processReadyCallbacks_eq]
    exact Nat.lt_add_right _ hticket
  · rw [tickets_processReadyCallbacks, List.mem_append, List.mem_range'_1]
    rintro (hnew | hold)
    · omega
    · obtain ⟨⟨callback, ticket'⟩, hc, rfl⟩ := List.mem_map.mp hold
      have hmem := (List.mem_filter.mp hc).1
      rw [mem_map_snd_remaining_iff h.nodup hmem, hready callback hmem] at hold
      cases hold

/-- **Nothing is lost.**  A pass polls the callbacks that are there at its start, once and in their
order, and leaves those that were added in it and then those that are not completed.  In a history
each callback that was added is there or was completed once, and it was if there was a pass in
which it was ready. -/
theorem nothing_lost :
    (∀ (p : AsyncCallbackProcessor α) (invoke : ℕ → α → Invocation α),
      (p.processReadyCallbacks invoke).polls =
          p.polls ++ p.callbacks.map (fun c => (c.2, (invoke c.2 c.1).completed)) ∧
        (p.processReadyCallbacks invoke).callbacks =
          (p.callbacks.flatMap fun c => (invoke c.2 c.1).added).zipIdx p.issued ++
            p.callbacks.filterMap (remaining invoke)) ∧
    (∀ (ops : List (ProcessorOp α)) (ticket : ℕ),
      (run ops).tickets.Nodup ∧ (run ops).polls.count (ticket, true) =
        if ticket < (run ops).issued ∧ ticket ∉ (run ops).tickets then 1 else 0) ∧
    ∀ (before after : List (ProcessorOp α)) (invoke : ℕ → α → Invocation α) (ticket : ℕ),
      ticket < (run before).issued →
      (∀ callback, (callback, ticket) ∈ (run before).callbacks →
        (invoke ticket callback).completed = true) →
      (run (before ++ .process invoke :: after)).polls.count (ticket, true) = 1 := by
  refine ⟨?_, ?_, ?_⟩
  · intro p invoke
    rw [processReadyCallbacks_eq]
    exact ⟨rfl, rfl⟩
  · intro ops ticket
    exact ⟨(accounted_run ops).nodup, (accounted_run ops).completed ticket⟩
  · intro before after invoke ticket hticket hready
    rw [(accounted_run _).completed, if_pos]
    rw [run, List.foldl_append, List.foldl_cons]
    exact (gone_processReadyCallbacks (accounted_run before) hticket hready).foldl after

end AsyncCallbackProcessor
end WarheadDiscord
