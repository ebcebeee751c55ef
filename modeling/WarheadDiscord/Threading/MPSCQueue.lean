import Mathlib.Data.List.Chain
import Mathlib.Data.List.Nodup
import Mathlib.Logic.Function.Basic
import Mathlib.Tactic.Common
import WarheadDiscord.Lib.Machine

/-!
# `MPSCQueueNonIntrusive`

A queue of any number of producers and one consumer, as a list of nodes that are linked from
`_tail` to `_head`.  `Enqueue` exchanges `_head` for its new node, and then stores that node
into the one it has got; between the two steps the list is disconnected there.  `Dequeue`
loads the link of the node at `_tail`, and then moves `_tail` on and deletes that node.

Each atomic access is a step.  What a thread does on its own goes with the access next to
it: a node is created with the exchange that makes it known, at whatever address is free
then, and the data of the next node is read, and the old node deleted, with the store of
`_tail`.  Addresses of deleted nodes are used again.  Following a pointer to a node that is
deleted is a fault.

In every state the nodes from `_tail` to `_head` form a chain in which each link is there, or
is about to be stored by exactly one producer (`Inv`).  So what comes out is what went in, in
the order of the exchanges (`dequeued_prefix`).

## Main definitions

* `Node`, `MPSCQueue` — the state, with the histories of `Enqueue` and `Dequeue`.
* `MPSCQueue.next` — the machine, with the accesses as labels.
* `MPSCQueue.Inv` — the invariant.
-/

namespace WarheadDiscord

/-- A node with its link.  The data of the first node is not initialised. -/
structure Node (α : Type) where
  data : Option α
  next : Option ℕ
  deriving DecidableEq, Repr

/-- The queue while it is used by the producers of type `P`, with elements of type `α`. -/
structure MPSCQueue (P α : Type) where
  heap : ℕ → Option (Node α)
  head : ℕ
  tail : ℕ
  /-- For a producer between its two accesses: the node it has got, and its own. -/
  pending : P → Option (ℕ × ℕ)
  /-- For the consumer between its two accesses: the link it has loaded. -/
  loaded : Option ℕ
  /-- The elements in the order of the exchanges, each with its producer. -/
  exchanged : List (P × α)
  /-- The elements of each producer, in the order of its calls of `Enqueue`. -/
  enqueued : P → List α
  /-- The results of `Dequeue`, as far as it has returned true. -/
  dequeued : List (Option α)
  /-- A pointer to a node that is deleted was followed. -/
  fault : Bool

namespace MPSCQueue
variable {P α : Type}

inductive Label (P α : Type)
  /-- `Enqueue` up to the exchange, with a new node at the given address. -/
  | exchange (p : P) (input : α) (node : ℕ)
  /-- The rest of `Enqueue`. -/
  | link (p : P)
  /-- `Dequeue` up to the load of the link, where it may return false. -/
  | load
  /-- The rest of `Dequeue`. -/
  | advance
  deriving DecidableEq, Repr

/-- The machine. -/
def next [DecidableEq P] (q : MPSCQueue P α) : Label P α → Option (MPSCQueue P α)
  | .exchange p input node =>
      if q.pending p = none ∧ (q.heap node).isNone then
        some { q with
          heap := Function.update q.heap node (some ⟨some input, none⟩)
          head := node
          pending := Function.update q.pending p (some (q.head, node))
          exchanged := q.exchanged ++ [(p, input)]
          enqueued := Function.update q.enqueued p (q.enqueued p ++ [input]) }
      else none
  | .link p =>
      match q.pending p with
      | none => none
      | some (prevHead, node) =>
          match q.heap prevHead with
          | none => some { q with fault := true }
          | some n =>
              some { q with
                heap := Function.update q.heap prevHead (some { n with next := some node })
                pending := Function.update q.pending p none }
  | .load =>
      match q.loaded with
      | some _ => none
      | none =>
          match q.heap q.tail with
          | none => some { q with fault := true }
          | some n => some { q with loaded := n.next }
  | .advance =>
      match q.loaded with
      | none => none
      | some node =>
          match q.heap node with
          | none => some { q with fault := true }
          | some n =>
              some { q with
                heap := Function.update q.heap q.tail none
                tail := node
                loaded := none
                dequeued := q.dequeued ++ [n.data] }

/-- A queue that was just constructed, with its first node at the given address. -/
def new (node : ℕ) : MPSCQueue P α where
  heap := fun a => if a = node then some ⟨none, none⟩ else none
  head := node
  tail := node
  pending := fun _ => none
  loaded := none
  exchanged := []
  enqueued := fun _ => []
  dequeued := []
  fault := false

/-- `Dequeue` has not loaded a link and finds none: it returns false. -/
def DequeueFails (q : MPSCQueue P α) : Prop :=
  q.loaded = none ∧ ∃ n, q.heap q.tail = some n ∧ n.next = none

/-! ## The invariant -/

/-- The link from one node to the next is there, or a producer is about to store it. -/
def Leads (q : MPSCQueue P α) (a b : ℕ) : Prop :=
  ∃ n, q.heap a = some n ∧
    (n.next = some b ∨ n.next = none ∧ ∃ p, q.pending p = some (a, b))

/-- The data of a node of the chain. -/
def dataAt (q : MPSCQueue P α) (a : ℕ) : Option α := (q.heap a).bind Node.data

/-- The nodes from `_tail` to `_head` are the given ones.  The first of them has been
dequeued, or was never an element, and the others are what is left to dequeue. -/
structure Chain (q : MPSCQueue P α) (rest : List ℕ) : Prop where
  nodup : (q.tail :: rest).Nodup
  leads : (q.tail :: rest).IsChain q.Leads
  last : (q.tail :: rest).getLast? = some q.head
  headNode : ∃ n, q.heap q.head = some n ∧ n.next = none
  data : q.dequeued ++ rest.map q.dataAt = q.exchanged.map fun x => some x.2

variable {q q' : MPSCQueue P α} {rest : List ℕ}

theorem Leads.frame {a b : ℕ} (h : q.Leads a b) (hheap : q'.heap a = q.heap a)
    (hpending : ∀ p, q.pending p = some (a, b) → q'.pending p = some (a, b)) : q'.Leads a b := by
  obtain ⟨n, hn, hnext | ⟨hnext, p, hp⟩⟩ := h
  · exact ⟨n, hheap.trans hn, .inl hnext⟩
  · exact ⟨n, hheap.trans hn, .inr ⟨hnext, p, hpending p hp⟩⟩

/-- A chain stays one while its nodes are as they were, and the links that are about to be
stored into them still are. -/
theorem leads_frame {l : List ℕ} (h : l.IsChain q.Leads) (hheap : ∀ a ∈ l, q'.heap a = q.heap a)
    (hpending : ∀ p x, q.pending p = some x → q'.pending p = some x) : l.IsChain q'.Leads :=
  h.imp_of_mem_imp fun a _ ha _ hab => hab.frame (hheap a ha) fun p hp => hpending p _ hp

theorem map_dataAt {l : List ℕ} (hheap : ∀ a ∈ l, q'.heap a = q.heap a) :
    l.map q'.dataAt = l.map q.dataAt :=
  List.map_congr_left fun a ha => congrArg (Option.bind · Node.data) (hheap a ha)

/-- A node does not have a link and lack it. -/
theorem not_linked {a b : ℕ} {n n' : Node α} (hn : q.heap a = some n) (hnext : n.next = none)
    (hn' : q.heap a = some n') (hnext' : n'.next = some b) : False := by
  cases hn.symm.trans hn'
  rw [hnext] at hnext'
  cases hnext'

/-- A node of a chain that is not the last one has a node behind it. -/
theorem eq_or_exists_rel {R : ℕ → ℕ → Prop} {l : List ℕ} {a last : ℕ} (hchain : l.IsChain R)
    (hlast : l.getLast? = some last) (ha : a ∈ l) : a = last ∨ ∃ b ∈ l, R a b := by
  induction l with
  | nil => cases ha
  | cons c l ih =>
      cases l with
      | nil =>
          rw [List.mem_singleton.mp ha]
          exact .inl (by simpa using hlast)
      | cons d l =>
          rw [List.isChain_cons_cons] at hchain
          rcases List.mem_cons.mp ha with rfl | ha
          · exact .inr ⟨d, by simp, hchain.1⟩
          · rw [List.getLast?_cons_cons] at hlast
            refine (ih hchain.2 hlast ha).imp_right ?_
            rintro ⟨b, hb, hab⟩
            exact ⟨b, List.mem_cons_of_mem _ hb, hab⟩

theorem Chain.exists_node (h : q.Chain rest) {a : ℕ} (ha : a ∈ q.tail :: rest) :
    ∃ n, q.heap a = some n := by
  rcases eq_or_exists_rel h.leads h.last ha with rfl | ⟨b, -, n, hn, -⟩
  · obtain ⟨n, hn, -⟩ := h.headNode
    exact ⟨n, hn⟩
  · exact ⟨n, hn⟩

theorem Chain.ne_of_free (h : q.Chain rest) {node : ℕ} (hnode : q.heap node = none) :
    ∀ a ∈ q.tail :: rest, a ≠ node := by
  rintro a ha rfl
  obtain ⟨n, hn⟩ := h.exists_node ha
  exact absurd (hnode.symm.trans hn) nofun

theorem Chain.head_mem (h : q.Chain rest) : q.head ∈ q.tail :: rest :=
  List.mem_of_getLast? h.last

variable [DecidableEq P]

/-- The invariant, for the nodes behind `_tail`. -/
structure Inv (q : MPSCQueue P α) (rest : List ℕ) : Prop extends q.Chain rest where
  /-- A link is stored once, into a node behind which there is another one. -/
  pendingNode : ∀ p a b, q.pending p = some (a, b) → a ∈ q.tail :: rest ∧ a ≠ q.head ∧
    ∃ n, q.heap a = some n ∧ n.next = none
  alone : ∀ p p' a b b', q.pending p = some (a, b) → q.pending p' = some (a, b') → p = p'
  loadedNode : ∀ b, q.loaded = some b → ∃ n, q.heap q.tail = some n ∧ n.next = some b
  own : ∀ p, q.enqueued p = (q.exchanged.filter fun x => x.1 = p).map Prod.snd
  noFault : q.fault = false

/-- What is about to be stored after one producer has got something else to store. -/
theorem update_eq_some {pending : P → Option (ℕ × ℕ)} {p p' : P} {x : Option (ℕ × ℕ)}
    {y : ℕ × ℕ} (h : Function.update pending p x p' = some y) :
    p' = p ∧ x = some y ∨ p' ≠ p ∧ pending p' = some y := by
  by_cases hpp : p' = p
  · subst hpp
    rw [Function.update_self] at h
    exact .inl ⟨rfl, h⟩
  · rw [Function.update_of_ne hpp] at h
    exact .inr ⟨hpp, h⟩

theorem inv_new (node : ℕ) : (new node : MPSCQueue P α).Inv [] := by
  refine ⟨⟨?_, ?_, ?_, ?_, ?_⟩, ?_, ?_, ?_, ?_, ?_⟩ <;> simp [new]

/-! ## The accesses one by one -/

/-- The new node comes behind the one that was the head. -/
theorem chain_exchange (h : q.Chain rest) {p : P} (hp : q.pending p = none) (input : α) {node : ℕ}
    (hnode : q.heap node = none) :
    { q with
      heap := Function.update q.heap node (some ⟨some input, none⟩)
      head := node
      pending := Function.update q.pending p (some (q.head, node))
      exchanged := q.exchanged ++ [(p, input)]
      enqueued := Function.update q.enqueued p (q.enqueued p ++ [input]) }.Chain
      (rest ++ [node]) := by
  have hfresh := h.ne_of_free hnode
  have hheap : ∀ a ∈ q.tail :: rest,
      Function.update q.heap node (some ⟨some input, none⟩) a = q.heap a :=
    fun a ha => Function.update_of_ne (hfresh a ha) _ _
  have hothers : ∀ p' x, q.pending p' = some x →
      Function.update q.pending p (some (q.head, node)) p' = some x := by
    intro p' x hp'
    rw [← hp']
    refine Function.update_of_ne ?_ _ _
    rintro rfl
    cases hp.symm.trans hp'
  refine ⟨?_, ?_, ?_, ?_, ?_⟩
  · rw [← List.cons_append, List.nodup_append]
    refine ⟨h.nodup, List.nodup_singleton _, ?_⟩
    intro a ha b hb
    rw [List.mem_singleton.mp hb]
    exact hfresh a ha
  · rw [← List.cons_append, List.isChain_append]
    refine ⟨?_, List.isChain_singleton _, ?_⟩
    · exact leads_frame h.leads hheap hothers
    · -- the link that is missing now
      intro a ha b hb
      rw [h.last, Option.mem_some_iff] at ha
      rw [List.head?_cons, Option.mem_some_iff] at hb
      subst ha hb
      obtain ⟨n, hn, hnext⟩ := h.headNode
      exact ⟨n, (hheap _ h.head_mem).trans hn, .inr ⟨hnext, p, Function.update_self _ _ _⟩⟩
  · rw [← List.cons_append, List.getLast?_concat]
  · exact ⟨_, Function.update_self _ _ _, rfl⟩
  · rw [List.map_append, map_dataAt fun a ha => hheap a (List.mem_cons_of_mem _ ha),
      List.map_append, ← List.append_assoc, h.data]
    simp [dataAt]

/-- The producer of the new node is about to store its link, and nobody else is. -/
theorem inv_exchange (h : q.Inv rest) {p : P} (hp : q.pending p = none) (input : α) {node : ℕ}
    (hnode : q.heap node = none) :
    { q with
      heap := Function.update q.heap node (some ⟨some input, none⟩)
      head := node
      pending := Function.update q.pending p (some (q.head, node))
      exchanged := q.exchanged ++ [(p, input)]
      enqueued := Function.update q.enqueued p (q.enqueued p ++ [input]) }.Inv
      (rest ++ [node]) := by
  have hfresh := h.toChain.ne_of_free hnode
  have hheap : ∀ a ∈ q.tail :: rest,
      Function.update q.heap node (some ⟨some input, none⟩) a = q.heap a :=
    fun a ha => Function.update_of_ne (hfresh a ha) _ _
  refine ⟨chain_exchange h.toChain hp input hnode, ?_, ?_, ?_, ?_, h.noFault⟩
  · intro p' a b hp'
    rcases update_eq_some hp' with ⟨-, hown⟩ | ⟨-, hp'⟩
    · cases hown
      obtain ⟨n, hn, hnext⟩ := h.headNode
      refine ⟨?_, hfresh _ h.head_mem, n, (hheap _ h.head_mem).trans hn, hnext⟩
      rw [← List.cons_append]
      exact List.mem_append_left _ h.head_mem
    · obtain ⟨hmem, -, n, hn, hnext⟩ := h.pendingNode p' a b hp'
      refine ⟨?_, hfresh a hmem, n, (hheap a hmem).trans hn, hnext⟩
      rw [← List.cons_append]
      exact List.mem_append_left _ hmem
  · intro p₁ p₂ a b b' hp₁ hp₂
    -- nobody was about to store a link into the old head
    rcases update_eq_some hp₁ with ⟨hpp₁, hown₁⟩ | ⟨-, hold₁⟩ <;>
      rcases update_eq_some hp₂ with ⟨hpp₂, hown₂⟩ | ⟨-, hold₂⟩
    · exact hpp₁.trans hpp₂.symm
    · cases hown₁
      exact absurd rfl (h.pendingNode _ _ _ hold₂).2.1
    · cases hown₂
      exact absurd rfl (h.pendingNode _ _ _ hold₁).2.1
    · exact h.alone p₁ p₂ a b b' hold₁ hold₂
  · intro b hb
    obtain ⟨n, hn, hnext⟩ := h.loadedNode b hb
    exact ⟨n, (hheap _ List.mem_cons_self).trans hn, hnext⟩
  · intro p'
    by_cases hpp : p' = p
    · subst hpp
      simp [h.own, List.filter_append]
    · simp [h.own, List.filter_append, Function.update_of_ne hpp, Ne.symm hpp]

/-- The producer that stores a link stores the one that is missing. -/
theorem inv_link (h : q.Inv rest) {p : P} {prevHead node : ℕ}
    (hp : q.pending p = some (prevHead, node)) {n : Node α} (hn : q.heap prevHead = some n) :
    { q with
      heap := Function.update q.heap prevHead (some { n with next := some node })
      pending := Function.update q.pending p none }.Inv rest := by
  obtain ⟨hmem, hhead, n', hn', hnext⟩ := h.pendingNode p prevHead node hp
  cases hn.symm.trans hn'
  have hothers : ∀ p' a b, Function.update q.pending p none p' = some (a, b) →
      q.pending p' = some (a, b) ∧ a ≠ prevHead := by
    intro p' a b hp'
    rcases update_eq_some hp' with ⟨-, hnone⟩ | ⟨hpp, hp'⟩
    · cases hnone
    · refine ⟨hp', ?_⟩
      rintro rfl
      exact hpp (h.alone p' p a b node hp' hp)
  refine ⟨⟨h.nodup, ?_, h.last, ?_, ?_⟩, ?_, ?_, ?_, h.own, h.noFault⟩
  · refine h.leads.imp fun a b hab => ?_
    by_cases ha : a = prevHead
    · -- the node behind it in the chain is the one that the producer has added
      subst ha
      obtain ⟨n', hn', hnext' | ⟨-, p', hp'⟩⟩ := hab
      · exact (not_linked hn hnext hn' hnext').elim
      · cases h.alone p p' a node b hp hp'
        cases hp.symm.trans hp'
        exact ⟨_, Function.update_self _ _ _, .inl rfl⟩
    · refine hab.frame (Function.update_of_ne ha _ _) ?_
      intro p' hp'
      rw [← hp']
      refine Function.update_of_ne ?_ _ _
      rintro rfl
      cases hp.symm.trans hp'
      exact ha rfl
  · obtain ⟨n', hn', hnext'⟩ := h.headNode
    exact ⟨n', (Function.update_of_ne (Ne.symm hhead) _ _).trans hn', hnext'⟩
  · rw [← h.data]
    congr 2
    funext a
    by_cases ha : a = prevHead
    · subst ha
      simp [dataAt, hn]
    · simp [dataAt, Function.update_of_ne ha]
  · intro p' a b hp'
    obtain ⟨hp', ha⟩ := hothers p' a b hp'
    obtain ⟨hmem', hhead', n', hn', hnext'⟩ := h.pendingNode p' a b hp'
    exact ⟨hmem', hhead', n', (Function.update_of_ne ha _ _).trans hn', hnext'⟩
  · intro p₁ p₂ a b b' hp₁ hp₂
    exact h.alone p₁ p₂ a b b' (hothers p₁ a b hp₁).1 (hothers p₂ a b' hp₂).1
  · intro b hb
    obtain ⟨n', hn', hnext'⟩ := h.loadedNode b hb
    refine ⟨n', (Function.update_of_ne ?_ _ _).trans hn', hnext'⟩
    -- the consumer has loaded a link that was there
    intro heq
    rw [heq] at hn'
    exact not_linked hn hnext hn' hnext'

theorem inv_load (h : q.Inv rest) {n : Node α} (hn : q.heap q.tail = some n) :
    { q with loaded := n.next }.Inv rest :=
  { h with
    leads := leads_frame h.leads (fun _ _ => rfl) fun _ _ hp => hp
    loadedNode := fun _ hb => ⟨n, hn, hb⟩ }

/-- The link that was loaded leads to the node behind `_tail`. -/
theorem Inv.rest_eq (h : q.Inv rest) {node : ℕ} (hloaded : q.loaded = some node) :
    ∃ rest', rest = node :: rest' := by
  obtain ⟨n, hn, hnext⟩ := h.loadedNode node hloaded
  cases rest with
  | nil =>
      obtain ⟨n', hn', hnext'⟩ := h.headNode
      have hlast : q.tail = q.head := by simpa using h.last
      rw [← hlast] at hn'
      exact (not_linked hn' hnext' hn hnext).elim
  | cons b rest' =>
      obtain ⟨n', hn', hnext' | ⟨hnext', -⟩⟩ := (List.isChain_cons_cons.mp h.leads).1
      · cases hn.symm.trans hn'
        rw [hnext, Option.some.injEq] at hnext'
        exact ⟨rest', by rw [hnext']⟩
      · exact (not_linked hn' hnext' hn hnext).elim

theorem inv_advance {node : ℕ} (h : q.Inv (node :: rest)) (hloaded : q.loaded = some node)
    {n : Node α} (hn : q.heap node = some n) :
    { q with
      heap := Function.update q.heap q.tail none
      tail := node
      loaded := none
      dequeued := q.dequeued ++ [n.data] }.Inv rest := by
  obtain ⟨htail, hnodup⟩ := List.nodup_cons.mp h.nodup
  have hheap : ∀ a ∈ node :: rest, Function.update q.heap q.tail none a = q.heap a := by
    intro a ha
    refine Function.update_of_ne ?_ _ _
    rintro rfl
    exact htail ha
  have hlast : (node :: rest).getLast? = some q.head := by
    rw [← h.last, List.getLast?_cons_cons]
  have hhead : q.head ∈ node :: rest := List.mem_of_getLast? hlast
  -- nobody is about to store a link into the node that is deleted
  have hpending : ∀ p a b, q.pending p = some (a, b) → a ∈ node :: rest := by
    intro p a b hp
    obtain ⟨hmem, -, n', hn', hnext'⟩ := h.pendingNode p a b hp
    rcases List.mem_cons.mp hmem with rfl | hmem
    · obtain ⟨n'', hn'', hnext''⟩ := h.loadedNode node hloaded
      exact (not_linked hn' hnext' hn'' hnext'').elim
    · exact hmem
  refine ⟨⟨hnodup, ?_, hlast, ?_, ?_⟩, ?_, h.alone, nofun, h.own, h.noFault⟩
  · exact leads_frame (List.isChain_cons_cons.mp h.leads).2 hheap fun _ _ hp => hp
  · obtain ⟨n', hn', hnext'⟩ := h.headNode
    exact ⟨n', (hheap _ hhead).trans hn', hnext'⟩
  · have hnode : q.dataAt node = n.data := by rw [dataAt, hn, Option.bind_some]
    rw [map_dataAt fun a ha => hheap a (List.mem_cons_of_mem _ ha), List.append_assoc,
      List.singleton_append, ← hnode, ← List.map_cons]
    exact h.data
  · intro p a b hp
    obtain ⟨-, hne, n', hn', hnext'⟩ := h.pendingNode p a b hp
    have hmem := hpending p a b hp
    exact ⟨hmem, hne, n', (hheap a hmem).trans hn', hnext'⟩

/-! ## All runs -/

/-- Every access finds its node, and keeps the invariant. -/
theorem inv_next {l : Label P α} (h : q.Inv rest) (hnext : q.next l = some q') :
    ∃ rest', q'.Inv rest' := by
  cases l with
  | exchange p input node =>
      simp only [next, Option.ite_none_right_eq_some, Option.some.injEq] at hnext
      obtain ⟨⟨hp, hnode⟩, rfl⟩ := hnext
      exact ⟨_, inv_exchange h hp input (Option.isNone_iff_eq_none.mp hnode)⟩
  | link p =>
      cases hp : q.pending p with
      | none => simp [next, hp] at hnext
      | some x =>
          obtain ⟨-, -, n, hn, -⟩ := h.pendingNode p x.1 x.2 hp
          simp only [next, hp, hn, Option.some.injEq] at hnext
          rw [← hnext]
          exact ⟨_, inv_link h hp hn⟩
  | load =>
      cases hloaded : q.loaded with
      | some node => simp [next, hloaded] at hnext
      | none =>
          obtain ⟨n, hn⟩ := h.exists_node List.mem_cons_self
          simp only [next, hloaded, hn, Option.some.injEq] at hnext
          rw [← hnext]
          exact ⟨_, inv_load h hn⟩
  | advance =>
      cases hloaded : q.loaded with
      | none => simp [next, hloaded] at hnext
      | some node =>
          obtain ⟨rest', rfl⟩ := h.rest_eq hloaded
          obtain ⟨n, hn⟩ := h.exists_node (List.mem_cons_of_mem _ List.mem_cons_self)
          simp only [next, hloaded, hn, Option.some.injEq] at hnext
          rw [← hnext]
          exact ⟨_, inv_advance h hloaded hn⟩

/-- Without a producer between its accesses, `Dequeue` fails only when nothing is left. -/
theorem Inv.rest_eq_nil (h : q.Inv rest) (hpending : ∀ p, q.pending p = none)
    (hfails : q.DequeueFails) : rest = [] := by
  obtain ⟨-, n, hn, hnext⟩ := hfails
  cases rest with
  | nil => rfl
  | cons b rest =>
      obtain ⟨n', hn', hnext' | ⟨-, p, hp⟩⟩ := (List.isChain_cons_cons.mp h.leads).1
      · exact (not_linked hn hnext hn' hnext').elim
      · rw [hpending p] at hp
        cases hp

/-- **What comes out of the queue**, for every interleaving: the elements in the order of their
exchanges, without a gap, and so those of each producer in its own order; and the queue is
empty when `Dequeue` returns false while no `Enqueue` is between its two accesses.  No pointer
to a node that is deleted is ever followed. -/
theorem dequeued_prefix {node : ℕ} {ls : List (Label P α)}
    (hrun : Machine.run next (new node) ls = some q) :
    q.fault = false ∧
      ∃ out, out <+: q.exchanged ∧ q.dequeued = out.map (fun x => some x.2) ∧
        (∀ p, (out.filter fun x => x.1 = p).map Prod.snd <+: q.enqueued p) ∧
        ((∀ p, q.pending p = none) → q.DequeueFails → out = q.exchanged) := by
  obtain ⟨rest, h⟩ := Machine.run_induction (P := fun q => ∃ rest, Inv q rest)
    (fun _ _ _ ⟨_, h⟩ hnext => inv_next h hnext) ⟨[], inv_new node⟩ hrun
  have hout := h.data
  refine ⟨h.noFault, q.exchanged.take q.dequeued.length, List.take_prefix _ _, ?_, ?_, ?_⟩
  · rw [List.map_take, ← hout, List.take_left']
    rfl
  · intro p
    rw [h.own]
    exact ((List.take_prefix _ _).filter _).map _
  · intro hpending hfails
    rw [h.rest_eq_nil hpending hfails] at hout
    refine List.take_of_length_le ?_
    simpa using (congrArg List.length hout).ge

/-- Two producers exchange one after the other, and the second one is the first to store its
link; `Dequeue` fails, and then it gets both elements.  An address is used again. -/
def interleavedRun : List (Label Bool ℕ) :=
  [.exchange true 7 1, .exchange false 8 2, .link false, .load, .link true, .load, .advance,
    .exchange true 9 0, .load, .advance, .load]

theorem dequeued_prefix_interleavedRun :
    ∃ q, Machine.run next (new 0) interleavedRun = some q ∧ q.dequeued = [some 7, some 8] ∧
      q.exchanged = [(true, 7), (false, 8), (true, 9)] ∧
      ∃ out, out <+: q.exchanged ∧ q.dequeued = out.map (fun x => some x.2) := by
  have hrun : Machine.run next (new 0) interleavedRun = some _ := rfl
  obtain ⟨-, out, hprefix, hdequeued, -⟩ := dequeued_prefix hrun
  exact ⟨_, hrun, rfl, rfl, out, hprefix, hdequeued⟩

end MPSCQueue
end WarheadDiscord
