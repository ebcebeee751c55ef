import Mathlib.Algebra.GroupWithZero.Nat
import Mathlib.Data.Int.Notation
import Mathlib.Data.List.Nodup
import Mathlib.Data.List.Perm.Subperm
import Mathlib.Tactic.Common
import WarheadDiscord.Lib.Machine

/-!
# Connection counts

A network thread has the sockets that were added since its last `Update` in `_newSockets`, the
others in `_sockets`, and counts both in `_connections`.  The acceptor adds sockets from its own
thread, under the lock of `_newSockets`; `Update` moves them under the same lock and then removes,
without a lock, the sockets that are to go.  Each of these does several things one after the other,
so that a step is made for each of them: the count and the insertion of `AddSocket`, and one socket
in the loops of `AddNewSockets` and `remove_if`.  Whether a socket is open, and what its `Update`
returns, is arbitrary.

A socket has its descriptor until it is destroyed: `CloseSocket` shuts it down, but does not close
it.  A descriptor is an `int` that is not negative, and one of them belongs to the acceptor.  So
there are never more sockets than an `int32` can count, though the count itself is modulo `2 ^ 32`
here.

## Main definitions

* `Connection`, `NetworkThread` — a socket, and the state of a thread with its history.
* `SocketMgr`, `SocketMgr.next` — the machine, with the acceptor and all threads.
* `SocketMgr.selectThreadWithMinConnections` — the thread for the next socket.
* `NetworkThread.live`, `NetworkThread.Inv` — the sockets that are counted, and the invariant.
-/

namespace WarheadDiscord

/-- A socket: its number among those that were accepted, and its descriptor. -/
structure Connection where
  id : ℕ
  descriptor : ℕ
  deriving DecidableEq, Repr

/-- Where a thread is in its `Update`. -/
inductive Updating
  | idle
  /-- In `AddNewSockets`, with the lock, in front of these sockets. -/
  | addingNew (rest : List Connection)
  /-- In `remove_if`, with the sockets that stay, in front of the others. -/
  | removing (kept rest : List Connection)
  deriving DecidableEq, Repr

structure NetworkThread where
  connections : BitVec 32
  newSockets : List Connection
  sockets : List Connection
  /-- `AddSocket` has counted the socket, and has the lock. -/
  adding : Option Connection
  updating : Updating
  /-- The sockets of the calls of `AddSocket`. -/
  accepted : List Connection
  /-- The sockets that `SocketRemoved` was called for. -/
  removed : List Connection
  deriving DecidableEq, Repr

namespace NetworkThread

def new : NetworkThread := ⟨0, [], [], none, .idle, [], []⟩

/-- `AddSocket` up to the increment. -/
def addSocket (t : NetworkThread) (sock : Connection) : Option NetworkThread :=
  match t.adding, t.updating with
  | some _, _ => none
  | none, .addingNew _ => none
  | none, _ => some { t with
      connections := t.connections + 1, adding := some sock, accepted := t.accepted ++ [sock] }

/-- A step of a call that goes on, or the first one of `Update`. -/
inductive Action
  /-- The rest of `AddSocket`. -/
  | pushBack
  /-- `Update` up to the loop of `AddNewSockets`. -/
  | update
  /-- A socket in the loop of `AddNewSockets`. -/
  | addNew (isOpen : Bool)
  /-- The rest of `AddNewSockets`. -/
  | clear
  /-- A socket in `remove_if`. -/
  | test (stays : Bool)
  /-- The rest of `Update`. -/
  | erase
  deriving DecidableEq, Repr

def act (t : NetworkThread) : Action → Option NetworkThread
  | .pushBack =>
      match t.adding with
      | some sock => some { t with newSockets := t.newSockets ++ [sock], adding := none }
      | none => none
  | .update =>
      match t.adding, t.updating with
      | none, .idle => some { t with updating := .addingNew t.newSockets }
      | _, _ => none
  | .addNew isOpen =>
      match t.updating with
      | .addingNew (sock :: rest) =>
          if isOpen then
            some { t with sockets := t.sockets ++ [sock], updating := .addingNew rest }
          else
            some { t with
              connections := t.connections - 1
              removed := t.removed ++ [sock]
              updating := .addingNew rest }
      | _ => none
  | .clear =>
      match t.updating with
      | .addingNew [] => some { t with newSockets := [], updating := .removing [] t.sockets }
      | _ => none
  | .test stays =>
      match t.updating with
      | .removing kept (sock :: rest) =>
          if stays then some { t with updating := .removing (kept ++ [sock]) rest }
          else
            some { t with
              connections := t.connections - 1
              removed := t.removed ++ [sock]
              updating := .removing kept rest }
      | _ => none
  | .erase =>
      match t.updating with
      | .removing kept [] => some { t with sockets := kept, updating := .idle }
      | _ => none

/-- No call is in progress. -/
def AtRest (t : NetworkThread) : Prop := t.adding = none ∧ t.updating = .idle

instance (t : NetworkThread) : Decidable t.AtRest := inferInstanceAs (Decidable (_ ∧ _))

/-! ## The sockets that are counted -/

/-- The new sockets that are still to be moved. -/
def waiting (t : NetworkThread) : List Connection :=
  match t.updating with
  | .addingNew rest => rest
  | _ => t.newSockets

/-- The sockets that are not new, and not removed. -/
def held (t : NetworkThread) : List Connection :=
  match t.updating with
  | .removing kept rest => kept ++ rest
  | _ => t.sockets

def live (t : NetworkThread) : List Connection := t.adding.toList ++ (t.waiting ++ t.held)

theorem live_of_atRest {t : NetworkThread} (h : t.AtRest) : t.live = t.newSockets ++ t.sockets := by
  rw [live, waiting, held, h.1, h.2]
  rfl

end NetworkThread

/-! ## All threads -/

structure SocketMgr where
  /-- The descriptor of the acceptor. -/
  acceptor : ℕ
  threads : List NetworkThread
  /-- How many sockets were accepted. -/
  opened : ℕ
  deriving DecidableEq, Repr

namespace SocketMgr

inductive Label
  /-- `OnSocketOpen` for a socket with a new descriptor, as far as `addSocket`. -/
  | accept (thread descriptor : ℕ)
  | act (thread : ℕ) (action : NetworkThread.Action)
  deriving DecidableEq, Repr

/-- `StartNetwork` -/
def new (acceptor threadCount : ℕ) : SocketMgr :=
  ⟨acceptor, List.replicate threadCount NetworkThread.new, 0⟩

/-- The operating system can give the descriptor away. -/
def IsFree (mgr : SocketMgr) (descriptor : ℕ) : Prop :=
  descriptor < 2 ^ 31 ∧ descriptor ≠ mgr.acceptor ∧
    ∀ t ∈ mgr.threads, ∀ sock ∈ t.live, sock.descriptor ≠ descriptor

instance (mgr : SocketMgr) (descriptor : ℕ) : Decidable (mgr.IsFree descriptor) :=
  inferInstanceAs (Decidable (_ ∧ _ ∧ _))

/-- The machine. -/
def next (mgr : SocketMgr) : Label → Option SocketMgr
  | .accept i descriptor =>
      if mgr.IsFree descriptor then
        mgr.threads[i]?.bind fun t =>
          (t.addSocket ⟨mgr.opened, descriptor⟩).map fun t =>
            { mgr with threads := mgr.threads.set i t, opened := mgr.opened + 1 }
      else none
  | .act i action =>
      mgr.threads[i]?.bind fun t =>
        (t.act action).map fun t => { mgr with threads := mgr.threads.set i t }

/-- `GetConnectionCount` of a thread. -/
def getConnectionCount (mgr : SocketMgr) (i : ℕ) : ℤ :=
  (mgr.threads[i]?.map fun t => t.connections.toInt).getD 0

/-- The loop of `SelectThreadWithMinConnections`. -/
def selectFrom (mgr : SocketMgr) (min i : ℕ) : ℕ :=
  if i < mgr.threads.length then
    if mgr.getConnectionCount i < mgr.getConnectionCount min then selectFrom mgr i (i + 1)
    else selectFrom mgr min (i + 1)
  else min
termination_by mgr.threads.length - i

def selectThreadWithMinConnections (mgr : SocketMgr) : ℕ := mgr.selectFrom 0 1

end SocketMgr

/-! ## What a step does -/

namespace NetworkThread
variable {t t' : NetworkThread} {sock : Connection}

/-- Only one of `AddSocket` and `AddNewSockets` has the lock. -/
def Locked (t : NetworkThread) : Prop := ∀ rest, t.updating = .addingNew rest → t.adding = none

/-- Sockets change their place. -/
structure Moves (t t' : NetworkThread) : Prop where
  connections : t'.connections = t.connections
  removed : t'.removed = t.removed
  accepted : t'.accepted = t.accepted
  live : t'.live.Perm t.live

/-- A socket is removed. -/
structure Drops (t : NetworkThread) (sock : Connection) (t' : NetworkThread) : Prop where
  connections : t'.connections = t.connections - 1
  removed : t'.removed = t.removed ++ [sock]
  accepted : t'.accepted = t.accepted
  live : t.live.Perm (sock :: t'.live)

theorem live_of_updating {connections : BitVec 32}
    {newSockets sockets accepted removed : List Connection} {adding : Option Connection}
    (updating : Updating) :
    live ⟨connections, newSockets, sockets, adding, updating, accepted, removed⟩ =
      match updating with
      | .idle => adding.toList ++ (newSockets ++ sockets)
      | .addingNew rest => adding.toList ++ (rest ++ sockets)
      | .removing kept rest => adding.toList ++ (newSockets ++ (kept ++ rest)) := by
  cases updating <;> rfl

/-- A socket that moves from the front of one list to the end of another. -/
theorem perm_move (a b c : List Connection) (sock : Connection) :
    (a ++ (b ++ sock :: c)).Perm (sock :: (a ++ (b ++ c))) := by
  rw [← List.append_assoc, ← List.append_assoc]
  exact List.perm_middle

/-- What a step can do: it moves a socket, or removes one. -/
theorem act_cases {action : Action} (hlock : t.Locked) (h : t.act action = some t') :
    (t.Moves t' ∨ ∃ sock, t.Drops sock t') ∧ t'.Locked := by
  obtain ⟨connections, newSockets, sockets, adding, updating, accepted, removed⟩ := t
  cases action with
  | pushBack =>
      cases adding with
      | none => cases h
      | some sock =>
          cases h
          refine ⟨.inl ⟨rfl, rfl, rfl, ?_⟩, fun _ _ => rfl⟩
          cases updating with
          | idle => simp [live_of_updating]
          | addingNew rest => cases hlock rest rfl
          | removing kept rest => simp [live_of_updating]
  | update =>
      cases adding with
      | some sock => cases h
      | none =>
          cases updating with
          | idle =>
              cases h
              exact ⟨.inl ⟨rfl, rfl, rfl, .refl _⟩, fun _ _ => rfl⟩
          | _ => cases h
  | addNew isOpen =>
      match updating, h with
      | .addingNew (sock :: rest), h =>
          cases isOpen with
          | true =>
              cases h
              refine ⟨.inl ⟨rfl, rfl, rfl, ?_⟩, fun _ _ => hlock _ rfl⟩
              simp only [live_of_updating]
              refine List.Perm.append_left _ ?_
              simpa using perm_move rest sockets [] sock
          | false =>
              cases h
              refine ⟨.inr ⟨sock, rfl, rfl, rfl, ?_⟩, fun _ _ => hlock _ rfl⟩
              simp [live_of_updating]
  | clear =>
      match updating, h with
      | .addingNew [], h =>
          cases h
          exact ⟨.inl ⟨rfl, rfl, rfl, .refl _⟩, by intro rest hrest; cases hrest⟩
  | test stays =>
      match updating, h with
      | .removing kept (sock :: rest), h =>
          cases stays with
          | true =>
              cases h
              refine ⟨.inl ⟨rfl, rfl, rfl, ?_⟩, by intro rest hrest; cases hrest⟩
              simp [live_of_updating]
          | false =>
              cases h
              refine ⟨.inr ⟨sock, rfl, rfl, rfl, ?_⟩, by intro rest hrest; cases hrest⟩
              simpa [live_of_updating] using
                perm_move (adding.toList ++ newSockets) kept rest sock
  | erase =>
      match updating, h with
      | .removing kept [], h =>
          cases h
          refine ⟨.inl ⟨rfl, rfl, rfl, ?_⟩, by intro rest hrest; cases hrest⟩
          simp [live_of_updating]

theorem addSocket_cases (h : t.addSocket sock = some t') :
    t'.connections = t.connections + 1 ∧ t'.removed = t.removed ∧
      t'.accepted = t.accepted ++ [sock] ∧ t'.live = sock :: t.live ∧ t'.Locked := by
  obtain ⟨connections, newSockets, sockets, adding, updating, accepted, removed⟩ := t
  cases adding with
  | some sock' => cases h
  | none =>
      cases updating with
      | addingNew rest => cases h
      | idle =>
          cases h
          exact ⟨rfl, rfl, rfl, rfl, by intro rest hrest; cases hrest⟩
      | removing kept rest =>
          cases h
          exact ⟨rfl, rfl, rfl, rfl, by intro rest hrest; cases hrest⟩

/-! ## The invariant -/

/-- The count, what became of the sockets, and the descriptors that they have. -/
structure Inv (acceptor opened : ℕ) (t : NetworkThread) : Prop where
  locked : t.Locked
  count : t.connections = BitVec.ofNat 32 t.live.length
  history : (t.live ++ t.removed).Perm t.accepted
  fresh : ∀ sock ∈ t.accepted, sock.id < opened
  accepted : t.accepted.Nodup
  descriptors : (t.live.map Connection.descriptor).Nodup
  isInt : ∀ sock ∈ t.live, sock.descriptor < 2 ^ 31 ∧ sock.descriptor ≠ acceptor

variable {acceptor opened : ℕ}

theorem inv_new : new.Inv acceptor opened where
  locked := by intro rest hrest; cases hrest
  count := rfl
  history := .refl _
  fresh := by simp [new]
  accepted := List.nodup_nil
  descriptors := List.nodup_nil
  isInt := by simp [live, new, waiting, held]

theorem Inv.mono (h : t.Inv acceptor opened) {opened' : ℕ} (hle : opened ≤ opened') :
    t.Inv acceptor opened' :=
  { h with fresh := fun sock hsock => Nat.lt_of_lt_of_le (h.fresh sock hsock) hle }

theorem Inv.moves (h : t.Inv acceptor opened) (hmoves : t.Moves t') (hlock : t'.Locked) :
    t'.Inv acceptor opened where
  locked := hlock
  count := by rw [hmoves.connections, h.count, hmoves.live.length_eq]
  history := by
    rw [hmoves.removed, hmoves.accepted]
    exact (hmoves.live.append_right _).trans h.history
  fresh := by
    rw [hmoves.accepted]
    exact h.fresh
  accepted := by
    rw [hmoves.accepted]
    exact h.accepted
  descriptors := (hmoves.live.map _).nodup_iff.mpr h.descriptors
  isInt := fun sock hsock => h.isInt sock (hmoves.live.mem_iff.mp hsock)

theorem Inv.drops (h : t.Inv acceptor opened) (hdrops : t.Drops sock t') (hlock : t'.Locked) :
    t'.Inv acceptor opened where
  locked := hlock
  count := by
    rw [hdrops.connections, h.count, hdrops.live.length_eq, List.length_cons, BitVec.ofNat_add]
    exact BitVec.add_sub_cancel _ _
  history := by
    rw [hdrops.removed, hdrops.accepted]
    refine List.Perm.trans ?_ h.history
    refine List.Perm.trans ?_ (hdrops.live.symm.append_right _)
    simpa using perm_move t'.live t.removed [] sock
  fresh := by
    rw [hdrops.accepted]
    exact h.fresh
  accepted := by
    rw [hdrops.accepted]
    exact h.accepted
  descriptors := by
    have hnodup := (hdrops.live.map _).nodup_iff.mp h.descriptors
    exact (List.nodup_cons.mp hnodup).2
  isInt := fun s hs => h.isInt s (hdrops.live.mem_iff.mpr (List.mem_cons_of_mem _ hs))

theorem Inv.addSocket (h : t.Inv acceptor opened) {descriptor : ℕ}
    (hadd : t.addSocket ⟨opened, descriptor⟩ = some t') (hint : descriptor < 2 ^ 31)
    (hacceptor : descriptor ≠ acceptor) (hfree : ∀ sock ∈ t.live, sock.descriptor ≠ descriptor) :
    t'.Inv acceptor (opened + 1) := by
  obtain ⟨hconnections, hremoved, haccepted, hlive, hlock⟩ := addSocket_cases hadd
  refine ⟨hlock, ?_, ?_, ?_, ?_, ?_, ?_⟩
  · rw [hconnections, h.count, hlive, List.length_cons, BitVec.ofNat_add]
    rfl
  · rw [hlive, hremoved, haccepted]
    exact (h.history.cons _).trans (List.perm_append_singleton _ _).symm
  · rw [haccepted]
    intro sock hsock
    rcases List.mem_append.mp hsock with hsock | hsock
    · exact Nat.lt_succ_of_lt (h.fresh sock hsock)
    · rw [List.mem_singleton.mp hsock]
      exact Nat.lt_succ_self _
  · rw [haccepted, List.nodup_append_comm, List.singleton_append, List.nodup_cons]
    refine ⟨?_, h.accepted⟩
    intro hmem
    exact Nat.lt_irrefl _ (h.fresh _ hmem)
  · rw [hlive, List.map_cons, List.nodup_cons]
    refine ⟨?_, h.descriptors⟩
    intro hmem
    obtain ⟨sock, hsock, heq⟩ := List.mem_map.mp hmem
    exact hfree sock hsock heq
  · rw [hlive, List.forall_mem_cons]
    exact ⟨⟨hint, hacceptor⟩, h.isInt⟩

theorem Inv.act {action : Action} (h : t.Inv acceptor opened) (hact : t.act action = some t') :
    t'.Inv acceptor opened := by
  obtain ⟨hmoves | ⟨sock, hdrops⟩, hlock⟩ := act_cases h.locked hact
  · exact h.moves hmoves hlock
  · exact h.drops hdrops hlock

/-- There are fewer sockets than descriptors. -/
theorem Inv.length_lt (h : t.Inv acceptor opened) (hacceptor : acceptor < 2 ^ 31) :
    t.live.length < 2 ^ 31 := by
  have hnodup : (acceptor :: t.live.map Connection.descriptor).Nodup := by
    rw [List.nodup_cons]
    refine ⟨?_, h.descriptors⟩
    intro hmem
    obtain ⟨sock, hsock, heq⟩ := List.mem_map.mp hmem
    exact (h.isInt sock hsock).2 heq
  have hsubset : acceptor :: t.live.map Connection.descriptor ⊆ List.range (2 ^ 31) := by
    intro d hd
    rw [List.mem_range]
    rcases List.mem_cons.mp hd with rfl | hd
    · exact hacceptor
    · obtain ⟨sock, hsock, rfl⟩ := List.mem_map.mp hd
      exact (h.isInt sock hsock).1
  have hle := (List.subperm_of_subset hnodup hsubset).length_le
  rw [List.length_cons, List.length_map, List.length_range] at hle
  exact hle

theorem Inv.toInt_connections (h : t.Inv acceptor opened) (hacceptor : acceptor < 2 ^ 31) :
    t.connections.toInt = t.live.length := by
  have hlt := h.length_lt hacceptor
  have htoNat : (BitVec.ofNat 32 t.live.length).toNat = t.live.length := by
    rw [BitVec.toNat_ofNat, Nat.mod_eq_of_lt (by omega)]
  rw [h.count, BitVec.toInt_eq_toNat_of_lt (by omega), htoNat]

/-- An accepted socket is in one place when no call is in progress. -/
theorem Inv.count_add (h : t.Inv acceptor opened) (hrest : t.AtRest) (hsock : sock ∈ t.accepted) :
    t.newSockets.count sock + t.sockets.count sock + t.removed.count sock = 1 := by
  have hcount := h.history.count_eq sock
  rw [live_of_atRest hrest, List.count_append, List.count_append,
    List.count_eq_one_of_mem h.accepted hsock] at hcount
  exact hcount

end NetworkThread

namespace SocketMgr
variable {mgr mgr' : SocketMgr}

def Inv (mgr : SocketMgr) : Prop := ∀ t ∈ mgr.threads, t.Inv mgr.acceptor mgr.opened

theorem inv_new (acceptor threadCount : ℕ) : (new acceptor threadCount).Inv := by
  intro t ht
  rw [List.eq_of_mem_replicate ht]
  exact NetworkThread.inv_new

theorem inv_next {l : Label} (h : mgr.Inv) (hnext : mgr.next l = some mgr') : mgr'.Inv := by
  cases l with
  | accept i descriptor =>
      rw [next, Option.ite_none_right_eq_some, Option.bind_eq_some_iff] at hnext
      obtain ⟨⟨hint, hacceptor, hfree⟩, t, ht, hmap⟩ := hnext
      obtain ⟨t', hadd, rfl⟩ := Option.map_eq_some_iff.mp hmap
      have hmem := List.mem_of_getElem? ht
      intro u hu
      rcases List.mem_or_eq_of_mem_set hu with hu | rfl
      · exact (h u hu).mono (Nat.le_succ _)
      · exact (h t hmem).addSocket hadd hint hacceptor (hfree t hmem)
  | act i action =>
      rw [next, Option.bind_eq_some_iff] at hnext
      obtain ⟨t, ht, hmap⟩ := hnext
      obtain ⟨t', hact, rfl⟩ := Option.map_eq_some_iff.mp hmap
      intro u hu
      rcases List.mem_or_eq_of_mem_set hu with hu | rfl
      · exact h u hu
      · exact (h t (List.mem_of_getElem? ht)).act hact

theorem next_frame {l : Label} (hnext : mgr.next l = some mgr') :
    mgr'.acceptor = mgr.acceptor ∧ mgr'.threads.length = mgr.threads.length := by
  cases l with
  | accept i descriptor =>
      rw [next, Option.ite_none_right_eq_some, Option.bind_eq_some_iff] at hnext
      obtain ⟨-, t, -, hmap⟩ := hnext
      obtain ⟨t', -, rfl⟩ := Option.map_eq_some_iff.mp hmap
      exact ⟨rfl, List.length_set⟩
  | act i action =>
      rw [next, Option.bind_eq_some_iff] at hnext
      obtain ⟨t, -, hmap⟩ := hnext
      obtain ⟨t', -, rfl⟩ := Option.map_eq_some_iff.mp hmap
      exact ⟨rfl, List.length_set⟩

/-! ## The thread for the next socket -/

/-- The loop keeps the least count so far. -/
theorem selectFrom_spec {min i : ℕ} (hmin : min < mgr.threads.length)
    (hle : ∀ j < i, mgr.getConnectionCount min ≤ mgr.getConnectionCount j) :
    mgr.selectFrom min i < mgr.threads.length ∧
      ∀ j < mgr.threads.length,
        mgr.getConnectionCount (mgr.selectFrom min i) ≤ mgr.getConnectionCount j := by
  fun_induction selectFrom mgr min i with
  | case1 min i hi hlt ih =>
      refine ih hi ?_
      intro j hj
      rcases Nat.lt_succ_iff_lt_or_eq.mp hj with hj | rfl
      · exact Int.le_trans (Int.le_of_lt hlt) (hle j hj)
      · exact Int.le_refl _
  | case2 min i hi hlt ih =>
      refine ih hmin ?_
      intro j hj
      rcases Nat.lt_succ_iff_lt_or_eq.mp hj with hj | rfl
      · exact hle j hj
      · exact Int.not_lt.mp hlt
  | case3 min i hi => exact ⟨hmin, fun j hj => hle j (by omega)⟩

theorem select_spec (mgr : SocketMgr) (hpos : 0 < mgr.threads.length) :
    mgr.selectThreadWithMinConnections < mgr.threads.length ∧
      ∀ j < mgr.threads.length,
        mgr.getConnectionCount mgr.selectThreadWithMinConnections ≤ mgr.getConnectionCount j := by
  refine selectFrom_spec hpos ?_
  intro j hj
  obtain rfl := Nat.lt_one_iff.mp hj
  exact Int.le_refl _

/-! ## The result -/

/-- **Connection counts are exact**, for every interleaving: when a thread has no call in progress,
it counts the sockets in its two containers, and each socket that it was given is in one of them or
was removed once.  When no thread has one, a thread with the fewest sockets is selected. -/
theorem connections_exact {acceptor threadCount : ℕ} {ls : List Label}
    (hacceptor : acceptor < 2 ^ 31) (hpos : 0 < threadCount)
    (hrun : Machine.run next (new acceptor threadCount) ls = some mgr) :
    (∀ t ∈ mgr.threads, t.AtRest →
        t.connections.toInt = (t.newSockets.length + t.sockets.length : ℕ) ∧
        ∀ sock ∈ t.accepted,
          t.newSockets.count sock + t.sockets.count sock + t.removed.count sock = 1) ∧
      ((∀ t ∈ mgr.threads, t.AtRest) →
        ∃ t, mgr.threads[mgr.selectThreadWithMinConnections]? = some t ∧
          ∀ u ∈ mgr.threads, t.newSockets.length + t.sockets.length ≤
            u.newSockets.length + u.sockets.length) := by
  obtain ⟨hinv, hframe, hlength⟩ := Machine.run_induction
    (P := fun m : SocketMgr => m.Inv ∧ m.acceptor = acceptor ∧ m.threads.length = threadCount)
    (fun s l t h hnext => ⟨inv_next h.1 hnext, (next_frame hnext).1.trans h.2.1,
      (next_frame hnext).2.trans h.2.2⟩)
    ⟨inv_new acceptor threadCount, rfl, List.length_replicate⟩ hrun
  rw [← hframe] at hacceptor
  have hcount : ∀ t ∈ mgr.threads, t.AtRest →
      t.connections.toInt = (t.newSockets.length + t.sockets.length : ℕ) := by
    intro t ht hrest
    rw [(hinv t ht).toInt_connections hacceptor, NetworkThread.live_of_atRest hrest,
      List.length_append]
  refine ⟨fun t ht hrest => ⟨hcount t ht hrest, fun sock => (hinv t ht).count_add hrest⟩, ?_⟩
  intro hrest
  obtain ⟨hlt, hle⟩ := select_spec mgr (by omega)
  refine ⟨_, List.getElem?_eq_getElem hlt, ?_⟩
  intro u hu
  obtain ⟨j, hj, rfl⟩ := List.getElem_of_mem hu
  have hj' := hle j hj
  rw [getConnectionCount, getConnectionCount, List.getElem?_eq_getElem hlt,
    List.getElem?_eq_getElem hj, Option.map_some, Option.map_some, Option.getD_some,
    Option.getD_some, hcount _ (List.getElem_mem hlt) (hrest _ (List.getElem_mem hlt)),
    hcount _ (List.getElem_mem hj) (hrest _ (List.getElem_mem hj))] at hj'
  exact Int.ofNat_le.mp hj'

/-- Of three sockets one is closed before it is moved, and one is removed while the third is added
to the other thread; the descriptor of the first is used again. -/
def busyRun : List Label :=
  [.accept 0 4, .act 0 .pushBack, .accept 0 5, .act 0 .pushBack, .act 0 .update,
    .act 0 (.addNew false), .act 0 (.addNew true), .act 0 .clear, .accept 1 4, .act 0 (.test false),
    .act 1 .pushBack, .act 0 .erase, .accept 1 6, .act 1 .pushBack]

theorem connections_exact_busyRun :
    ∃ mgr, Machine.run next (new 3 2) busyRun = some mgr ∧
      mgr.threads.map (fun t => t.connections.toInt) = [0, 2] ∧
      ∃ t, mgr.threads[mgr.selectThreadWithMinConnections]? = some t ∧
        ∀ u ∈ mgr.threads, t.newSockets.length + t.sockets.length ≤
          u.newSockets.length + u.sockets.length := by
  have hrun : Machine.run next (new 3 2) busyRun = some _ := rfl
  exact ⟨_, hrun, by decide, (connections_exact (by decide) (by decide) hrun).2 (by decide)⟩

end SocketMgr

end WarheadDiscord
