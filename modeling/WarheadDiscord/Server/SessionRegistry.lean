import Mathlib.Data.List.Induction
import Mathlib.Data.List.Nodup
import WarheadDiscord.Lib.ObjectHeap

/-!
# The sessions and who deletes them

A `DiscordSession` is created by the last callback of a login, lives in `_sessions` under its
account, and is deleted by the `Discord`: when the account logs in again, or by `UpdateSessions`
once its socket is closed.  The socket keeps a plain pointer to it, which `OnClose` clears; the
network thread follows the pointer for every packet.  The two ends know of each other through
`_closed` alone.

Three kinds of threads take part.  The network thread of a socket reads, and it may close the
socket; between the exchange of `_closed` and `OnClose` everything else can happen.  The thread
of a bot callback, one for each login, creates the session and adds it.  The main thread updates
and kicks, and bans come from the threads of the commands.

The calls of the `Discord` that use `_sessions` are taken statement by statement, so that the
network threads come in between.  But `_sessions` has no lock, and nothing keeps two of these calls
apart: a call that begins while another one is under way counts as a data race (`Fault.dataRace`),
and what the program does then is undefined.  Two kicks, which only read the map, are no exception.

`_kicked` is never read and is left out, as are `GetActiveSessionCount`, which reads the size of the
map, and the destructor of the `Discord` at the end of the program.  The sessions from the address
that `BanIp` compares with are given with the call.

## Main definitions

* `Registry.Socket`, `Registry.Session`, `Registry.State` — the two ends and the map.
* `DiscordCall` — a call of the `Discord` that is under way.
* `addSession`, `updateSessions`, `kickAll`, `kickSession`, `banIp` — the statements of these calls.
* `readDataHandler` — what the packets do with the pointer.
* `Call`, `call`, `run` — the steps, and a sequence of them.
* `Inv` — the invariant of the objects.
-/

namespace WarheadDiscord.Registry

/-- Who may go on with the reading of a socket. -/
inductive Reader
  /-- `CheckIpCallback` -/
  | checkIp
  /-- The completion of `async_read_some`. -/
  | pending
  /-- The loop of `ReadHandler`. -/
  | handling
  /-- The callbacks of a login. -/
  | waiting
  /-- The last callback, in front of `emplace` in `AddSession`. -/
  | adding (session : ℕ)
  /-- The last callback, behind it. -/
  | answering
  /-- The last callback, with `AsyncRead` as the next statement. -/
  | resuming
  | nobody
  deriving DecidableEq, Repr

structure Socket where
  closed : Bool := false
  closing : Bool := false
  authed : Bool := false
  /-- `_discordSession` -/
  session : Option ℕ := none
  reader : Reader := .checkIp
  /-- The network thread is in `CloseSocket`, in front of `OnClose`. -/
  inClose : Bool := false
  deriving DecidableEq, Repr

namespace Socket

def isOpen (k : Socket) : Bool := !k.closed && !k.closing

/-- `CloseSocket`, from another thread than the one that reads. -/
def closeSocket (k : Socket) : Socket :=
  if k.closed then k else { k with closed := true, session := none }

/-- `CloseSocket` up to `OnClose`, from the network thread; `ReadHandler` returns after it. -/
def beginClose (k : Socket) : Socket :=
  let reader := if k.reader = .handling then .nobody else k.reader
  if k.closed then { k with reader := reader }
  else { k with closed := true, reader := reader, inClose := true }

def onClose (k : Socket) : Socket := { k with session := none, inClose := false }

/-- `DelayedCloseSocket`; the callback that calls it does not read any more. -/
def delayedCloseSocket (k : Socket) : Socket := { k with closing := true, reader := .nobody }

/-- The first statements of the last callback. -/
def login (k : Socket) (session : ℕ) : Socket :=
  { k with authed := true, session := some session, reader := .adding session }

def asyncRead (k : Socket) : Socket :=
  { k with reader := if k.isOpen then .pending else .nobody }

end Socket

structure Session where
  accountId : UInt32
  socket : Option ℕ
  deriving DecidableEq, Repr

/-- The next statement of `AddSession`. -/
inductive AddStatement
  /-- `KickSession` -/
  | kick
  /-- `delete old->second` and `erase` -/
  | deleteOld
  /-- `emplace` and `UpdateMaxSessionCounters` -/
  | emplace
  | sendAuthResponse
  deriving DecidableEq, Repr

/-- A call that uses `_sessions`, with what is left of it. -/
inductive DiscordCall
  | addSession (k p : ℕ) (next : AddStatement)
  /-- `KickSession`, or `BanAccount` -/
  | kickSession (id : UInt32)
  | updateSessions (entries : List (UInt32 × ℕ))
  | kickAll (sessions : List ℕ)
  /-- The loop of `BanIp`, with the sessions from the address. -/
  | banIp (fromIp sessions : List ℕ)
  deriving DecidableEq, Repr

structure State where
  sockets : List Socket := []
  heap : ObjectHeap Session := []
  /-- `_sessions` in the order of an iteration. -/
  sessions : List (UInt32 × ℕ) := []
  maxActiveSessionCount : ℕ := 0
  /-- The call that is under way. -/
  inCall : Option DiscordCall := none
  /-- The history of `KickAll`: the sessions it took out of the map. -/
  cleared : List ℕ := []
  deriving DecidableEq, Repr

/-! ## The calls of the `Discord` -/

def setSocket (s : State) (k : ℕ) (socket : Socket) : State :=
  { s with sockets := s.sockets.set k socket }

/-- `new DiscordSession` -/
def newSession (s : State) (k : ℕ) (socket : Socket) (accountId : UInt32) : State :=
  { setSocket s k (socket.login s.heap.length) with
    heap := s.heap.alloc ⟨accountId, some k⟩ }

def setReader (s : State) (k : ℕ) (reader : Reader) : State :=
  match s.sockets[k]? with
  | some socket => setSocket s k { socket with reader := reader }
  | none => s

def closeSocket (s : State) (k : ℕ) : State :=
  match s.sockets[k]? with
  | some socket => setSocket s k socket.closeSocket
  | none => s

def findSession (s : State) (id : UInt32) : Option ℕ := s.sessions.lookup id

/-- `DiscordSession::KickSession` -/
def kick (s : State) (p : ℕ) : Except Fault State := do
  let session ← s.heap.deref p
  match session.socket with
  | some k => return closeSocket s k
  | none => return s

/-- `Discord::KickSession`, and the two lines of `BanAccount` about the session. -/
def kickSession (s : State) (id : UInt32) : Except Fault State :=
  match findSession s id with
  | some p => kick s p
  | none => .ok s

/-- `delete session`, with the destructor. -/
def deleteSession (s : State) (p : ℕ) : Except Fault State := do
  let session ← s.heap.deref p
  let s := match session.socket with
    | some k => closeSocket s k
    | none => s
  let heap ← s.heap.delete p
  return { s with heap := heap }

def erase (s : State) (id : UInt32) : State :=
  { s with sessions := s.sessions.filter fun e => e.1 ≠ id }

/-- `emplace` adds nothing under a key that is there. -/
def emplace (s : State) (id : UInt32) (p : ℕ) : State :=
  if s.sessions.any fun e => e.1 = id then s else { s with sessions := s.sessions ++ [(id, p)] }

def updateMaxSessionCounters (s : State) : State :=
  { s with maxActiveSessionCount := max s.maxActiveSessionCount s.sessions.length }

/-- The session that is found under the account in `AddSession`. -/
def deleteOld (s : State) (id : UInt32) : Except Fault State :=
  match findSession s id with
  | some old => do
      let s ← deleteSession s old
      return erase s id
  | none => .ok s

/-- `AddSession`, one statement of it; `SendAuthResponse` follows the pointer last. -/
def addSession (s : State) (k p : ℕ) : AddStatement → Except Fault State
  | .kick => do
      let session ← s.heap.deref p
      let s ← kickSession s session.accountId
      return { s with inCall := some (.addSession k p .deleteOld) }
  | .deleteOld => do
      let session ← s.heap.deref p
      let s ← deleteOld s session.accountId
      return { s with inCall := some (.addSession k p .emplace) }
  | .emplace => do
      let session ← s.heap.deref p
      let s := updateMaxSessionCounters (emplace s session.accountId p)
      return { setReader s k .answering with inCall := some (.addSession k p .sendAuthResponse) }
  | .sendAuthResponse => do
      let _ ← s.heap.deref p
      return { setReader s k .resuming with inCall := none }

/-- The end of `DiscordSession::Update`: a socket that is not open is given up. -/
def updateSession (s : State) (p : ℕ) : Except Fault (Bool × State) := do
  let session ← s.heap.deref p
  match session.socket with
  | none => return (false, s)
  | some k =>
      match s.sockets[k]? with
      | some socket =>
          if socket.isOpen then return (true, s)
          else
            let session := { session with socket := none }
            return (false, { s with heap := s.heap.set p (some session) })
      | none => return (true, s)

/-- The body of the loop of `UpdateSessions`. -/
def updateEntry (s : State) (e : UInt32 × ℕ) : Except Fault State := do
  let (keep, s) ← updateSession s e.2
  if keep then return s else deleteSession (erase s e.1) e.2

/-- `UpdateSessions`, one turn of the loop.  The iterator is advanced first, so that the loop
visits the entries that were there. -/
def updateSessions (s : State) : List (UInt32 × ℕ) → Except Fault State
  | [] => .ok { s with inCall := none }
  | e :: entries => do
      let s ← updateEntry s e
      return { s with inCall := some (.updateSessions entries) }

/-- `KickAll`, one turn of the loop, or `clear`. -/
def kickAll (s : State) : List ℕ → Except Fault State
  | [] =>
      .ok { s with
        sessions := []
        cleared := s.cleared ++ s.sessions.map Prod.snd
        inCall := none }
  | p :: ps => do
      let s ← kick s p
      return { s with inCall := some (.kickAll ps) }

/-- `BanIp`, one turn of the loop, which reads the address of every session. -/
def banIp (s : State) (fromIp : List ℕ) : List ℕ → Except Fault State
  | [] => .ok { s with inCall := none }
  | p :: ps => do
      let _ ← s.heap.deref p
      let s ← if p ∈ fromIp then kick s p else pure s
      return { s with inCall := some (.banIp fromIp ps) }

/-- The next statement of the call that is under way. -/
def discordStep (s : State) : Except Fault State :=
  match s.inCall with
  | none => .ok s
  | some (.addSession k p next) => addSession s k p next
  | some (.kickSession id) => do
      let s ← kickSession s id
      return { s with inCall := none }
  | some (.updateSessions entries) => updateSessions s entries
  | some (.kickAll sessions) => kickAll s sessions
  | some (.banIp fromIp sessions) => banIp s fromIp sessions

/-- The callback of the socket is in `AddSession`. -/
def isAdding (s : State) (k : ℕ) : Bool :=
  match s.inCall with
  | some (.addSession k' _ _) => k' = k
  | _ => false

/-! ## The packets -/

/-- A packet, with what decides about the pointer. -/
inductive Packet
  | ping (malformed overSpeed : Bool)
  /-- `tryLock` is false while another thread is in `OnClose`. -/
  | authSession (malformed tryLock : Bool)
  | other (hasHandler : Bool)
  deriving DecidableEq, Repr

/-- Follow `_discordSession` without a test. -/
def follow (s : State) (socket : Socket) : Except Fault Unit :=
  match socket.session with
  | some p => do
      let _ ← s.heap.deref p
      return ()
  | none => .error .nullPointer

/-- `ReadDataHandler`, and what `ReadHandler` does with its result. -/
def readDataHandler (s : State) (socket : Socket) : Packet → Except Fault Socket
  | .ping malformed overSpeed =>
      if malformed then return socket.beginClose
      else if socket.session.isNone then return socket.beginClose
      else do
        follow s socket
        return if overSpeed then socket.beginClose else socket
  | .authSession malformed tryLock =>
      if socket.authed then do
        if tryLock then follow s socket
        return socket.beginClose
      else if malformed then return socket.beginClose
      else return { socket with reader := .waiting }
  | .other hasHandler =>
      if socket.session.isNone then return socket.beginClose
      else do
        follow s socket
        return if hasHandler then socket else socket.beginClose

/-! ## The steps -/

inductive Call
  /-- A connection is accepted. -/
  | accept
  | checkIpCallback (k : ℕ) (banned : Bool)
  /-- A read completes, and `ReadHandler` is called. -/
  | readHandler (k : ℕ)
  | packet (k : ℕ) (p : Packet)
  /-- The loop of `ReadHandler` is done. -/
  | readDone (k : ℕ)
  /-- The network thread calls `CloseSocket`: a read or a write fails, a header is malformed, or
  the last packet of a closing socket is written. -/
  | closeSocket (k : ℕ)
  | onClose (k : ℕ)
  /-- A login is rejected. -/
  | delayedCloseSocket (k : ℕ)
  /-- `_authed = true` and `new DiscordSession`. -/
  | newSession (k : ℕ) (accountId : UInt32)
  /-- `AddSession` begins. -/
  | addSession (k : ℕ)
  | asyncRead (k : ℕ)
  /-- `KickSession` or `BanAccount` begins. -/
  | kickSession (id : UInt32)
  /-- `UpdateSessions` begins. -/
  | updateSessions
  /-- `KickAll` begins. -/
  | kickAll
  /-- `BanIp` comes to its loop. -/
  | banIp (fromIp : List ℕ)
  /-- The call of the `Discord` that is under way goes on. -/
  | discordStep
  /-- The map changes its order, between two calls. -/
  | rehash (sessions : List (UInt32 × ℕ))
  deriving DecidableEq, Repr

/-- A step of the network thread, which is not in `CloseSocket`. -/
def networkStep (s : State) (k : ℕ) (reader : Reader → Bool)
    (f : Socket → Except Fault Socket) : Except Fault State :=
  match s.sockets[k]? with
  | some socket =>
      if reader socket.reader && !socket.inClose then do
        let socket ← f socket
        return setSocket s k socket
      else .ok s
  | none => .ok s

/-- A step of a callback of a login, or of `OnClose`. -/
def callbackStep (s : State) (k : ℕ) (f : Socket → State) : Except Fault State :=
  match s.sockets[k]? with
  | some socket => .ok (f socket)
  | none => .ok s

/-- The call of the `Discord` that begins with a step. -/
def begins (s : State) : Call → Option DiscordCall
  | .addSession k =>
      match (s.sockets[k]?).map Socket.reader with
      | some (.adding p) => if isAdding s k then none else some (.addSession k p .kick)
      | _ => none
  | .kickSession id => some (.kickSession id)
  | .updateSessions => some (.updateSessions s.sessions)
  | .kickAll => some (.kickAll (s.sessions.map Prod.snd))
  | .banIp fromIp => some (.banIp fromIp (s.sessions.map Prod.snd))
  | _ => none

/-- Nothing keeps a call from beginning while another one is under way. -/
def beginCall (s : State) (c : Call) : Except Fault State :=
  match begins s c with
  | none => .ok s
  | some d => if s.inCall.isSome then .error .dataRace else .ok { s with inCall := some d }

/-- One step; a call that is not possible does nothing. -/
def call (s : State) (c : Call) : Except Fault State :=
  match c with
  | .accept => .ok { s with sockets := s.sockets ++ [{}] }
  | .checkIpCallback k banned =>
      networkStep s k (· = .checkIp) fun socket =>
        return if banned then socket.delayedCloseSocket else socket.asyncRead
  | .readHandler k =>
      networkStep s k (· = .pending) fun socket =>
        return { socket with reader := if socket.isOpen then .handling else .nobody }
  | .packet k p => networkStep s k (· = .handling) fun socket => readDataHandler s socket p
  | .readDone k => networkStep s k (· = .handling) fun socket => return socket.asyncRead
  | .closeSocket k =>
      networkStep s k (fun _ => true) fun socket => return socket.beginClose
  | .onClose k =>
      callbackStep s k fun socket =>
        if socket.inClose then setSocket s k socket.onClose else s
  | .delayedCloseSocket k =>
      callbackStep s k fun socket =>
        if socket.reader = .waiting then setSocket s k socket.delayedCloseSocket else s
  | .newSession k accountId =>
      callbackStep s k fun socket =>
        if socket.reader = .waiting then newSession s k socket accountId else s
  | .asyncRead k =>
      callbackStep s k fun socket =>
        if socket.reader = .resuming then setSocket s k socket.asyncRead else s
  | .addSession _ | .kickSession _ | .updateSessions | .kickAll | .banIp _ => beginCall s c
  | .discordStep => discordStep s
  | .rehash sessions =>
      .ok (if s.inCall.isNone && sessions.isPerm s.sessions then { s with sessions := sessions }
        else s)

def run (calls : List Call) : Except Fault State := calls.foldlM call {}

/-! ## The invariant -/

/-- What holds of one socket. -/
structure SocketOk (h : ObjectHeap Session) (k : ℕ) (socket : Socket) : Prop where
  /-- The pointer of a socket that is not closed is to its session. -/
  live : ∀ p, socket.session = some p → socket.closed = false → ∃ id, h.Live p ⟨id, some k⟩
  /-- A socket that is closed while its packets are handled has been through `OnClose`. -/
  handling : socket.reader = .handling → socket.closed = true → socket.session = none
  authed : socket.authed = true → socket.closed = false → socket.session ≠ none
  closing : socket.closing = true → socket.reader = .nobody ∧ socket.authed = false
  /-- There is one login to a socket. -/
  login : socket.reader = .checkIp ∨ socket.reader = .waiting → socket.authed = false
  adding : ∀ p, socket.reader = .adding p → ∃ id, h.Live p ⟨id, some k⟩
  inClose : socket.inClose = true → socket.closed = true ∧ socket.reader ≠ .handling

structure Inv (s : State) : Prop where
  sockets : ∀ (k : ℕ) (socket : Socket), s.sockets[k]? = some socket → SocketOk s.heap k socket
  /-- A session has a socket, which is authed. -/
  owner : ∀ p a, s.heap.Live p a →
    ∃ (k : ℕ) (socket : Socket),
      a.socket = some k ∧ s.sockets[k]? = some socket ∧ socket.authed = true
  keys : (s.sessions.map Prod.fst).Nodup
  registered : ∀ e ∈ s.sessions, ∃ a, s.heap.Live e.2 a ∧ a.accountId = e.1
  /-- A session that is still to be added is not in the map. -/
  adding : ∀ (k : ℕ) (socket : Socket) (p : ℕ), s.sockets[k]? = some socket →
    socket.reader = .adding p → ∀ id, (id, p) ∉ s.sessions
  /-- No session is forgotten, but by `KickAll`. -/
  kept : ∀ p a, s.heap.Live p a → p ∈ s.sessions.map Prod.snd ∨
    (∃ (k : ℕ) (socket : Socket), s.sockets[k]? = some socket ∧ socket.reader = .adding p) ∨
      p ∈ s.cleared

section SocketOk
variable {h : ObjectHeap Session} {k : ℕ} {socket : Socket}

theorem SocketOk.closeSocket (ok : SocketOk h k socket) : SocketOk h k socket.closeSocket := by
  unfold Socket.closeSocket
  split
  · exact ok
  · constructor <;> grind [SocketOk]

theorem SocketOk.beginClose (ok : SocketOk h k socket) : SocketOk h k socket.beginClose := by
  unfold Socket.beginClose
  split <;> constructor <;> grind [SocketOk]

theorem SocketOk.onClose (ok : SocketOk h k socket) (hin : socket.inClose = true) :
    SocketOk h k socket.onClose := by
  unfold Socket.onClose
  constructor <;> grind [SocketOk]

theorem SocketOk.asyncRead (ok : SocketOk h k socket) : SocketOk h k socket.asyncRead := by
  unfold Socket.asyncRead Socket.isOpen
  constructor <;> grind [SocketOk]

theorem SocketOk.alloc (ok : SocketOk h k socket) (a : Session) :
    SocketOk (h.alloc a) k socket := by
  refine ⟨?_, ok.handling, ok.authed, ok.closing, ok.login, ?_, ok.inClose⟩
  · intro p hp hopen
    obtain ⟨id, hlive⟩ := ok.live p hp hopen
    exact ⟨id, hlive.alloc a⟩
  · intro p hp
    obtain ⟨id, hlive⟩ := ok.adding p hp
    exact ⟨id, hlive.alloc a⟩

end SocketOk

variable {s t u : State} {k p : ℕ} {socket : Socket} {a : Session} {id : UInt32}

theorem getElem?_setSocket (hk : s.sockets[k]? = some socket) (socket' : Socket) (j : ℕ) :
    (setSocket s k socket').sockets[j]? = if k = j then some socket' else s.sockets[j]? := by
  have hlt : k < s.sockets.length := (List.getElem?_eq_some_iff.mp hk).1
  rw [setSocket, List.getElem?_set]
  split <;> simp_all

/-- A socket changes, and what the rest of the state looks at in it does not. -/
theorem inv_setSocket (h : Inv s) (hk : s.sockets[k]? = some socket) {socket' : Socket}
    (hok : SocketOk s.heap k socket') (hauthed : socket.authed = true → socket'.authed = true)
    (hreader : ∀ p, socket'.reader = .adding p ↔ socket.reader = .adding p) :
    Inv (setSocket s k socket') := by
  have hget := getElem?_setSocket hk socket'
  refine ⟨?_, ?_, h.keys, h.registered, ?_, ?_⟩
  · intro j socket₁ hj
    rw [hget] at hj
    split at hj
    · rename_i heq
      cases hj
      exact heq ▸ hok
    · exact h.sockets j socket₁ hj
  · intro p a hp
    obtain ⟨j, socket₁, ha, hj, hauth⟩ := h.owner p a hp
    by_cases heq : k = j
    · subst heq
      rw [hk] at hj
      cases hj
      exact ⟨k, socket', ha, by simp [hget], hauthed hauth⟩
    · exact ⟨j, socket₁, ha, by simp [hget, heq, hj], hauth⟩
  · intro j socket₁ p hj hadding
    rw [hget] at hj
    split at hj
    · cases hj
      exact h.adding k socket p hk ((hreader p).mp hadding)
    · exact h.adding j socket₁ p hj hadding
  · intro p a hp
    rcases h.kept p a hp with hreg | ⟨j, socket₁, hj, hadding⟩ | hcleared
    · exact .inl hreg
    · refine .inr (.inl ?_)
      by_cases heq : k = j
      · subst heq
        rw [hk] at hj
        cases hj
        exact ⟨k, socket', by simp [hget], (hreader p).mpr hadding⟩
      · exact ⟨j, socket₁, by simp [hget, heq, hj], hadding⟩
    · exact .inr (.inr hcleared)

theorem Inv.inCall (h : Inv s) (c : Option DiscordCall) : Inv { s with inCall := c } :=
  ⟨h.sockets, h.owner, h.keys, h.registered, h.adding, h.kept⟩

/-! ## Kicking -/

/-- Sockets were closed, and nothing else happened. -/
structure Closes (s t : State) : Prop where
  heap : t.heap = s.heap
  sessions : t.sessions = s.sessions
  count : t.maxActiveSessionCount = s.maxActiveSessionCount
  cleared : t.cleared = s.cleared
  sockets : ∀ (k : ℕ) (socket : Socket), s.sockets[k]? = some socket → ∃ socket' : Socket,
    t.sockets[k]? = some socket' ∧ socket'.reader = socket.reader

theorem Closes.refl (s : State) : Closes s s :=
  ⟨rfl, rfl, rfl, rfl, fun _ socket hk => ⟨socket, hk, rfl⟩⟩

@[simp] theorem Socket.closed_closeSocket (socket : Socket) :
    socket.closeSocket.closed = true := by
  unfold Socket.closeSocket
  split
  · assumption
  · rfl

@[simp] theorem Socket.reader_closeSocket (socket : Socket) :
    socket.closeSocket.reader = socket.reader := by
  unfold Socket.closeSocket
  split <;> rfl

@[simp] theorem Socket.authed_closeSocket (socket : Socket) :
    socket.closeSocket.authed = socket.authed := by
  unfold Socket.closeSocket
  split <;> rfl

theorem inv_closeSocket (h : Inv s) (hk : s.sockets[k]? = some socket) :
    Inv (closeSocket s k) ∧ Closes s (closeSocket s k) ∧
      (closeSocket s k).sockets[k]? = some socket.closeSocket := by
  rw [closeSocket, hk]
  refine ⟨inv_setSocket h hk (h.sockets k socket hk).closeSocket (by simp) (by simp),
    ⟨rfl, rfl, rfl, rfl, ?_⟩, by simp [getElem?_setSocket hk]⟩
  intro j socket₁ hj
  rw [getElem?_setSocket hk]
  split
  · rename_i heq
    subst heq
    rw [hk] at hj
    cases hj
    exact ⟨socket.closeSocket, rfl, by simp⟩
  · exact ⟨socket₁, hj, rfl⟩

/-- The socket of the session is closed. -/
def SocketClosed (s : State) (a : Session) : Prop :=
  ∃ (k : ℕ) (socket : Socket),
    a.socket = some k ∧ s.sockets[k]? = some socket ∧ socket.closed = true

theorem kick_spec (h : Inv s) (hp : s.heap.Live p a) :
    ∃ t, kick s p = .ok t ∧ Inv t ∧ Closes s t ∧ SocketClosed t a := by
  obtain ⟨k, socket, ha, hk, -⟩ := h.owner p a hp
  obtain ⟨hinv, hcloses, hsocket⟩ := inv_closeSocket h hk
  refine ⟨closeSocket s k, ?_, hinv, hcloses, k, socket.closeSocket, ha, hsocket, by simp⟩
  simp [kick, ObjectHeap.deref_of_live hp, ha]

theorem mem_of_findSession (h : findSession s id = some p) : (id, p) ∈ s.sessions := by
  obtain ⟨before, after, heq, -⟩ := List.lookup_eq_some_iff.mp h
  simp [heq]

theorem ne_of_findSession (h : findSession s id = none) {e : UInt32 × ℕ} (he : e ∈ s.sessions) :
    e.1 ≠ id := by
  have hne := List.lookup_eq_none_iff.mp h e he
  simpa using Ne.symm (by simpa using hne)

/-- Of two sessions under one account there is only one. -/
theorem eq_of_key {sessions : List (UInt32 × ℕ)} (hkeys : (sessions.map Prod.fst).Nodup)
    {q : ℕ} (hp : (id, p) ∈ sessions) (hq : (id, q) ∈ sessions) : p = q := by
  have heq := List.inj_on_of_nodup_map hkeys hp hq rfl
  simpa using heq

/-- A closed session leaves the map and is deleted. -/
def remove (s : State) (id : UInt32) (p : ℕ) : State :=
  { s with
    heap := s.heap.set p none
    sessions := s.sessions.filter fun e => e.1 ≠ id }

theorem inv_remove (h : Inv s) (hmem : (id, p) ∈ s.sessions) (hp : s.heap.Live p a)
    (hclosed : SocketClosed s a) : Inv (remove s id p) := by
  obtain ⟨k, socket, ha, hk, hclosed⟩ := hclosed
  have hid : a.accountId = id := by
    obtain ⟨b, hb, hbid⟩ := h.registered _ hmem
    rw [hp.unique hb]
    exact hbid
  have hlive {q : ℕ} {b : Session} :
      (remove s id p).heap.Live q b ↔ q ≠ p ∧ s.heap.Live q b :=
    ObjectHeap.live_set_none
  have hsessions {e : UInt32 × ℕ} :
      e ∈ (remove s id p).sessions ↔ e ∈ s.sessions ∧ e.1 ≠ id := by
    simp [Registry.remove]
  refine ⟨?_, ?_, ?_, ?_, ?_, ?_⟩
  · intro j socket₁ hj
    change s.sockets[j]? = some socket₁ at hj
    have hok := h.sockets j socket₁ hj
    refine ⟨?_, hok.handling, hok.authed, hok.closing, hok.login, ?_, hok.inClose⟩
    · intro q hq hopen
      obtain ⟨id', hq⟩ := hok.live q hq hopen
      refine ⟨id', hlive.mpr ⟨?_, hq⟩⟩
      -- the socket of the removed session is closed
      rintro rfl
      rw [hp.unique hq] at ha
      cases ha
      rw [hk] at hj
      cases hj
      rw [hclosed] at hopen
      cases hopen
    · intro q hq
      obtain ⟨id', hlive'⟩ := hok.adding q hq
      refine ⟨id', hlive.mpr ⟨?_, hlive'⟩⟩
      rintro rfl
      exact h.adding j socket₁ q hj hq id hmem
  · intro q b hq
    exact h.owner q b (hlive.mp hq).2
  · exact h.keys.sublist (List.filter_sublist.map _)
  · intro e he
    obtain ⟨he, hne⟩ := hsessions.mp he
    obtain ⟨b, hb, hbid⟩ := h.registered e he
    refine ⟨b, hlive.mpr ⟨?_, hb⟩, hbid⟩
    intro heq
    rw [heq] at hb
    rw [← hp.unique hb, hid] at hbid
    exact hne hbid.symm
  · intro j socket₁ q hj hq id' hmem'
    exact h.adding j socket₁ q hj hq id' (hsessions.mp hmem').1
  · intro q b hq
    obtain ⟨hne, hq⟩ := hlive.mp hq
    rcases h.kept q b hq with hreg | hrest
    · obtain ⟨⟨id', q'⟩, hmem', rfl⟩ := List.mem_map.mp hreg
      refine .inl (List.mem_map.mpr ⟨(id', q'), hsessions.mpr ⟨hmem', ?_⟩, rfl⟩)
      rintro rfl
      exact hne (eq_of_key h.keys hmem' hmem)
    · exact .inr hrest

/-- The account of a session that is in the map. -/
theorem Inv.live_of_mem (h : Inv s) (hmem : (id, p) ∈ s.sessions) :
    ∃ k, s.heap.Live p ⟨id, some k⟩ := by
  obtain ⟨a, ha, hid⟩ := h.registered _ hmem
  obtain ⟨k, -, hk, -, -⟩ := h.owner p a ha
  refine ⟨k, ?_⟩
  rwa [← show a = ⟨id, some k⟩ by cases a; simp_all]

/-- The session that is found under the account has a closed socket. -/
def Kicked (s : State) (id : UInt32) : Prop :=
  ∀ p, findSession s id = some p → ∃ a, s.heap.Live p a ∧ SocketClosed s a

theorem kickSession_spec (h : Inv s) (id : UInt32) :
    ∃ t, kickSession s id = .ok t ∧ Inv t ∧ Closes s t ∧ Kicked t id := by
  rw [kickSession]
  cases hfind : findSession s id with
  | none => exact ⟨s, rfl, h, .refl s, by simp [Kicked, hfind]⟩
  | some p =>
      obtain ⟨k, hlive⟩ := h.live_of_mem (mem_of_findSession hfind)
      obtain ⟨t, hkick, hinv, hcloses, hclosed⟩ := kick_spec h hlive
      refine ⟨t, hkick, hinv, hcloses, ?_⟩
      intro q hq
      rw [findSession, hcloses.sessions, ← findSession, hfind] at hq
      cases hq
      exact ⟨_, hcloses.heap ▸ hlive, hclosed⟩

/-! ## Adding a session -/

theorem closeSocket_of_closed (hclosed : SocketClosed s a) (ha : a.socket = some k) :
    closeSocket s k = s := by
  obtain ⟨k', socket, ha', hk, hclosed⟩ := hclosed
  rw [ha] at ha'
  cases ha'
  obtain ⟨hlt, hget⟩ := List.getElem?_eq_some_iff.mp hk
  have hset : s.sockets.set k socket = s.sockets := by
    rw [← hget]
    exact List.set_getElem_self hlt
  simp [closeSocket, hk, Socket.closeSocket, hclosed, setSocket, hset]

/-- The destructor closes a socket that is closed already. -/
theorem deleteSession_eq (hp : s.heap.Live p a) (hclosed : a.socket = none ∨ SocketClosed s a) :
    deleteSession s p = .ok { s with heap := s.heap.set p none } := by
  have hsame : (match a.socket with | some k => closeSocket s k | none => s) = s := by
    split
    · rename_i k ha
      rcases hclosed with hnone | hclosed
      · simp [hnone] at ha
      · exact closeSocket_of_closed hclosed ha
    · rfl
  simp [deleteSession, ObjectHeap.deref_of_live hp, hsame, ObjectHeap.delete_of_live hp]

/-- The state after the session is put into the map and the callback goes on. -/
def added (s : State) (k : ℕ) (socket : Socket) (id : UInt32) (p : ℕ) : State :=
  { setSocket s k { socket with reader := .answering } with
    sessions := s.sessions ++ [(id, p)]
    maxActiveSessionCount := max s.maxActiveSessionCount (s.sessions.length + 1) }

theorem inv_added (h : Inv s) (hk : s.sockets[k]? = some socket)
    (hreader : socket.reader = .adding p) (hp : s.heap.Live p a)
    (hnew : ∀ e ∈ s.sessions, e.1 ≠ a.accountId) : Inv (added s k socket a.accountId p) := by
  have hget : ∀ j, (added s k socket a.accountId p).sockets[j]? =
      if k = j then some { socket with reader := .answering } else s.sockets[j]? :=
    getElem?_setSocket hk _
  have hsessions {e : UInt32 × ℕ} : e ∈ (added s k socket a.accountId p).sessions ↔
      e ∈ s.sessions ∨ e = (a.accountId, p) := by
    simp [added]
  have hok := h.sockets k socket hk
  obtain ⟨id, hlive⟩ := hok.adding p hreader
  refine ⟨?_, ?_, ?_, ?_, ?_, ?_⟩
  · intro j socket₁ hj
    rw [hget] at hj
    split at hj
    · rename_i heq
      cases hj
      subst heq
      refine ⟨hok.live, by simp, hok.authed, ?_, by simp, by simp, ?_⟩
      · intro hclosing
        simpa [hreader] using (hok.closing hclosing).1
      · intro hin
        exact ⟨(hok.inClose hin).1, by simp⟩
    · exact h.sockets j socket₁ hj
  · intro q b hq
    obtain ⟨j, socket₁, hb, hj, hauth⟩ := h.owner q b hq
    by_cases heq : k = j
    · subst heq
      rw [hk] at hj
      cases hj
      exact ⟨k, { socket with reader := .answering }, hb, by simp [hget], hauth⟩
    · exact ⟨j, socket₁, hb, by simp [hget, heq, hj], hauth⟩
  · have hfresh : a.accountId ∉ s.sessions.map Prod.fst := by
      intro hmem
      obtain ⟨e, he, heq⟩ := List.mem_map.mp hmem
      exact hnew e he heq
    change ((s.sessions ++ [(a.accountId, p)]).map Prod.fst).Nodup
    rw [List.map_append, List.map_singleton]
    exact List.nodup_append_comm.mp (List.nodup_cons.mpr ⟨hfresh, h.keys⟩)
  · intro e he
    rcases hsessions.mp he with he | rfl
    · exact h.registered e he
    · exact ⟨a, hp, rfl⟩
  · intro j socket₁ q hj hq id' hmem
    rw [hget] at hj
    split at hj
    · cases hj
      cases hq
    · rename_i hne
      rcases hsessions.mp hmem with hmem | heq
      · exact h.adding j socket₁ q hj hq id' hmem
      · -- another session that waits belongs to another socket
        cases heq
        obtain ⟨id'', hlive'⟩ := (h.sockets j socket₁ hj).adding p hq
        have hsame := hlive.unique hlive'
        simp only [Session.mk.injEq, Option.some.injEq] at hsame
        exact hne hsame.2
  · intro q b hq
    rcases h.kept q b hq with hreg | ⟨j, socket₁, hj, hadding⟩ | hcleared
    · obtain ⟨e, he, rfl⟩ := List.mem_map.mp hreg
      exact .inl (List.mem_map.mpr ⟨e, hsessions.mpr (.inl he), rfl⟩)
    · by_cases heq : k = j
      · subst heq
        rw [hk] at hj
        cases hj
        rw [hreader] at hadding
        cases hadding
        exact .inl (List.mem_map.mpr ⟨_, hsessions.mpr (.inr rfl), rfl⟩)
      · exact .inr (.inl ⟨j, socket₁, by simp [hget, heq, hj], hadding⟩)
    · exact .inr (.inr hcleared)

/-- The session of the account that was there is gone when the new one is put in. -/
theorem deleteOld_spec (h : Inv s) (hkicked : Kicked s id) :
    ∃ t, deleteOld s id = .ok t ∧ Inv t ∧ t.sockets = s.sockets ∧
      t.maxActiveSessionCount = s.maxActiveSessionCount ∧ t.cleared = s.cleared ∧
      t.sessions.length ≤ s.sessions.length ∧ (∀ e ∈ t.sessions, e.1 ≠ id) ∧
      ∀ q b, s.heap.Live q b → (∀ id, (id, q) ∉ s.sessions) → t.heap.Live q b := by
  rw [deleteOld]
  cases hfind : findSession s id with
  | none =>
      exact ⟨s, rfl, h, rfl, rfl, rfl, Nat.le_refl _, fun e he => ne_of_findSession hfind he,
        fun q b hq _ => hq⟩
  | some old =>
      have hmem := mem_of_findSession hfind
      obtain ⟨a, hold, hclosed⟩ := hkicked old hfind
      refine ⟨remove s id old, ?_, inv_remove h hmem hold hclosed, rfl, rfl, rfl,
        List.length_filter_le _ _, ?_, ?_⟩
      · simp [deleteSession_eq hold (.inr hclosed), erase, remove]
      · intro e he
        simpa using (List.mem_filter.mp he).2
      · intro q b hq hout
        refine ObjectHeap.live_set_none.mpr ⟨?_, hq⟩
        rintro rfl
        exact hout id hmem

theorem emplace_eq (hnew : ∀ e ∈ s.sessions, e.1 ≠ id) (hk : s.sockets[k]? = some socket) :
    setReader (updateMaxSessionCounters (emplace s id p)) k .answering = added s k socket id p := by
  have hany : ¬(s.sessions.any fun e => e.1 = id) = true := by
    intro hany
    obtain ⟨e, he, heq⟩ := List.any_eq_true.mp hany
    exact hnew e he (of_decide_eq_true heq)
  simp [emplace, hany, updateMaxSessionCounters, setReader, hk, added, setSocket]

/-! ## The loops over the map -/

/-- One entry: the session stays, or its socket is closed and it is removed. -/
theorem updateEntry_spec (h : Inv s) (hmem : (id, p) ∈ s.sessions) :
    updateEntry s (id, p) = .ok s ∨
      updateEntry s (id, p) = .ok (remove s id p) ∧ Inv (remove s id p) := by
  obtain ⟨j, hp⟩ := h.live_of_mem hmem
  obtain ⟨j', socket, hj', hk, hauthed⟩ := h.owner p _ hp
  cases hj'
  by_cases hopen : socket.isOpen
  · refine .inl ?_
    simp [updateEntry, updateSession, ObjectHeap.deref_of_live hp, hk, hopen]
  · -- a socket with a session is not closing, so it is closed
    have hclosed : socket.closed = true := by
      by_contra hnot
      have hclosing : socket.closing = true := by simp_all [Socket.isOpen]
      have hauthed' := ((h.sockets j socket hk).closing hclosing).2
      rw [hauthed] at hauthed'
      cases hauthed'
    refine .inr ⟨?_, inv_remove h hmem hp ⟨j, socket, rfl, hk, hclosed⟩⟩
    have hupdate : updateSession s p =
        .ok (false, { s with heap := s.heap.set p (some ⟨id, none⟩) }) := by
      simp [updateSession, ObjectHeap.deref_of_live hp, hk, hopen]
    have hreset : (erase { s with heap := s.heap.set p (some ⟨id, none⟩) } id).heap.Live p
        ⟨id, none⟩ := by
      simp [erase, ObjectHeap.Live, hp.lt]
    rw [updateEntry, hupdate, except_ok_bind]
    change deleteSession _ p = _
    rw [deleteSession_eq hreset (.inl rfl)]
    simp [remove, erase]

theorem inv_clear (h : Inv s) :
    Inv { s with sessions := [], cleared := s.cleared ++ s.sessions.map Prod.snd } := by
  refine ⟨h.sockets, h.owner, List.nodup_nil, by simp, by simp, ?_⟩
  intro p a hp
  rcases h.kept p a hp with hreg | hadding | hcleared
  · exact .inr (.inr (List.mem_append_right _ hreg))
  · exact .inr (.inl hadding)
  · exact .inr (.inr (List.mem_append_left _ hcleared))

theorem inv_rehash (h : Inv s) {sessions : List (UInt32 × ℕ)} (hperm : sessions.Perm s.sessions) :
    Inv { s with sessions := sessions } := by
  refine ⟨h.sockets, h.owner, ?_, ?_, ?_, ?_⟩
  · exact (hperm.map Prod.fst).nodup_iff.mpr h.keys
  · intro e he
    exact h.registered e (hperm.mem_iff.mp he)
  · intro k socket p hk hadding id hmem
    exact h.adding k socket p hk hadding id (hperm.mem_iff.mp hmem)
  · intro p a hp
    rw [(hperm.map Prod.snd).mem_iff]
    exact h.kept p a hp

/-- A new session waits to be added. -/
theorem inv_newSession (h : Inv s) (hk : s.sockets[k]? = some socket)
    (hreader : socket.reader = .waiting) (id : UInt32) :
    Inv (newSession s k socket id) := by
  have hget : ∀ j, (newSession s k socket id).sockets[j]? =
      if k = j then some (socket.login s.heap.length) else s.sockets[j]? :=
    getElem?_setSocket hk _
  have hok := h.sockets k socket hk
  have hnew := ObjectHeap.live_alloc_self s.heap ⟨id, some k⟩
  refine ⟨?_, ?_, h.keys, ?_, ?_, ?_⟩
  · intro j socket₁ hj
    rw [hget] at hj
    split at hj
    · rename_i heq
      cases hj
      subst heq
      refine ⟨?_, by simp [Socket.login], by simp [Socket.login], ?_, by simp [Socket.login], ?_,
        ?_⟩
      · rintro p ⟨⟩ -
        exact ⟨id, hnew⟩
      · intro hclosing
        have hnobody := (hok.closing hclosing).1
        rw [hreader] at hnobody
        cases hnobody
      · rintro p ⟨⟩
        exact ⟨id, hnew⟩
      · intro hin
        exact ⟨(hok.inClose hin).1, by simp [Socket.login]⟩
    · exact (h.sockets j socket₁ hj).alloc _
  · intro p a hp
    rcases ObjectHeap.live_alloc.mp hp with hp | ⟨-, rfl⟩
    · obtain ⟨j, socket₁, ha, hj, hauth⟩ := h.owner p a hp
      by_cases heq : k = j
      · exact ⟨k, socket.login s.heap.length, heq ▸ ha, by simp [hget], rfl⟩
      · exact ⟨j, socket₁, ha, by simp [hget, heq, hj], hauth⟩
    · exact ⟨k, socket.login s.heap.length, rfl, by simp [hget], rfl⟩
  · intro e he
    obtain ⟨a, ha, hid⟩ := h.registered e he
    exact ⟨a, ha.alloc _, hid⟩
  · intro j socket₁ p hj hadding id' hmem
    rw [hget] at hj
    split at hj
    · cases hj
      cases hadding
      -- what is in the map is older than the new session
      obtain ⟨a, ha, -⟩ := h.registered _ hmem
      exact absurd ha.lt (by simp)
    · exact h.adding j socket₁ p hj hadding id' hmem
  · intro p a hp
    rcases ObjectHeap.live_alloc.mp hp with hp | ⟨rfl, -⟩
    · rcases h.kept p a hp with hreg | ⟨j, socket₁, hj, hadding⟩ | hcleared
      · exact .inl hreg
      · have hne : k ≠ j := by
          rintro rfl
          rw [hk] at hj
          cases hj
          rw [hreader] at hadding
          cases hadding
        exact .inr (.inl ⟨j, socket₁, by simp [hget, hne, hj], hadding⟩)
      · exact .inr (.inr hcleared)
    · exact .inr (.inl ⟨k, socket.login s.heap.length, by simp [hget], rfl⟩)

end WarheadDiscord.Registry
