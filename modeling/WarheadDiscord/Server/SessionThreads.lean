import WarheadDiscord.Server.SessionRegistry

/-!
# The sessions and the order of the threads

A call of the `Discord` that uses `_sessions` is under way, and the threads of the sockets take
their steps between its statements.  What the next statement needs is kept by them (`CallOk`): they
never touch the map, a session that is there stays, a closed socket stays closed, and the callback
that is in `AddSession` waits.  So a run goes wrong in two ways only: two of these calls overlap, or
a second `CLIENT_AUTH_SESSION` comes late.

## Main definitions

* `CallOk` — what the call that is under way can rely on.
* `Beside` — a step that is no part of it.
* `MapsSessions` — the map is the set of the sessions.

## Main results

* `run_eq_error_iff` — when a run fails.
* `mapsSessions_of_run` — the map of every state.
* `maxActiveSessionCount_of_run` — the counter.
-/

namespace WarheadDiscord.Registry

variable {s t u : State} {k p : ℕ} {socket : Socket} {a : Session} {id : UInt32}

/-! ## The call that is under way -/

/-- The callback of the socket is at this place. -/
def ReaderAt (s : State) (k : ℕ) (reader : Reader) : Prop :=
  (s.sockets[k]?).map Socket.reader = some reader

/-- What is done when a statement of `AddSession` is the next. -/
def AddSessionOk (s : State) (k p : ℕ) (id : UInt32) : AddStatement → Prop
  | .kick => ReaderAt s k (.adding p)
  | .deleteOld => ReaderAt s k (.adding p) ∧ Kicked s id
  | .emplace => ReaderAt s k (.adding p) ∧ ∀ e ∈ s.sessions, e.1 ≠ id
  | .sendAuthResponse => ReaderAt s k .answering

/-- What the rest of a call can rely on. -/
def CallOk (s : State) : DiscordCall → Prop
  | .addSession k p next => ∃ id, s.heap.Live p ⟨id, some k⟩ ∧ AddSessionOk s k p id next
  | .kickSession _ => True
  | .updateSessions entries => (entries.map Prod.fst).Nodup ∧ ∀ e ∈ entries, e ∈ s.sessions
  | .kickAll sessions | .banIp _ sessions => ∀ p ∈ sessions, p ∈ s.sessions.map Prod.snd

/-- The invariant, between two statements. -/
structure Ok (s : State) : Prop where
  inv : Inv s
  call : ∀ c, s.inCall = some c → CallOk s c

/-- No `KickAll` was called. -/
structure Calm (s : State) : Prop where
  cleared : s.cleared = []
  inCall : ∀ ps, s.inCall ≠ some (.kickAll ps)

/-- The counter after a step: the map has not grown, or it was counted. -/
def Counted (s t : State) : Prop :=
  t.maxActiveSessionCount = s.maxActiveSessionCount ∧ t.sessions.length ≤ s.sessions.length ∨
    t.maxActiveSessionCount = max s.maxActiveSessionCount t.sessions.length

/-- A step that is no part of the call that is under way. -/
structure Beside (s t : State) : Prop where
  sessions : t.sessions = s.sessions
  inCall : t.inCall = s.inCall
  count : t.maxActiveSessionCount = s.maxActiveSessionCount
  cleared : t.cleared = s.cleared
  live : ∀ p a, s.heap.Live p a → t.heap.Live p a
  sockets : ∀ (k : ℕ) (socket : Socket), s.sockets[k]? = some socket → ∃ socket' : Socket,
    t.sockets[k]? = some socket' ∧ (socket.closed = true → socket'.closed = true) ∧
      (∀ p, socket.reader = .adding p → socket'.reader = .adding p) ∧
      (socket.reader = .answering → socket'.reader = .answering)

namespace Beside

theorem refl (s : State) : Beside s s :=
  ⟨rfl, rfl, rfl, rfl, fun _ _ => id, fun _ socket hk => ⟨socket, hk, id, fun _ => id, id⟩⟩

theorem counted (h : Beside s t) : Counted s t :=
  .inl ⟨h.count, by simp [h.sessions]⟩

theorem calm (h : Beside s t) (hs : Calm s) : Calm t :=
  ⟨h.cleared.trans hs.cleared, h.inCall ▸ hs.inCall⟩

theorem kicked (h : Beside s t) (hs : Kicked s id) : Kicked t id := by
  intro p hp
  rw [findSession, h.sessions] at hp
  obtain ⟨a, ha, k, socket, hk, hsocket, hclosed⟩ := hs p hp
  obtain ⟨socket', hsocket', hclosed', -⟩ := h.sockets k socket hsocket
  exact ⟨a, h.live p a ha, k, socket', hk, hsocket', hclosed' hclosed⟩

theorem readerAt_adding (h : Beside s t) (hs : ReaderAt s k (.adding p)) :
    ReaderAt t k (.adding p) := by
  obtain ⟨socket, hk, hreader⟩ := Option.map_eq_some_iff.mp hs
  obtain ⟨socket', hk', -, hadding, -⟩ := h.sockets k socket hk
  exact Option.map_eq_some_iff.mpr ⟨socket', hk', hadding p hreader⟩

theorem readerAt_answering (h : Beside s t) (hs : ReaderAt s k .answering) :
    ReaderAt t k .answering := by
  obtain ⟨socket, hk, hreader⟩ := Option.map_eq_some_iff.mp hs
  obtain ⟨socket', hk', -, -, hanswering⟩ := h.sockets k socket hk
  exact Option.map_eq_some_iff.mpr ⟨socket', hk', hanswering hreader⟩

/-- **The call that is under way can go on** after a step of another thread. -/
theorem callOk (h : Beside s t) {c : DiscordCall} (hc : CallOk s c) : CallOk t c := by
  cases c with
  | addSession k p next =>
      obtain ⟨id, hlive, hok⟩ := hc
      refine ⟨id, h.live p _ hlive, ?_⟩
      cases next with
      | kick => exact h.readerAt_adding hok
      | deleteOld => exact ⟨h.readerAt_adding hok.1, h.kicked hok.2⟩
      | emplace => exact ⟨h.readerAt_adding hok.1, h.sessions ▸ hok.2⟩
      | sendAuthResponse => exact h.readerAt_answering hok
  | kickSession id => trivial
  | updateSessions entries => exact ⟨hc.1, h.sessions ▸ hc.2⟩
  | kickAll sessions | banIp fromIp sessions =>
      intro p hp
      rw [h.sessions]
      exact hc p hp

theorem ok (h : Beside s t) (hs : Ok s) (ht : Inv t) : Ok t :=
  ⟨ht, fun c hc => h.callOk (hs.call c (h.inCall ▸ hc))⟩

end Beside

/-! ## The statements of a call -/

/-- What a step leaves behind. -/
structure Steps (s t : State) : Prop where
  ok : Ok t
  counted : Counted s t
  calm : Calm s → Calm t

theorem Beside.steps (h : Beside s t) (hs : Ok s) (ht : Inv t) : Steps s t :=
  ⟨h.ok hs ht, h.counted, h.calm⟩

/-- A statement after which the call goes on with `c`, or is done. -/
theorem steps_of_inv (ht : Inv t) {c : Option DiscordCall}
    (hcall : ∀ d, c = some d → CallOk { t with inCall := c } d) (hcounted : Counted s t)
    (hcleared : t.cleared = s.cleared) (hkick : ∀ ps, c ≠ some (.kickAll ps)) :
    Steps s { t with inCall := c } :=
  ⟨⟨ht.inCall c, hcall⟩, hcounted, fun hs => ⟨hcleared.trans hs.cleared, hkick⟩⟩

theorem Closes.counted (h : Closes s t) : Counted s t := .inl ⟨h.count, by simp [h.sessions]⟩

theorem Closes.readerAt (h : Closes s t) {reader : Reader} (hs : ReaderAt s k reader) :
    ReaderAt t k reader := by
  obtain ⟨socket, hk, hreader⟩ := Option.map_eq_some_iff.mp hs
  obtain ⟨socket', hk', hsame⟩ := h.sockets k socket hk
  exact Option.map_eq_some_iff.mpr ⟨socket', hk', hsame.trans hreader⟩

section AddSession
variable (h : Inv s) (hp : s.heap.Live p ⟨id, some k⟩)
include h hp

theorem addSession_kick (hreader : ReaderAt s k (.adding p)) :
    ∃ t, addSession s k p .kick = .ok t ∧ Steps s t := by
  obtain ⟨t, hkick, ht, hcloses, hkicked⟩ := kickSession_spec h id
  refine ⟨{ t with inCall := some (.addSession k p .deleteOld) }, ?_, ?_⟩
  · simp [addSession, ObjectHeap.deref_of_live hp, hkick]
  · refine steps_of_inv ht ?_ hcloses.counted hcloses.cleared (by simp)
    rintro - ⟨⟩
    exact ⟨id, hcloses.heap ▸ hp, hcloses.readerAt hreader, hkicked⟩

theorem addSession_deleteOld (hreader : ReaderAt s k (.adding p)) (hkicked : Kicked s id) :
    ∃ t, addSession s k p .deleteOld = .ok t ∧ Steps s t := by
  obtain ⟨t, hdelete, ht, hsockets, hcount, hcleared, hlen, hnew, hkeep⟩ := deleteOld_spec h hkicked
  obtain ⟨socket, hk, hadding⟩ := Option.map_eq_some_iff.mp hreader
  refine ⟨{ t with inCall := some (.addSession k p .emplace) }, ?_, ?_⟩
  · simp [addSession, ObjectHeap.deref_of_live hp, hdelete]
  · refine steps_of_inv ht ?_ (.inl ⟨hcount, hlen⟩) hcleared (by simp)
    rintro - ⟨⟩
    -- the session that is being added is not the one that was found
    refine ⟨id, hkeep p _ hp (h.adding k socket p hk hadding), ?_, hnew⟩
    rw [ReaderAt, hsockets]
    exact hreader

theorem addSession_emplace (hreader : ReaderAt s k (.adding p))
    (hnew : ∀ e ∈ s.sessions, e.1 ≠ id) :
    ∃ t, addSession s k p .emplace = .ok t ∧ Steps s t := by
  obtain ⟨socket, hk, hadding⟩ := Option.map_eq_some_iff.mp hreader
  refine ⟨{ added s k socket id p with inCall := some (.addSession k p .sendAuthResponse) }, ?_, ?_⟩
  · simp [addSession, ObjectHeap.deref_of_live hp, emplace_eq hnew hk]
  · refine steps_of_inv (inv_added h hk hadding hp hnew) ?_ (.inr ?_) rfl (by simp)
    · rintro - ⟨⟩
      refine ⟨id, hp, ?_⟩
      simp [AddSessionOk, ReaderAt, added, getElem?_setSocket hk]
    · simp [added]

theorem addSession_sendAuthResponse (hreader : ReaderAt s k .answering) :
    ∃ t, addSession s k p .sendAuthResponse = .ok t ∧ Steps s t := by
  obtain ⟨socket, hk, hanswering⟩ := Option.map_eq_some_iff.mp hreader
  refine ⟨{ setReader s k .resuming with inCall := none }, ?_, ?_⟩
  · simp [addSession, ObjectHeap.deref_of_live hp]
  · have hset : setReader s k .resuming = setSocket s k { socket with reader := .resuming } := by
      simp [setReader, hk]
    rw [hset]
    have hok := h.sockets k socket hk
    refine steps_of_inv (inv_setSocket h hk ?_ (by simp) (by simp [hanswering])) (by simp)
      (.inl ⟨rfl, Nat.le_refl _⟩) rfl (by simp)
    constructor <;> grind [SocketOk]

end AddSession

theorem kickSession_steps (h : Inv s) (id : UInt32) :
    ∃ t, kickSession s id = .ok t ∧ Steps s { t with inCall := none } := by
  obtain ⟨t, hkick, ht, hcloses, -⟩ := kickSession_spec h id
  exact ⟨t, hkick, steps_of_inv ht (by simp) hcloses.counted hcloses.cleared (by simp)⟩

theorem updateSessions_steps (h : Inv s) {entries : List (UInt32 × ℕ)}
    (hkeys : (entries.map Prod.fst).Nodup) (hmem : ∀ e ∈ entries, e ∈ s.sessions) :
    ∃ t, updateSessions s entries = .ok t ∧ Steps s t := by
  cases entries with
  | nil => exact ⟨_, rfl, steps_of_inv h (by simp) (.inl ⟨rfl, Nat.le_refl _⟩) rfl (by simp)⟩
  | cons e entries =>
      obtain ⟨id, p⟩ := e
      obtain ⟨hnot, hkeys⟩ := List.nodup_cons.mp hkeys
      have hrest : ∀ e ∈ entries, e ∈ s.sessions := fun e he => hmem e (List.mem_cons_of_mem _ he)
      rcases updateEntry_spec h (hmem _ List.mem_cons_self) with hsame | ⟨hremove, hinv⟩
      · refine ⟨{ s with inCall := some (.updateSessions entries) }, ?_, ?_⟩
        · simp [updateSessions, hsame]
        · refine steps_of_inv h ?_ (.inl ⟨rfl, Nat.le_refl _⟩) rfl (by simp)
          rintro - ⟨⟩
          exact ⟨hkeys, hrest⟩
      · refine ⟨{ remove s id p with inCall := some (.updateSessions entries) }, ?_, ?_⟩
        · simp [updateSessions, hremove]
        · refine steps_of_inv hinv ?_ (.inl ⟨rfl, List.length_filter_le _ _⟩) rfl (by simp)
          rintro - ⟨⟩
          -- the entries that are left have other keys
          refine ⟨hkeys, fun e he => List.mem_filter.mpr ⟨hrest e he, ?_⟩⟩
          have hne : e.1 ≠ id := fun heq => hnot (List.mem_map.mpr ⟨e, he, heq⟩)
          simpa using hne

theorem kickAll_steps (h : Inv s) {ps : List ℕ} (hcall : s.inCall = some (.kickAll ps))
    (hps : ∀ p ∈ ps, p ∈ s.sessions.map Prod.snd) : ∃ t, kickAll s ps = .ok t ∧ Steps s t := by
  have hnot : ¬ Calm s := fun hs => hs.inCall ps hcall
  cases ps with
  | nil =>
      refine ⟨_, rfl, ⟨(inv_clear h).inCall none, by simp⟩, .inl ⟨rfl, Nat.zero_le _⟩, ?_⟩
      exact fun hs => absurd hs hnot
  | cons p ps =>
      obtain ⟨e, he, rfl⟩ := List.mem_map.mp (hps p List.mem_cons_self)
      obtain ⟨a, ha, -⟩ := h.registered e he
      obtain ⟨t, hkick, ht, hcloses, -⟩ := kick_spec h ha
      refine ⟨{ t with inCall := some (.kickAll ps) }, by simp [kickAll, hkick],
        ⟨ht.inCall _, ?_⟩, hcloses.counted, fun hs => absurd hs hnot⟩
      rintro - ⟨⟩
      intro q hq
      change q ∈ t.sessions.map Prod.snd
      rw [hcloses.sessions]
      exact hps q (List.mem_cons_of_mem _ hq)

theorem banIp_steps (h : Inv s) {fromIp ps : List ℕ}
    (hps : ∀ p ∈ ps, p ∈ s.sessions.map Prod.snd) :
    ∃ t, banIp s fromIp ps = .ok t ∧ Steps s t := by
  cases ps with
  | nil => exact ⟨_, rfl, steps_of_inv h (by simp) (.inl ⟨rfl, Nat.le_refl _⟩) rfl (by simp)⟩
  | cons p ps =>
      obtain ⟨e, he, rfl⟩ := List.mem_map.mp (hps p List.mem_cons_self)
      obtain ⟨a, ha, -⟩ := h.registered e he
      have hsteps {t : State} (ht : Inv t) (hcloses : Closes s t) :
          Steps s { t with inCall := some (.banIp fromIp ps) } := by
        refine steps_of_inv ht ?_ hcloses.counted hcloses.cleared (by simp)
        rintro - ⟨⟩
        intro q hq
        change q ∈ t.sessions.map Prod.snd
        rw [hcloses.sessions]
        exact hps q (List.mem_cons_of_mem _ hq)
      by_cases hip : e.2 ∈ fromIp
      · obtain ⟨t, hkick, ht, hcloses, -⟩ := kick_spec h ha
        refine ⟨_, ?_, hsteps ht hcloses⟩
        simp [banIp, ObjectHeap.deref_of_live ha, hip, hkick]
      · refine ⟨_, ?_, hsteps h (.refl s)⟩
        simp [banIp, ObjectHeap.deref_of_live ha, hip]

/-- **A statement of the call** that is under way does not fail. -/
theorem discordStep_spec (h : Ok s) : ∃ t, discordStep s = .ok t ∧ Steps s t := by
  cases hcall : s.inCall with
  | none => exact ⟨s, by simp [discordStep, hcall], (Beside.refl s).steps h h.inv⟩
  | some c =>
      have hok := h.call c hcall
      simp only [discordStep, hcall]
      cases c with
      | addSession k p next =>
          obtain ⟨id, hp, hok⟩ := hok
          cases next with
          | kick => exact addSession_kick h.inv hp hok
          | deleteOld => exact addSession_deleteOld h.inv hp hok.1 hok.2
          | emplace => exact addSession_emplace h.inv hp hok.1 hok.2
          | sendAuthResponse => exact addSession_sendAuthResponse h.inv hp hok
      | kickSession id =>
          obtain ⟨t, hkick, ht⟩ := kickSession_steps h.inv id
          exact ⟨_, by simp [hkick], ht⟩
      | updateSessions entries => exact updateSessions_steps h.inv hok.1 hok.2
      | kickAll ps => exact kickAll_steps h.inv hcall hok
      | banIp fromIp ps => exact banIp_steps h.inv hok

/-! ## The steps of a socket -/

/-- What the rest of the state looks at in a socket is the same, and it is as it should be. -/
structure Moves (h : ObjectHeap Session) (k : ℕ) (socket socket' : Socket) : Prop where
  ok : SocketOk h k socket'
  authed : socket.authed = true → socket'.authed = true
  closed : socket.closed = true → socket'.closed = true
  adding : ∀ p, socket'.reader = .adding p ↔ socket.reader = .adding p
  answering : socket.reader = .answering → socket'.reader = .answering

theorem Moves.refl (ok : SocketOk s.heap k socket) : Moves s.heap k socket socket :=
  ⟨ok, fun h => h, fun h => h, fun _ => .rfl, fun h => h⟩

theorem moves_beginClose (ok : SocketOk s.heap k socket) :
    Moves s.heap k socket socket.beginClose := by
  refine ⟨ok.beginClose, ?_, ?_, ?_, ?_⟩ <;> unfold Socket.beginClose <;> grind

theorem moves_onClose (ok : SocketOk s.heap k socket) (hin : socket.inClose = true) :
    Moves s.heap k socket socket.onClose :=
  ⟨ok.onClose hin, fun h => h, fun h => h, fun _ => .rfl, fun h => h⟩

/-- The reader changes, and it was not in `AddSession`. -/
theorem moves_reader {socket' : Socket} (ok : SocketOk s.heap k socket')
    (hauthed : socket'.authed = socket.authed) (hclosed : socket'.closed = socket.closed)
    (hreader : ∀ p, socket.reader ≠ .adding p) (hreader' : ∀ p, socket'.reader ≠ .adding p)
    (hanswering : socket.reader ≠ .answering) : Moves s.heap k socket socket' := by
  refine ⟨ok, by simp [hauthed], by simp [hclosed], ?_, fun h => absurd h hanswering⟩
  intro p
  simp [hreader, hreader']

theorem moves_asyncRead (ok : SocketOk s.heap k socket) (hreader : ∀ p, socket.reader ≠ .adding p)
    (hanswering : socket.reader ≠ .answering) : Moves s.heap k socket socket.asyncRead := by
  refine moves_reader ok.asyncRead rfl rfl hreader ?_ hanswering
  unfold Socket.asyncRead
  grind

theorem moves_delayedCloseSocket (ok : SocketOk s.heap k socket)
    (hreader : socket.reader = .checkIp ∨ socket.reader = .waiting) :
    Moves s.heap k socket socket.delayedCloseSocket := by
  have hauthed := ok.login hreader
  refine moves_reader ⟨ok.live, by simp [Socket.delayedCloseSocket], ok.authed,
    fun _ => ⟨rfl, hauthed⟩, fun _ => hauthed, by simp [Socket.delayedCloseSocket], ?_⟩ rfl rfl ?_
    (by simp [Socket.delayedCloseSocket]) ?_
  · intro hin
    exact ⟨(ok.inClose hin).1, by simp [Socket.delayedCloseSocket]⟩
  · rcases hreader with hreader | hreader <;> simp [hreader]
  · rcases hreader with hreader | hreader <;> simp [hreader]

theorem moves_readHandler (ok : SocketOk s.heap k socket) (hreader : socket.reader = .pending) :
    Moves s.heap k socket
      { socket with reader := if socket.isOpen then .handling else .nobody } := by
  refine moves_reader ?_ rfl rfl (by simp [hreader]) (by grind) (by simp [hreader])
  constructor <;> grind [SocketOk, Socket.isOpen]

theorem moves_waiting (ok : SocketOk s.heap k socket) (hreader : socket.reader = .handling)
    (hauthed : socket.authed = false) :
    Moves s.heap k socket { socket with reader := .waiting } := by
  refine moves_reader ?_ rfl rfl (by simp [hreader]) (by simp) (by simp [hreader])
  constructor <;> grind [SocketOk]

/-- In the loop of `ReadHandler` the pointer is null or to a session. -/
theorem follow_spec (ok : SocketOk s.heap k socket) (hreader : socket.reader = .handling)
    (hp : socket.session = some p) : follow s socket = .ok () := by
  have hopen : socket.closed = false := by
    by_contra hclosed
    have hnone := ok.handling hreader (by simpa using hclosed)
    rw [hp] at hnone
    cases hnone
  obtain ⟨id, hlive⟩ := ok.live p hp hopen
  simp [follow, hp, ObjectHeap.deref_of_live hlive]

/-- A second `CLIENT_AUTH_SESSION` on a socket that was closed since its read began. -/
def LateAuth (socket : Socket) (packet : Packet) : Prop :=
  (∃ malformed, packet = .authSession malformed true) ∧
    socket.authed = true ∧ socket.closed = true

theorem readDataHandler_spec (ok : SocketOk s.heap k socket) (hreader : socket.reader = .handling)
    (packet : Packet) :
    (∃ socket', readDataHandler s socket packet = .ok socket' ∧ Moves s.heap k socket socket') ∨
      readDataHandler s socket packet = .error .nullPointer ∧ LateAuth socket packet := by
  have hclose := moves_beginClose ok
  have hstay := Moves.refl ok
  cases packet with
  | ping malformed overSpeed =>
      refine .inl ?_
      cases hp : socket.session with
      | none => exact ⟨socket.beginClose, by simp [readDataHandler, hp], hclose⟩
      | some p =>
          have hfollow := follow_spec ok hreader hp
          cases malformed <;> cases overSpeed <;>
            simp [readDataHandler, hp, hfollow, hclose, hstay]
  | authSession malformed tryLock =>
      cases hauthed : socket.authed with
      | false =>
          refine .inl ?_
          cases malformed with
          | true => exact ⟨socket.beginClose, by simp [readDataHandler, hauthed], hclose⟩
          | false =>
              exact ⟨{ socket with reader := .waiting }, by simp [readDataHandler, hauthed],
                moves_waiting ok hreader hauthed⟩
      | true =>
          cases tryLock with
          | false => exact .inl ⟨socket.beginClose, by simp [readDataHandler, hauthed], hclose⟩
          | true =>
              cases hp : socket.session with
              | some p =>
                  have hfollow := follow_spec ok hreader hp
                  exact .inl ⟨socket.beginClose, by simp [readDataHandler, hauthed, hfollow],
                    hclose⟩
              | none =>
                  refine .inr ⟨?_, ⟨malformed, rfl⟩, hauthed, ?_⟩
                  · simp [readDataHandler, hauthed, follow, hp]
                    rfl
                  · by_contra hopen
                    exact ok.authed hauthed (by simpa using hopen) hp
  | other hasHandler =>
      refine .inl ?_
      cases hp : socket.session with
      | none => exact ⟨socket.beginClose, by simp [readDataHandler, hp], hclose⟩
      | some p =>
          have hfollow := follow_spec ok hreader hp
          cases hasHandler <;> simp [readDataHandler, hp, hfollow, hclose, hstay]

/-- The step is a packet that comes late. -/
def Faults (s : State) (c : Call) : Prop :=
  ∃ (k : ℕ) (packet : Packet) (socket : Socket), c = .packet k packet ∧
    s.sockets[k]? = some socket ∧ socket.reader = .handling ∧ LateAuth socket packet

/-- What a step of a socket leaves behind. -/
theorem steps_of_moves (h : Ok s) (hk : s.sockets[k]? = some socket) {socket' : Socket}
    (hm : Moves s.heap k socket socket') : Steps s (setSocket s k socket') := by
  refine Beside.steps ⟨rfl, rfl, rfl, rfl, fun _ _ hp => hp, ?_⟩ h
    (inv_setSocket h.inv hk hm.ok hm.authed hm.adding)
  intro j socket₁ hj
  rw [getElem?_setSocket hk]
  split
  · rename_i heq
    subst heq
    rw [hk] at hj
    cases hj
    exact ⟨socket', rfl, hm.closed, fun p => (hm.adding p).mpr, hm.answering⟩
  · exact ⟨socket₁, hj, fun h => h, fun _ h => h, fun h => h⟩

theorem Steps.refl (h : Ok s) : Steps s s := (Beside.refl s).steps h h.inv

theorem networkStep_spec (h : Ok s) (k : ℕ) {reader : Reader → Bool}
    {f : Socket → Except Fault Socket}
    (hf : ∀ socket, s.sockets[k]? = some socket → reader socket.reader = true →
      ∃ socket', f socket = .ok socket' ∧ Moves s.heap k socket socket') :
    ∃ t, networkStep s k reader f = .ok t ∧ Steps s t := by
  rw [networkStep]
  cases hk : s.sockets[k]? with
  | none => exact ⟨s, rfl, .refl h⟩
  | some socket =>
      by_cases hcond : (reader socket.reader && !socket.inClose) = true
      · obtain ⟨socket', hok, hm⟩ := hf socket hk (by simp_all)
        exact ⟨setSocket s k socket', by simp [hcond, hok], steps_of_moves h hk hm⟩
      · exact ⟨s, by simp [hcond], .refl h⟩

theorem callbackStep_spec (h : Ok s) (k : ℕ) {f : Socket → State}
    (hf : ∀ socket, s.sockets[k]? = some socket → Steps s (f socket)) :
    ∃ t, callbackStep s k f = .ok t ∧ Steps s t := by
  rw [callbackStep]
  cases hk : s.sockets[k]? with
  | none => exact ⟨s, rfl, .refl h⟩
  | some socket => exact ⟨f socket, rfl, hf socket hk⟩

theorem inv_accept (h : Inv s) : Inv { s with sockets := s.sockets ++ [{}] } := by
  have hget {j : ℕ} {socket : Socket} (hj : s.sockets[j]? = some socket) :
      (s.sockets ++ [({} : Socket)])[j]? = some socket := by
    rw [List.getElem?_append_left (List.getElem?_eq_some_iff.mp hj).1]
    exact hj
  have hcases {j : ℕ} {socket : Socket} (hj : (s.sockets ++ [({} : Socket)])[j]? = some socket) :
      s.sockets[j]? = some socket ∨ socket = {} := by
    rw [List.getElem?_append] at hj
    split at hj
    · exact .inl hj
    · exact .inr (List.mem_singleton.mp (List.mem_of_getElem? hj))
  refine ⟨?_, ?_, h.keys, h.registered, ?_, ?_⟩
  · intro j socket hj
    rcases hcases hj with hj | rfl
    · exact h.sockets j socket hj
    · constructor <;> simp
  · intro p a hp
    obtain ⟨j, socket, ha, hj, hauth⟩ := h.owner p a hp
    exact ⟨j, socket, ha, hget hj, hauth⟩
  · intro j socket p hj hadding
    rcases hcases hj with hj | rfl
    · exact h.adding j socket p hj hadding
    · cases hadding
  · intro p a hp
    rcases h.kept p a hp with hreg | ⟨j, socket, hj, hadding⟩ | hcleared
    · exact .inl hreg
    · exact .inr (.inl ⟨j, socket, hget hj, hadding⟩)
    · exact .inr (.inr hcleared)

theorem call_of_faults (h : Inv s) {c : Call} (hfaults : Faults s c) :
    call s c = .error .nullPointer := by
  obtain ⟨k, packet, socket, rfl, hk, hreader, ⟨malformed, rfl⟩, hauthed, hclosed⟩ := hfaults
  have hok := h.sockets k socket hk
  have hin : socket.inClose = false := by
    by_contra hin
    exact (hok.inClose (by simpa using hin)).2 hreader
  have hnone := hok.handling hreader hclosed
  simp [call, networkStep, hk, hreader, hin, readDataHandler, hauthed, follow, hnone]
  rfl

theorem accept_spec (h : Ok s) : ∃ t, call s .accept = .ok t ∧ Steps s t := by
  refine ⟨_, rfl, Beside.steps ⟨rfl, rfl, rfl, rfl, fun _ _ hp => hp, ?_⟩ h (inv_accept h.inv)⟩
  intro k socket hk
  refine ⟨socket, ?_, fun h => h, fun _ h => h, fun h => h⟩
  rw [List.getElem?_append_left (List.getElem?_eq_some_iff.mp hk).1]
  exact hk

theorem checkIpCallback_spec (h : Ok s) (k : ℕ) (banned : Bool) :
    ∃ t, call s (.checkIpCallback k banned) = .ok t ∧ Steps s t := by
  rw [call]
  refine networkStep_spec h k ?_
  intro socket hk hreader
  have hok := h.inv.sockets k socket hk
  have hreader : socket.reader = .checkIp := by simpa using hreader
  cases banned with
  | true => exact ⟨socket.delayedCloseSocket, rfl, moves_delayedCloseSocket hok (.inl hreader)⟩
  | false =>
      exact ⟨socket.asyncRead, rfl, moves_asyncRead hok (by simp [hreader]) (by simp [hreader])⟩

theorem readHandler_spec (h : Ok s) (k : ℕ) :
    ∃ t, call s (.readHandler k) = .ok t ∧ Steps s t := by
  rw [call]
  refine networkStep_spec h k ?_
  intro socket hk hreader
  exact ⟨_, rfl, moves_readHandler (h.inv.sockets k socket hk) (by simpa using hreader)⟩

/-- A packet faults only when it comes late. -/
theorem packet_spec (h : Ok s) (k : ℕ) (packet : Packet) (hnot : ¬ Faults s (.packet k packet)) :
    ∃ t, call s (.packet k packet) = .ok t ∧ Steps s t := by
  rw [call]
  refine networkStep_spec h k ?_
  intro socket hk hreader
  have hreader : socket.reader = .handling := by simpa using hreader
  refine (readDataHandler_spec (h.inv.sockets k socket hk) hreader packet).resolve_right ?_
  rintro ⟨-, hlate⟩
  exact hnot ⟨k, packet, socket, rfl, hk, hreader, hlate⟩

theorem readDone_spec (h : Ok s) (k : ℕ) : ∃ t, call s (.readDone k) = .ok t ∧ Steps s t := by
  rw [call]
  refine networkStep_spec h k ?_
  intro socket hk hreader
  have hreader : socket.reader = .handling := by simpa using hreader
  exact ⟨socket.asyncRead, rfl,
    moves_asyncRead (h.inv.sockets k socket hk) (by simp [hreader]) (by simp [hreader])⟩

theorem closeSocket_spec (h : Ok s) (k : ℕ) :
    ∃ t, call s (.closeSocket k) = .ok t ∧ Steps s t := by
  rw [call]
  refine networkStep_spec h k ?_
  intro socket hk _
  exact ⟨socket.beginClose, rfl, moves_beginClose (h.inv.sockets k socket hk)⟩

theorem onClose_spec (h : Ok s) (k : ℕ) : ∃ t, call s (.onClose k) = .ok t ∧ Steps s t := by
  refine callbackStep_spec h k ?_
  intro socket hk
  split
  · rename_i hin
    exact steps_of_moves h hk (moves_onClose (h.inv.sockets k socket hk) hin)
  · exact .refl h

theorem delayedCloseSocket_spec (h : Ok s) (k : ℕ) :
    ∃ t, call s (.delayedCloseSocket k) = .ok t ∧ Steps s t := by
  refine callbackStep_spec h k ?_
  intro socket hk
  split
  · rename_i hreader
    exact steps_of_moves h hk (moves_delayedCloseSocket (h.inv.sockets k socket hk) (.inr hreader))
  · exact .refl h

theorem newSession_spec (h : Ok s) (k : ℕ) (accountId : UInt32) :
    ∃ t, call s (.newSession k accountId) = .ok t ∧ Steps s t := by
  refine callbackStep_spec h k ?_
  intro socket hk
  split
  · rename_i hreader
    refine Beside.steps ⟨rfl, rfl, rfl, rfl, fun p a hp => hp.alloc _, ?_⟩ h
      (inv_newSession h.inv hk hreader accountId)
    intro j socket₁ hj
    have hget := getElem?_setSocket hk (socket.login s.heap.length) j
    rw [newSession, hget]
    split
    · rename_i heq
      subst heq
      rw [hk] at hj
      cases hj
      exact ⟨_, rfl, fun h => h, by simp [hreader], by simp [hreader]⟩
    · exact ⟨socket₁, hj, fun h => h, fun _ h => h, fun h => h⟩
  · exact .refl h

theorem asyncRead_spec (h : Ok s) (k : ℕ) : ∃ t, call s (.asyncRead k) = .ok t ∧ Steps s t := by
  refine callbackStep_spec h k ?_
  intro socket hk
  split
  · rename_i hreader
    exact steps_of_moves h hk
      (moves_asyncRead (h.inv.sockets k socket hk) (by simp [hreader]) (by simp [hreader]))
  · exact .refl h

theorem rehash_spec (h : Ok s) (sessions : List (UInt32 × ℕ)) :
    ∃ t, call s (.rehash sessions) = .ok t ∧ Steps s t := by
  refine ⟨_, rfl, ?_⟩
  split
  · rename_i hcond
    rw [Bool.and_eq_true, Option.isNone_iff_eq_none, List.isPerm_iff] at hcond
    obtain ⟨hcall, hperm⟩ := hcond
    refine ⟨⟨inv_rehash h.inv hperm, by simp [hcall]⟩, .inl ⟨rfl, Nat.le_of_eq hperm.length_eq⟩, ?_⟩
    exact fun hs => ⟨hs.cleared, hs.inCall⟩
  · exact .refl h

/-! ## The beginning of a call -/

/-- Two calls of the `Discord` overlap. -/
def Races (s : State) (c : Call) : Prop := (begins s c).isSome ∧ s.inCall.isSome

theorem call_of_races {c : Call} (hraces : Races s c) : call s c = .error .dataRace := by
  obtain ⟨hbegins, hcall⟩ := hraces
  obtain ⟨d, hd⟩ := Option.isSome_iff_exists.mp hbegins
  have hbegin : beginCall s c = .error .dataRace := by simp [beginCall, hd, hcall]
  cases c with
  | addSession k => exact hbegin
  | kickSession id => exact hbegin
  | updateSessions => exact hbegin
  | kickAll => exact hbegin
  | banIp fromIp => exact hbegin
  | _ => cases hd

theorem begins_addSession {k : ℕ} {d : DiscordCall} (hd : begins s (.addSession k) = some d) :
    ∃ p, (s.sockets[k]?).map Socket.reader = some (.adding p) ∧ d = .addSession k p .kick := by
  dsimp only [begins] at hd
  split at hd
  · rename_i p hreader
    split at hd
    · cases hd
    · exact ⟨p, hreader, (Option.some.inj hd).symm⟩
  · cases hd

theorem callOk_of_begins (h : Inv s) {c : Call} {d : DiscordCall} (hd : begins s c = some d) :
    CallOk s d := by
  cases c with
  | addSession k =>
      obtain ⟨p, hreader, rfl⟩ := begins_addSession hd
      obtain ⟨socket, hk, hadding⟩ := Option.map_eq_some_iff.mp hreader
      obtain ⟨id, hlive⟩ := (h.sockets k socket hk).adding p hadding
      exact ⟨id, hlive, hreader⟩
  | kickSession id =>
      cases hd
      trivial
  | updateSessions =>
      cases hd
      exact ⟨h.keys, fun _ he => he⟩
  | kickAll | banIp fromIp =>
      cases hd
      exact fun _ hp => hp
  | _ => cases hd

theorem kickAll_of_begins {c : Call} {ps : List ℕ} (hd : begins s c = some (.kickAll ps)) :
    c = .kickAll := by
  cases c with
  | kickAll => rfl
  | addSession k =>
      obtain ⟨p, -, hd⟩ := begins_addSession hd
      cases hd
  | _ => cases hd

theorem beginCall_spec (h : Ok s) {c : Call} (hnot : ¬ Races s c) :
    ∃ t, beginCall s c = .ok t ∧ Ok t ∧ Counted s t ∧ (c ≠ .kickAll → Calm s → Calm t) := by
  rw [beginCall]
  cases hd : begins s c with
  | none => exact ⟨s, rfl, h, (Steps.refl h).counted, fun _ hs => hs⟩
  | some d =>
      have hcall : ¬ s.inCall.isSome := fun hcall => hnot ⟨by simp [hd], hcall⟩
      refine ⟨{ s with inCall := some d }, by simp [hcall], ⟨h.inv.inCall _, ?_⟩,
        .inl ⟨rfl, Nat.le_refl _⟩, fun hc hs => ⟨hs.cleared, ?_⟩⟩
      · intro d' heq
        exact callOk_of_begins h.inv (hd.trans heq)
      · intro ps heq
        exact hc (kickAll_of_begins (hd.trans heq))

/-- **A step** keeps the invariant, or it is one of the two that go wrong. -/
theorem call_spec (h : Ok s) {c : Call} (hfaults : ¬ Faults s c) (hraces : ¬ Races s c) :
    ∃ t, call s c = .ok t ∧ Ok t ∧ Counted s t ∧ (c ≠ .kickAll → Calm s → Calm t) := by
  have hsteps (hstep : ∃ t, call s c = .ok t ∧ Steps s t) :
      ∃ t, call s c = .ok t ∧ Ok t ∧ Counted s t ∧ (c ≠ .kickAll → Calm s → Calm t) := by
    obtain ⟨t, hcall, ht⟩ := hstep
    exact ⟨t, hcall, ht.ok, ht.counted, fun _ => ht.calm⟩
  cases c with
  | accept => exact hsteps (accept_spec h)
  | checkIpCallback k banned => exact hsteps (checkIpCallback_spec h k banned)
  | readHandler k => exact hsteps (readHandler_spec h k)
  | packet k packet => exact hsteps (packet_spec h k packet hfaults)
  | readDone k => exact hsteps (readDone_spec h k)
  | closeSocket k => exact hsteps (closeSocket_spec h k)
  | onClose k => exact hsteps (onClose_spec h k)
  | delayedCloseSocket k => exact hsteps (delayedCloseSocket_spec h k)
  | newSession k accountId => exact hsteps (newSession_spec h k accountId)
  | asyncRead k => exact hsteps (asyncRead_spec h k)
  | discordStep => exact hsteps (discordStep_spec h)
  | rehash sessions => exact hsteps (rehash_spec h sessions)
  | addSession k => exact beginCall_spec h hraces
  | kickSession id => exact beginCall_spec h hraces
  | updateSessions => exact beginCall_spec h hraces
  | kickAll => exact beginCall_spec h hraces
  | banIp fromIp => exact beginCall_spec h hraces

/-! ## Every sequence of calls -/

theorem ok_init : Ok {} := by
  refine ⟨?_, by simp⟩
  constructor <;> simp [ObjectHeap.Live]

/-- How a step goes wrong. -/
def Fails (s : State) (c : Call) (e : Fault) : Prop :=
  e = .nullPointer ∧ Faults s c ∨ e = .dataRace ∧ Races s c

theorem call_of_fails (h : Ok s) {c : Call} {e : Fault} (hfails : Fails s c e) :
    call s c = .error e := by
  rcases hfails with ⟨rfl, hfaults⟩ | ⟨rfl, hraces⟩
  · exact call_of_faults h.inv hfaults
  · exact call_of_races hraces

theorem run_cases (calls : List Call) :
    (∃ s, run calls = .ok s ∧ Ok s) ∨
      ∃ pre c rest s e, calls = pre ++ c :: rest ∧ run pre = .ok s ∧ Ok s ∧ Fails s c e ∧
        run calls = .error e := by
  refine foldlM_cases ?_ ok_init calls
  intro s c h
  by_cases hfaults : Faults s c
  · exact .inr ⟨_, call_of_faults h.inv hfaults, .inl ⟨rfl, hfaults⟩⟩
  by_cases hraces : Races s c
  · exact .inr ⟨_, call_of_races hraces, .inr ⟨rfl, hraces⟩⟩
  obtain ⟨t, hcall, ht, -⟩ := call_spec h hfaults hraces
  exact .inl ⟨t, hcall, ht⟩

theorem ok_of_run {calls : List Call} (h : run calls = .ok s) : Ok s := by
  rcases run_cases calls with ⟨t, hrun, ht⟩ | ⟨-, -, -, -, e, -, -, -, -, hrun⟩
  · rw [h] at hrun
    cases hrun
    exact ht
  · rw [h] at hrun
    cases hrun

/-- **No session is used after its deletion or deleted twice** as long as the calls of the `Discord`
do not overlap, whatever the order of the steps of the threads.  A run fails at the first call that
begins while another one is under way, or at the null pointer that a second `CLIENT_AUTH_SESSION`
meets on a socket that was closed after `ReadHandler` had looked; at nothing else. -/
theorem run_eq_error_iff (calls : List Call) (e : Fault) :
    run calls = .error e ↔ ∃ pre c rest s, calls = pre ++ c :: rest ∧ run pre = .ok s ∧
      (e = .dataRace ∧ (begins s c).isSome ∧ s.inCall.isSome ∨
        e = .nullPointer ∧ ∃ k malformed socket, c = .packet k (.authSession malformed true) ∧
          s.sockets[k]? = some socket ∧ socket.reader = .handling ∧ socket.authed = true ∧
          socket.closed = true) := by
  constructor
  · intro hrun
    rcases run_cases calls with ⟨s, hok, -⟩ | ⟨pre, c, rest, s, e', rfl, hpre, -, hfails, herror⟩
    · rw [hok] at hrun
      cases hrun
    · rw [herror] at hrun
      cases hrun
      refine ⟨pre, c, rest, s, rfl, hpre, ?_⟩
      rcases hfails with ⟨rfl, hfaults⟩ | hraces
      · obtain ⟨k, packet, socket, rfl, hk, hreader, ⟨malformed, rfl⟩, hauthed, hclosed⟩ := hfaults
        exact .inr ⟨rfl, k, malformed, socket, rfl, hk, hreader, hauthed, hclosed⟩
      · exact .inl hraces
  · rintro ⟨pre, c, rest, s, rfl, hpre, hfails⟩
    refine foldlM_of_error hpre (call_of_fails (ok_of_run hpre) ?_)
    rcases hfails with hraces | ⟨rfl, k, malformed, socket, rfl, hk, hreader, hauthed, hclosed⟩
    · exact .inr hraces
    · exact .inl ⟨rfl, k, _, socket, rfl, hk, hreader, ⟨malformed, rfl⟩, hauthed, hclosed⟩

/-- The login of a client, up to the new session. -/
def authCalls (k : ℕ) (id : UInt32) : List Call :=
  [.accept, .checkIpCallback k false, .readHandler k, .packet k (.authSession false true),
    .newSession k id]

/-- `AddSession` from its beginning to its end, and the read that is pending after it. -/
def addCalls (k : ℕ) : List Call :=
  [.addSession k, .discordStep, .discordStep, .discordStep, .discordStep, .asyncRead k]

def loginCalls (k : ℕ) (id : UInt32) : List Call := authCalls k id ++ addCalls k

-- A ban between the completed read and the packet.
example : run (loginCalls 0 7 ++ [.readHandler 0, .kickSession 7, .discordStep,
    .packet 0 (.authSession false true)]) = .error .nullPointer := by
  decide

-- Two clients of one account log in at once.
example : run (authCalls 0 7 ++ authCalls 1 7 ++ [.addSession 0, .discordStep, .addSession 1]) =
    .error .dataRace := by
  decide

/-- The last step of a sequence. -/
theorem exists_of_run_concat {calls : List Call} {c : Call} (h : run (calls ++ [c]) = .ok s) :
    ∃ t, run calls = .ok t ∧ Counted t s ∧ (c ≠ .kickAll → Calm t → Calm s) := by
  obtain ⟨t, hrun, hcall⟩ := foldlM_concat_eq_ok.mp h
  have hok := ok_of_run hrun
  have hnot {e : Fault} : ¬ Fails t c e := by
    intro hfails
    rw [call_of_fails hok hfails] at hcall
    cases hcall
  have hfaults : ¬ Faults t c := fun hfaults => hnot (.inl ⟨rfl, hfaults⟩)
  have hraces : ¬ Races t c := fun hraces => hnot (.inr ⟨rfl, hraces⟩)
  obtain ⟨u, hu, -, hcounted, hcalm⟩ := call_spec hok hfaults hraces
  rw [hcall] at hu
  cases hu
  exact ⟨t, hrun, hcounted, hcalm⟩

theorem calm_of_run {calls : List Call} (hcalls : .kickAll ∉ calls) (h : run calls = .ok s) :
    Calm s := by
  induction calls using List.reverseRecOn generalizing s with
  | nil =>
      cases h
      exact ⟨rfl, by simp⟩
  | append_singleton calls c ih =>
      rw [List.mem_append, not_or, List.mem_singleton] at hcalls
      obtain ⟨t, hrun, -, hcalm⟩ := exists_of_run_concat h
      exact hcalm (Ne.symm hcalls.2) (ih hcalls.1 hrun)

/-- The map has the sessions that exist, each under its account. -/
structure MapsSessions (s : State) : Prop where
  keys : (s.sessions.map Prod.fst).Nodup
  entry : ∀ id p, (id, p) ∈ s.sessions → ∃ k, s.heap.Live p ⟨id, some k⟩
  session : ∀ p a, s.heap.Live p a → findSession s a.accountId = some p ∨
    ∃ (k : ℕ) (socket : Socket), s.sockets[k]? = some socket ∧ socket.reader = .adding p

/-- **The map is the set of the sessions** as long as `KickAll` is not called: no account has two
entries, an entry is to a session of its account that is not deleted, and such a session has its
entry or is about to be added.  It holds in the middle of a call as well. -/
theorem mapsSessions_of_run {calls : List Call} (hcalls : .kickAll ∉ calls)
    (h : run calls = .ok s) : MapsSessions s := by
  have hinv := (ok_of_run h).inv
  refine ⟨hinv.keys, fun id p hmem => hinv.live_of_mem hmem, ?_⟩
  intro p a hp
  rcases hinv.kept p a hp with hreg | hadding | hcleared
  · obtain ⟨⟨id, q⟩, hmem, rfl⟩ := List.mem_map.mp hreg
    obtain ⟨k, hlive⟩ := hinv.live_of_mem hmem
    refine .inl ?_
    rw [hp.unique hlive]
    cases hfind : findSession s id with
    | none => exact absurd rfl (ne_of_findSession hfind hmem)
    | some q' => rw [eq_of_key hinv.keys (mem_of_findSession hfind) hmem]
  · exact .inr hadding
  · rw [(calm_of_run hcalls h).cleared] at hcleared
    cases hcleared

/-- Two accounts log in, one of them is banned, and `UpdateSessions` is called. -/
def kickedCalls : List Call :=
  loginCalls 0 7 ++ loginCalls 1 8 ++ [.kickSession 7, .discordStep, .updateSessions, .discordStep,
    .discordStep, .discordStep]

def kickedState : State where
  sockets := [{ closed := true, authed := true, reader := .pending },
    { authed := true, session := some 1, reader := .pending }]
  heap := [none, some ⟨8, some 1⟩]
  sessions := [(8, 1)]
  maxActiveSessionCount := 2

theorem run_kickedCalls : run kickedCalls = .ok kickedState := by decide

theorem mapsSessions_kickedState :
    Call.kickAll ∉ kickedCalls ∧ run kickedCalls = .ok kickedState ∧ MapsSessions kickedState :=
  ⟨by decide, run_kickedCalls, mapsSessions_of_run (by decide) run_kickedCalls⟩

/-- **The counter is the largest number of sessions** that were in the map at one time. -/
theorem maxActiveSessionCount_of_run {calls : List Call} (h : run calls = .ok s) :
    (∀ pre t, pre <+: calls → run pre = .ok t → t.sessions.length ≤ s.maxActiveSessionCount) ∧
      ∃ pre t, pre <+: calls ∧ run pre = .ok t ∧ t.sessions.length = s.maxActiveSessionCount := by
  induction calls using List.reverseRecOn generalizing s with
  | nil =>
      cases h
      refine ⟨?_, [], {}, List.prefix_rfl, rfl, rfl⟩
      intro pre t hpre hrun
      rw [List.prefix_nil.mp hpre] at hrun
      cases hrun
      exact Nat.le_refl _
  | append_singleton calls c ih =>
      obtain ⟨t, hrun, hcounted, -⟩ := exists_of_run_concat h
      obtain ⟨hle, pre, u, hpre, hu, hattained⟩ := ih hrun
      have hmax : s.maxActiveSessionCount = max t.maxActiveSessionCount s.sessions.length := by
        have htle := hle calls t List.prefix_rfl hrun
        rcases hcounted with ⟨hsame, hlen⟩ | hmax
        · omega
        · exact hmax
      constructor
      · intro pre' u' hpre' hu'
        rcases List.prefix_concat_iff.mp hpre' with rfl | hpre'
        · rw [h] at hu'
          cases hu'
          omega
        · have hle' := hle pre' u' hpre' hu'
          omega
      · by_cases hgrows : s.sessions.length ≤ t.maxActiveSessionCount
        · refine ⟨pre, u, hpre.trans (List.prefix_append _ _), hu, ?_⟩
          omega
        · refine ⟨calls ++ [c], s, List.prefix_rfl, h, ?_⟩
          omega

theorem maxActiveSessionCount_kickedState :
    run kickedCalls = .ok kickedState ∧
      ∃ pre t, pre <+: kickedCalls ∧ run pre = .ok t ∧ t.sessions.length = 2 :=
  ⟨run_kickedCalls, (maxActiveSessionCount_of_run run_kickedCalls).2⟩

end WarheadDiscord.Registry
