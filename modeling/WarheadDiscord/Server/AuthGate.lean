import WarheadDiscord.Server.DiscordSocket

/-!
# The gate in front of a session

Nothing in `DiscordSocket` says that only one read is outstanding or that only one
login runs.  Both follow from one count: the IP callback that has not come back, a
posted read, a running `ReadHandler` and a callback chain each hold the right to post
the next read, and no step hands that right to two of them (`tokens_step`).

With at most one holder there is at most one chain, and the machine collapses to the
steps of `Step`.  The rest of the invariant follows the chain: what its stage says
about `_authed` and the session, and which answers stand in the history by then.

## Main definitions

* `DiscordSocket.tokens` — who may post the next read.
* `DiscordSocket.Step` — the steps of a socket with one holder.
* `Approved` — the answers a login needs.
* `DiscordSocket.AuthInv` — the invariant.
-/

namespace WarheadDiscord

/-- The account query found an account that may log in with this key. -/
def AccountAccepted (env : Env) (trace : List Event) (auth : AuthSession) (a : AccountInfo) : Prop :=
  .accountAnswer auth (some a) false ∈ trace ∧ a.isPermanentlyBanned = false ∧
    a.isBanned = false ∧ env.checkKey auth a = true

/-- The account was accepted and the bot is in its guild. -/
def Approved (env : Env) (trace : List Event) : Prop :=
  ∃ auth a, AccountAccepted env trace auth a ∧ .guildAnswer a true ∈ trace

theorem AccountAccepted.append {env : Env} {trace : List Event} {auth : AuthSession}
    {a : AccountInfo} (h : AccountAccepted env trace auth a) (events : List Event) :
    AccountAccepted env (trace ++ events) auth a :=
  ⟨List.mem_append_left _ h.1, h.2⟩

theorem Approved.append {env : Env} {trace : List Event} (h : Approved env trace)
    (events : List Event) : Approved env (trace ++ events) := by
  obtain ⟨auth, a, ha, hg⟩ := h
  exact ⟨auth, a, ha.append events, List.mem_append_left _ hg⟩

def Event.isAuthSession : Event → Bool
  | .authSession _ => true
  | _ => false

def Event.isSessionCreated : Event → Bool
  | .sessionCreated => true
  | _ => false

/-- `_authed` has been set. -/
def Stage.authed : Stage → Bool
  | .newSession | .addSession | .asyncRead => true
  | _ => false

/-- The number of sessions created by then. -/
def Stage.created : Stage → ℕ
  | .addSession | .asyncRead => 1
  | _ => 0

/-- The answers that have come in by then. -/
def Stage.Answered (env : Env) (trace : List Event) (auth : AuthSession) : Stage → Prop
  | .accountQuery => True
  | .guildCheck a => AccountAccepted env trace auth a
  | .channelCheck a => AccountAccepted env trace auth a ∧ .guildAnswer a true ∈ trace
  | _ => Approved env trace

theorem Stage.Answered.append {env : Env} {trace : List Event} {auth : AuthSession} {stage : Stage}
    (h : stage.Answered env trace auth) (events : List Event) :
    stage.Answered env (trace ++ events) auth := by
  cases stage with
  | accountQuery => trivial
  | guildCheck a => exact AccountAccepted.append h events
  | channelCheck a => exact ⟨h.1.append events, List.mem_append_left _ h.2⟩
  | setAuthed => exact Approved.append h events
  | newSession => exact Approved.append h events
  | addSession => exact Approved.append h events
  | asyncRead => exact Approved.append h events

namespace DiscordSocket

/-- How many parties may post the next read. -/
def tokens (s : DiscordSocket) : ℕ :=
  s.ipQuery.toNat + s.receiver.reads + s.receiver.handling.toNat + s.chains.length

/-- The state as far as the login goes: ping counters and sent packets may differ. -/
structure Same (s s' : DiscordSocket) : Prop where
  receiver : s'.receiver = s.receiver
  authed : s'.authed = s.authed
  session : s'.session = s.session
  ipQuery : s'.ipQuery = s.ipQuery
  chains : s'.chains = s.chains
  trace : s'.trace = s.trace

variable {env : Env} {s s' : DiscordSocket}

theorem Same.refl (s : DiscordSocket) : Same s s := ⟨rfl, rfl, rfl, rfl, rfl, rfl⟩

theorem Same.trans {t : DiscordSocket} (h : Same s s') (h' : Same s' t) : Same s t :=
  ⟨h'.receiver.trans h.receiver, h'.authed.trans h.authed, h'.session.trans h.session,
    h'.ipQuery.trans h.ipQuery, h'.chains.trans h.chains, h'.trace.trans h.trace⟩

theorem same_sendPacket (s : DiscordSocket) (p : DiscordPacket) : Same s (s.sendPacket p) := by
  simp only [sendPacket]
  split <;> exact ⟨rfl, rfl, rfl, rfl, rfl, rfl⟩

theorem same_handlePing {now : ℕ} {contents : List UInt8} {answer : Bool}
    (h : s.handlePing now contents = some (answer, s')) : Same s s' := by
  have hcount : Same s (s.countPing now) := ⟨rfl, rfl, rfl, rfl, rfl, rfl⟩
  simp only [handlePing, Option.ite_none_left_eq_some] at h
  obtain ⟨-, h⟩ := h
  split at h
  · cases h; exact hcount
  · split at h
    · cases h; exact hcount.trans (same_sendPacket _ _)
    · cases h; exact hcount

/-- `ReadDataHandler` starts a login with this packet. -/
def startsAuth (env : Env) (s : DiscordSocket) (p : DiscordPacket) : Bool :=
  p.opcode == DiscordCode.clientAuthSession.toUInt16 && !s.authed &&
    (handleAuthSession env p.contents).isSome

/-- What `ReadDataHandler` can do: start a login, queue a packet for the session, or
nothing that matters to the login. -/
theorem readDataHandler_cases (env : Env) (s : DiscordSocket) (now : ℕ) (p : DiscordPacket) :
    (∃ auth, s.startsAuth env p = true ∧ s.readDataHandler env now p = (.waitingForQuery,
      { s.log (.authSession auth) with chains := s.chains ++ [⟨auth, .accountQuery⟩] })) ∨
    (s.session = true ∧ s.readDataHandler env now p = (.ok, s.log (.queuePacket p))) ∨
    ∃ answer s', s.readDataHandler env now p = (answer, s') ∧ answer ≠ .waitingForQuery ∧
      Same s s' := by
  simp only [readDataHandler]
  split
  · cases hp : s.handlePing now p.contents with
    | none => exact .inr (.inr ⟨_, _, rfl, by decide, Same.refl s⟩)
    | some r =>
        obtain ⟨answer, s'⟩ := r
        have hsame := same_handlePing hp
        cases answer with
        | true => exact .inr (.inr ⟨_, _, rfl, by decide, hsame⟩)
        | false => exact .inr (.inr ⟨_, _, rfl, by decide, hsame⟩)
  · split
    · rename_i hcode
      cases ha : s.authed with
      | true => exact .inr (.inr ⟨_, _, rfl, by decide, Same.refl s⟩)
      | false =>
          cases hp : handleAuthSession env p.contents with
          | none => exact .inr (.inr ⟨_, _, rfl, by decide, Same.refl s⟩)
          | some auth => exact .inl ⟨auth, by simp [startsAuth, hcode, ha, hp], rfl⟩
    · cases hs : s.session with
      | false => exact .inr (.inr ⟨_, _, rfl, by decide, Same.refl s⟩)
      | true =>
          cases hasHandler p.opcode with
          | false => exact .inr (.inr ⟨_, _, rfl, by decide, Same.refl s⟩)
          | true => exact .inr (.inl ⟨rfl, rfl⟩)

/-- The steps of a socket in which at most one party may post the next read. -/
inductive Step (env : Env) (s : DiscordSocket) : DiscordSocket → Prop
  | ipRejected (code : DiscordAuthResponseCodes) (ip : s.ipQuery = true) :
      Step env s ({ s.log (.ipAnswer true) with ipQuery := false }.reject code)
  | ipAccepted (ip : s.ipQuery = true) :
      Step env s { s.log (.ipAnswer false) with ipQuery := false }.asyncRead
  | received {chunk : List UInt8} {r : Receiver}
      (next : s.receiver.next (.receive chunk) = some r) :
      Step env s ((s.log (.read chunk)).withReceiver r)
  | readError {r : Receiver} (next : s.receiver.next .readError = some r) :
      Step env s (s.withReceiver r)
  | passed {s' : DiscordSocket} {answer : ReadDataHandlerResult}
      (handling : s.receiver.handling = true) (same : Same s s')
      (quiet : s.receiver.nextPacket = none ∨ answer ≠ .waitingForQuery) :
      Step env s (s'.withReceiver (s.receiver.pass answer))
  | queued {p : DiscordPacket} (handling : s.receiver.handling = true)
      (session : s.session = true) :
      Step env s ((s.log (.queuePacket p)).withReceiver (s.receiver.pass .ok))
  | authStarted {p : DiscordPacket} {auth : AuthSession} (handling : s.receiver.handling = true)
      (packet : s.receiver.nextPacket = some p) (starts : s.startsAuth env p = true) :
      Step env s ({ s.log (.authSession auth) with
        chains := s.chains ++ [Chain.mk auth .accountQuery] }.withReceiver
          (s.receiver.pass .waitingForQuery))
  | accountRejected {c : Chain} {account : Option AccountInfo} {isClosed : Bool}
      (code : DiscordAuthResponseCodes) (chain : s.chains = [c]) (stage : c.stage = .accountQuery) :
      Step env s
        ({ s.log (.accountAnswer c.auth account isClosed) with chains := [] }.reject code)
  | accountAccepted {c : Chain} {a : AccountInfo} (chain : s.chains = [c])
      (stage : c.stage = .accountQuery) (permanent : a.isPermanentlyBanned = false)
      (banned : a.isBanned = false) (key : env.checkKey c.auth a = true) :
      Step env s { s.log (.accountAnswer c.auth (some a) false) with
        chains := [⟨c.auth, .guildCheck a⟩] }
  | guildRejected {c : Chain} {a : AccountInfo} (chain : s.chains = [c])
      (stage : c.stage = .guildCheck a) :
      Step env s ({ s.log (.guildAnswer a false) with chains := [] }.reject .botNotFound)
  | guildAccepted {c : Chain} {a : AccountInfo} (chain : s.chains = [c])
      (stage : c.stage = .guildCheck a) :
      Step env s { s.log (.guildAnswer a true) with chains := [⟨c.auth, .channelCheck a⟩] }
  | channelsFound {c : Chain} {a : AccountInfo} (chain : s.chains = [c])
      (stage : c.stage = .channelCheck a) :
      Step env s { s with chains := [⟨c.auth, .setAuthed⟩] }
  | authedSet {c : Chain} (chain : s.chains = [c]) (stage : c.stage = .setAuthed) :
      Step env s { s with authed := true, chains := [⟨c.auth, .newSession⟩] }
  | sessionCreated {c : Chain} (chain : s.chains = [c]) (stage : c.stage = .newSession) :
      Step env s { s.log .sessionCreated with session := true, chains := [⟨c.auth, .addSession⟩] }
  | sessionAdded {c : Chain} (chain : s.chains = [c]) (stage : c.stage = .addSession) :
      Step env s { s with chains := [⟨c.auth, .asyncRead⟩] }
  | chainRead {c : Chain} (chain : s.chains = [c]) (stage : c.stage = .asyncRead) :
      Step env s { s with chains := [] }.asyncRead
  | closed : Step env s (s.withReceiver s.receiver.closeSocket)

/-- With one holder, a chain is the only one. -/
theorem chains_eq_singleton (h : s.tokens ≤ 1) {i : ℕ} {c : Chain} (hc : s.chains[i]? = some c) :
    s.chains = [c] ∧ i = 0 := by
  have hlen : s.chains.length ≤ 1 := by simp only [tokens] at h; omega
  match hs : s.chains with
  | [] => simp [hs] at hc
  | [d] =>
      cases i with
      | zero => simp only [hs, List.getElem?_cons_zero, Option.some.injEq] at hc; simp [hc]
      | succ i => simp [hs] at hc
  | _ :: _ :: _ => simp [hs] at hlen

/-- The account callback goes on to the guild check only with an account that is not
banned, on an open server and with the right key. -/
theorem accountCallback_step {c : Chain} (hchain : s.chains = [c])
    (hstage : c.stage = .accountQuery) (account : Option AccountInfo) (isClosed : Bool) (now : ℕ) :
    Step env s (s.accountCallback env 0 c account isClosed now) := by
  have hdrop : (s.log (.accountAnswer c.auth account isClosed)).dropChain 0 =
      { s.log (.accountAnswer c.auth account isClosed) with chains := [] } := by
    simp [dropChain, log, hchain]
  simp only [accountCallback, hdrop]
  cases account with
  | none => exact .accountRejected _ hchain hstage
  | some a =>
      simp only [handleAuthSessionCallback]
      cases hp : a.isPermanentlyBanned with
      | true => exact .accountRejected _ hchain hstage
      | false =>
          cases hb : a.isBanned with
          | true => exact .accountRejected _ hchain hstage
          | false =>
              cases isClosed with
              | true => exact .accountRejected _ hchain hstage
              | false =>
                  cases hk : env.checkKey c.auth a with
                  | false => exact .accountRejected _ hchain hstage
                  | true =>
                      simp only [setStage, log, hchain, List.set_cons_zero]
                      exact .accountAccepted hchain hstage hp hb hk

theorem guildCallback_step {c : Chain} {a : AccountInfo} (hchain : s.chains = [c])
    (hstage : c.stage = .guildCheck a) (isExist : Bool) :
    Step env s (s.guildCallback 0 c a isExist) := by
  simp only [guildCallback]
  cases isExist with
  | false =>
      simp only [Bool.not_false, if_true, dropChain, log, hchain, List.eraseIdx_cons_zero]
      exact .guildRejected hchain hstage
  | true =>
      simp only [Bool.not_true, setStage, log, hchain, List.set_cons_zero]
      exact .guildAccepted hchain hstage

/-- There are always as many channels as the callback asks for. -/
theorem channelCallback_step {c : Chain} {a : AccountInfo} (hchain : s.chains = [c])
    (hstage : c.stage = .channelCheck a) (channels : Vector ℤ DEFAULT_CHANNELS_COUNT) :
    Step env s (s.channelCallback 0 c channels) := by
  simp only [channelCallback, DEFAULT_CHANNELS_COUNT, ne_eq, not_true, if_false, setStage, hchain,
    List.set_cons_zero]
  exact .channelsFound hchain hstage

theorem proceed_step {c : Chain} (hchain : s.chains = [c]) (hn : s.proceed 0 c = some s') :
    Step env s s' := by
  simp only [DiscordSocket.proceed, setStage, dropChain, log, hchain, List.set_cons_zero,
    List.eraseIdx_cons_zero] at hn
  cases hstage : c.stage with
  | setAuthed => simp only [hstage] at hn; cases hn; exact .authedSet hchain hstage
  | newSession => simp only [hstage] at hn; cases hn; exact .sessionCreated hchain hstage
  | addSession => simp only [hstage] at hn; cases hn; exact .sessionAdded hchain hstage
  | asyncRead => simp only [hstage] at hn; cases hn; exact .chainRead hchain hstage
  | accountQuery => simp [hstage] at hn
  | guildCheck a => simp [hstage] at hn
  | channelCheck a => simp [hstage] at hn

/-- **The machine takes no other step while at most one party may post the next
read.** -/
theorem next_step (h : s.tokens ≤ 1) {l : Label} (hn : s.next env l = some s') : Step env s s' := by
  cases taken_of_next hn with
  | ipAnswer rows hip _ =>
      simp only [checkIpCallback]
      cases WarheadDiscord.checkIpCallback rows with
      | none => exact .ipAccepted hip
      | some code => exact .ipRejected code hip
  | receive hr => exact .received hr
  | readError hr => exact .readError hr
  | pass now hh =>
      simp only [readHandlerPass]
      cases hp : s.receiver.nextPacket with
      | none => exact .passed hh (Same.refl s) (.inl hp)
      | some p =>
          rcases readDataHandler_cases env s now p with ⟨auth, ha, he⟩ | ⟨hs, he⟩ |
              ⟨answer, s₁, he, hne, hsame⟩
          · simp only [he]
            exact .authStarted hh hp ha
          · simp only [he]
            exact .queued hh hs
          · simp only [he]
            exact .passed hh hsame (.inr hne)
  | accountAnswer row isClosed now hc hstage _ =>
      obtain ⟨hchain, rfl⟩ := chains_eq_singleton h hc
      exact accountCallback_step hchain hstage _ _ _
  | guildAnswer isExist hc hstage =>
      obtain ⟨hchain, rfl⟩ := chains_eq_singleton h hc
      exact guildCallback_step hchain hstage isExist
  | channelAnswer channels hc hstage =>
      obtain ⟨hchain, rfl⟩ := chains_eq_singleton h hc
      exact channelCallback_step hchain hstage channels
  | proceed hc hnext =>
      obtain ⟨hchain, rfl⟩ := chains_eq_singleton h hc
      exact proceed_step hchain hnext
  | closeSocket => exact .closed

/-! ## One holder -/

/-- A pass keeps the right to post the next read, or posts it. -/
theorem tokens_pass {r : Receiver} (hh : r.handling = true) (answer : ReadDataHandlerResult) :
    (r.pass answer).reads + (r.pass answer).handling.toNat ≤ r.reads + 1 := by
  cases hp : r.nextPacket with
  | none =>
      obtain ⟨hhandling, hreads⟩ := Receiver.pass_of_nextPacket_eq_none hp answer
      rw [hhandling]
      simpa using hreads
  | some p =>
      obtain ⟨b, he⟩ := Receiver.pass_of_nextPacket hp answer
      rw [he]
      cases answer with
      | ok => simp [Receiver.answered, hh]
      | error => simp [Receiver.answered, Receiver.closeSocket]
      | waitingForQuery => simp [Receiver.answered]

/-- A pass that starts a login gives the right away. -/
theorem tokens_pass_waitingForQuery {r : Receiver} {p : DiscordPacket}
    (hp : r.nextPacket = some p) :
    (r.pass .waitingForQuery).reads = r.reads ∧ (r.pass .waitingForQuery).handling = false := by
  obtain ⟨b, he⟩ := Receiver.pass_of_nextPacket hp .waitingForQuery
  rw [he]
  exact ⟨rfl, rfl⟩

theorem tokens_asyncRead_le (s : DiscordSocket) : s.asyncRead.tokens ≤ s.tokens + 1 := by
  have h := Receiver.reads_asyncRead_le s.receiver
  simp only [tokens, asyncRead, Receiver.handling_asyncRead]
  omega

theorem same_reject (s : DiscordSocket) (code : DiscordAuthResponseCodes) :
    Same { s with receiver := s.receiver.delayedCloseSocket } (s.reject code) := by
  have h := same_sendPacket s ⟨DiscordCode.serverSendAuthResponse.toUInt16, [code.toUInt8]⟩
  exact ⟨rfl, h.authed, h.session, h.ipQuery, h.chains, h.trace⟩

theorem Same.tokens (h : Same s s') : s'.tokens = s.tokens := by
  simp only [DiscordSocket.tokens, h.receiver, h.ipQuery, h.chains]

/-- A rejection leaves the holders as they are. -/
theorem tokens_reject (s : DiscordSocket) (code : DiscordAuthResponseCodes) :
    (s.reject code).tokens = s.tokens := by
  rw [(same_reject s code).tokens]
  rfl

theorem isOpen_reject (s : DiscordSocket) (code : DiscordAuthResponseCodes) :
    (s.reject code).receiver.isOpen = false := by
  rw [(same_reject s code).receiver]
  simp [Receiver.delayedCloseSocket, Receiver.isOpen]

/-- **No step makes a second holder.** -/
theorem tokens_step (h : Step env s s') : s'.tokens ≤ s.tokens := by
  cases h with
  | ipRejected code hip =>
      rw [tokens_reject]
      simp [tokens, log]
  | ipAccepted hip =>
      have hread := tokens_asyncRead_le { s.log (.ipAnswer false) with ipQuery := false }
      simp only [tokens, log, hip, Bool.toNat_true, Bool.toNat_false] at hread ⊢
      omega
  | received hn =>
      simp only [Receiver.next, Option.ite_none_right_eq_some, Option.some.injEq] at hn
      obtain ⟨⟨hpos, -, -, -⟩, rfl⟩ := hn
      have hle := Bool.toNat_le s.receiver.isOpen
      simp only [tokens, withReceiver, log, Receiver.readHandlerInternal]
      omega
  | readError hn =>
      simp only [Receiver.next, Option.ite_none_right_eq_some, Option.some.injEq] at hn
      obtain ⟨⟨hpos, -⟩, rfl⟩ := hn
      simp only [tokens, withReceiver, Receiver.readError, Receiver.closeSocket]
      omega
  | @passed s₁ answer hh hsame _ =>
      have hpass := tokens_pass hh answer
      simp only [tokens, withReceiver, hsame.ipQuery, hsame.chains, hh, Bool.toNat_true]
      omega
  | queued hh _ =>
      have hpass := tokens_pass hh .ok
      simp only [tokens, withReceiver, log, hh, Bool.toNat_true]
      omega
  | authStarted hh hp _ =>
      obtain ⟨hreads, hhandling⟩ := tokens_pass_waitingForQuery hp
      simp only [tokens, withReceiver, log, hreads, hhandling, hh, Bool.toNat_true,
        Bool.toNat_false, List.length_append, List.length_singleton]
      omega
  | accountRejected code hchain _ =>
      rw [tokens_reject]
      simp [tokens, log]
  | guildRejected hchain _ =>
      rw [tokens_reject]
      simp [tokens, log]
  | chainRead hchain _ =>
      have hread := tokens_asyncRead_le { s with chains := [] }
      simp only [tokens, hchain, List.length_nil, List.length_singleton] at hread ⊢
      omega
  | accountAccepted hchain _ _ _ _ => simp [tokens, log, hchain]
  | guildAccepted hchain _ => simp [tokens, log, hchain]
  | channelsFound hchain _ => simp [tokens, hchain]
  | authedSet hchain _ => simp [tokens, hchain]
  | sessionCreated hchain _ => simp [tokens, log, hchain]
  | sessionAdded hchain _ => simp [tokens, hchain]
  | closed => simp [tokens, withReceiver, Receiver.closeSocket]

/-- The receiving side of a socket moves as the machine of `Receiver` does, and the
answer `WaitingForQuery` is only given to a packet that starts a login. -/
theorem receiver_step (ht : s.tokens ≤ 1) (h : Step env s s') :
    s'.receiver = s.receiver ∨ ∃ l, s.receiver.next l = some s'.receiver ∧
      (l = .pass .waitingForQuery → ∀ p, s.receiver.nextPacket = some p →
        s.startsAuth env p = true) := by
  have hread (t : DiscordSocket) (hr : t.receiver = s.receiver) (hreads : s.receiver.reads = 0)
      (hidle : s.receiver.handling = false) :
      ∃ l, s.receiver.next l = some t.asyncRead.receiver ∧
        (l = .pass .waitingForQuery → ∀ p, s.receiver.nextPacket = some p →
          s.startsAuth env p = true) :=
    ⟨.asyncRead, by simp [Receiver.next, hreads, hidle, asyncRead, hr], by simp⟩
  have hreject (t : DiscordSocket) (hr : t.receiver = s.receiver)
      (code : DiscordAuthResponseCodes) :
      ∃ l, s.receiver.next l = some (t.reject code).receiver ∧
        (l = .pass .waitingForQuery → ∀ p, s.receiver.nextPacket = some p →
          s.startsAuth env p = true) :=
    ⟨.delayedCloseSocket, by simp [Receiver.next, reject, hr], by simp⟩
  simp only [tokens] at ht
  cases h with
  | ipRejected code _ => exact .inr (hreject _ rfl code)
  | ipAccepted hip =>
      rw [hip, Bool.toNat_true] at ht
      exact .inr (hread _ rfl (by omega) (Bool.toNat_eq_zero.mp (by omega)))
  | received hn => exact .inr ⟨_, hn, by simp⟩
  | readError hn => exact .inr ⟨_, hn, by simp⟩
  | @passed s₁ answer hh hsame hquiet =>
      refine .inr ⟨.pass answer, by simp only [Receiver.next, hh, if_true]; rfl, ?_⟩
      intro hw p hp
      rcases hquiet with hnone | hne
      · simp [hnone] at hp
      · cases hw
        exact absurd rfl hne
  | queued hh _ =>
      exact .inr ⟨.pass .ok, by simp only [Receiver.next, hh, if_true]; rfl, by simp⟩
  | authStarted hh hp hstarts =>
      refine .inr ⟨.pass .waitingForQuery, by simp only [Receiver.next, hh, if_true]; rfl, ?_⟩
      intro _ q hq
      rw [hp, Option.some.injEq] at hq
      exact hq ▸ hstarts
  | accountRejected code _ _ => exact .inr (hreject _ rfl code)
  | guildRejected _ _ => exact .inr (hreject _ rfl .botNotFound)
  | chainRead hchain _ =>
      rw [hchain, List.length_singleton] at ht
      exact .inr (hread _ rfl (by omega) (Bool.toNat_eq_zero.mp (by omega)))
  | closed => exact .inr ⟨.closeSocket, rfl, by simp⟩
  | _ => exact .inl rfl

/-! ## The login -/

/-- How often `HandleAuthSession` has run to its end. -/
def handled (s : DiscordSocket) : ℕ := s.trace.countP Event.isAuthSession

/-- How many sessions were created. -/
def created (s : DiscordSocket) : ℕ := s.trace.countP Event.isSessionCreated

/-- Nobody is left who could post a read, and none would be posted. -/
structure Silent (s : DiscordSocket) : Prop where
  tokens : s.tokens = 0
  closed : s.receiver.isOpen = false

/-- A socket on which no login has started. -/
structure Fresh (s : DiscordSocket) : Prop where
  handled : s.handled = 0
  created : s.created = 0
  chains : s.chains = []
  authed : s.authed = false
  session : s.session = false

/-- What the stage of a chain says about the rest of the socket. -/
structure StageInv (env : Env) (s : DiscordSocket) (auth : AuthSession) (stage : Stage) : Prop where
  handled : s.handled = 1
  authed : s.authed = stage.authed
  created : s.created = stage.created
  session : s.session = true → s.created = 1
  answered : stage.Answered env s.trace auth

/-- A login that was completed. -/
structure LoggedIn (env : Env) (s : DiscordSocket) : Prop where
  handled : s.handled = 1
  created : s.created = 1
  chains : s.chains = []
  authed : s.authed = true
  approved : Approved env s.trace

/-- A login that was rejected. -/
structure LoginRejected (s : DiscordSocket) : Prop where
  handled : s.handled = 1
  created : s.created = 0
  session : s.session = false
  silent : s.Silent

/-- Where the one login of a socket stands. -/
inductive Progress (env : Env) (s : DiscordSocket) : Prop
  | fresh (h : s.Fresh)
  | running {c : Chain} (chain : s.chains = [c]) (h : s.StageInv env c.auth c.stage)
  | loggedIn (h : s.LoggedIn env)
  | rejected (h : s.LoginRejected)

/-- The invariant of a socket. -/
structure AuthInv (env : Env) (s : DiscordSocket) : Prop where
  receiver : s.receiver.Inv
  tokens_le : s.tokens ≤ 1
  /-- Nothing happens before the IP check is answered. -/
  start : s.ipQuery = true → s.trace = []
  banned : .ipAnswer true ∈ s.trace → s.Silent ∧ ∀ chunk, .read chunk ∉ s.trace
  progress : s.Progress env
  queued : ∀ pre p post, s.trace = pre ++ .queuePacket p :: post → Approved env pre

theorem authInv_new : AuthInv env {} where
  receiver := Receiver.inv_new
  tokens_le := by decide
  start := fun _ => rfl
  banned := fun h => by simp at h
  progress := .fresh ⟨rfl, rfl, rfl, rfl, rfl⟩
  queued := fun pre p post h => by simp at h

/-- With nobody left who could post a read, a socket can only be closed. -/
theorem step_of_tokens_eq_zero (ht : s.tokens = 0) (h : Step env s s') :
    s' = s.withReceiver s.receiver.closeSocket := by
  simp only [tokens] at ht
  have hchains : s.chains = [] := List.length_eq_zero_iff.mp (by omega)
  cases h with
  | ipRejected _ hip => simp [hip] at ht
  | ipAccepted hip => simp [hip] at ht
  | received hn =>
      simp only [Receiver.next, Option.ite_none_right_eq_some] at hn
      omega
  | readError hn =>
      simp only [Receiver.next, Option.ite_none_right_eq_some] at hn
      omega
  | passed hh _ _ => simp [hh] at ht
  | queued hh _ => simp [hh] at ht
  | authStarted hh _ _ => simp [hh] at ht
  | accountRejected _ hchain _ => simp [hchains] at hchain
  | accountAccepted hchain _ _ _ _ => simp [hchains] at hchain
  | guildRejected hchain _ => simp [hchains] at hchain
  | guildAccepted hchain _ => simp [hchains] at hchain
  | channelsFound hchain _ => simp [hchains] at hchain
  | authedSet hchain _ => simp [hchains] at hchain
  | sessionCreated hchain _ => simp [hchains] at hchain
  | sessionAdded hchain _ => simp [hchains] at hchain
  | chainRead hchain _ => simp [hchains] at hchain
  | closed => rfl

/-- A silent socket stays silent. -/
theorem silent_step (hs : s.Silent) (h : Step env s s') : s'.Silent := by
  rw [step_of_tokens_eq_zero hs.tokens h]
  exact ⟨hs.tokens, rfl⟩

theorem session_withReceiver {r : Receiver} (h : (s.withReceiver r).session = true) :
    s.session = true := by
  simp only [withReceiver] at h
  split at h
  · cases h
  · exact h

/-- A step that does not concern the login. -/
structure Keeps (s s' : DiscordSocket) : Prop where
  chains : s'.chains = s.chains
  authed : s'.authed = s.authed
  session : s'.session = true → s.session = true
  trace : ∃ events, s'.trace = s.trace ++ events ∧
    events.countP Event.isAuthSession = 0 ∧ events.countP Event.isSessionCreated = 0

theorem Keeps.handled (h : Keeps s s') : s'.handled = s.handled := by
  obtain ⟨events, he, hh, -⟩ := h.trace
  simp only [DiscordSocket.handled, he, List.countP_append, hh, Nat.add_zero]

theorem Keeps.created (h : Keeps s s') : s'.created = s.created := by
  obtain ⟨events, he, -, hc⟩ := h.trace
  simp only [DiscordSocket.created, he, List.countP_append, hc, Nat.add_zero]

theorem stageInv_of_keeps (hk : Keeps s s') {auth : AuthSession} {stage : Stage}
    (h : s.StageInv env auth stage) : s'.StageInv env auth stage where
  handled := hk.handled.trans h.handled
  authed := hk.authed.trans h.authed
  created := hk.created.trans h.created
  session := by
    intro hs
    rw [hk.created]
    exact h.session (hk.session hs)
  answered := by
    obtain ⟨events, he, -⟩ := hk.trace
    exact he ▸ h.answered.append events

/-- Such a step leaves the login where it is. -/
theorem progress_of_keeps (hk : Keeps s s') (hsilent : s.Silent → s'.Silent)
    (h : s.Progress env) : s'.Progress env := by
  cases h with
  | fresh h =>
      refine .fresh ⟨hk.handled.trans h.handled, hk.created.trans h.created,
        hk.chains.trans h.chains, hk.authed.trans h.authed, ?_⟩
      cases hs : s'.session with
      | false => rfl
      | true => exact (hk.session hs).symm.trans h.session
  | running hchain h => exact .running (hk.chains.trans hchain) (stageInv_of_keeps hk h)
  | loggedIn h =>
      obtain ⟨events, he, -⟩ := hk.trace
      exact .loggedIn ⟨hk.handled.trans h.handled, hk.created.trans h.created,
        hk.chains.trans h.chains, hk.authed.trans h.authed, he ▸ h.approved.append events⟩
  | rejected h =>
      refine .rejected ⟨hk.handled.trans h.handled, hk.created.trans h.created, ?_,
        hsilent h.silent⟩
      cases hs : s'.session with
      | false => rfl
      | true => exact (hk.session hs).symm.trans h.session

/-- A chain in the state is the login that is running. -/
theorem stageInv_of_chain (h : s.Progress env) {c : Chain} (hchain : s.chains = [c])
    {stage : Stage} (hstage : c.stage = stage) : s.StageInv env c.auth stage := by
  cases h with
  | fresh h => simp [h.chains] at hchain
  | running hchain' h =>
      rw [hchain'] at hchain
      cases hchain
      exact hstage ▸ h
  | loggedIn h => simp [h.chains] at hchain
  | rejected h =>
      have ht := h.silent.tokens
      simp [tokens, hchain] at ht

/-- A rejection in the middle of a login ends it for good. -/
theorem progress_reject (h : s.AuthInv env) {c : Chain} (hchain : s.chains = [c])
    (hcreated : s.created = 0) {e : Event}
    (ha : e.isAuthSession = false) (hs : e.isSessionCreated = false)
    (code : DiscordAuthResponseCodes) :
    ({ s.log e with chains := [] }.reject code).Progress env := by
  have hst := stageInv_of_chain h.progress hchain rfl
  have hsame := same_reject { s.log e with chains := [] } code
  have htrace : ({ s.log e with chains := [] }.reject code).trace = s.trace ++ [e] := hsame.trace
  have ht := h.tokens_le
  simp only [tokens, hchain, List.length_singleton] at ht
  refine .rejected ⟨?_, ?_, ?_, ⟨?_, ?_⟩⟩
  · rw [handled, htrace, List.countP_append, List.countP_singleton, ha]
    exact hst.handled
  · rw [created, htrace, List.countP_append, List.countP_singleton, hs]
    exact hcreated
  · rw [hsame.session]
    change s.session = false
    cases hsession : s.session with
    | false => rfl
    | true => rw [hst.session hsession] at hcreated; cases hcreated
  · rw [tokens_reject]
    simp only [tokens, log, List.length_nil]
    omega
  · exact isOpen_reject _ code

theorem keeps_log {e : Event} (ha : e.isAuthSession = false) (hs : e.isSessionCreated = false) :
    Keeps s (s.log e) :=
  ⟨rfl, rfl, id, [e], rfl, by simp [ha], by simp [hs]⟩

theorem Keeps.withReceiver (h : Keeps s s') (r : Receiver) : Keeps s (s'.withReceiver r) :=
  ⟨h.chains, h.authed, fun hs => h.session (session_withReceiver hs), h.trace⟩

theorem keeps_of_same (h : Same s s') : Keeps s s' :=
  ⟨h.chains, h.authed, fun hs => h.session ▸ hs, [], by simp [h.trace], rfl, rfl⟩

/-- The next stage of a login, with the events of the step. -/
theorem progress_stage {auth : AuthSession} {before stage : Stage} {events : List Event}
    (h : s.StageInv env auth before) (hchain : s'.chains = [⟨auth, stage⟩])
    (htrace : s'.trace = s.trace ++ events) (hhandled : events.countP Event.isAuthSession = 0)
    (hauthed : s'.authed = stage.authed)
    (hcreated : s.created + events.countP Event.isSessionCreated = stage.created)
    (hsession : s'.session = true →
      (s.session = true ∧ events.countP Event.isSessionCreated = 0) ∨ stage.created = 1)
    (hanswered : stage.Answered env s'.trace auth) : s'.Progress env := by
  have hc : s'.created = stage.created := by
    rw [← hcreated, created, htrace, List.countP_append]
    rfl
  refine .running hchain ⟨?_, hauthed, hc, ?_, hanswered⟩
  · rw [handled, htrace, List.countP_append, hhandled]
    exact h.handled
  · intro hs
    rcases hsession hs with ⟨hbefore, hnone⟩ | hone
    · rw [hc, ← hcreated, hnone, h.session hbefore]
    · rw [hc, hone]

/-- A login starts only if there was none before. -/
theorem progress_authStarted (h : s.AuthInv env) {p : DiscordPacket} {auth : AuthSession}
    (hhandling : s.receiver.handling = true) (hstarts : s.startsAuth env p = true)
    (r : Receiver) :
    ({ s.log (.authSession auth) with
      chains := s.chains ++ [Chain.mk auth .accountQuery] }.withReceiver r).Progress env := by
  have ha : s.authed = false := by
    simp only [startsAuth, Bool.and_eq_true, Bool.not_eq_true'] at hstarts
    exact hstarts.1.2
  have ht := h.tokens_le
  simp only [tokens, hhandling, Bool.toNat_true] at ht
  have hchains : s.chains = [] := List.length_eq_zero_iff.mp (by omega)
  cases h.progress with
  | fresh hf =>
      refine .running (c := ⟨auth, .accountQuery⟩) ?_ ⟨?_, ha, ?_, ?_, trivial⟩
      · simp [withReceiver, hchains]
      · have hh := hf.handled
        simp only [handled] at hh
        simp [handled, withReceiver, log, List.countP_append, Event.isAuthSession, hh]
      · have hc := hf.created
        simp only [created] at hc
        simp [created, withReceiver, log, List.countP_append, Event.isSessionCreated, hc,
          Stage.created]
      · intro hs
        have hs' := session_withReceiver hs
        have hfalse := hf.session
        simp only [log] at hs'
        rw [hs'] at hfalse
        cases hfalse
  | running hchain _ => simp [hchain] at hchains
  | loggedIn hl => rw [hl.authed] at ha; cases ha
  | rejected hr =>
      have h0 := hr.silent.tokens
      simp [tokens, hhandling] at h0

theorem progress_step (h : s.AuthInv env) (hst : Step env s s') : s'.Progress env := by
  have hsilent : s.Silent → s'.Silent := fun hs => silent_step hs hst
  cases hst with
  | ipRejected code hip =>
      have hsame := same_reject { s.log (.ipAnswer true) with ipQuery := false } code
      have hkeeps : Keeps s ({ s.log (.ipAnswer true) with ipQuery := false }.reject code) :=
        ⟨hsame.chains, hsame.authed, fun hs => hsame.session ▸ hs, [.ipAnswer true],
          hsame.trace, rfl, rfl⟩
      exact progress_of_keeps hkeeps hsilent h.progress
  | ipAccepted hip =>
      have hkeeps : Keeps s { s.log (.ipAnswer false) with ipQuery := false }.asyncRead :=
        ⟨rfl, rfl, id, [.ipAnswer false], rfl, rfl, rfl⟩
      exact progress_of_keeps hkeeps hsilent h.progress
  | received hn => exact progress_of_keeps ((keeps_log rfl rfl).withReceiver _) hsilent h.progress
  | readError hn =>
      exact progress_of_keeps ((keeps_of_same (Same.refl s)).withReceiver _) hsilent h.progress
  | passed hh hsame _ =>
      exact progress_of_keeps ((keeps_of_same hsame).withReceiver _) hsilent h.progress
  | queued hh _ => exact progress_of_keeps ((keeps_log rfl rfl).withReceiver _) hsilent h.progress
  | closed =>
      exact progress_of_keeps ((keeps_of_same (Same.refl s)).withReceiver _) hsilent h.progress
  | authStarted hh _ hstarts => exact progress_authStarted h hh hstarts _
  | accountRejected code hchain hstage =>
      have hinv := stageInv_of_chain h.progress hchain hstage
      exact progress_reject h hchain hinv.created rfl rfl code
  | guildRejected hchain hstage =>
      have hinv := stageInv_of_chain h.progress hchain hstage
      exact progress_reject h hchain hinv.created rfl rfl .botNotFound
  | accountAccepted hchain hstage hp hb hk =>
      have hinv := stageInv_of_chain h.progress hchain hstage
      exact progress_stage hinv rfl rfl rfl hinv.authed hinv.created (fun hs => .inl ⟨hs, rfl⟩)
        ⟨by simp [log], hp, hb, hk⟩
  | guildAccepted hchain hstage =>
      have hinv := stageInv_of_chain h.progress hchain hstage
      exact progress_stage hinv rfl rfl rfl hinv.authed hinv.created (fun hs => .inl ⟨hs, rfl⟩)
        ⟨AccountAccepted.append hinv.answered _, by simp [log]⟩
  | @channelsFound c a hchain hstage =>
      have hinv := stageInv_of_chain h.progress hchain hstage
      exact progress_stage hinv rfl (List.append_nil _).symm rfl hinv.authed hinv.created
        (fun hs => .inl ⟨hs, rfl⟩) ⟨c.auth, a, hinv.answered⟩
  | authedSet hchain hstage =>
      have hinv := stageInv_of_chain h.progress hchain hstage
      exact progress_stage hinv rfl (List.append_nil _).symm rfl rfl hinv.created
        (fun hs => .inl ⟨hs, rfl⟩) hinv.answered
  | sessionCreated hchain hstage =>
      have hinv := stageInv_of_chain h.progress hchain hstage
      refine progress_stage hinv rfl rfl rfl hinv.authed ?_ (fun _ => .inr rfl)
        (Approved.append hinv.answered _)
      rw [hinv.created]
      rfl
  | sessionAdded hchain hstage =>
      have hinv := stageInv_of_chain h.progress hchain hstage
      exact progress_stage hinv rfl (List.append_nil _).symm rfl hinv.authed hinv.created
        (fun _ => .inr rfl) hinv.answered
  | chainRead hchain hstage =>
      have hinv := stageInv_of_chain h.progress hchain hstage
      exact .loggedIn ⟨hinv.handled, hinv.created, rfl, hinv.authed, hinv.answered⟩

/-! ## The history -/

/-- What an event says about the state in which it happens: somebody other than the
IP query held the right to post a read, a packet is queued only for a session, and a
banned client leaves a socket that does not read. -/
structure EventInv (s s' : DiscordSocket) (e : Event) : Prop where
  trace : s'.trace = s.trace ++ [e]
  ipQuery : s'.ipQuery.toNat < s.tokens
  session : ∀ p, e = .queuePacket p → s.session = true
  banned : e = .ipAnswer true → s.ipQuery = true ∧ s'.receiver.isOpen = false ∧
    s'.tokens = s.tokens - 1

theorem ipQuery_lt_of_handling (hh : s.receiver.handling = true) :
    s.ipQuery.toNat < s.tokens := by
  simp only [tokens, hh, Bool.toNat_true]
  omega

theorem ipQuery_lt_of_chain {c : Chain} (hchain : s.chains = [c]) :
    s.ipQuery.toNat < s.tokens := by
  simp only [tokens, hchain, List.length_singleton]
  omega

/-- A step adds at most one event. -/
theorem trace_step (h : Step env s s') : s'.trace = s.trace ∨ ∃ e, EventInv s s' e := by
  cases h with
  | ipRejected code hip =>
      have hsame := same_reject { s.log (.ipAnswer true) with ipQuery := false } code
      refine .inr ⟨.ipAnswer true, hsame.trace, ?_, by simp, fun _ => ⟨hip, ?_, ?_⟩⟩
      · rw [hsame.ipQuery]
        simp [tokens, hip]
      · exact isOpen_reject _ code
      · rw [tokens_reject]
        simp only [tokens, log, hip, Bool.toNat_true, Bool.toNat_false]
        omega
  | ipAccepted hip =>
      refine .inr ⟨.ipAnswer false, rfl, ?_, by simp, by simp⟩
      simp [tokens, hip, asyncRead]
  | @received chunk r hn =>
      simp only [Receiver.next, Option.ite_none_right_eq_some] at hn
      refine .inr ⟨.read chunk, rfl, ?_, by simp, by simp⟩
      simp only [tokens, withReceiver, log]
      omega
  | @queued p hh hs =>
      exact .inr ⟨.queuePacket p, rfl, ipQuery_lt_of_handling hh, fun _ _ => hs, by simp⟩
  | @authStarted p auth hh _ _ =>
      exact .inr ⟨.authSession auth, rfl, ipQuery_lt_of_handling hh, by simp, by simp⟩
  | @accountRejected c account isClosed code hchain _ =>
      have hsame := same_reject
        { s.log (.accountAnswer c.auth account isClosed) with chains := [] } code
      refine .inr ⟨.accountAnswer c.auth account isClosed, hsame.trace, ?_, by simp, by simp⟩
      rw [hsame.ipQuery]
      exact ipQuery_lt_of_chain hchain
  | @accountAccepted c a hchain _ _ _ _ =>
      exact .inr ⟨.accountAnswer c.auth (some a) false, rfl, ipQuery_lt_of_chain hchain, by simp,
        by simp⟩
  | @guildRejected c a hchain _ =>
      have hsame := same_reject { s.log (.guildAnswer a false) with chains := [] } .botNotFound
      refine .inr ⟨.guildAnswer a false, hsame.trace, ?_, by simp, by simp⟩
      rw [hsame.ipQuery]
      exact ipQuery_lt_of_chain hchain
  | @guildAccepted c a hchain _ =>
      exact .inr ⟨.guildAnswer a true, rfl, ipQuery_lt_of_chain hchain, by simp, by simp⟩
  | sessionCreated hchain _ =>
      exact .inr ⟨.sessionCreated, rfl, ipQuery_lt_of_chain hchain, by simp, by simp⟩
  | passed _ hsame _ => exact .inl hsame.trace
  | readError _ => exact .inl rfl
  | channelsFound _ _ => exact .inl rfl
  | authedSet _ _ => exact .inl rfl
  | sessionAdded _ _ => exact .inl rfl
  | chainRead _ _ => exact .inl rfl
  | closed => exact .inl rfl

/-- The IP query is not sent again. -/
theorem ipQuery_step (h : Step env s s') (hip : s'.ipQuery = true) : s.ipQuery = true := by
  cases h with
  | ipRejected code hquery => exact hquery
  | ipAccepted hquery => exact hquery
  | passed _ hsame _ => exact hsame.ipQuery ▸ hip
  | accountRejected code _ _ =>
      rw [(same_reject _ code).ipQuery] at hip
      exact hip
  | guildRejected _ _ =>
      rw [(same_reject _ .botNotFound).ipQuery] at hip
      exact hip
  | _ => exact hip

/-- A session exists only after the answers a login needs. -/
theorem approved_of_session (h : s.Progress env) (hs : s.session = true) :
    Approved env s.trace := by
  cases h with
  | fresh h => rw [h.session] at hs; cases hs
  | @running c hchain h =>
      have hc := h.session hs
      have hw := h.answered
      rw [h.created] at hc
      cases hstage : c.stage with
      | addSession => rw [hstage] at hw; exact hw
      | asyncRead => rw [hstage] at hw; exact hw
      | _ => simp [hstage, Stage.created] at hc
  | loggedIn h => exact h.approved
  | rejected h => rw [h.session] at hs; cases hs

theorem start_step (h : s.AuthInv env) (hst : Step env s s') (hip : s'.ipQuery = true) :
    s'.trace = [] := by
  rcases trace_step hst with htrace | ⟨e, he⟩
  · rw [htrace]
    exact h.start (ipQuery_step hst hip)
  · have hlt := he.ipQuery
    have ht := h.tokens_le
    rw [hip, Bool.toNat_true] at hlt
    omega

theorem banned_step (h : s.AuthInv env) (hst : Step env s s')
    (hb : .ipAnswer true ∈ s'.trace) : s'.Silent ∧ ∀ chunk, .read chunk ∉ s'.trace := by
  by_cases hold : .ipAnswer true ∈ s.trace
  · obtain ⟨hsilent, hread⟩ := h.banned hold
    refine ⟨silent_step hsilent hst, ?_⟩
    rw [step_of_tokens_eq_zero hsilent.tokens hst]
    exact hread
  · rcases trace_step hst with htrace | ⟨e, he⟩
    · rw [htrace] at hb
      exact absurd hb hold
    · have heq : e = .ipAnswer true := by
        rw [he.trace, List.mem_append, List.mem_singleton] at hb
        exact (hb.resolve_left hold).symm
      obtain ⟨hip, hopen, htokens⟩ := he.banned heq
      have ht := h.tokens_le
      refine ⟨⟨by omega, hopen⟩, ?_⟩
      rw [he.trace, h.start hip, heq]
      simp

theorem queued_step (h : s.AuthInv env) (hst : Step env s s') (pre : List Event)
    (p : DiscordPacket) (post : List Event) (ht : s'.trace = pre ++ .queuePacket p :: post) :
    Approved env pre := by
  rcases trace_step hst with htrace | ⟨e, he⟩
  · exact h.queued pre p post (htrace ▸ ht)
  · rw [he.trace] at ht
    rcases List.eq_nil_or_concat post with rfl | ⟨post, e', rfl⟩
    · -- the packet that was queued by this step
      obtain ⟨hpre, heq⟩ := List.append_inj' ht rfl
      rw [← hpre]
      exact approved_of_session h.progress (he.session p (List.singleton_inj.mp heq))
    · rw [List.concat_eq_append, ← List.cons_append, ← List.append_assoc] at ht
      exact h.queued pre p post (List.append_inj' ht rfl).1

theorem authInv_step (h : s.AuthInv env) (hst : Step env s s') : s'.AuthInv env where
  receiver := by
    rcases receiver_step h.tokens_le hst with heq | ⟨l, hn, -⟩
    · rw [heq]
      exact h.receiver
    · exact Receiver.inv_next h.receiver hn
  tokens_le := le_trans (tokens_step hst) h.tokens_le
  start := start_step h hst
  banned := banned_step h hst
  progress := progress_step h hst
  queued := queued_step h hst

theorem authInv_run {ls : List Label} (h : Machine.run (next env) {} ls = some s) :
    s.AuthInv env :=
  Machine.run_induction (fun _ _ _ hs hn => authInv_step hs (next_step hs.tokens_le hn))
    authInv_new h

/-- The receiving side of a socket is a run of the machine of `Receiver`, so what holds
of its runs holds of every socket. -/
theorem receiver_run {ls : List Label} (h : Machine.run (next env) {} ls = some s) :
    ∃ ls', Machine.run Receiver.next {} ls' = some s.receiver := by
  refine (Machine.run_induction (P := fun s : DiscordSocket => s.AuthInv env ∧
    ∃ ls', Machine.run Receiver.next {} ls' = some s.receiver) ?_ ⟨authInv_new, [], rfl⟩ h).2
  rintro s l t ⟨hinv, ls', hrun⟩ hn
  have hst := next_step hinv.tokens_le hn
  refine ⟨authInv_step hinv hst, ?_⟩
  rcases receiver_step hinv.tokens_le hst with heq | ⟨l', hl', -⟩
  · exact ⟨ls', heq ▸ hrun⟩
  · refine ⟨ls' ++ [l'], ?_⟩
    simp [Machine.run_append, hrun, Machine.run_cons, hl']

/-- At most one login is ever handled and at most one session created. -/
theorem counts_le_one (h : s.Progress env) : s.handled ≤ 1 ∧ s.created ≤ 1 := by
  cases h with
  | fresh h => simp [h.handled, h.created]
  | @running c hchain h =>
      rw [h.handled, h.created]
      refine ⟨le_rfl, ?_⟩
      cases c.stage <;> simp [Stage.created]
  | loggedIn h => simp [h.handled, h.created]
  | rejected h => simp [h.handled, h.created]

/-- **The gate.**  Whatever a client sends, in whatever pieces, and in whatever order
the answers come back: at most one read is outstanding, `HandleAuthSession` completes
and a session is created at most once, a packet reaches the session only after every
check of the login has passed, and nothing is read from a client whose address is
banned. -/
theorem auth_gate {ls : List Label} (h : Machine.run (next env) {} ls = some s) :
    s.receiver.reads ≤ 1 ∧
    s.trace.countP Event.isAuthSession ≤ 1 ∧ s.trace.countP Event.isSessionCreated ≤ 1 ∧
    (∀ pre p post, s.trace = pre ++ .queuePacket p :: post → ∃ auth a,
      .accountAnswer auth (some a) false ∈ pre ∧ a.isPermanentlyBanned = false ∧
      a.isBanned = false ∧ env.checkKey auth a = true ∧ .guildAnswer a true ∈ pre) ∧
    (.ipAnswer true ∈ s.trace → ∀ chunk, .read chunk ∉ s.trace) := by
  have hinv := authInv_run h
  obtain ⟨hhandled, hcreated⟩ := counts_le_one hinv.progress
  refine ⟨hinv.receiver.reads_le, hhandled, hcreated, ?_, fun hb => (hinv.banned hb).2⟩
  intro pre p post ht
  obtain ⟨auth, a, ⟨hfound, hperm, hban, hkey⟩, hguild⟩ := hinv.queued pre p post ht
  exact ⟨auth, a, hfound, hperm, hban, hkey, hguild⟩

/-- Every key is accepted and every text is valid. -/
def sampleEnv : Env := ⟨fun _ _ => true, fun _ => true⟩

/-- The answers of a login that succeeds. -/
def sampleLogin : List Label :=
  [.accountAnswer 0 (some (sampleAccount, none, [0, 0, 0, 0])) false 5, .guildAnswer 0 true,
   .channelAnswer 0 (Vector.replicate 7 0), .proceed 0, .proceed 0, .proceed 0, .proceed 0]

/-- A login followed by one message. -/
def messageRun : List Label :=
  [.ipAnswer [], .receive [0, 0, 0, 10, 2, 0, 0, 0, 0, 0, 1, 0, 0, 0], .pass 1] ++ sampleLogin ++
    [.receive [0, 0, 0, 3, 3, 0, 42], .pass 2, .pass 3]

/-- The message of a client that has logged in reaches its session. -/
theorem auth_gate_message :
    ∃ s, Machine.run (next sampleEnv) {} messageRun = some s ∧
      .queuePacket ⟨3, [42]⟩ ∈ s.trace ∧ s.receiver.reads ≤ 1 ∧
      s.trace.countP Event.isSessionCreated ≤ 1 := by
  have hrun : (Machine.run (next sampleEnv) {} messageRun).map
      (fun s => decide (.queuePacket ⟨3, [42]⟩ ∈ s.trace)) = some true := by
    decide +kernel
  obtain ⟨s, hs, hq⟩ := Option.map_eq_some_iff.mp hrun
  have hgate := auth_gate hs
  exact ⟨s, hs, of_decide_eq_true hq, hgate.1, hgate.2.2.1⟩

end DiscordSocket
end WarheadDiscord
