import WarheadDiscord.Server.AuthGate
import WarheadDiscord.Server.DiscordSession
import WarheadDiscord.Server.MessageHandler

/-!
# From the bytes of a client to the messages of the bot

The whole way of a message: the network thread cuts frames out of what a client sends, the last
callback of the login makes a session with the channels of the guild, `ReadDataHandler` queues
packets for the session, and the main thread passes them to the handlers, which ask the bot to send
something.  The socket and the session are the machines of the modules below; this module runs them
together, in any order of steps.

A frame can be in three places: in the buffers of the socket, in the queue of the session, or
behind it.  The invariant counts the frames by their effect.  A frame has an effect only if it is a
message; the login and the pings have none, so that what the bot was asked to send can be compared
with the parse of all the bytes, whatever else the client has sent between its messages.

That no packet is given to a session that was deleted is shown in `SessionThreads`; here a session
that is gone only keeps what was in its queue.

## Main definitions

* `SentMessage`, `callHandler`, `posts` — what a packet makes the bot send.
* `Flow`, `next` — the socket and its session.
* `SocketInv`, `Inv` — the invariants.
-/

namespace WarheadDiscord.MessageFlow

open Dpp (Embed)

/-- What does not change while the server runs. -/
structure Setting where
  env : Env
  bigEndian : Bool
  /-- `_isEnable` of the bot. -/
  isEnable : Bool

/-- An argument of `message_create`. -/
inductive SentMessage
  | content (channelID : ℤ) (text : List UInt8)
  | embed (channelID : ℤ) (embed : Embed)
  deriving DecidableEq, Repr

/-! ## The handlers -/

variable (setting : Setting)

/-- `SendDefaultMessage` -/
def sendDefaultMessage (channelID : ℤ) (message : List UInt8) : List SentMessage :=
  if !setting.isEnable then [] else [.content channelID message]

/-- `SendEmbedMessage`; the embed is not null. -/
def sendEmbedMessage (channelID : ℤ) (embed : Embed) : List SentMessage :=
  if !setting.isEnable then [] else [.embed channelID embed]

structure SendDiscordMessage where
  channelType : BitVec 8
  context : List UInt8
  deriving DecidableEq, Repr

/-- `SendDiscordMessage::Read` -/
def SendDiscordMessage.read (bigEndian : Bool) (content : List UInt8) :
    Except ByteBufferException SendDiscordMessage :=
  match (ByteBuffer.ofMessage content).readValue bigEndian 1 with
  | (.error e, _) => .error e
  | (.ok channelType, worldPacket) =>
      match worldPacket.readCString bigEndian true with
      | (.error e, _) => .error e
      | (.ok context, _) => .ok ⟨channelType, context⟩

def handleSendDiscordMessageOpcode (channels : DiscordChannelsList) (packet : SendDiscordMessage) :
    List SentMessage :=
  let channelID := getChannelID channels packet.channelType
  if channelID = 0 then [] else sendDefaultMessage setting channelID packet.context

/-- `PacketHandler::Call`: how it ends, and what the bot was asked to send. -/
def callHandler (channels : DiscordChannelsList) (packet : QueuedPacket) :
    CallResult × List SentMessage :=
  match packet.handler with
  | .handleHelloOpcode =>
      match ((ByteBuffer.ofMessage packet.1.contents).readCString setting.bigEndian true).1 with
      | .error _ => (.byteBufferException, [])
      | .ok _ => (.returned, [])
  | .handleEarlyProccess | .handleServerSide => (.returned, [])
  | .handleSendDiscordMessageOpcode =>
      match SendDiscordMessage.read setting.bigEndian packet.1.contents with
      | .error _ => (.byteBufferException, [])
      | .ok message => (.returned, handleSendDiscordMessageOpcode setting channels message)
  | .handleSendDiscordEmbedMessageOpcode =>
      match callEmbed setting.bigEndian channels packet.1.contents with
      | .threw _ => (.byteBufferException, [])
      | .noChannel | .undefined => (.returned, [])
      | .sendEmbedMessage channelID embed _ => (.returned, sendEmbedMessage setting channelID embed)

/-- The branch for a read behind the end of a string is not taken. -/
theorem callEmbed_ne_undefined (bigEndian : Bool) (channels : DiscordChannelsList)
    (content : List UInt8) : callEmbed bigEndian channels content ≠ .undefined := by
  intro h
  rcases hread : SendDiscordEmbedMessage.read bigEndian (.new content) with ⟨e | ⟨⟩, packet⟩
  · simp [callEmbed, hread] at h
  · obtain ⟨m, rest, hcontent, rfl⟩ := SendDiscordEmbedMessage.read_eq_ok_iff.1 hread
    by_cases hchannel : getChannelID channels m.header.channelType = 0
    · have hchannel' : getChannelID channels (m.packet content).channelType = 0 := hchannel
      simp [callEmbed, hread, handleSendDiscordEmbedMessageOpcode, hchannel'] at h
    · obtain ⟨embed, errors, hcall, -⟩ := callEmbed_bytes bigEndian hcontent hchannel
      rw [hcall] at h
      cases h

/-- The packet as one that can be queued. -/
def toQueued (p : DiscordPacket) : Option QueuedPacket :=
  if h : (opcodeTable p.opcode).isSome then some ⟨p, h⟩ else none

/-- What the bot is asked to send for a packet. -/
def posts (channels : DiscordChannelsList) (p : DiscordPacket) : List SentMessage :=
  match toQueued p with
  | some packet => (callHandler setting channels packet).2
  | none => []

/-! ## The socket and its session -/

/-- A session with its `_channels`. -/
structure Session where
  channels : DiscordChannelsList
  state : DiscordSession := {}
  deriving DecidableEq, Repr

structure Flow where
  socket : DiscordSocket := {}
  /-- The channels that the last callback of the login was given. -/
  channels : DiscordChannelsList := Vector.replicate DEFAULT_CHANNELS_COUNT 0
  session : Option Session := none
  /-- All calls of `message_create`. -/
  posted : List SentMessage := []
  deriving DecidableEq, Repr

def Session.queuePacket (c : Session) (p : DiscordPacket) : Session :=
  match toQueued p with
  | some packet => { c with state := c.state.queuePacket packet }
  | none => c

@[simp] theorem Session.channels_queuePacket (c : Session) (p : DiscordPacket) :
    (c.queuePacket p).channels = c.channels := by
  rw [Session.queuePacket]
  split <;> rfl

@[simp] theorem Session.socket_queuePacket (c : Session) (p : DiscordPacket) :
    (c.queuePacket p).state.socket = c.state.socket := by
  rw [Session.queuePacket]
  split <;> rfl

@[simp] theorem Session.handled_queuePacket (c : Session) (p : DiscordPacket) :
    (c.queuePacket p).state.handled = c.state.handled := by
  rw [Session.queuePacket]
  split <;> rfl

@[simp] theorem Session.recvQueue_queuePacket (c : Session) (p : DiscordPacket) :
    (c.queuePacket p).state.recvQueue = c.state.recvQueue ++ [p].filterMap toQueued := by
  rw [Session.queuePacket]
  split <;> rename_i h <;> simp [h, DiscordSession.queuePacket]

/-- What a step of the socket does to the session. -/
def record (s : Flow) : Event → Flow
  | .sessionCreated => { s with session := some { channels := s.channels } }
  | .queuePacket p => { s with session := s.session.map fun c => c.queuePacket p }
  | _ => s

/-- The channels that the callback was given, if this is its step. -/
def channelsAfter (s : Flow) : DiscordSocket.Label → DiscordChannelsList
  | .channelAnswer _ channels => channels
  | _ => s.channels

/-- A step of the socket. -/
def socketStep (s : Flow) (l : DiscordSocket.Label) : Option Flow :=
  (s.socket.next setting.env l).map fun socket =>
    (socket.trace.drop s.socket.trace.length).foldl record
      { s with socket, channels := channelsAfter s l }

/-- `Update` of the session, with the handlers. -/
def update (s : Flow) (c : Session) : Flow :=
  let results (k : ℕ) :=
    match c.state.recvQueue[k]? with
    | some packet => (callHandler setting c.channels packet).1
    | none => .returned
  let state := (c.state.update s.socket.receiver.isOpen results).1
  { s with
    session := some { c with state }
    posted := s.posted ++ (state.handled.drop c.state.handled.length).flatMap fun call =>
      (callHandler setting c.channels call.packet).2 }

/-- `AddSession` for another session of the account: this one is kicked and deleted. -/
def replace (s : Flow) (c : Session) : Flow :=
  { s with
    socket := s.socket.withReceiver s.socket.receiver.closeSocket
    session := some { c with state := { c.state with socket := false } } }

/-- The session is in the map: `AddSession` has been called, and `Update` has not returned `false`,
whereupon it is deleted. -/
def isRegistered (s : Flow) (c : Session) : Bool :=
  c.state.socket && s.socket.chains.all fun chain => chain.stage ≠ .addSession

inductive Label
  | socket (l : DiscordSocket.Label)
  | update
  | replace

/-- The machine. -/
def next (s : Flow) : Label → Option Flow
  | .socket l => socketStep setting s l
  | .update => s.session.bind fun c => if isRegistered s c then some (update setting s c) else none
  | .replace => s.session.bind fun c => if isRegistered s c then some (replace s c) else none

/-! ## The packets that count -/

def queuedIn (trace : List Event) : List DiscordPacket :=
  trace.filterMap fun
    | .queuePacket p => some p
    | _ => none

@[simp] theorem queuedIn_append (trace events : List Event) :
    queuedIn (trace ++ events) = queuedIn trace ++ queuedIn events := List.filterMap_append

/-- `ReadDataHandler` leaves the packet to the session. -/
def isMessage (p : DiscordPacket) : Bool :=
  p.opcode ≠ DiscordCode.clientSendPing.toUInt16 &&
    p.opcode ≠ DiscordCode.clientAuthSession.toUInt16

/-- The packets that did not make `ReadHandler` close the socket. -/
def accepted (calls : List (DiscordPacket × ReadDataHandlerResult)) : List DiscordPacket :=
  (calls.filter fun call => call.2 ≠ .error).map Prod.fst

/-- The messages among the packets that were handed over. -/
def messages (calls : List (DiscordPacket × ReadDataHandlerResult)) : List DiscordPacket :=
  (accepted calls).filter isMessage

@[simp] theorem accepted_append (calls calls' : List (DiscordPacket × ReadDataHandlerResult)) :
    accepted (calls ++ calls') = accepted calls ++ accepted calls' := by
  simp [accepted]

@[simp] theorem messages_append (calls calls' : List (DiscordPacket × ReadDataHandlerResult)) :
    messages (calls ++ calls') = messages calls ++ messages calls' := by
  simp [messages]

@[simp] theorem messages_error (p : DiscordPacket) : messages [(p, .error)] = [] := rfl

/-- Only messages have an effect. -/
theorem posts_of_not_isMessage (channels : DiscordChannelsList) {p : DiscordPacket}
    (h : isMessage p = false) : posts setting channels p = [] := by
  have hopcode : p.opcode = DiscordCode.clientSendPing.toUInt16 ∨
      p.opcode = DiscordCode.clientAuthSession.toUInt16 := by
    simpa [isMessage, Classical.or_iff_not_imp_left] using h
  have hhandler : opcodeTable p.opcode = some .handleEarlyProccess := by
    rcases hopcode with heq | heq <;> rw [heq] <;> rfl
  simp [posts, toQueued, hhandler, callHandler, QueuedPacket.handler]

theorem flatMap_messages (channels : DiscordChannelsList)
    (calls : List (DiscordPacket × ReadDataHandlerResult)) :
    (messages calls).flatMap (posts setting channels) =
      (accepted calls).flatMap (posts setting channels) := by
  rw [messages]
  induction accepted calls with
  | nil => rfl
  | cons p ps ih =>
      cases hp : isMessage p with
      | true => simp [hp, ih]
      | false => simp [hp, ih, posts_of_not_isMessage setting channels hp]

/-! ## Steps of the socket -/

/-- The packets queued by some steps are the messages that were handed over. -/
def Balanced (s s' : DiscordSocket) : Prop :=
  ∃ calls events, s'.receiver.calls = s.receiver.calls ++ calls ∧
    s'.trace = s.trace ++ events ∧ queuedIn events = messages calls

section Socket

variable {env : Env} {s s' : DiscordSocket}

theorem balanced_of_eq (events : List Event) (hcalls : s'.receiver.calls = s.receiver.calls)
    (htrace : s'.trace = s.trace ++ events) (hevents : queuedIn events = []) : Balanced s s' :=
  ⟨[], events, by simp [hcalls], htrace, hevents⟩

theorem balanced_reject {t : DiscordSocket} (h : Balanced s t) (code : DiscordAuthResponseCodes) :
    Balanced s (t.reject code) := by
  obtain ⟨calls, events, hcalls, htrace, hevents⟩ := h
  have hsame := DiscordSocket.same_reject t code
  refine ⟨calls, events, ?_, hsame.trace.trans htrace, hevents⟩
  rw [hsame.receiver]
  exact hcalls

theorem balanced_readDataHandler (env : Env) (s : DiscordSocket) (now : ℕ) (p : DiscordPacket) :
    ∃ events, (s.readDataHandler env now p).2.trace = s.trace ++ events ∧
      queuedIn events = messages [(p, (s.readDataHandler env now p).1)] ∧
      (s.readDataHandler env now p).2.receiver = s.receiver := by
  simp only [DiscordSocket.readDataHandler]
  split
  case isTrue hping =>
    have hmessage : isMessage p = false := by simp [isMessage, hping]
    have hnone (answer : ReadDataHandlerResult) : messages [(p, answer)] = [] := by
      cases answer <;> simp [messages, accepted, hmessage]
    cases hp : s.handlePing now p.contents with
    | none => exact ⟨[], by simp, (hnone _).symm, rfl⟩
    | some r =>
        obtain ⟨answer, t⟩ := r
        have hsame := DiscordSocket.same_handlePing hp
        cases answer with
        | true => exact ⟨[], by simp [hsame.trace], (hnone _).symm, hsame.receiver⟩
        | false => exact ⟨[], by simp [hsame.trace], (hnone _).symm, hsame.receiver⟩
  case isFalse hping =>
    split
    case isTrue hauth =>
      have hmessage : isMessage p = false := by simp [isMessage, hauth]
      cases s.authed with
      | true => exact ⟨[], by simp, rfl, rfl⟩
      | false =>
          cases handleAuthSession env p.contents with
          | none => exact ⟨[], by simp, rfl, rfl⟩
          | some auth =>
              exact ⟨[.authSession auth], rfl, by simp [queuedIn, messages, accepted, hmessage],
                rfl⟩
    case isFalse hauth =>
      have hmessage : isMessage p = true := by simp [isMessage, hping, hauth]
      cases s.session with
      | false => exact ⟨[], by simp, rfl, rfl⟩
      | true =>
          cases DiscordSocket.hasHandler p.opcode with
          | false => exact ⟨[], by simp, rfl, rfl⟩
          | true =>
              exact ⟨[.queuePacket p], rfl, by simp [queuedIn, messages, accepted, hmessage], rfl⟩

/-- A pass hands over the next packet, if there is one. -/
theorem calls_pass (h : s.receiver.Inv) (hh : s.receiver.handling = true)
    (answer : ReadDataHandlerResult) :
    (s.receiver.pass answer).calls =
      s.receiver.calls ++ s.receiver.nextPacket.toList.map fun p => (p, answer) := by
  cases hp : s.receiver.nextPacket with
  | some p =>
      obtain ⟨b, heq⟩ := Receiver.pass_of_nextPacket hp answer
      rw [heq]
      cases answer <;> rfl
  | none =>
      have hr : s.receiver.Reading := h.stage.resolve_right fun hj => by simp [hj.2.2] at hh
      rcases Receiver.pass_cases hr answer with ⟨b, heq, -⟩ | ⟨b, heq, -⟩ | ⟨p, b, hp', -⟩
      · simp [heq]
      · simp [heq, Receiver.closeSocket]
      · rw [hp] at hp'
        cases hp'

theorem balanced_readHandlerPass (h : s.AuthInv env) (hh : s.receiver.handling = true) (now : ℕ) :
    Balanced s (s.readHandlerPass env now) := by
  rw [DiscordSocket.readHandlerPass]
  cases hp : s.receiver.nextPacket with
  | none =>
      have hcalls := calls_pass h.receiver hh .ok
      rw [hp] at hcalls
      exact balanced_of_eq [] (hcalls.trans (List.append_nil _)) (List.append_nil _).symm rfl
  | some p =>
      obtain ⟨events, htrace, hevents, -⟩ := balanced_readDataHandler env s now p
      have hcalls := calls_pass h.receiver hh (s.readDataHandler env now p).1
      rw [hp] at hcalls
      exact ⟨_, events, hcalls, htrace, hevents⟩

theorem balanced_next (h : s.AuthInv env) {l : DiscordSocket.Label}
    (hn : s.next env l = some s') : Balanced s s' := by
  cases DiscordSocket.taken_of_next hn with
  | ipAnswer rows hip hupdating =>
      rw [DiscordSocket.checkIpCallback]
      cases WarheadDiscord.checkIpCallback rows with
      | some code =>
          refine balanced_reject ?_ code
          exact balanced_of_eq [.ipAnswer true] rfl rfl rfl
      | none =>
          exact balanced_of_eq [.ipAnswer false] (Receiver.calls_asyncRead _) rfl rfl
  | @receive chunk r hr =>
      obtain ⟨-, heq⟩ := Option.ite_none_right_eq_some.mp hr
      cases heq
      exact balanced_of_eq [.read chunk] rfl rfl rfl
  | readError hr =>
      obtain ⟨-, heq⟩ := Option.ite_none_right_eq_some.mp hr
      cases heq
      exact balanced_of_eq [] rfl (List.append_nil _).symm rfl
  | pass now hh => exact balanced_readHandlerPass h hh now
  | @accountAnswer i c row isClosed now hc hstage hupdating =>
      rw [DiscordSocket.accountCallback]
      split
      · refine balanced_reject ?_ _
        exact balanced_of_eq [.accountAnswer ..] rfl rfl rfl
      · exact balanced_of_eq [.accountAnswer ..] rfl rfl rfl
  | guildAnswer isExist hc hstage =>
      cases isExist with
      | true => exact balanced_of_eq [.guildAnswer ..] rfl rfl rfl
      | false =>
          refine balanced_reject ?_ _
          exact balanced_of_eq [.guildAnswer ..] rfl rfl rfl
  | channelAnswer channels hc hstage =>
      exact balanced_of_eq [] rfl (List.append_nil _).symm rfl
  | @proceed i c s' hc hproceed =>
      rw [DiscordSocket.proceed] at hproceed
      split at hproceed
      · cases hproceed
        exact balanced_of_eq [] rfl (List.append_nil _).symm rfl
      · cases hproceed
        exact balanced_of_eq [.sessionCreated] rfl rfl rfl
      · cases hproceed
        exact balanced_of_eq [] rfl (List.append_nil _).symm rfl
      · cases hproceed
        exact balanced_of_eq [] (Receiver.calls_asyncRead _) (List.append_nil _).symm rfl
      · cases hproceed
  | closeSocket => exact balanced_of_eq [] rfl (List.append_nil _).symm rfl

/-- A step hands over a packet at most, and one that closes the socket leaves nobody who could go
on reading. -/
theorem calls_step (h : s.AuthInv env) (hst : DiscordSocket.Step env s s') :
    s'.receiver.calls = s.receiver.calls ∨
      s.receiver.handling = true ∧ ∃ call, s'.receiver.calls = s.receiver.calls ++ [call] ∧
        (call.2 = .error → s'.tokens = 0 ∧ s'.receiver.closed = true) := by
  have hpass (hh : s.receiver.handling = true) (answer : ReadDataHandlerResult)
      (hne : answer ≠ .error) (hcalls : s'.receiver.calls = (s.receiver.pass answer).calls) :
      s'.receiver.calls = s.receiver.calls ∨
        s.receiver.handling = true ∧ ∃ call, s'.receiver.calls = s.receiver.calls ++ [call] ∧
          (call.2 = .error → s'.tokens = 0 ∧ s'.receiver.closed = true) := by
    rw [hcalls, calls_pass h.receiver hh answer]
    cases s.receiver.nextPacket with
    | none => exact .inl (List.append_nil _)
    | some p => exact .inr ⟨hh, (p, answer), rfl, fun herror => absurd herror hne⟩
  cases hst with
  | @passed t answer hh hsame hquiet =>
      by_cases herror : answer = .error
      · subst herror
        have hcalls := calls_pass h.receiver hh .error
        cases hp : s.receiver.nextPacket with
        | none =>
            rw [hp] at hcalls
            exact .inl (hcalls.trans (List.append_nil _))
        | some p =>
            rw [hp] at hcalls
            obtain ⟨b, heq⟩ := Receiver.pass_of_nextPacket hp .error
            have hreads := h.receiver.reads_handling hh
            have htokens := h.tokens_le
            simp only [DiscordSocket.tokens, hh, Bool.toNat_true] at htokens
            refine .inr ⟨hh, (p, .error), hcalls, fun _ => ⟨?_, ?_⟩⟩
            · simp only [DiscordSocket.tokens, DiscordSocket.withReceiver, heq, Receiver.answered,
                Receiver.closeSocket, hsame.ipQuery, hsame.chains, Bool.toNat_false]
              omega
            · simp [DiscordSocket.withReceiver, heq, Receiver.answered, Receiver.closeSocket]
      · exact hpass hh answer herror rfl
  | queued hh _ => exact hpass hh .ok (by simp) rfl
  | authStarted hh _ _ => exact hpass hh .waitingForQuery (by simp) rfl
  | received hr =>
      obtain ⟨-, heq⟩ := Option.ite_none_right_eq_some.mp hr
      cases heq
      exact .inl rfl
  | readError hr =>
      obtain ⟨-, heq⟩ := Option.ite_none_right_eq_some.mp hr
      cases heq
      exact .inl rfl
  | ipAccepted _ => exact .inl (Receiver.calls_asyncRead _)
  | chainRead _ _ => exact .inl (Receiver.calls_asyncRead _)
  | ipRejected code _ =>
      rw [(DiscordSocket.same_reject _ code).receiver]
      exact .inl rfl
  | accountRejected code _ _ =>
      rw [(DiscordSocket.same_reject _ code).receiver]
      exact .inl rfl
  | guildRejected _ _ =>
      rw [(DiscordSocket.same_reject _ .botNotFound).receiver]
      exact .inl rfl
  | _ => exact .inl rfl

/-- The invariant of the socket. -/
structure SocketInv (env : Env) (s : DiscordSocket) : Prop where
  auth : s.AuthInv env
  counted : queuedIn s.trace = messages s.receiver.calls
  /-- Nothing follows a packet that closes the socket. -/
  failed : ∀ call ∈ s.receiver.calls, call.2 = .error → s.tokens = 0 ∧ s.receiver.closed = true
  ordered : accepted s.receiver.calls <+: s.receiver.delivered

theorem socketInv_new (env : Env) : SocketInv env {} where
  auth := DiscordSocket.authInv_new
  counted := rfl
  failed := by simp
  ordered := List.prefix_rfl

theorem accepted_eq_delivered {r : Receiver} (h : ∀ call ∈ r.calls, call.2 ≠ .error) :
    accepted r.calls = r.delivered := by
  rw [accepted, List.filter_eq_self.mpr (by simpa using h), Receiver.delivered]

theorem socketInv_next (h : SocketInv env s) {l : DiscordSocket.Label}
    (hn : s.next env l = some s') : SocketInv env s' := by
  have hst := DiscordSocket.next_step h.auth.tokens_le hn
  have hauth := DiscordSocket.authInv_step h.auth hst
  have hcounted : queuedIn s'.trace = messages s'.receiver.calls := by
    obtain ⟨calls, events, hcalls, htrace, hevents⟩ := balanced_next h.auth hn
    rw [htrace, queuedIn_append, h.counted, hevents, hcalls, messages_append]
  by_cases hfailed : ∃ call ∈ s.receiver.calls, call.2 = .error
  · -- nobody reads any more
    obtain ⟨call, hmem, herror⟩ := hfailed
    have htokens := (h.failed call hmem herror).1
    have heq := DiscordSocket.step_of_tokens_eq_zero htokens hst
    subst heq
    exact ⟨hauth, hcounted, fun _ _ _ => ⟨htokens, rfl⟩, h.ordered⟩
  · have hall : ∀ call ∈ s.receiver.calls, call.2 ≠ .error :=
      fun call hmem herror => hfailed ⟨call, hmem, herror⟩
    rcases calls_step h.auth hst with hcalls | ⟨-, call, hcalls, herror⟩
    · refine ⟨hauth, hcounted, ?_, ?_⟩
      · rw [hcalls]
        exact fun call hmem herror => absurd herror (hall call hmem)
      · rw [Receiver.delivered, hcalls]
        exact h.ordered
    · refine ⟨hauth, hcounted, ?_, ?_⟩
      · rw [hcalls, List.forall_mem_append]
        exact ⟨fun call hmem herror => absurd herror (hall call hmem),
          List.forall_mem_singleton.mpr herror⟩
      · rw [Receiver.delivered, hcalls, accepted_append, accepted_eq_delivered hall,
          List.map_append, Receiver.delivered, List.prefix_append_right_inj]
        cases hresult : call.2 <;> simp [accepted, hresult]

/-- A socket that is open has always been. -/
theorem isOpen_of_next {r r' : Receiver} (h : r.Inv) {l : Receiver.Label}
    (hn : r.next l = some r') (hopen : r'.isOpen = true) : r.isOpen = true := by
  cases Receiver.stepped_of_next hn with
  | asyncRead => rwa [Receiver.isOpen_asyncRead] at hopen
  | receive => exact hopen
  | readError => cases hopen
  | closeSocket => cases hopen
  | delayedCloseSocket => simp [Receiver.delayedCloseSocket, Receiver.isOpen] at hopen
  | pass answer hh =>
      have hr : r.Reading := h.stage.resolve_right fun hj => by simp [hj.2.2] at hh
      rcases Receiver.pass_cases hr answer with ⟨b, heq, -⟩ | ⟨b, heq, -⟩ | ⟨p, b, -, heq, -⟩
      · rw [heq, Receiver.isOpen_asyncRead] at hopen
        exact hopen
      · rw [heq] at hopen
        cases hopen
      · rw [heq] at hopen
        cases answer with
        | ok => exact hopen
        | error => cases hopen
        | waitingForQuery => exact hopen

theorem isOpen_step (h : s.AuthInv env) (hst : DiscordSocket.Step env s s')
    (hopen : s'.receiver.isOpen = true) : s.receiver.isOpen = true := by
  rcases DiscordSocket.receiver_step h.tokens_le hst with heq | ⟨l, hl, -⟩
  · rwa [heq] at hopen
  · exact isOpen_of_next h.receiver hl hopen

/-- A session exists only behind the one event that creates it. -/
theorem created_of_session (h : s.AuthInv env) (hs : s.session = true) : s.created = 1 := by
  cases h.progress with
  | fresh hf =>
      rw [hf.session] at hs
      cases hs
  | running _ hr => exact hr.session hs
  | loggedIn hl => exact hl.created
  | rejected hr =>
      rw [hr.session] at hs
      cases hs

end Socket

/-! ## The session -/

/-- What the handlers did with some packets of the session. -/
def effects (channels : DiscordChannelsList) (packets : List QueuedPacket) : List SentMessage :=
  packets.flatMap fun packet => (callHandler setting channels packet).2

@[simp] theorem effects_append (channels : DiscordChannelsList) (xs ys : List QueuedPacket) :
    effects setting channels (xs ++ ys) =
      effects setting channels xs ++ effects setting channels ys := List.flatMap_append

theorem effects_filterMap (channels : DiscordChannelsList) (ps : List DiscordPacket) :
    effects setting channels (ps.filterMap toQueued) = ps.flatMap (posts setting channels) := by
  induction ps with
  | nil => rfl
  | cons p ps ih =>
      cases hp : toQueued p with
      | none => simp [posts, hp, ih]
      | some packet => simpa [effects, posts, hp] using ih

/-- What `Update` does, whether or not the socket is still open. -/
theorem update_state {state : DiscordSession} (hs : state.socket = true) (isOpen : Bool)
    (results : ℕ → CallResult) :
    ((state.update isOpen results).1).socket = isOpen ∧
      ((state.update isOpen results).1).recvQueue =
        state.recvQueue.drop (MAX_PROCESSED_PACKETS_IN_SAME_WORLDSESSION_UPDATE + 1) ∧
      ((state.update isOpen results).1).handled =
        state.handled ++ DiscordSession.passedOn results 0
          (state.recvQueue.take (MAX_PROCESSED_PACKETS_IN_SAME_WORLDSESSION_UPDATE + 1)) := by
  simp [DiscordSession.update, hs,
    DiscordSession.updateLoop_eq results state.recvQueue (Nat.zero_le _)]

/-- What a session has handled and what waits is what the socket has queued. -/
structure SessionInv (s : Flow) (c : Session) : Prop where
  created : s.socket.created = 1
  counted : c.state.handled.map HandlerCall.packet ++ c.state.recvQueue =
    (queuedIn s.socket.trace).filterMap toQueued
  posted : s.posted = effects setting c.channels (c.state.handled.map HandlerCall.packet)
  /-- It is deleted only when its socket is closed. -/
  gone : c.state.socket = false → s.socket.receiver.isOpen = false

structure Inv (s : Flow) : Prop where
  socket : SocketInv setting.env s.socket
  before : s.session = none →
    s.socket.created = 0 ∧ queuedIn s.socket.trace = [] ∧ s.posted = []
  session : ∀ c, s.session = some c → SessionInv setting s c

section Flow

variable {setting} {s s' : Flow} {c : Session}

theorem inv_new (setting : Setting) : Inv setting {} where
  socket := socketInv_new setting.env
  before := fun _ => ⟨rfl, rfl, rfl⟩
  session := fun c hc => by cases hc

variable (setting) in
theorem effects_update (hs : c.state.socket = true) :
    ∃ state, update setting s c = { s with
        session := some { c with state }
        posted := s.posted ++ effects setting c.channels
          (c.state.recvQueue.take (MAX_PROCESSED_PACKETS_IN_SAME_WORLDSESSION_UPDATE + 1)) } ∧
      state.socket = s.socket.receiver.isOpen ∧
      state.recvQueue =
        c.state.recvQueue.drop (MAX_PROCESSED_PACKETS_IN_SAME_WORLDSESSION_UPDATE + 1) ∧
      state.handled.map HandlerCall.packet = c.state.handled.map HandlerCall.packet ++
        c.state.recvQueue.take (MAX_PROCESSED_PACKETS_IN_SAME_WORLDSESSION_UPDATE + 1) := by
  obtain ⟨hsocket, hqueue, hhandled⟩ := update_state hs s.socket.receiver.isOpen fun k =>
    match c.state.recvQueue[k]? with
    | some packet => (callHandler setting c.channels packet).1
    | none => .returned
  refine ⟨_, ?_, hsocket, hqueue, ?_⟩
  · have hmap (calls : List HandlerCall) :
        (calls.flatMap fun call => (callHandler setting c.channels call.packet).2) =
          effects setting c.channels (calls.map HandlerCall.packet) := by
      simp [effects, List.flatMap_map]
    rw [update, hmap]
    simp only [hhandled, List.drop_left, DiscordSession.map_packet_passedOn]
  · rw [hhandled, List.map_append, DiscordSession.map_packet_passedOn]

theorem inv_update (h : Inv setting s) (hc : s.session = some c) (hs : c.state.socket = true) :
    Inv setting (update setting s c) := by
  obtain ⟨state, heq, hsocket, hqueue, hhandled⟩ := effects_update setting (s := s) hs
  have hsession := h.session c hc
  rw [heq]
  refine ⟨h.socket, nofun, ?_⟩
  intro c' hc'
  cases hc'
  refine ⟨hsession.created, ?_, ?_, ?_⟩
  · rw [hhandled, hqueue, List.append_assoc, List.take_append_drop]
    exact hsession.counted
  · change s.posted ++ _ = effects setting c.channels (state.handled.map HandlerCall.packet)
    rw [hhandled, effects_append, ← hsession.posted]
  · intro hgone
    exact hsocket.symm.trans hgone

theorem inv_replace (h : Inv setting s) (hc : s.session = some c) :
    Inv setting (replace s c) := by
  have hsession := h.session c hc
  have hclose : s.socket.next setting.env .closeSocket =
      some (s.socket.withReceiver s.socket.receiver.closeSocket) := rfl
  refine ⟨socketInv_next h.socket hclose, nofun, ?_⟩
  intro c' hc'
  cases hc'
  exact ⟨hsession.created, hsession.counted, hsession.posted, fun _ => rfl⟩

/-- A step of the socket, with the one event it may add. -/
theorem socketStep_cases (h : Inv setting s) {l : DiscordSocket.Label}
    (hn : socketStep setting s l = some s') :
    ∃ socket channels, s.socket.next setting.env l = some socket ∧
      (socket.trace = s.socket.trace ∧ s' = { s with socket, channels } ∨
        ∃ e, socket.trace = s.socket.trace ++ [e] ∧
          (∀ p, e = .queuePacket p → s.socket.session = true) ∧
          s' = record { s with socket, channels } e) := by
  obtain ⟨socket, hsocket, rfl⟩ := Option.map_eq_some_iff.mp hn
  have hst := DiscordSocket.next_step h.socket.auth.tokens_le hsocket
  refine ⟨socket, channelsAfter s l, hsocket, ?_⟩
  rcases DiscordSocket.trace_step hst with htrace | ⟨e, he⟩
  · exact .inl ⟨htrace, by simp [htrace]⟩
  · exact .inr ⟨e, he.trace, he.session, by simp [he.trace]⟩

/-- A step that creates no session and queues nothing. -/
theorem inv_keep (h : Inv setting s) {socket : DiscordSocket} {channels : DiscordChannelsList}
    (hinv : SocketInv setting.env socket) (hcreated : socket.created = s.socket.created)
    (hqueued : queuedIn socket.trace = queuedIn s.socket.trace)
    (hopen : s.socket.receiver.isOpen = false → socket.receiver.isOpen = false) :
    Inv setting { s with socket, channels } where
  socket := hinv
  before := by
    intro hnone
    obtain ⟨hzero, hempty, hposted⟩ := h.before hnone
    exact ⟨hcreated.trans hzero, hqueued.trans hempty, hposted⟩
  session := by
    intro c hc
    have hsession := h.session c hc
    refine ⟨hcreated.trans hsession.created, ?_, hsession.posted,
      fun hgone => hopen (hsession.gone hgone)⟩
    rw [hsession.counted, hqueued]

/-- The session of a login is the first one, and nothing was queued before. -/
theorem inv_sessionCreated (h : Inv setting s) {socket : DiscordSocket}
    {channels : DiscordChannelsList} (hinv : SocketInv setting.env socket)
    (hcreated : socket.created = s.socket.created + 1)
    (hqueued : queuedIn socket.trace = queuedIn s.socket.trace) :
    Inv setting (record { s with socket, channels } .sessionCreated) := by
  have hone := (DiscordSocket.counts_le_one hinv.auth.progress).2
  have hnone : s.session = none := by
    cases hc : s.session with
    | none => rfl
    | some c =>
        have := (h.session c hc).created
        omega
  obtain ⟨hzero, hempty, hposted⟩ := h.before hnone
  refine ⟨hinv, nofun, ?_⟩
  intro c hc
  cases hc
  refine ⟨by rw [record, hcreated, hzero], ?_, hposted, nofun⟩
  simp [record, hqueued, hempty]

/-- A packet is queued for the session that exists. -/
theorem inv_queuePacket (h : Inv setting s) {socket : DiscordSocket}
    {channels : DiscordChannelsList} {p : DiscordPacket} (hinv : SocketInv setting.env socket)
    (hsession : s.socket.session = true) (hcreated : socket.created = s.socket.created)
    (hqueued : queuedIn socket.trace = queuedIn s.socket.trace ++ [p])
    (hopen : s.socket.receiver.isOpen = false → socket.receiver.isOpen = false) :
    Inv setting (record { s with socket, channels } (.queuePacket p)) := by
  have hone := created_of_session h.socket.auth hsession
  refine ⟨hinv, ?_, ?_⟩
  · intro hnone
    have := (h.before (Option.map_eq_none_iff.mp hnone)).1
    omega
  · intro c' hc'
    obtain ⟨c, hc, rfl⟩ := Option.map_eq_some_iff.mp hc'
    have hkeep := h.session c hc
    refine ⟨hcreated.trans hone, ?_, ?_, ?_⟩
    · rw [record, hqueued, List.filterMap_append, ← hkeep.counted]
      simp
    · simpa [record] using hkeep.posted
    · intro hgone
      exact hopen (hkeep.gone (by simpa using hgone))

theorem inv_socketStep (h : Inv setting s) {l : DiscordSocket.Label}
    (hn : socketStep setting s l = some s') : Inv setting s' := by
  obtain ⟨socket, channels, hsocket, hcases⟩ := socketStep_cases h hn
  have hinv := socketInv_next h.socket hsocket
  have hopen : s.socket.receiver.isOpen = false → socket.receiver.isOpen = false :=
    fun hclosed => Bool.eq_false_iff.mpr fun hsopen =>
      Bool.eq_false_iff.mp hclosed (isOpen_step h.socket.auth
        (DiscordSocket.next_step h.socket.auth.tokens_le hsocket) hsopen)
  rcases hcases with ⟨htrace, rfl⟩ | ⟨e, htrace, hsession, rfl⟩
  · exact inv_keep h hinv (by rw [DiscordSocket.created, htrace, DiscordSocket.created])
      (by rw [htrace]) hopen
  · have hcreated : socket.created = s.socket.created + [e].countP Event.isSessionCreated := by
      rw [DiscordSocket.created, htrace, List.countP_append, DiscordSocket.created]
    have hqueued : queuedIn socket.trace = queuedIn s.socket.trace ++ queuedIn [e] := by
      rw [htrace, queuedIn_append]
    cases e with
    | sessionCreated => exact inv_sessionCreated h hinv hcreated (hqueued.trans (List.append_nil _))
    | queuePacket p => exact inv_queuePacket h hinv (hsession p rfl) hcreated hqueued hopen
    | _ => exact inv_keep h hinv hcreated (hqueued.trans (List.append_nil _)) hopen

theorem inv_next (h : Inv setting s) {l : Label} (hn : next setting s l = some s') :
    Inv setting s' := by
  cases l with
  | socket l => exact inv_socketStep h hn
  | update =>
      obtain ⟨c, hc, hstep⟩ := Option.bind_eq_some_iff.mp hn
      obtain ⟨hregistered, heq⟩ := Option.ite_none_right_eq_some.mp hstep
      cases heq
      exact inv_update h hc (Bool.and_eq_true_iff.mp hregistered).1
  | replace =>
      obtain ⟨c, hc, hstep⟩ := Option.bind_eq_some_iff.mp hn
      obtain ⟨-, heq⟩ := Option.ite_none_right_eq_some.mp hstep
      cases heq
      exact inv_replace h hc

theorem inv_run {ls : List Label} (h : Machine.run (next setting) {} ls = some s) :
    Inv setting s :=
  Machine.run_induction (fun _ _ _ hs hn => inv_next hs hn) (inv_new setting) h

/-! ## Nothing is lost, and nothing comes twice -/

/-- What was sent and what waits is the effect of the packets that were accepted. -/
theorem SessionInv.effects_eq (h : SessionInv setting s c) (hs : SocketInv setting.env s.socket) :
    s.posted ++ effects setting c.channels c.state.recvQueue =
      (accepted s.socket.receiver.calls).flatMap (posts setting c.channels) := by
  rw [h.posted, ← effects_append, h.counted, effects_filterMap, hs.counted, flatMap_messages]

/-- **The bot is asked for nothing that the client did not send**, in no other order and not twice,
over every run: what it was asked to send is the effect of the first messages among the frames of
the stream. -/
theorem posted_prefix {ls : List Label} (h : Machine.run (next setting) {} ls = some s) :
    match s.session with
    | none => s.posted = []
    | some c =>
        s.posted <+: (parse s.socket.receiver.stream).1.flatMap (posts setting c.channels) := by
  have hinv := inv_run h
  split
  case h_1 hnone => exact (hinv.before hnone).2.2
  case h_2 c hc =>
    have heffects := (hinv.session c hc).effects_eq hinv.socket
    have hdelivered : s.socket.receiver.delivered <+: (parse s.socket.receiver.stream).1 := by
      rcases hinv.socket.auth.receiver.stage with hr | ⟨hr, -, -⟩
      · have hparse := hr.parse_stream []
        rw [List.append_nil] at hparse
        rw [hparse]
        exact List.prefix_append _ _
      · have hparse := hr.parse_stream []
        rw [List.append_nil] at hparse
        exact hparse ▸ List.prefix_rfl
    obtain ⟨rest, hrest⟩ := hinv.socket.ordered.trans hdelivered
    rw [← hrest, List.flatMap_append, ← heffects, List.append_assoc]
    exact List.prefix_append _ _

/-- A login to a guild with channels, and a text behind it. -/
def greetingCalls : List Label :=
  (([.ipAnswer [], .receive [0, 0, 0, 10, 2, 0, 0, 0, 0, 0, 1, 0, 0, 0], .pass 1,
    .accountAnswer 0 (some (sampleAccount, none, [0, 0, 0, 0])) false 5,
    .guildAnswer 0 true, .channelAnswer 0 (Vector.replicate 7 5), .proceed 0, .proceed 0,
    .proceed 0, .proceed 0, .receive [0, 0, 0, 6, 3, 0, 0, 0x68, 0x69, 0], .pass 2, .pass 3] :
      List DiscordSocket.Label)).map .socket

def greetingSetting : Setting := ⟨DiscordSocket.sampleEnv, false, true⟩

theorem posted_prefix_greeting :
    ∃ s c, Machine.run (next greetingSetting) {} (greetingCalls ++ [.update]) = some s ∧
      s.session = some c ∧ s.posted = [.content 5 [0x68, 0x69]] ∧
        s.posted <+:
          (parse s.socket.receiver.stream).1.flatMap (posts greetingSetting c.channels) := by
  have hrun : (Machine.run (next greetingSetting) {} (greetingCalls ++ [.update])).map
      (fun s => (s.posted, s.session.isSome)) = some ([.content 5 [0x68, 0x69]], true) := by
    decide +kernel
  obtain ⟨s, hs, hs'⟩ := Option.map_eq_some_iff.mp hrun
  obtain ⟨hposted, hsome⟩ := Prod.mk.inj hs'
  obtain ⟨c, hc⟩ := Option.isSome_iff_exists.mp hsome
  have hprefix := posted_prefix hs
  rw [hc] at hprefix
  exact ⟨s, c, hs, hc, hposted, hprefix⟩

/-- While the socket is open, a frame has been accepted or is still in the buffers. -/
theorem parse_stream_of_isOpen (h : SocketInv setting.env s.socket)
    (hopen : s.socket.receiver.isOpen = true) :
    (parse s.socket.receiver.stream).1 =
      accepted s.socket.receiver.calls ++ (parse s.socket.receiver.buffers.pending).1 := by
  have hclosed : s.socket.receiver.closed = false := by
    cases hc : s.socket.receiver.closed with
    | false => rfl
    | true => simp [Receiver.isOpen, hc] at hopen
  have hall : ∀ call ∈ s.socket.receiver.calls, call.2 ≠ .error := by
    intro call hmem herror
    have := (h.failed call hmem herror).2
    rw [hclosed] at this
    cases this
  rcases h.auth.receiver.stage with hr | ⟨hr, -, -⟩
  · have hparse := hr.parse_stream []
    rw [List.append_nil, List.append_nil] at hparse
    rw [hparse, accepted_eq_delivered hall, prepend]
  · rw [hr.closed] at hclosed
    cases hclosed

variable (setting) in
/-- One update after the other, until the queue is empty. -/
theorem run_updates {k : ℕ} (hc : s.session = some c) (hs : isRegistered s c = true)
    (hopen : s.socket.receiver.isOpen = true)
    (hk : c.state.recvQueue.length ≤ (MAX_PROCESSED_PACKETS_IN_SAME_WORLDSESSION_UPDATE + 1) * k) :
    ∃ t, Machine.run (next setting) s (List.replicate k .update) = some t ∧
      t.posted = s.posted ++ effects setting c.channels c.state.recvQueue := by
  induction k generalizing s c with
  | zero =>
      have hnil : c.state.recvQueue = [] := List.length_eq_zero_iff.mp (by simpa using hk)
      exact ⟨s, rfl, by simp [hnil, effects]⟩
  | succ k ih =>
      obtain ⟨halive, hchains⟩ := Bool.and_eq_true_iff.mp hs
      obtain ⟨state, heq, hsocket, hqueue, -⟩ :=
        effects_update setting (s := s) halive
      have hnext : next setting s .update = some (update setting s c) := by
        simp [next, hc, hs]
      obtain ⟨t, hrun, hposted⟩ := ih (s := update setting s c) (c := { c with state })
        (by rw [heq]) (by rw [heq]; simpa [isRegistered, hsocket, hopen] using hchains)
        (by rw [heq]; exact hopen) (by
          change state.recvQueue.length ≤ _
          rw [hqueue, List.length_drop]
          rw [Nat.mul_succ] at hk
          omega)
      refine ⟨t, by rw [List.replicate_succ, Machine.run_cons, hnext]; exact hrun, ?_⟩
      rw [hposted, heq]
      simp only [List.append_assoc, List.append_cancel_left_eq]
      rw [hqueue, ← effects_append, List.take_append_drop]

/-- **No message of a client is lost while its socket is open**: when the network thread waits for
more bytes, so many updates as the queue of the session needs make the bot send whatever the frames
received ask for, but for those that still stand in the buffers behind the login. -/
theorem posted_of_updates {ls : List Label} (h : Machine.run (next setting) {} ls = some s)
    (hc : s.session = some c) (hopen : s.socket.receiver.isOpen = true)
    (hread : 0 < s.socket.receiver.reads) {k : ℕ}
    (hk : c.state.recvQueue.length ≤ (MAX_PROCESSED_PACKETS_IN_SAME_WORLDSESSION_UPDATE + 1) * k) :
    ∃ t, Machine.run (next setting) s (List.replicate k .update) = some t ∧
      (parse s.socket.receiver.stream).1.flatMap (posts setting c.channels) = t.posted ++
        (parse s.socket.receiver.buffers.pending).1.flatMap (posts setting c.channels) := by
  have hinv := inv_run h
  have hsession := hinv.session c hc
  have halive : c.state.socket = true := by
    cases hgone : c.state.socket with
    | true => rfl
    | false => exact absurd (hsession.gone hgone) (by simp [hopen])
  have hchains : s.socket.chains = [] := by
    have htokens := hinv.socket.auth.tokens_le
    simp only [DiscordSocket.tokens] at htokens
    exact List.length_eq_zero_iff.mp (by omega)
  obtain ⟨t, hrun, hposted⟩ := run_updates setting hc
    (by simp [isRegistered, halive, hchains]) hopen hk
  refine ⟨t, hrun, ?_⟩
  rw [parse_stream_of_isOpen hinv.socket hopen, List.flatMap_append, hposted,
    hsession.effects_eq hinv.socket]

theorem posted_of_updates_greeting :
    ∃ s c t, Machine.run (next greetingSetting) {} greetingCalls = some s ∧ s.session = some c ∧
      s.posted = [] ∧ Machine.run (next greetingSetting) s [.update] = some t ∧
        (parse s.socket.receiver.stream).1.flatMap (posts greetingSetting c.channels) =
          t.posted ++ (parse s.socket.receiver.buffers.pending).1.flatMap
            (posts greetingSetting c.channels) := by
  have hrun : (Machine.run (next greetingSetting) {} greetingCalls).map
      (fun s => (s.posted, s.socket.receiver.isOpen, s.socket.receiver.reads,
        s.session.map fun c => c.state.recvQueue.length)) = some ([], true, 1, some 1) := by
    decide +kernel
  obtain ⟨s, hs, hs'⟩ := Option.map_eq_some_iff.mp hrun
  simp only [Prod.mk.injEq] at hs'
  obtain ⟨hposted, hopen, hreads, hqueue⟩ := hs'
  obtain ⟨c, hc, hlength⟩ := Option.map_eq_some_iff.mp hqueue
  obtain ⟨t, ht, hall⟩ := posted_of_updates hs hc hopen (by omega) (k := 1) (by rw [hlength]; decide)
  exact ⟨s, c, t, hs, hc, hposted, ht, hall⟩

end Flow

end WarheadDiscord.MessageFlow
