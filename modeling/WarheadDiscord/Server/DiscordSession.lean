import Mathlib.Data.List.Induction
import WarheadDiscord.Server.DiscordSocket

/-!
# The packets of a session

`ReadDataHandler` gives a packet to the session with `QueuePacket`, and `Update` passes what
waits in the queue to the handlers of the opcodes.  A handler may throw; two kinds of
exceptions are caught and logged, and then the next packet is taken.

One call of `Update` is to pass only so many packets on.  The counter is compared with the
bound after it was incremented, and the comparison is strict, so the loop ends one packet too
late (`update_eq`).  Over all the calls no packet is lost, passed on twice or overtaken
(`inOrder_run`).

Packets that arrive during an `Update` count as packets that arrive after it.  The callbacks
of queries are left out; they do not look at the queue.

## Main definitions

* `opcodeTable`, `QueuedPacket` — the handlers, and the packets that have one.
* `DiscordSession`, `queuePacket`, `update` — the code.
* `DiscordSession.Call`, `DiscordSession.run` — the calls, and a sequence of them.
* `DiscordSession.Dispatches` — what is asked of a sequence of calls.
-/

namespace WarheadDiscord

def MAX_PROCESSED_PACKETS_IN_SAME_WORLDSESSION_UPDATE : ℕ := 100

inductive ClientOpcodeHandler
  | handleHelloOpcode
  | handleEarlyProccess
  | handleSendDiscordMessageOpcode
  | handleSendDiscordEmbedMessageOpcode
  | handleServerSide
  deriving DecidableEq, Repr

/-- `OpcodeTable::Initialize` -/
def opcodeHandlers : List (DiscordCode × ClientOpcodeHandler) :=
  [(.clientSendHello, .handleHelloOpcode),
    (.clientAuthSession, .handleEarlyProccess),
    (.clientSendMessage, .handleSendDiscordMessageOpcode),
    (.clientSendMessageEmbed, .handleSendDiscordEmbedMessageOpcode),
    (.clientSendPing, .handleEarlyProccess),
    (.serverSendAuthResponse, .handleServerSide),
    (.serverSendPong, .handleServerSide)]

/-- `opcodeTable[opcode]`; `none` is a null pointer, or an access out of range. -/
def opcodeTable (opcode : UInt16) : Option ClientOpcodeHandler :=
  (opcodeHandlers.find? fun e => e.1.toUInt16 = opcode).map Prod.snd

/-- The check that `ReadDataHandler` makes before `QueuePacket`, for the opcodes that pass
the check of the header. -/
theorem isSome_opcodeTable {opcode : UInt16} (h : opcode.toNat < NUM_DISCORD_CODE_HANDLERS) :
    (opcodeTable opcode).isSome = DiscordSocket.hasHandler opcode := by
  have hall : ∀ n < NUM_DISCORD_CODE_HANDLERS,
      (opcodeTable (UInt16.ofNat n)).isSome = DiscordSocket.hasHandler (UInt16.ofNat n) := by
    decide
  have hopcode := hall opcode.toNat h
  rwa [UInt16.ofNat_toNat] at hopcode

/-- A packet whose opcode has a handler. -/
abbrev QueuedPacket := { packet : DiscordPacket // (opcodeTable packet.opcode).isSome }

def QueuedPacket.handler (packet : QueuedPacket) : ClientOpcodeHandler :=
  (opcodeTable packet.1.opcode).get packet.2

/-- How the call of a handler ends. -/
inductive CallResult
  | returned
  | packetArrayMaxCapacityException
  | byteBufferException
  deriving DecidableEq, Repr

/-- A call of a handler. -/
structure HandlerCall where
  handler : ClientOpcodeHandler
  packet : QueuedPacket
  result : CallResult
  deriving DecidableEq, Repr

/-- A session, with a history of the calls of handlers. -/
structure DiscordSession where
  /-- `_socket` is not null. -/
  socket : Bool := true
  recvQueue : List QueuedPacket := []
  handled : List HandlerCall := []
  deriving DecidableEq, Repr

namespace DiscordSession

def queuePacket (s : DiscordSession) (packet : QueuedPacket) : DiscordSession :=
  { s with recvQueue := s.recvQueue ++ [packet] }

/-- The loop of `Update`; `results k` is how the `k`-th of its calls ends.  However it ends,
the loop goes on in the same way. -/
def updateLoop (results : ℕ → CallResult) : List QueuedPacket → ℕ → List HandlerCall →
    List QueuedPacket × List HandlerCall
  | [], _, handled => ([], handled)
  | packet :: queue, processedPackets, handled =>
      let handled := handled ++ [⟨packet.handler, packet, results processedPackets⟩]
      let processedPackets := processedPackets + 1
      if processedPackets > MAX_PROCESSED_PACKETS_IN_SAME_WORLDSESSION_UPDATE then
        (queue, handled)
      else updateLoop results queue processedPackets handled

/-- `Update`, and the value it returns; after the loop the socket is open or is not. -/
def update (s : DiscordSession) (isOpen : Bool) (results : ℕ → CallResult) :
    DiscordSession × Bool :=
  let (queue, handled) :=
    if s.socket then updateLoop results s.recvQueue 0 s.handled else (s.recvQueue, s.handled)
  let socket := s.socket && isOpen
  (⟨socket, queue, handled⟩, socket)

inductive Call
  | queuePacket (packet : QueuedPacket)
  | update (isOpen : Bool) (results : ℕ → CallResult)

def call (s : DiscordSession) : Call → DiscordSession
  | .queuePacket packet => s.queuePacket packet
  | .update isOpen results => (s.update isOpen results).1

/-- A new session after some calls. -/
def run (calls : List Call) : DiscordSession := calls.foldl call {}

/-! ## What is asked -/

/-- The packets that the calls put into the queue. -/
def queued (calls : List Call) : List QueuedPacket :=
  calls.filterMap fun
    | .queuePacket packet => some packet
    | .update _ _ => none

/-- The socket is open after every `Update`. -/
def StaysOpen (calls : List Call) : Prop :=
  ∀ isOpen results, .update isOpen results ∈ calls → isOpen = true

/-- From one state to another some packets were passed on, in the order of the queue: as many
as waited, up to the bound. -/
def Processes (s t : DiscordSession) : Prop :=
  ∃ passed, t.handled = s.handled ++ passed ∧
    passed.map HandlerCall.packet ++ t.recvQueue = s.recvQueue ∧
    passed.length = min s.recvQueue.length MAX_PROCESSED_PACKETS_IN_SAME_WORLDSESSION_UPDATE

structure Dispatches (calls : List Call) : Prop where
  /-- Every packet is passed on once and in order, or still waits. -/
  inOrder : (run calls).handled.map HandlerCall.packet ++ (run calls).recvQueue = queued calls
  handler : ∀ c ∈ (run calls).handled, c.handler = c.packet.handler
  processes : ∀ before isOpen results after, calls = before ++ .update isOpen results :: after →
    Processes (run before) (run (before ++ [.update isOpen results]))

/-- At every `Update` there wait only so many packets as it is to pass on. -/
def FewWaiting (calls : List Call) : Prop :=
  ∀ before isOpen results after, calls = before ++ .update isOpen results :: after →
    (run before).recvQueue.length ≤ MAX_PROCESSED_PACKETS_IN_SAME_WORLDSESSION_UPDATE

/-! ## One update -/

/-- The calls of handlers for some packets, from the `k`-th call of an `Update` on. -/
def passedOn (results : ℕ → CallResult) (k : ℕ) : List QueuedPacket → List HandlerCall
  | [] => []
  | packet :: queue => ⟨packet.handler, packet, results k⟩ :: passedOn results (k + 1) queue

@[simp] theorem map_packet_passedOn (results : ℕ → CallResult) (k : ℕ)
    (queue : List QueuedPacket) : (passedOn results k queue).map HandlerCall.packet = queue := by
  induction queue generalizing k with
  | nil => rfl
  | cons packet queue ih => rw [passedOn, List.map_cons, ih]

@[simp] theorem length_passedOn (results : ℕ → CallResult) (k : ℕ) (queue : List QueuedPacket) :
    (passedOn results k queue).length = queue.length := by
  rw [← List.length_map HandlerCall.packet, map_packet_passedOn]

theorem handler_of_mem_passedOn {results : ℕ → CallResult} {k : ℕ} {queue : List QueuedPacket}
    {c : HandlerCall} (h : c ∈ passedOn results k queue) : c.handler = c.packet.handler := by
  induction queue generalizing k with
  | nil => cases h
  | cons packet queue ih =>
    rcases List.mem_cons.1 h with rfl | h
    · rfl
    · exact ih h

/-- The loop ends when `processedPackets` exceeds the bound, so it takes one packet more than
the bound says. -/
theorem updateLoop_eq (results : ℕ → CallResult) (queue : List QueuedPacket) {k : ℕ}
    (hk : k ≤ MAX_PROCESSED_PACKETS_IN_SAME_WORLDSESSION_UPDATE) (handled : List HandlerCall) :
    updateLoop results queue k handled =
      (queue.drop (MAX_PROCESSED_PACKETS_IN_SAME_WORLDSESSION_UPDATE + 1 - k),
        handled ++ passedOn results k
          (queue.take (MAX_PROCESSED_PACKETS_IN_SAME_WORLDSESSION_UPDATE + 1 - k))) := by
  induction queue generalizing k handled with
  | nil => simp [updateLoop, passedOn]
  | cons packet queue ih =>
    rw [updateLoop, Nat.sub_add_comm hk, List.drop_succ_cons, List.take_succ_cons, passedOn]
    by_cases hlast : k = MAX_PROCESSED_PACKETS_IN_SAME_WORLDSESSION_UPDATE
    · subst hlast
      simp [passedOn]
    · have hnext : k + 1 ≤ MAX_PROCESSED_PACKETS_IN_SAME_WORLDSESSION_UPDATE := by omega
      rw [if_neg (by omega), ih hnext, Nat.add_sub_add_right, List.append_assoc]
      rfl

/-- **What `Update` does** while the socket is open. -/
theorem update_eq {s : DiscordSession} (hs : s.socket = true) (results : ℕ → CallResult) :
    (s.update true results).1 =
      { socket := true
        recvQueue := s.recvQueue.drop (MAX_PROCESSED_PACKETS_IN_SAME_WORLDSESSION_UPDATE + 1)
        handled := s.handled ++ passedOn results 0
          (s.recvQueue.take (MAX_PROCESSED_PACKETS_IN_SAME_WORLDSESSION_UPDATE + 1)) } := by
  simp [update, hs, updateLoop_eq results s.recvQueue (Nat.zero_le _)]

/-- An `Update` is as asked when not more packets wait than the bound says. -/
theorem processes_update_iff {s : DiscordSession} (hs : s.socket = true)
    (results : ℕ → CallResult) :
    Processes s (s.update true results).1 ↔
      s.recvQueue.length ≤ MAX_PROCESSED_PACKETS_IN_SAME_WORLDSESSION_UPDATE := by
  rw [update_eq hs]
  constructor
  · rintro ⟨passed, hhandled, -, hlength⟩
    have hpassed := List.append_cancel_left hhandled
    rw [← hpassed, length_passedOn, List.length_take] at hlength
    omega
  · intro hle
    refine ⟨_, rfl, ?_, ?_⟩
    · rw [map_packet_passedOn, List.take_append_drop]
    · rw [length_passedOn, List.length_take]
      omega

/-! ## All the calls -/

variable {calls : List Call}

theorem run_concat (calls : List Call) (c : Call) : run (calls ++ [c]) = (run calls).call c := by
  rw [run, List.foldl_append]
  rfl

theorem queued_concat (calls : List Call) (c : Call) :
    queued (calls ++ [c]) = queued calls ++ queued [c] := List.filterMap_append

theorem StaysOpen.of_append {before after : List Call} (h : StaysOpen (before ++ after)) :
    StaysOpen before :=
  fun isOpen results hmem => h isOpen results (List.mem_append_left _ hmem)

theorem StaysOpen.isOpen {before after : List Call} {isOpen : Bool} {results : ℕ → CallResult}
    (h : StaysOpen (before ++ .update isOpen results :: after)) : isOpen = true :=
  h isOpen results (List.mem_append_right _ List.mem_cons_self)

theorem socket_run (h : StaysOpen calls) : (run calls).socket = true := by
  induction calls using List.reverseRecOn with
  | nil => rfl
  | append_singleton calls c ih =>
    have hs := ih h.of_append
    rw [run_concat]
    cases c with
    | queuePacket packet => exact hs
    | update isOpen results =>
      rw [h.isOpen, call, update_eq hs]

/-- No packet is lost, passed on twice or overtaken. -/
theorem inOrder_run (h : StaysOpen calls) :
    (run calls).handled.map HandlerCall.packet ++ (run calls).recvQueue = queued calls := by
  induction calls using List.reverseRecOn with
  | nil => rfl
  | append_singleton calls c ih =>
    rw [queued_concat, ← ih h.of_append, run_concat]
    cases c with
    | queuePacket packet => exact (List.append_assoc _ _ _).symm
    | update isOpen results =>
      rw [h.isOpen, call, update_eq (socket_run h.of_append)]
      simp [queued]

theorem handler_run (h : StaysOpen calls) :
    ∀ c ∈ (run calls).handled, c.handler = c.packet.handler := by
  induction calls using List.reverseRecOn with
  | nil => intro c hc; cases hc
  | append_singleton calls c ih =>
    rw [run_concat]
    cases c with
    | queuePacket packet => exact ih h.of_append
    | update isOpen results =>
      rw [h.isOpen, call, update_eq (socket_run h.of_append)]
      intro c hc
      rcases List.mem_append.1 hc with hc | hc
      · exact ih h.of_append c hc
      · exact handler_of_mem_passedOn hc

/-- One update of a sequence of calls. -/
theorem processes_run_iff {before after : List Call} {isOpen : Bool} {results : ℕ → CallResult}
    (h : StaysOpen (before ++ .update isOpen results :: after)) :
    Processes (run before) (run (before ++ [.update isOpen results])) ↔
      (run before).recvQueue.length ≤ MAX_PROCESSED_PACKETS_IN_SAME_WORLDSESSION_UPDATE := by
  rw [run_concat, h.isOpen]
  exact processes_update_iff (socket_run h.of_append) results

/-- The packets are dispatched as asked exactly when at no `Update` more of them wait than
the bound says. -/
theorem dispatches_iff_fewWaiting (h : StaysOpen calls) : Dispatches calls ↔ FewWaiting calls := by
  constructor
  · intro hd before isOpen results after hcalls
    subst hcalls
    exact (processes_run_iff h).1 (hd.processes before isOpen results after rfl)
  · intro hfew
    refine ⟨inOrder_run h, handler_run h, ?_⟩
    intro before isOpen results after hcalls
    have hle := hfew before isOpen results after hcalls
    subst hcalls
    exact (processes_run_iff h).2 hle

/-- A message, with nothing in it. -/
def emptyMessage : QueuedPacket :=
  ⟨⟨DiscordCode.clientSendMessage.toUInt16, []⟩, by decide⟩

/-- A handler throws, and the packet behind is passed on. -/
theorem dispatches_iff_throwing :
    StaysOpen [.queuePacket emptyMessage, .queuePacket emptyMessage,
        .update true fun _ => .byteBufferException] ∧
      (Dispatches [.queuePacket emptyMessage, .queuePacket emptyMessage,
          .update true fun _ => .byteBufferException] ↔
        FewWaiting [.queuePacket emptyMessage, .queuePacket emptyMessage,
          .update true fun _ => .byteBufferException]) := by
  have hopen : StaysOpen [.queuePacket emptyMessage, .queuePacket emptyMessage,
      .update true fun _ => .byteBufferException] := by
    intro isOpen results hmem
    simp only [List.mem_cons, reduceCtorEq, false_or, Call.update.injEq, List.not_mem_nil,
      or_false] at hmem
    exact hmem.1
  exact ⟨hopen, dispatches_iff_fewWaiting hopen⟩

/-- Of 101 packets that wait, none is left. -/
theorem not_dispatches_full :
    ¬ Dispatches (List.replicate 101 (.queuePacket emptyMessage) ++
      [.update true fun _ => .returned]) := by
  intro h
  have hopen : StaysOpen (List.replicate 101 (.queuePacket emptyMessage) ++
      [.update true fun _ => .returned]) := by
    intro isOpen results hmem
    simp only [List.mem_append, List.mem_replicate, reduceCtorEq, and_false, false_or,
      List.mem_singleton, Call.update.injEq] at hmem
    exact hmem.1
  have hle := (processes_run_iff hopen).1 (h.processes _ _ _ [] rfl)
  have hlength : (run (List.replicate 101 (.queuePacket emptyMessage))).recvQueue.length = 101 := by
    decide +kernel
  rw [hlength] at hle
  exact absurd hle (by decide)

end DiscordSession

end WarheadDiscord
