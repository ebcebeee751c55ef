import WarheadDiscord.Network.Receiver
import WarheadDiscord.Server.AccountInfo

/-!
# `DiscordSocket`: reading, the IP check and the login chain

A socket after `Start` as a machine.  Its network thread processes the answer of the
IP query, completed reads, the passes of `ReadHandler` and the answer of the account
query.  The guild check and the channel check come back on other threads, as does a
`CloseSocket` from a session.  The body of the last callback is cut into its
statements, so that everything else can happen between them.

Who may post the next read is nowhere written down in the program.  It is the IP
callback at first, then `ReadHandler`, and after `CLIENT_AUTH_SESSION` the callback
chain.  A chain that waits for an answer is kept in `chains` with the stage it has
reached.

`CheckKey` and the UTF-8 check of `ByteBuffer` are parameters (`Env`).

## Main definitions

* `DiscordSocket`, `Chain`, `Event` — the state, with a history of what was decided.
* `readDataHandler`, `handlePing`, `handleAuthSession` — the packet handlers.
* `DiscordSocket.next` — the machine.
-/

namespace WarheadDiscord

open Bytes

/-- What a client sends with `CLIENT_AUTH_SESSION`. -/
structure AuthSession where
  account : List UInt8
  key : List UInt8
  coreName : List UInt8
  coreVersion : List UInt8
  moduleVersion : ℕ
  deriving DecidableEq, Repr

/-- The code the socket calls and that is not part of it. -/
structure Env where
  checkKey : AuthSession → AccountInfo → Bool
  utf8IsValid : List UInt8 → Bool

/-- `ByteBuffer::ReadCString` on the unread bytes; a missing terminator is not an
error.  `none` is a `ByteBufferException`. -/
def readCString (env : Env) (bytes : List UInt8) : Option (List UInt8 × List UInt8) :=
  let value := bytes.takeWhile (· ≠ 0)
  if env.utf8IsValid value then some (value, bytes.drop (value.length + 1)) else none

/-- `ByteBuffer::read<uint32>`. -/
def readUInt32 (bytes : List UInt8) : Option (ℕ × List UInt8) :=
  if bytes.length < 4 then none else some (ofLE (bytes.take 4), bytes.drop 4)

/-- The parse of `HandleAuthSession`; `none` is a `ByteBufferException`. -/
def handleAuthSession (env : Env) (contents : List UInt8) : Option AuthSession := do
  let (account, rest) ← readCString env contents
  let (key, rest) ← readCString env rest
  let (coreName, rest) ← readCString env rest
  let (coreVersion, rest) ← readCString env rest
  let (moduleVersion, _) ← readUInt32 rest
  return ⟨account, key, coreName, coreVersion, moduleVersion⟩

def DiscordAuthResponseCodes.toUInt8 : DiscordAuthResponseCodes → UInt8
  | .ok => 0
  | .failed => 1
  | .incorrectKey => 2
  | .unknownAccount => 3
  | .bannedAccount => 4
  | .bannedIP => 5
  | .bannedPermanentlyAccount => 6
  | .bannedPermanentlyIP => 7
  | .serverOffline => 8
  | .botNotFound => 9
  | .channelsNotFound => 10
  | .channelsIncorrect => 11

def DEFAULT_CHANNELS_COUNT : ℕ := 7

/-- What the callback chain of a login waits for, or which statement of the last
callback comes next. -/
inductive Stage
  | accountQuery
  | guildCheck (account : AccountInfo)
  | channelCheck (account : AccountInfo)
  | setAuthed
  | newSession
  | addSession
  | asyncRead
  deriving DecidableEq, Repr

structure Chain where
  auth : AuthSession
  stage : Stage
  deriving DecidableEq, Repr

/-- The history: answers as they came in, and what was done. -/
inductive Event
  | ipAnswer (banned : Bool)
  | read (chunk : List UInt8)
  | authSession (auth : AuthSession)
  | accountAnswer (auth : AuthSession) (account : Option AccountInfo) (isClosed : Bool)
  | guildAnswer (account : AccountInfo) (isExist : Bool)
  | sessionCreated
  | queuePacket (p : DiscordPacket)
  deriving DecidableEq, Repr

structure DiscordSocket where
  receiver : Receiver := {}
  authed : Bool := false
  /-- `_discordSession` is not null. -/
  session : Bool := false
  lastPingTime : ℕ := 0
  overSpeedPings : ℕ := 0
  /-- The answer of `DISCORD_SEL_IP_INFO` is outstanding. -/
  ipQuery : Bool := true
  chains : List Chain := []
  /-- The packets given to `_bufferQueue`. -/
  sent : List DiscordPacket := []
  trace : List Event := []
  deriving DecidableEq, Repr

namespace DiscordSocket

def log (s : DiscordSocket) (e : Event) : DiscordSocket := { s with trace := s.trace ++ [e] }

/-- A new state of the receiving side; the first `CloseSocket` calls `OnClose`. -/
def withReceiver (s : DiscordSocket) (r : Receiver) : DiscordSocket :=
  { s with
    receiver := r
    session := if r.closed && !s.receiver.closed then false else s.session }

def sendPacket (s : DiscordSocket) (p : DiscordPacket) : DiscordSocket :=
  if s.receiver.isOpen then { s with sent := s.sent ++ [p] } else s

def sendAuthResponseError (s : DiscordSocket) (code : DiscordAuthResponseCodes) : DiscordSocket :=
  s.sendPacket ⟨DiscordCode.serverSendAuthResponse.toUInt16, [code.toUInt8]⟩

/-- The three lines every rejection consists of. -/
def reject (s : DiscordSocket) (code : DiscordAuthResponseCodes) : DiscordSocket :=
  { s.sendAuthResponseError code with receiver := s.receiver.delayedCloseSocket }

def asyncRead (s : DiscordSocket) : DiscordSocket := { s with receiver := s.receiver.asyncRead }

/-! ## The packet handlers -/

/-- `10s` in nanoseconds. -/
def tenSeconds : ℕ := 10 * 10 ^ 9

/-- This ping comes less than ten seconds after the last one. -/
def isFastPing (s : DiscordSocket) (now : ℕ) : Bool :=
  s.lastPingTime ≠ 0 && now - s.lastPingTime < tenSeconds

def countPing (s : DiscordSocket) (now : ℕ) : DiscordSocket :=
  { s with
    lastPingTime := now
    overSpeedPings :=
      if s.lastPingTime = 0 then s.overSpeedPings
      else if s.isFastPing now then (s.overSpeedPings + 1) % 2 ^ 32
      else 0 }

/-- `HandlePing` with the clock at `now`; `none` is a `ByteBufferException`. -/
def handlePing (s : DiscordSocket) (now : ℕ) (contents : List UInt8) :
    Option (Bool × DiscordSocket) :=
  if contents.length < 16 then none
  else
    let t := s.countPing now
    if s.isFastPing now && 5 < t.overSpeedPings && t.session then some (false, t)
    else if t.session then
      some (true, t.sendPacket ⟨DiscordCode.serverSendPong.toUInt16, contents.take 8⟩)
    else some (false, t)

/-- `opcodeTable[opcode]` is not null: every opcode but zero has a handler. -/
def hasHandler (opcode : UInt16) : Bool := opcode ≠ 0

def readDataHandler (env : Env) (s : DiscordSocket) (now : ℕ) (p : DiscordPacket) :
    ReadDataHandlerResult × DiscordSocket :=
  if p.opcode = DiscordCode.clientSendPing.toUInt16 then
    match s.handlePing now p.contents with
    | some (true, s) => (.ok, s)
    | some (false, s) => (.error, s)
    | none => (.error, s)
  else if p.opcode = DiscordCode.clientAuthSession.toUInt16 then
    if s.authed then (.error, s)
    else
      match handleAuthSession env p.contents with
      | some auth =>
          (.waitingForQuery,
            { s.log (.authSession auth) with chains := s.chains ++ [⟨auth, .accountQuery⟩] })
      | none => (.error, s)
  else if !s.session then (.error, s)
  else if !hasHandler p.opcode then (.error, s)
  else (.ok, s.log (.queuePacket p))

/-! ## The steps -/

def checkIpCallback (s : DiscordSocket) (rows : List (Bool × Bool)) : DiscordSocket :=
  let code := WarheadDiscord.checkIpCallback rows
  let s := { s.log (.ipAnswer code.isSome) with ipQuery := false }
  match code with
  | some code => s.reject code
  | none => s.asyncRead

/-- One pass of the loop of `ReadHandler`. -/
def readHandlerPass (env : Env) (s : DiscordSocket) (now : ℕ) : DiscordSocket :=
  match s.receiver.nextPacket with
  | none => s.withReceiver (s.receiver.pass .ok)
  | some p =>
      let (answer, s') := s.readDataHandler env now p
      s'.withReceiver (s.receiver.pass answer)

/-- The chain `i` goes on to a stage. -/
def setStage (s : DiscordSocket) (i : ℕ) (c : Chain) (stage : Stage) : DiscordSocket :=
  { s with chains := s.chains.set i { c with stage := stage } }

/-- The chain `i` has ended. -/
def dropChain (s : DiscordSocket) (i : ℕ) : DiscordSocket :=
  { s with chains := s.chains.eraseIdx i }

/-- `HandleAuthSessionCallback` for the chain `i`. -/
def accountCallback (env : Env) (s : DiscordSocket) (i : ℕ) (c : Chain)
    (account : Option AccountInfo) (isClosed : Bool) (now : ℕ) : DiscordSocket :=
  let s := s.log (.accountAnswer c.auth account isClosed)
  match handleAuthSessionCallback (env.checkKey c.auth) isClosed now account with
  | .reject code _ => (s.dropChain i).reject code
  | .checkBotInGuild a => s.setStage i c (.guildCheck a)

/-- The callback of `CheckBotInGuild`. -/
def guildCallback (s : DiscordSocket) (i : ℕ) (c : Chain) (account : AccountInfo)
    (isExist : Bool) : DiscordSocket :=
  let s := s.log (.guildAnswer account isExist)
  if !isExist then (s.dropChain i).reject .botNotFound
  else s.setStage i c (.channelCheck account)

/-- The callback of `CheckChannels` up to its first assignment. -/
def channelCallback (s : DiscordSocket) (i : ℕ) (c : Chain)
    (channels : Vector ℤ DEFAULT_CHANNELS_COUNT) : DiscordSocket :=
  if channels.size = 0 then (s.dropChain i).reject .channelsNotFound
  else if channels.size ≠ DEFAULT_CHANNELS_COUNT then (s.dropChain i).reject .channelsIncorrect
  else s.setStage i c .setAuthed

/-- What can happen to a socket. -/
inductive Label
  | ipAnswer (rows : List (Bool × Bool))
  | receive (chunk : List UInt8)
  | readError
  | pass (now : ℕ)
  /-- The row of the account, the ban joined to it and the memory behind the row. -/
  | accountAnswer (i : ℕ) (row : Option (AccountRow × Option BanRow × List UInt8))
      (isClosed : Bool) (now : ℕ)
  | guildAnswer (i : ℕ) (isExist : Bool)
  | channelAnswer (i : ℕ) (channels : Vector ℤ DEFAULT_CHANNELS_COUNT)
  /-- The next statement of the last callback. -/
  | proceed (i : ℕ)
  | closeSocket

/-- The statements of the last callback. -/
def proceed (s : DiscordSocket) (i : ℕ) (c : Chain) : Option DiscordSocket :=
  match c.stage with
  | .setAuthed => some ({ s with authed := true }.setStage i c .newSession)
  | .newSession => some ({ s.log .sessionCreated with session := true }.setStage i c .addSession)
  | .addSession => some (s.setStage i c .asyncRead)
  | .asyncRead => some (s.dropChain i).asyncRead
  | _ => none

/-- The network thread is free, and `Update` has not found the socket closed. -/
def updating (s : DiscordSocket) : Bool := !s.receiver.handling && !s.receiver.closed

/-- The machine. -/
def next (env : Env) (s : DiscordSocket) : Label → Option DiscordSocket
  | .ipAnswer rows =>
      if s.ipQuery = true ∧ s.updating = true then some (s.checkIpCallback rows) else none
  | .receive chunk =>
      (s.receiver.next (.receive chunk)).map fun r => (s.log (.read chunk)).withReceiver r
  | .readError => (s.receiver.next .readError).map s.withReceiver
  | .pass now => if s.receiver.handling = true then some (s.readHandlerPass env now) else none
  | .accountAnswer i row isClosed now =>
      match s.chains[i]? with
      | some c =>
          if c.stage = .accountQuery ∧ s.updating = true then
            some (s.accountCallback env i c
              (row.map fun r => AccountInfo.ofRow r.1 r.2.1 r.2.2 now) isClosed now)
          else none
      | none => none
  | .guildAnswer i isExist =>
      match s.chains[i]? with
      | some c =>
          match c.stage with
          | .guildCheck account => some (s.guildCallback i c account isExist)
          | _ => none
      | none => none
  | .channelAnswer i channels =>
      match s.chains[i]? with
      | some c =>
          match c.stage with
          | .channelCheck _ => some (s.channelCallback i c channels)
          | _ => none
      | none => none
  | .proceed i =>
      match s.chains[i]? with
      | some c => s.proceed i c
      | none => none
  | .closeSocket => some (s.withReceiver s.receiver.closeSocket)

/-- What happens on a label, and when it can. -/
inductive Taken (env : Env) (s : DiscordSocket) : Label → DiscordSocket → Prop
  | ipAnswer (rows : List (Bool × Bool)) (ip : s.ipQuery = true) (updating : s.updating = true) :
      Taken env s (.ipAnswer rows) (s.checkIpCallback rows)
  | receive {chunk : List UInt8} {r : Receiver}
      (next : s.receiver.next (.receive chunk) = some r) :
      Taken env s (.receive chunk) ((s.log (.read chunk)).withReceiver r)
  | readError {r : Receiver} (next : s.receiver.next .readError = some r) :
      Taken env s .readError (s.withReceiver r)
  | pass (now : ℕ) (handling : s.receiver.handling = true) :
      Taken env s (.pass now) (s.readHandlerPass env now)
  | accountAnswer {i : ℕ} {c : Chain} (row : Option (AccountRow × Option BanRow × List UInt8))
      (isClosed : Bool) (now : ℕ) (chain : s.chains[i]? = some c)
      (stage : c.stage = .accountQuery) (updating : s.updating = true) :
      Taken env s (.accountAnswer i row isClosed now) (s.accountCallback env i c
        (row.map fun r => AccountInfo.ofRow r.1 r.2.1 r.2.2 now) isClosed now)
  | guildAnswer {i : ℕ} {c : Chain} {account : AccountInfo} (isExist : Bool)
      (chain : s.chains[i]? = some c) (stage : c.stage = .guildCheck account) :
      Taken env s (.guildAnswer i isExist) (s.guildCallback i c account isExist)
  | channelAnswer {i : ℕ} {c : Chain} {account : AccountInfo}
      (channels : Vector ℤ DEFAULT_CHANNELS_COUNT) (chain : s.chains[i]? = some c)
      (stage : c.stage = .channelCheck account) :
      Taken env s (.channelAnswer i channels) (s.channelCallback i c channels)
  | proceed {i : ℕ} {c : Chain} {s' : DiscordSocket} (chain : s.chains[i]? = some c)
      (next : s.proceed i c = some s') : Taken env s (.proceed i) s'
  | closeSocket : Taken env s .closeSocket (s.withReceiver s.receiver.closeSocket)

theorem taken_of_next {env : Env} {s s' : DiscordSocket} {l : Label}
    (h : s.next env l = some s') : Taken env s l s' := by
  cases l with
  | ipAnswer rows =>
      simp only [next, Option.ite_none_right_eq_some, Option.some.injEq] at h
      obtain ⟨⟨hip, hupdating⟩, rfl⟩ := h
      exact .ipAnswer rows hip hupdating
  | receive chunk =>
      simp only [next, Option.map_eq_some_iff] at h
      obtain ⟨r, hr, rfl⟩ := h
      exact .receive hr
  | readError =>
      simp only [next, Option.map_eq_some_iff] at h
      obtain ⟨r, hr, rfl⟩ := h
      exact .readError hr
  | pass now =>
      simp only [next, Option.ite_none_right_eq_some, Option.some.injEq] at h
      obtain ⟨hhandling, rfl⟩ := h
      exact .pass now hhandling
  | accountAnswer i row isClosed now =>
      simp only [next] at h
      split at h
      · rename_i c hc
        simp only [Option.ite_none_right_eq_some, Option.some.injEq] at h
        obtain ⟨⟨hstage, hupdating⟩, rfl⟩ := h
        exact .accountAnswer row isClosed now hc hstage hupdating
      · cases h
  | guildAnswer i isExist =>
      simp only [next] at h
      split at h
      · rename_i c hc
        split at h
        · rename_i account hstage
          cases h
          exact .guildAnswer isExist hc hstage
        · cases h
      · cases h
  | channelAnswer i channels =>
      simp only [next] at h
      split at h
      · rename_i c hc
        split at h
        · rename_i account hstage
          cases h
          exact .channelAnswer channels hc hstage
        · cases h
      · cases h
  | proceed i =>
      simp only [next] at h
      split at h
      · rename_i c hc
        exact .proceed hc h
      · cases h
  | closeSocket =>
      cases h
      exact .closeSocket

end DiscordSocket
end WarheadDiscord
