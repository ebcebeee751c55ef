import Mathlib.Data.List.Basic
import Mathlib.Data.Nat.Basic

/-!
# Opcodes, packets and packet headers

A frame on the wire is a six byte header and a payload.  The header holds the
length of payload and opcode together, most significant byte first, and then the
opcode, least significant byte first.  The server writes headers with
`DiscordServerPktHeader`; what it accepts from a client is what the two checks of
`DiscordClientPktHeader` let through.

## Main definitions

* `DiscordCode` — the opcodes the two sides agreed on.
* `DiscordPacket` — an opcode and a payload.
* `DiscordServerPktHeader`, `encodeFrame` — the encoder.
* `DiscordClientPktHeader` — a decoded header and its two checks.
-/

namespace WarheadDiscord

/-- The opcodes.  The value on the wire is any `uint16`; only these have a name. -/
inductive DiscordCode
  | clientSendHello
  | clientAuthSession
  | clientSendMessage
  | clientSendMessageEmbed
  | clientSendPing
  | serverSendAuthResponse
  | serverSendPong
  deriving DecidableEq, Repr

/-- The wire value; the enumeration starts at one. -/
def DiscordCode.toUInt16 : DiscordCode → UInt16
  | .clientSendHello => 1
  | .clientAuthSession => 2
  | .clientSendMessage => 3
  | .clientSendMessageEmbed => 4
  | .clientSendPing => 5
  | .serverSendAuthResponse => 6
  | .serverSendPong => 7

/-- `MAX_DISCORD_CODE`. -/
def NUM_DISCORD_CODE_HANDLERS : ℕ := 8

/-- An opcode with its payload, as it waits in a queue or was just received. -/
structure DiscordPacket where
  opcode : UInt16
  contents : List UInt8
  deriving DecidableEq, Repr

def DiscordPacket.size (p : DiscordPacket) : ℕ := p.contents.length

/-- `size` is the length of the payload plus the length of the opcode. -/
structure DiscordServerPktHeader where
  size : UInt32
  header : List UInt8

namespace DiscordServerPktHeader

def new (size : UInt32) (cmd : UInt16) : DiscordServerPktHeader where
  size := size
  header :=
    [((0xFF : UInt32) &&& (size >>> 24)).toUInt8, ((0xFF : UInt32) &&& (size >>> 16)).toUInt8,
     ((0xFF : UInt32) &&& (size >>> 8)).toUInt8, ((0xFF : UInt32) &&& size).toUInt8,
     ((0xFF : UInt16) &&& cmd).toUInt8, ((0xFF : UInt16) &&& (cmd >>> 8)).toUInt8]

/-- `sizeof(header)`. -/
def getHeaderLength (_ : DiscordServerPktHeader) : ℕ := 6

/-- The header the send path writes for a packet; the `size_t` sum is narrowed to
`uint32`. -/
def ofPacket (p : DiscordPacket) : DiscordServerPktHeader :=
  new (UInt32.ofNat (p.size + 2)) p.opcode

@[simp] theorem length_header_ofPacket (p : DiscordPacket) :
    (ofPacket p).header.length = 6 := rfl

@[simp] theorem getHeaderLength_eq (h : DiscordServerPktHeader) : h.getHeaderLength = 6 := rfl

end DiscordServerPktHeader

/-- The bytes of one packet on the wire. -/
def encodeFrame (p : DiscordPacket) : List UInt8 :=
  (DiscordServerPktHeader.ofPacket p).header ++ p.contents

@[simp] theorem length_encodeFrame (p : DiscordPacket) : (encodeFrame p).length = p.size + 6 := by
  simp [encodeFrame, DiscordPacket.size]
  omega

/-- A header as the client sent it, in host byte order. -/
structure DiscordClientPktHeader where
  size : ℕ
  cmd : ℕ
  deriving DecidableEq, Repr

namespace DiscordClientPktHeader

/-- `sizeof(DiscordClientPktHeader)` under `#pragma pack(1)`. -/
def SIZE : ℕ := 6

def isValidSize (h : DiscordClientPktHeader) : Bool := 2 ≤ h.size && h.size < 10000

def isValidOpcode (h : DiscordClientPktHeader) : Bool := h.cmd < NUM_DISCORD_CODE_HANDLERS

/-- Both checks of `ReadHeaderHandler`. -/
def isValid (h : DiscordClientPktHeader) : Bool := h.isValidSize && h.isValidOpcode

end DiscordClientPktHeader
end WarheadDiscord
