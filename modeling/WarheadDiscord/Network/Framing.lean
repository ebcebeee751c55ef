import WarheadDiscord.Common.MessageBuffer
import WarheadDiscord.Network.FrameSpec

/-!
# The framing of `DiscordSocket::ReadHandler`

Three buffers take a received stream apart.  The read buffer holds what the last
reads brought, the header buffer collects six bytes, the packet buffer is then
sized for the payload and filled.  `iteration` is one pass of the loop body up to
the point where `ReadDataHandler` is called, the loop is left, or an `ASSERT`
fails (`none`).

A frame that has arrived in part is spread over the buffers, its header already
swapped to host order in place and reduced by the length of the opcode.  `pending`
puts the bytes back together, and `iteration_spec` says what a pass does to them:
it takes exactly one frame off, or finds that there is none, or that the next
header is invalid.  The `ASSERT`s never fail.

The model is of the little-endian build, where `EndianConvert` does nothing and
`EndianConvertReverse` swaps.

## Main definitions

* `ReadBuffers` — the three buffers.
* `readHeaderHandler`, `iteration` — the code.
* `ReadBuffers.pending` — the bytes received and not yet handed over.
* `ReadBuffers.Between` — the shape of the buffers between two passes.
-/

namespace WarheadDiscord

open Bytes MessageBuffer

/-- What `ReadDataHandler` answers. -/
inductive ReadDataHandlerResult
  | ok
  | error
  | waitingForQuery
  deriving DecidableEq, Repr

/-- `_readBuffer`, `_headerBuffer` and `_packetBuffer`. -/
structure ReadBuffers where
  readBuffer : MessageBuffer
  headerBuffer : MessageBuffer
  packetBuffer : MessageBuffer
  deriving DecidableEq, Repr

/-- `std::min(from.GetActiveSize(), to.GetRemainingSpace())`. -/
def transferSize (source target : MessageBuffer) : ℕ :=
  min source.getActiveSize target.getRemainingSpace

/-- Both copies of the loop body move as many bytes as there are and fit. -/
def transferTarget (source target : MessageBuffer) : MessageBuffer :=
  target.write (source.readPointer.take (transferSize source target))

def transferSource (source target : MessageBuffer) : MessageBuffer :=
  source.readCompleted (transferSize source target)

namespace ReadBuffers

/-- The buffers of a new socket. -/
def new : ReadBuffers where
  readBuffer := MessageBuffer.new.resize READ_BLOCK_SIZE
  headerBuffer := MessageBuffer.new.resize DiscordClientPktHeader.SIZE
  packetBuffer := MessageBuffer.new

def fillHeader (b : ReadBuffers) : ReadBuffers :=
  { b with
    headerBuffer := transferTarget b.readBuffer b.headerBuffer
    readBuffer := transferSource b.readBuffer b.headerBuffer }

def fillPacket (b : ReadBuffers) : ReadBuffers :=
  { b with
    packetBuffer := transferTarget b.readBuffer b.packetBuffer
    readBuffer := transferSource b.readBuffer b.packetBuffer }

/-- `_headerBuffer.Reset()`, after `ReadDataHandler` has returned. -/
def resetHeader (b : ReadBuffers) : ReadBuffers := { b with headerBuffer := b.headerBuffer.reset }

/-- The packet `ReadDataHandler` builds: the opcode of the header in place, and the
storage moved out of the packet buffer. -/
def takePacket (b : ReadBuffers) : DiscordPacket × ReadBuffers :=
  (⟨UInt16.ofNat (ofLE ((b.headerBuffer.readPointer.drop 4).take 2)), b.packetBuffer.move.1⟩,
    { b with packetBuffer := b.packetBuffer.move.2 })

end ReadBuffers

/-- `none` when the `ASSERT` fails. -/
def readHeaderHandler (b : ReadBuffers) : Option (Bool × ReadBuffers) :=
  if b.headerBuffer.getActiveSize = DiscordClientPktHeader.SIZE then
    let raw := b.headerBuffer.readPointer.take DiscordClientPktHeader.SIZE
    let swapped := (raw.take 4).reverse ++ raw.drop 4
    let header : DiscordClientPktHeader := ⟨ofLE (swapped.take 4), ofLE (swapped.drop 4)⟩
    if !header.isValidSize || !header.isValidOpcode then
      some (false, { b with headerBuffer := b.headerBuffer.copyAtReadPointer swapped })
    else
      let size := header.size - 2
      some (true,
        { b with
          headerBuffer := b.headerBuffer.copyAtReadPointer (toLE 4 size ++ swapped.drop 4)
          packetBuffer := b.packetBuffer.resize size })
  else none

/-- How one pass of the loop ends. -/
inductive Iteration
  /-- More bytes are needed: `break`. -/
  | incomplete (b : ReadBuffers)
  /-- The header was rejected: `CloseSocket` and `return`. -/
  | malformed (b : ReadBuffers)
  /-- `ReadDataHandler` is called with this packet; the header is not yet reset. -/
  | packet (p : DiscordPacket) (b : ReadBuffers)
  deriving DecidableEq, Repr

/-- The second half of the body, with a full header. -/
def payloadIteration (b : ReadBuffers) : Option Iteration :=
  if b.packetBuffer.hasRemainingSpace then
    let b := b.fillPacket
    if b.packetBuffer.hasRemainingSpace then
      if b.readBuffer.hasActiveSize then none else some (.incomplete b)
    else some (.packet b.takePacket.1 b.takePacket.2)
  else some (.packet b.takePacket.1 b.takePacket.2)

/-- The body of the `while` loop; `none` when an `ASSERT` fails. -/
def iteration (b : ReadBuffers) : Option Iteration :=
  if b.headerBuffer.hasRemainingSpace then
    let b := b.fillHeader
    if b.headerBuffer.hasRemainingSpace then
      if b.readBuffer.hasActiveSize then none else some (.incomplete b)
    else
      match readHeaderHandler b with
      | none => none
      | some (false, b) => some (.malformed b)
      | some (true, b) => payloadIteration b
  else payloadIteration b

/-! ## Moving bytes between two buffers -/

section Transfer
variable {source target : MessageBuffer}

theorem length_take_transfer (hs : source.Valid) :
    (source.readPointer.take (transferSize source target)).length =
      transferSize source target := by
  have hle : transferSize source target ≤ source.getActiveSize := Nat.min_le_left _ _
  rw [take_readPointer hle, List.length_take, length_active hs, Nat.min_eq_left hle]

theorem valid_transferSource (hs : source.Valid) : (transferSource source target).Valid :=
  valid_readCompleted hs (Nat.min_le_left _ _)

theorem active_transferSource :
    (transferSource source target).active = source.active.drop (transferSize source target) :=
  active_readCompleted _ _

theorem valid_transferTarget (hs : source.Valid) (ht : target.Valid) :
    (transferTarget source target).Valid := by
  refine valid_write ht ?_
  rw [length_take_transfer hs]
  exact Nat.min_le_right _ _

theorem active_transferTarget (ht : target.Valid) :
    (transferTarget source target).active =
      target.active ++ source.active.take (transferSize source target) := by
  have hle : transferSize source target ≤ source.getActiveSize := Nat.min_le_left _ _
  rw [transferTarget, active_write ht, take_readPointer hle]

theorem wpos_transferTarget (hs : source.Valid) :
    (transferTarget source target).wpos = target.wpos + transferSize source target := by
  rw [transferTarget, wpos_write, length_take_transfer hs]

theorem length_storage_transferTarget (hs : source.Valid) (ht : target.Valid) :
    (transferTarget source target).storage.length = target.storage.length := by
  have hw := ht.wpos_le
  have hr : transferSize source target ≤ target.getRemainingSpace := Nat.min_le_right _ _
  simp only [getRemainingSpace] at hr
  exact length_storage_write (by rw [length_take_transfer hs]; omega)

/-- If the target still has room, the source is used up. -/
theorem active_transferSource_eq_nil (hs : source.Valid) (ht : target.Valid)
    (hroom : (transferTarget source target).wpos < target.storage.length) :
    (transferSource source target).active = [] := by
  have hw := ht.wpos_le
  rw [wpos_transferTarget hs] at hroom
  rw [active_transferSource]
  refine List.drop_eq_nil_of_le ?_
  rw [length_active hs]
  simp only [transferSize, getRemainingSpace] at hroom ⊢
  omega

end Transfer

/-! ## The bytes in the buffers -/

namespace ReadBuffers

/-- The bytes received and not yet handed to `ReadDataHandler`, in order. -/
def pending (b : ReadBuffers) : List UInt8 :=
  if b.headerBuffer.hasRemainingSpace then b.headerBuffer.active ++ b.readBuffer.active
  else
    rawHeader (ofLE (b.headerBuffer.storage.take 4)) (ofLE (b.headerBuffer.storage.drop 4)) ++
      b.packetBuffer.active ++ b.readBuffer.active

/-- What holds of the buffers at every point of the loop. -/
structure Shape (b : ReadBuffers) : Prop where
  read_valid : b.readBuffer.Valid
  read_size : READ_BLOCK_SIZE ≤ b.readBuffer.storage.length
  header_valid : b.headerBuffer.Valid
  header_rpos : b.headerBuffer.rpos = 0
  header_size : b.headerBuffer.storage.length = 6
  packet_valid : b.packetBuffer.Valid
  packet_rpos : b.packetBuffer.rpos = 0

/-- The header of the next frame is not complete. -/
structure HeaderOpen (b : ReadBuffers) : Prop where
  wpos_lt : b.headerBuffer.wpos < 6
  packet_wpos : b.packetBuffer.wpos = 0

/-- The header is complete and decoded: a payload of `n` bytes is expected. -/
structure HeaderDone (b : ReadBuffers) (n cmd : ℕ) : Prop where
  wpos_eq : b.headerBuffer.wpos = 6
  header_eq : b.headerBuffer.storage = toLE 4 n ++ toLE 2 cmd
  packet_size : b.packetBuffer.storage.length = n
  size_lt : n + 2 < 10000
  cmd_lt : cmd < NUM_DISCORD_CODE_HANDLERS

/-- The buffers between two passes of the loop, and between two reads. -/
structure Between (b : ReadBuffers) : Prop where
  shape : b.Shape
  stage : b.HeaderOpen ∨ ∃ n cmd, b.HeaderDone n cmd ∧ b.packetBuffer.wpos < n

variable {b : ReadBuffers} {n cmd : ℕ}

theorem hasRemainingSpace_header (h : b.Shape) :
    b.headerBuffer.hasRemainingSpace = true ↔ b.headerBuffer.wpos < 6 := by
  rw [hasRemainingSpace_eq_true, getRemainingSpace, h.header_size]
  omega

theorem hasRemainingSpace_packet (hd : b.HeaderDone n cmd) :
    b.packetBuffer.hasRemainingSpace = true ↔ b.packetBuffer.wpos < n := by
  rw [hasRemainingSpace_eq_true, getRemainingSpace, hd.packet_size]
  omega

theorem pending_of_headerOpen (h : b.Shape) (ho : b.HeaderOpen) :
    b.pending = b.headerBuffer.active ++ b.readBuffer.active := by
  rw [pending, if_pos ((hasRemainingSpace_header h).mpr ho.wpos_lt)]

theorem pending_of_headerDone (h : b.Shape) (hd : b.HeaderDone n cmd) :
    b.pending = rawHeader n cmd ++ b.packetBuffer.active ++ b.readBuffer.active := by
  have hn := hd.size_lt
  have hc : cmd < 8 := hd.cmd_lt
  have hroom : ¬ b.headerBuffer.hasRemainingSpace = true := by
    rw [hasRemainingSpace_header h, hd.wpos_eq]; omega
  have h4 : (toLE 4 n ++ toLE 2 cmd).take 4 = toLE 4 n := by
    rw [List.take_append_of_le_length (by simp), List.take_of_length_le (by simp)]
  have h2 : (toLE 4 n ++ toLE 2 cmd).drop 4 = toLE 2 cmd := by
    rw [List.drop_append_of_le_length (by simp), List.drop_eq_nil_of_le (by simp), List.nil_append]
  rw [pending, if_neg hroom, hd.header_eq, h4, h2, ofLE_toLE, ofLE_toLE,
    Nat.mod_eq_of_lt (by omega), Nat.mod_eq_of_lt (by omega)]

/-- Nothing is pending in the buffers of a new socket. -/
theorem between_new : new.Between := by
  refine ⟨⟨?_, ?_, ?_, rfl, ?_, valid_ofSize _, rfl⟩, .inl ⟨by decide, rfl⟩⟩
  · exact valid_resize (valid_ofSize _) (Nat.zero_le _)
  · simp [new, resize, READ_BLOCK_SIZE]
  · exact valid_resize (valid_ofSize _) (Nat.zero_le _)
  · simp [new, resize, DiscordClientPktHeader.SIZE]

theorem pending_new : new.pending = [] := by
  have hs := between_new.shape
  rw [pending_of_headerOpen hs ⟨by decide, rfl⟩]
  rfl

/-- Between two passes, what the header and the packet buffer hold is less than a
frame. -/
theorem parse_pending_of_drained (h : b.Between) (hnil : b.readBuffer.active = []) :
    parse b.pending = ([], false) := by
  have hs := h.shape
  rcases h.stage with ho | ⟨n, cmd, hd, hlt⟩
  · have hlt := ho.wpos_lt
    rw [pending_of_headerOpen hs ho, hnil, List.append_nil]
    refine parse_of_length_lt ?_
    rw [length_active hs.header_valid, getActiveSize]
    omega
  · rw [pending_of_headerDone hs hd, hnil, List.append_nil]
    refine parse_incomplete hd.size_lt hd.cmd_lt ?_
    rw [length_active hs.packet_valid, getActiveSize, hs.packet_rpos]
    omega

/-- Only the active bytes of the read buffer are pending, and only its size
matters. -/
theorem between_readBuffer (h : b.Between) {r : MessageBuffer} (hr : r.Valid)
    (hs : READ_BLOCK_SIZE ≤ r.storage.length) : { b with readBuffer := r }.Between where
  shape := ⟨hr, hs, h.shape.header_valid, h.shape.header_rpos, h.shape.header_size,
    h.shape.packet_valid, h.shape.packet_rpos⟩
  stage := h.stage.imp (fun ho => ⟨ho.wpos_lt, ho.packet_wpos⟩)
    fun ⟨n, cmd, hd, hlt⟩ =>
      ⟨n, cmd, ⟨hd.wpos_eq, hd.header_eq, hd.packet_size, hd.size_lt, hd.cmd_lt⟩, hlt⟩

theorem pending_readBuffer (b : ReadBuffers) {r : MessageBuffer} {chunk : List UInt8}
    (hr : r.active = b.readBuffer.active ++ chunk) :
    { b with readBuffer := r }.pending = b.pending ++ chunk := by
  simp only [pending, hr]
  split <;> simp

end ReadBuffers

open ReadBuffers

/-! ## One pass of the loop -/

variable {b : ReadBuffers} {n cmd : ℕ}

/-- What a pass does to the pending bytes. -/
inductive IterationSpec (b : ReadBuffers) : Option Iteration → Prop
  | incomplete {b' : ReadBuffers} (between : b'.Between)
      (drained : b'.readBuffer.active = []) (same : b'.pending = b.pending) :
      IterationSpec b (some (.incomplete b'))
  | malformed {b' : ReadBuffers} (bad : ∀ rest, parse (b.pending ++ rest) = ([], true)) :
      IterationSpec b (some (.malformed b'))
  | packet {p : DiscordPacket} {b' : ReadBuffers} (between : b'.resetHeader.Between)
      (less : b'.readBuffer.getActiveSize < b.readBuffer.getActiveSize)
      (frame : ∀ rest, parse (b.pending ++ rest) =
        prepend [p] (parse (b'.resetHeader.pending ++ rest))) :
      IterationSpec b (some (.packet p b'))

theorem shape_fillHeader (h : b.Shape) : b.fillHeader.Shape where
  read_valid := valid_transferSource h.read_valid
  read_size := h.read_size
  header_valid := valid_transferTarget h.read_valid h.header_valid
  header_rpos := by simpa [fillHeader, transferTarget] using h.header_rpos
  header_size := (length_storage_transferTarget h.read_valid h.header_valid).trans h.header_size
  packet_valid := h.packet_valid
  packet_rpos := h.packet_rpos

theorem shape_fillPacket (h : b.Shape) : b.fillPacket.Shape where
  read_valid := valid_transferSource h.read_valid
  read_size := h.read_size
  header_valid := h.header_valid
  header_rpos := h.header_rpos
  header_size := h.header_size
  packet_valid := valid_transferTarget h.read_valid h.packet_valid
  packet_rpos := by simpa [fillPacket, transferTarget] using h.packet_rpos

theorem headerDone_fillPacket (h : b.Shape) (hd : b.HeaderDone n cmd) :
    b.fillPacket.HeaderDone n cmd :=
  ⟨hd.wpos_eq, hd.header_eq,
    (length_storage_transferTarget h.read_valid h.packet_valid).trans hd.packet_size,
    hd.size_lt, hd.cmd_lt⟩

/-- Filling a buffer moves bytes but neither drops nor reorders any. -/
theorem pending_fillPacket (h : b.Shape) (hd : b.HeaderDone n cmd) :
    b.fillPacket.pending = b.pending := by
  rw [pending_of_headerDone (shape_fillPacket h) (headerDone_fillPacket h hd),
    pending_of_headerDone h hd]
  simp only [fillPacket, active_transferTarget h.packet_valid, active_transferSource,
    List.append_assoc, List.take_append_drop]

/-- With header and payload complete, the packet taken is the next frame and what
stays behind is an open header and the rest of the read buffer. -/
theorem takePacket_spec (h : b.Shape) (hd : b.HeaderDone n cmd) (hfull : b.packetBuffer.wpos = n) :
    b.takePacket.2.resetHeader.Between ∧ ∀ rest, parse (b.pending ++ rest) =
      prepend [b.takePacket.1] (parse (b.takePacket.2.resetHeader.pending ++ rest)) := by
  have hshape : b.takePacket.2.resetHeader.Shape :=
    ⟨h.read_valid, h.read_size, valid_reset _, rfl, h.header_size, ⟨le_rfl, le_rfl⟩, rfl⟩
  have hopen : b.takePacket.2.resetHeader.HeaderOpen := ⟨Nat.zero_lt_succ 5, rfl⟩
  have hpayload : b.packetBuffer.active = b.packetBuffer.storage := by
    rw [active_eq, h.packet_rpos, hfull, List.drop_zero,
      List.take_of_length_le (Nat.le_of_eq hd.packet_size)]
  have hc : cmd < 8 := hd.cmd_lt
  have hcmd : (b.headerBuffer.readPointer.drop 4).take 2 = toLE 2 cmd := by
    rw [readPointer, h.header_rpos, List.drop_zero, hd.header_eq,
      List.drop_append_of_le_length (by simp), List.drop_eq_nil_of_le (by simp), List.nil_append,
      List.take_of_length_le (by simp)]
  have hpacket : b.takePacket.1 = ⟨UInt16.ofNat cmd, b.packetBuffer.storage⟩ := by
    simp only [takePacket, hcmd, ofLE_toLE, move]
    rw [Nat.mod_eq_of_lt (by omega)]
  have hrest : b.takePacket.2.resetHeader.pending = b.readBuffer.active := by
    rw [pending_of_headerOpen hshape hopen]
    simp [resetHeader, takePacket]
  refine ⟨⟨hshape, .inl hopen⟩, fun rest => ?_⟩
  rw [hrest, hpacket, pending_of_headerDone h hd, hpayload, List.append_assoc,
    parse_frame hd.size_lt hd.cmd_lt hd.packet_size]

/-- The second half of the body.  `hless` says that the first half has consumed
something, or that this half will. -/
theorem payloadIteration_spec {b₀ : ReadBuffers} (h : b.Shape) (hd : b.HeaderDone n cmd)
    (hsame : b.pending = b₀.pending) (hle : b.packetBuffer.wpos ≤ n)
    (hless : b.readBuffer.getActiveSize < b₀.readBuffer.getActiveSize ∨
      b.readBuffer.getActiveSize = b₀.readBuffer.getActiveSize ∧ b.packetBuffer.wpos < n ∧
        0 < b.readBuffer.getActiveSize) :
    IterationSpec b₀ (payloadIteration b) := by
  have hroom := hasRemainingSpace_packet hd
  by_cases hopen : b.packetBuffer.wpos < n
  · have hshape := shape_fillPacket h
    have hdone := headerDone_fillPacket h hd
    have hwpos : b.fillPacket.packetBuffer.wpos =
        b.packetBuffer.wpos + transferSize b.readBuffer b.packetBuffer :=
      wpos_transferTarget h.read_valid
    have hroom' := hasRemainingSpace_packet hdone
    have hpend : b.fillPacket.pending = b₀.pending := (pending_fillPacket h hd).trans hsame
    have hsize : b.fillPacket.readBuffer.getActiveSize =
        b.readBuffer.getActiveSize - transferSize b.readBuffer b.packetBuffer :=
      getActiveSize_readCompleted _ _
    by_cases hmore : b.fillPacket.packetBuffer.wpos < n
    · -- the payload is still open, so the read buffer is used up
      have hnil : b.fillPacket.readBuffer.active = [] :=
        active_transferSource_eq_nil h.read_valid h.packet_valid
          (by rw [hd.packet_size]; exact hmore)
      have hactive := hasActiveSize_of_active_eq_nil hshape.read_valid hnil
      have hit : payloadIteration b = some (.incomplete b.fillPacket) := by
        simp only [payloadIteration, hroom.mpr hopen, hroom'.mpr hmore, hactive, if_true,
          Bool.false_eq_true, if_false]
      rw [hit]
      exact .incomplete ⟨hshape, .inr ⟨n, cmd, hdone, hmore⟩⟩ hnil hpend
    · have hfull : b.fillPacket.packetBuffer.wpos = n := by
        have := hshape.packet_valid.wpos_le
        rw [hdone.packet_size] at this
        omega
      have hmoved : 0 < transferSize b.readBuffer b.packetBuffer := by omega
      have hspec := takePacket_spec hshape hdone hfull
      have hit : payloadIteration b =
          some (.packet b.fillPacket.takePacket.1 b.fillPacket.takePacket.2) := by
        simp only [payloadIteration, hroom.mpr hopen, if_true]
        rw [if_neg (by rw [hroom']; exact hmore)]
      rw [hit]
      refine .packet hspec.1 ?_ ?_
      · change b.fillPacket.readBuffer.getActiveSize < _
        omega
      · intro rest; rw [← hpend]; exact hspec.2 rest
  · have hspec := takePacket_spec h hd (by omega)
    have hit : payloadIteration b = some (.packet b.takePacket.1 b.takePacket.2) := by
      rw [payloadIteration, if_neg (by rw [hroom]; exact hopen)]
    rw [hit]
    refine .packet hspec.1 ?_ ?_
    · change b.readBuffer.getActiveSize < _
      omega
    · intro rest; rw [← hsame]; exact hspec.2 rest

/-- A full header buffer, read at its read pointer, is its storage. -/
theorem storage_of_header_full (h : b.Shape) (hfull : b.headerBuffer.wpos = 6) :
    b.headerBuffer.storage = b.headerBuffer.active := by
  rw [active_eq, h.header_rpos, hfull, List.drop_zero,
    List.take_of_length_le (Nat.le_of_eq h.header_size)]

theorem length_active_of_header_full (h : b.Shape) (hfull : b.headerBuffer.wpos = 6) :
    b.headerBuffer.active.length = 6 := by
  rw [length_active h.header_valid, getActiveSize, h.header_rpos, hfull]

/-- Reversing the size in place, and reading both fields as the host does, decodes the
header; the opcode stays where it was. -/
theorem decodeHeader_swapped {raw : List UInt8} (hlen : raw.length = 6) :
    ofLE (((raw.take 4).reverse ++ raw.drop 4).take 4) = (decodeHeader raw).size ∧
      ((raw.take 4).reverse ++ raw.drop 4).drop 4 = raw.drop 4 ∧
      ofLE (raw.drop 4) = (decodeHeader raw).cmd := by
  refine ⟨?_, ?_, ?_⟩
  · rw [List.take_append_of_le_length (by simp [hlen]), List.take_of_length_le (by simp),
      decodeHeader, ofBE]
  · rw [List.drop_append_of_le_length (by simp [hlen]), List.drop_eq_nil_of_le (by simp),
      List.nil_append]
  · change _ = ofLE ((raw.drop 4).take 2)
    rw [List.take_of_length_le (by rw [List.length_drop]; omega)]

/-- `ReadHeaderHandler` on a full header buffer, in terms of the decoded header. -/
theorem readHeaderHandler_eq (h : b.Shape) (hfull : b.headerBuffer.wpos = 6) {raw : List UInt8}
    (hraw : b.headerBuffer.active = raw) :
    readHeaderHandler b =
      if (decodeHeader raw).isValid then
        some (true,
          { b with
            headerBuffer := b.headerBuffer.copyAtReadPointer
              (toLE 4 ((decodeHeader raw).size - 2) ++ raw.drop 4)
            packetBuffer := b.packetBuffer.resize ((decodeHeader raw).size - 2) })
      else
        some (false,
          { b with
            headerBuffer := b.headerBuffer.copyAtReadPointer
              ((raw.take 4).reverse ++ raw.drop 4) }) := by
  have hlen : raw.length = 6 := hraw ▸ length_active_of_header_full h hfull
  have hread : b.headerBuffer.readPointer.take DiscordClientPktHeader.SIZE = raw := by
    rw [readPointer, h.header_rpos, List.drop_zero, storage_of_header_full h hfull, hraw,
      List.take_of_length_le (by rw [hlen]; decide)]
  have hsize : b.headerBuffer.getActiveSize = DiscordClientPktHeader.SIZE := by
    rw [← length_active h.header_valid, hraw]; exact hlen
  obtain ⟨h4, h2, hcmd⟩ := decodeHeader_swapped hlen
  have hcond : (!(decodeHeader raw).isValidSize || !(decodeHeader raw).isValidOpcode) =
      !(decodeHeader raw).isValid := by
    simp [DiscordClientPktHeader.isValid]
  simp only [readHeaderHandler, if_pos hsize, hread, h4, h2, hcmd, hcond]
  cases (decodeHeader raw).isValid <;> rfl

/-- What `ReadHeaderHandler` finds in a full header buffer. -/
theorem readHeaderHandler_spec (h : b.Shape) (hfull : b.headerBuffer.wpos = 6)
    (hempty : b.packetBuffer.wpos = 0) {raw : List UInt8} (hraw : b.headerBuffer.active = raw) :
    ((decodeHeader raw).isValid = false ∧ ∃ b', readHeaderHandler b = some (false, b')) ∨
      ((decodeHeader raw).isValid = true ∧ ∃ b', readHeaderHandler b = some (true, b') ∧
        b'.Shape ∧ b'.HeaderDone ((decodeHeader raw).size - 2) (decodeHeader raw).cmd ∧
        b'.readBuffer = b.readBuffer ∧ b'.packetBuffer.wpos = 0) := by
  have heq := readHeaderHandler_eq h hfull hraw
  cases hv : (decodeHeader raw).isValid
  · rw [hv, if_neg Bool.false_ne_true] at heq
    exact .inl ⟨rfl, _, heq⟩
  · rw [hv, if_pos rfl] at heq
    simp only [DiscordClientPktHeader.isValid, DiscordClientPktHeader.isValidSize,
      DiscordClientPktHeader.isValidOpcode, Bool.and_eq_true, decide_eq_true_eq] at hv
    obtain ⟨⟨hlow, hhigh⟩, hopcode⟩ := hv
    -- the header in place: the size reduced by the opcode, the opcode as it came
    have hplace : (b.headerBuffer.copyAtReadPointer
        (toLE 4 ((decodeHeader raw).size - 2) ++ raw.drop 4)).storage =
          toLE 4 ((decodeHeader raw).size - 2) ++ toLE 2 (decodeHeader raw).cmd := by
      rw [← toLE_decodeHeader_cmd (hraw ▸ length_active_of_header_full h hfull),
        storage_copyAtReadPointer h.header_rpos (by rw [h.header_size]; simp)]
    refine .inr ⟨rfl, _, heq, ?_, ?_, rfl, hempty⟩
    · refine ⟨h.read_valid, h.read_size, ⟨h.header_valid.rpos_le, ?_⟩, h.header_rpos, ?_,
        valid_resize h.packet_valid (by rw [hempty]; exact Nat.zero_le _), h.packet_rpos⟩
      · change b.headerBuffer.wpos ≤ _
        rw [hplace, hfull]
        simp
      · rw [hplace]
        simp
    · exact ⟨hfull, hplace, by simp [resize], by omega, hopcode⟩

/-- Filling the header moves bytes and keeps their order. -/
theorem active_fillHeader (hs : b.Shape) (ho : b.HeaderOpen) :
    b.fillHeader.headerBuffer.active ++ b.fillHeader.readBuffer.active = b.pending := by
  rw [pending_of_headerOpen hs ho]
  simp only [fillHeader, active_transferTarget hs.header_valid, active_transferSource,
    List.append_assoc, List.take_append_drop]

/-- With a header that was just decoded, what is pending is that header and the read buffer. -/
theorem pending_of_decoded {raw : List UInt8} (hs : b.Shape)
    (hd : b.HeaderDone ((decodeHeader raw).size - 2) (decodeHeader raw).cmd)
    (hwpos : b.packetBuffer.wpos = 0) (hlen : raw.length = 6)
    (hgood : (decodeHeader raw).isValid = true) :
    b.pending = raw ++ b.readBuffer.active := by
  have hnil : b.packetBuffer.active = [] := by
    rw [← List.length_eq_zero_iff, length_active hs.packet_valid, getActiveSize, hwpos,
      Nat.zero_sub]
  rw [pending_of_headerDone hs hd, rawHeader_decodeHeader hlen hgood, hnil, List.append_nil]

/-- **One pass of the loop on a non-empty read buffer.**  No `ASSERT` fails; the pass
takes the next frame off the pending bytes, or there is none yet, or the next header
is invalid. -/
theorem iteration_spec (h : b.Between) (hpos : 0 < b.readBuffer.getActiveSize) :
    IterationSpec b (iteration b) := by
  have hs := h.shape
  rcases h.stage with ho | ⟨n, cmd, hd, hlt⟩
  · have hshape := shape_fillHeader hs
    have hroom : b.headerBuffer.hasRemainingSpace = true :=
      (hasRemainingSpace_header hs).mpr ho.wpos_lt
    have hwpos : b.fillHeader.headerBuffer.wpos =
        b.headerBuffer.wpos + transferSize b.readBuffer b.headerBuffer :=
      wpos_transferTarget hs.read_valid
    have hsize : b.fillHeader.readBuffer.getActiveSize =
        b.readBuffer.getActiveSize - transferSize b.readBuffer b.headerBuffer :=
      getActiveSize_readCompleted _ _
    have hbytes := active_fillHeader hs ho
    by_cases hmore : b.fillHeader.headerBuffer.wpos < 6
    · -- the header is still open, so the read buffer is used up
      have hopen : b.fillHeader.HeaderOpen := ⟨hmore, ho.packet_wpos⟩
      have hnil : b.fillHeader.readBuffer.active = [] :=
        active_transferSource_eq_nil hs.read_valid hs.header_valid
          (by rw [hs.header_size]; exact hmore)
      have hactive := hasActiveSize_of_active_eq_nil hshape.read_valid hnil
      have hpend : b.fillHeader.pending = b.pending := by
        rw [pending_of_headerOpen hshape hopen, hbytes]
      have hit : iteration b = some (.incomplete b.fillHeader) := by
        simp only [iteration, hroom, (hasRemainingSpace_header hshape).mpr hmore, hactive, if_true,
          Bool.false_eq_true, if_false]
      rw [hit]
      exact .incomplete ⟨hshape, .inl hopen⟩ hnil hpend
    · have hfull : b.fillHeader.headerBuffer.wpos = 6 := by
        have := hshape.header_valid.wpos_le
        rw [hshape.header_size] at this
        omega
      have hclosed : ¬ b.fillHeader.headerBuffer.hasRemainingSpace = true := by
        rw [hasRemainingSpace_header hshape]; exact hmore
      have hfilled := ho.wpos_lt
      have hlen := length_active_of_header_full hshape hfull
      obtain ⟨hbad, b', hr⟩ | ⟨hgood, b', hr, hshape', hdone, hread, hpacket⟩ :=
        readHeaderHandler_spec hshape hfull ho.packet_wpos rfl
      · have hit : iteration b = some (.malformed b') := by
          simp only [iteration, hroom, if_true, if_neg hclosed, hr]
        rw [hit]
        refine .malformed fun rest => ?_
        rw [← hbytes, List.append_assoc]
        exact parse_malformed hlen hbad _
      · have hit : iteration b = payloadIteration b' := by
          simp only [iteration, hroom, if_true, if_neg hclosed, hr]
        have hpend : b'.pending = b.pending := by
          rw [pending_of_decoded hshape' hdone hpacket hlen hgood, hread, hbytes]
        rw [hit]
        refine payloadIteration_spec hshape' hdone hpend (by omega) (.inl ?_)
        rw [hread]
        omega
  · have hclosed : ¬ b.headerBuffer.hasRemainingSpace = true := by
      rw [hasRemainingSpace_header hs, hd.wpos_eq]; omega
    have hit : iteration b = payloadIteration b := by rw [iteration, if_neg hclosed]
    rw [hit]
    exact payloadIteration_spec hs hd rfl (Nat.le_of_lt hlt) (.inr ⟨rfl, hlt, hpos⟩)

end WarheadDiscord
