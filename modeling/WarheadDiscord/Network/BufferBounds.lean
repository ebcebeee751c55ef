import WarheadDiscord.Common.BufferCalls
import WarheadDiscord.Network.Receiver
import WarheadDiscord.Network.SendPath
import WarheadDiscord.Network.WriteQueue

/-!
# The buffer calls of a socket

Every place where a socket calls a member function of a `MessageBuffer`, written out with
the check the class does not make: `checked` fails if the cursors are out of order or the
bound of the call is not kept.  The reading side, the loop of `DiscordSocket::Update` and
`HandleQueue` are repeated with these calls, and each of them is shown to do what it does
without the checks.  So no check ever fails.

The bounds of the reading side come from the three buffers together: what is moved out of
the read buffer is the smaller of what it holds and of the room in the other buffer, and the
packet buffer is resized only while it is empty.

## Main definitions

* `MessageBuffer.checked` — a call with its bound.
* `Receiver.checkedNext`, `SendPath.checkedUpdate`, `WriteSide.checkedNext` — the callers.
-/

namespace WarheadDiscord

open Bytes MessageBuffer ReadBuffers

/-- The call, if the cursors are in order and its bound is kept. -/
def MessageBuffer.checked (b : MessageBuffer) (op : Op) : Option MessageBuffer :=
  if b.Valid ∧ b.InBounds op then some (b.apply op) else none

theorem MessageBuffer.checked_eq {b : MessageBuffer} (h : b.Valid) (op : Op)
    (hop : b.InBounds op) : b.checked op = some (b.apply op) :=
  if_pos ⟨h, hop⟩

/-! ## Reading -/

namespace ReadBuffers

/-- `Write` to the target, then `ReadCompleted` of the source. -/
def checkedTransfer (source target : MessageBuffer) : Option (MessageBuffer × MessageBuffer) :=
  let size := transferSize source target
  (target.checked (.write (source.readPointer.take size))).bind fun target =>
    (source.checked (.readCompleted size)).map fun source => (target, source)

def checkedFillHeader (b : ReadBuffers) : Option ReadBuffers :=
  (checkedTransfer b.readBuffer b.headerBuffer).map fun r =>
    { b with headerBuffer := r.1, readBuffer := r.2 }

def checkedFillPacket (b : ReadBuffers) : Option ReadBuffers :=
  (checkedTransfer b.readBuffer b.packetBuffer).map fun r =>
    { b with packetBuffer := r.1, readBuffer := r.2 }

/-- `Move` of the packet buffer into the packet. -/
def checkedTakePacket (b : ReadBuffers) : Option (DiscordPacket × ReadBuffers) :=
  (b.packetBuffer.checked (.move [])).map fun left =>
    (b.takePacket.1, { b with packetBuffer := left })

/-- `Resize` of the packet buffer to the announced size. -/
def checkedReadHeaderHandler (b : ReadBuffers) : Option (Option (Bool × ReadBuffers)) :=
  if b.headerBuffer.getActiveSize = DiscordClientPktHeader.SIZE then
    let raw := b.headerBuffer.readPointer.take DiscordClientPktHeader.SIZE
    let swapped := (raw.take 4).reverse ++ raw.drop 4
    let header : DiscordClientPktHeader := ⟨ofLE (swapped.take 4), ofLE (swapped.drop 4)⟩
    if !header.isValidSize || !header.isValidOpcode then
      some (some (false, { b with headerBuffer := b.headerBuffer.copyAtReadPointer swapped }))
    else
      let size := header.size - 2
      (b.packetBuffer.checked (.resize size)).map fun packetBuffer =>
        some (true,
          { b with
            headerBuffer := b.headerBuffer.copyAtReadPointer (toLE 4 size ++ swapped.drop 4)
            packetBuffer := packetBuffer })
  else some none

def checkedPayloadIteration (b : ReadBuffers) : Option (Option Iteration) :=
  if b.packetBuffer.hasRemainingSpace then
    b.checkedFillPacket.bind fun b =>
      if b.packetBuffer.hasRemainingSpace then
        some (if b.readBuffer.hasActiveSize then none else some (.incomplete b))
      else b.checkedTakePacket.map fun r => some (.packet r.1 r.2)
  else b.checkedTakePacket.map fun r => some (.packet r.1 r.2)

/-- One pass of the loop with its calls checked. -/
def checkedIteration (b : ReadBuffers) : Option (Option Iteration) :=
  if b.headerBuffer.hasRemainingSpace then
    b.checkedFillHeader.bind fun b =>
      if b.headerBuffer.hasRemainingSpace then
        some (if b.readBuffer.hasActiveSize then none else some (.incomplete b))
      else
        b.checkedReadHeaderHandler.bind fun r =>
          match r with
          | none => some none
          | some (false, b) => some (some (.malformed b))
          | some (true, b) => b.checkedPayloadIteration
  else b.checkedPayloadIteration

variable {b : ReadBuffers}

theorem checkedTransfer_eq {source target : MessageBuffer} (hs : source.Valid)
    (ht : target.Valid) : checkedTransfer source target =
      some (transferTarget source target, transferSource source target) := by
  have hwrite : target.InBounds
      (.write (source.readPointer.take (transferSize source target))) := by
    change List.length _ ≤ _
    rw [length_take_transfer hs]
    exact Nat.min_le_right _ _
  have hread : source.InBounds (.readCompleted (transferSize source target)) :=
    Nat.min_le_left _ _
  simp only [checkedTransfer, checked_eq ht _ hwrite, checked_eq hs _ hread, Option.bind_some,
    Option.map_some]
  rfl

theorem checkedFillHeader_eq (h : b.Shape) : b.checkedFillHeader = some b.fillHeader := by
  rw [checkedFillHeader, checkedTransfer_eq h.read_valid h.header_valid]
  rfl

theorem checkedFillPacket_eq (h : b.Shape) : b.checkedFillPacket = some b.fillPacket := by
  rw [checkedFillPacket, checkedTransfer_eq h.read_valid h.packet_valid]
  rfl

theorem checkedTakePacket_eq (h : b.Shape) : b.checkedTakePacket = some b.takePacket := by
  rw [checkedTakePacket, checked_eq h.packet_valid (.move []) trivial]
  rfl

theorem checkedPayloadIteration_eq (h : b.Shape) :
    b.checkedPayloadIteration = some (payloadIteration b) := by
  simp only [checkedPayloadIteration, payloadIteration, checkedFillPacket_eq h,
    checkedTakePacket_eq h, checkedTakePacket_eq (shape_fillPacket h), Option.bind_some,
    Option.map_some]
  split_ifs <;> rfl

/-- While the packet buffer is empty, any size is in bounds. -/
theorem checkedReadHeaderHandler_eq (h : b.Shape) (hempty : b.packetBuffer.wpos = 0) :
    b.checkedReadHeaderHandler = some (readHeaderHandler b) := by
  have hresize : ∀ n, b.packetBuffer.checked (.resize n) = some (b.packetBuffer.resize n) :=
    fun n => checked_eq h.packet_valid (.resize n) (by rw [InBounds, hempty]; exact Nat.zero_le n)
  simp only [checkedReadHeaderHandler, readHeaderHandler, hresize, Option.map_some]
  split_ifs <;> rfl

/-- A pass reaches its second half with the buffers in shape, or ends before it. -/
theorem iteration_halves (h : b.Between) :
    (∃ b', b'.Shape ∧ iteration b = payloadIteration b' ∧
      b.checkedIteration = b'.checkedPayloadIteration) ∨
    ∃ it, (∀ p b', it ≠ some (.packet p b')) ∧ iteration b = it ∧
      b.checkedIteration = some it := by
  have hs := h.shape
  rcases h.stage with ho | ⟨n, cmd, hd, -⟩
  · have hshape := shape_fillHeader hs
    have hroom := (hasRemainingSpace_header hs).mpr ho.wpos_lt
    simp only [checkedIteration, iteration, hroom, if_true, checkedFillHeader_eq hs,
      Option.bind_some]
    by_cases hmore : b.fillHeader.headerBuffer.hasRemainingSpace = true
    · simp only [hmore, if_true]
      refine .inr ⟨_, ?_, rfl, rfl⟩
      intro p b'
      split <;> simp
    · have hfull : b.fillHeader.headerBuffer.wpos = 6 := by
        have hle := hshape.header_valid.wpos_le
        rw [hasRemainingSpace_header hshape] at hmore
        rw [hshape.header_size] at hle
        omega
      rw [if_neg hmore, if_neg hmore, checkedReadHeaderHandler_eq hshape ho.packet_wpos,
        Option.bind_some]
      obtain ⟨-, b', hr⟩ | ⟨-, b', hr, hshape', -⟩ :=
        readHeaderHandler_spec hshape hfull ho.packet_wpos rfl
      · simp only [hr]
        exact .inr ⟨_, by simp, rfl, rfl⟩
      · simp only [hr]
        exact .inl ⟨b', hshape', rfl, rfl⟩
  · have hclosed : ¬ b.headerBuffer.hasRemainingSpace = true := by
      rw [hasRemainingSpace_header hs, hd.wpos_eq]
      omega
    rw [checkedIteration, iteration, if_neg hclosed, if_neg hclosed]
    exact .inl ⟨b, hs, rfl, rfl⟩

/-- **One pass of the loop keeps every bound.** -/
theorem checkedIteration_eq (h : b.Between) : b.checkedIteration = some (iteration b) := by
  obtain ⟨b', hshape, hit, hchecked⟩ | ⟨it, -, hit, hchecked⟩ := iteration_halves h
  · rw [hchecked, hit]
    exact checkedPayloadIteration_eq hshape
  · rw [hchecked, hit]

/-- The header buffer is in order when `Reset` is called on it. -/
theorem header_valid_of_iteration (h : b.Between) {p : DiscordPacket} {b' : ReadBuffers}
    (hit : iteration b = some (.packet p b')) : b'.headerBuffer.Valid := by
  obtain ⟨c, hshape, hhalf, -⟩ | ⟨it, hne, hend, -⟩ := iteration_halves h
  · -- both halves of `payloadIteration` leave the header buffer as it is
    simp only [hhalf, payloadIteration] at hit
    split_ifs at hit
    · simp at hit
    · cases hit
      exact hshape.header_valid
    · cases hit
      exact hshape.header_valid
  · exact absurd (hend.symm.trans hit) (hne p b')

end ReadBuffers

namespace Receiver

def checkedAsyncRead (r : Receiver) : Option Receiver :=
  if r.isOpen then
    (r.buffers.readBuffer.checked .normalize).bind fun readBuffer =>
      (readBuffer.checked .ensureFreeSpace).map fun readBuffer =>
        { r with
          buffers := { r.buffers with readBuffer := readBuffer }
          reads := r.reads + 1 }
  else some r

/-- The bytes are at the write pointer already when `WriteCompleted` is called. -/
def checkedReadHandlerInternal (r : Receiver) (chunk : List UInt8) : Option Receiver :=
  ((r.buffers.readBuffer.copyAtWritePointer chunk).checked (.writeCompleted chunk.length)).map
    fun readBuffer =>
      { r with
        buffers := { r.buffers with readBuffer := readBuffer }
        reads := r.reads - 1
        handling := r.isOpen
        paused := !r.isOpen
        stream := r.stream ++ chunk }

/-- `Reset` of the header buffer, and the rest of the pass. -/
def checkedAnswered (r : Receiver) (p : DiscordPacket) (b : ReadBuffers)
    (answer : ReadDataHandlerResult) : Option Receiver :=
  (b.headerBuffer.checked .reset).map fun headerBuffer =>
    let r := { r with
      buffers := { b with headerBuffer := headerBuffer }
      calls := r.calls ++ [(p, answer)] }
    match answer with
    | .ok => r
    | .error => { r with handling := false, paused := true }.closeSocket
    | .waitingForQuery => { r with handling := false, paused := true }

def checkedPass (r : Receiver) (answer : ReadDataHandlerResult) : Option Receiver :=
  if 0 < r.buffers.readBuffer.getActiveSize then
    r.buffers.checkedIteration.bind fun it =>
      match it with
      | none => some { r with handling := false, aborted := true }
      | some (.incomplete b) => { r with handling := false, buffers := b }.checkedAsyncRead
      | some (.malformed b) => some { r with handling := false, buffers := b }.closeSocket
      | some (.packet p b) => r.checkedAnswered p b answer
  else { r with handling := false }.checkedAsyncRead

/-- The receiving machine with every buffer call checked. -/
def checkedNext (r : Receiver) : Label → Option Receiver
  | .asyncRead => if r.reads = 0 ∧ r.handling = false then r.checkedAsyncRead else none
  | .receive chunk =>
      if 0 < r.reads ∧ r.handling = false ∧ chunk ≠ [] ∧
          chunk.length ≤ r.buffers.readBuffer.getRemainingSpace then
        r.checkedReadHandlerInternal chunk
      else none
  | .pass answer => if r.handling = true then r.checkedPass answer else none
  | l => r.next l

variable {r : Receiver}

theorem checkedAsyncRead_eq (h : r.closed = true ∨ r.buffers.readBuffer.Valid) :
    r.checkedAsyncRead = some r.asyncRead := by
  rcases h with hclosed | hv
  · have hopen : ¬ r.isOpen = true := by simp [isOpen, hclosed]
    rw [checkedAsyncRead, asyncRead, if_neg hopen, if_neg hopen]
  · have hnormalize := checked_eq hv .normalize trivial
    have hensure := checked_eq (valid_normalize hv) .ensureFreeSpace trivial
    simp only [apply] at hnormalize hensure
    simp only [checkedAsyncRead, asyncRead, hnormalize, Option.bind_some, hensure,
      Option.map_some]
    split <;> rfl

theorem checkedReadHandlerInternal_eq (hv : r.buffers.readBuffer.Valid) {chunk : List UInt8}
    (hle : chunk.length ≤ r.buffers.readBuffer.getRemainingSpace) :
    r.checkedReadHandlerInternal chunk = some (r.readHandlerInternal chunk) := by
  have hw := hv.wpos_le
  have hsize : (r.buffers.readBuffer.copyAtWritePointer chunk).storage.length =
      r.buffers.readBuffer.storage.length := by
    simp only [getRemainingSpace] at hle
    simp only [copyAtWritePointer, List.length_append, List.length_take, List.length_drop]
    omega
  have hvalid : (r.buffers.readBuffer.copyAtWritePointer chunk).Valid :=
    ⟨hv.rpos_le, hsize ▸ hw⟩
  have hbound : (r.buffers.readBuffer.copyAtWritePointer chunk).InBounds
      (.writeCompleted chunk.length) := by
    simp only [InBounds, getRemainingSpace, hsize]
    exact hle
  rw [checkedReadHandlerInternal, checked_eq hvalid _ hbound]
  rfl

theorem checkedAnswered_eq {b : ReadBuffers} (hv : b.headerBuffer.Valid) (p : DiscordPacket)
    (answer : ReadDataHandlerResult) :
    r.checkedAnswered p b answer = some (r.answered p b answer) := by
  rw [checkedAnswered, checked_eq hv .reset trivial]
  cases answer <;> rfl

/-- **A pass of `ReadHandler` keeps every bound.** -/
theorem checkedPass_eq (h : r.Reading) (answer : ReadDataHandlerResult) :
    r.checkedPass answer = some (r.pass answer) := by
  have hs := h.between.shape
  by_cases hpos : 0 < r.buffers.readBuffer.getActiveSize
  · have hspec := iteration_spec h.between hpos
    simp only [checkedPass, pass, hpos, if_true, checkedIteration_eq h.between, Option.bind_some]
    revert hspec
    generalize hit : iteration r.buffers = it
    intro hspec
    cases hspec with
    | incomplete hb _ _ => exact checkedAsyncRead_eq (.inr hb.shape.read_valid)
    | malformed _ => rfl
    | packet _ _ _ => exact checkedAnswered_eq (header_valid_of_iteration h.between hit) _ answer
  · rw [checkedPass, pass, if_neg hpos, if_neg hpos]
    exact checkedAsyncRead_eq (.inr hs.read_valid)

/-- **Every step of the receiving side keeps every bound.** -/
theorem checkedNext_eq (h : r.Inv) (l : Label) : r.checkedNext l = r.next l := by
  cases l with
  | asyncRead =>
      have hread : r.checkedAsyncRead = some r.asyncRead := by
        refine checkedAsyncRead_eq ?_
        rcases h.stage with hr | ⟨hj, -, -⟩
        · exact .inr hr.between.shape.read_valid
        · exact .inl hj.closed
      rw [checkedNext, next, hread]
  | receive chunk =>
      rw [checkedNext, next]
      split
      · rename_i hguard
        obtain ⟨hreads, -, -, hle⟩ := hguard
        have hr : r.Reading := h.stage.resolve_right fun hj => by omega
        exact checkedReadHandlerInternal_eq hr.between.shape.read_valid hle
      · rfl
  | readError => rfl
  | pass answer =>
      rw [checkedNext, next]
      split
      · rename_i hh
        have hr : r.Reading := h.stage.resolve_right fun hj => by simp [hj.2.2] at hh
        exact checkedPass_eq hr answer
      · rfl
  | closeSocket => rfl
  | delayedCloseSocket => rfl

theorem run_checkedNext (ls : List Label) :
    Machine.run checkedNext {} ls = Machine.run next {} ls :=
  Machine.run_congr (fun _ _ _ => inv_next) (fun _ l h => checkedNext_eq h l) inv_new ls

end Receiver

/-! ## Sending -/

namespace SendPath

/-- The two `Write`s of a packet. -/
def checkedWritePacket (b : MessageBuffer) (p : DiscordPacket) : Option MessageBuffer :=
  (b.checked (.write (DiscordServerPktHeader.ofPacket p).header)).bind fun b =>
    b.checked (.write p.contents)

def checkedSendPacketStep (sendBufferSize : ℕ) (s : SendState) (p : DiscordPacket) :
    Option SendState :=
  let header := DiscordServerPktHeader.ofPacket p
  let spilled :=
    if s.buffer.getRemainingSpace < p.size + header.getHeaderLength then
      (s.buffer.checked (.resize sendBufferSize)).map fun buffer =>
        { s.queuePacket s.buffer with buffer := buffer }
    else some s
  spilled.bind fun s =>
    if s.buffer.getRemainingSpace ≥ p.size + header.getHeaderLength then
      (checkedWritePacket s.buffer p).map fun buffer => { s with buffer := buffer }
    else
      (checkedWritePacket (MessageBuffer.ofSize (p.size + header.getHeaderLength)) p).map
        s.queuePacket

/-- The loop of `Update` with its calls checked, the `Move` of the last buffer included. -/
def checkedUpdate (sendBufferSize : ℕ) (packets : List DiscordPacket) :
    Option (List MessageBuffer) :=
  (packets.foldlM (checkedSendPacketStep sendBufferSize)
    ⟨MessageBuffer.ofSize sendBufferSize, []⟩).bind fun s =>
      if s.buffer.getActiveSize > 0 then
        (s.buffer.checked (.move [])).map fun _ => (s.queuePacket s.buffer).queued
      else some s.queued

variable {sendBufferSize : ℕ} {s : SendState} {held out : List UInt8}

theorem checkedWritePacket_eq {b : MessageBuffer} (h : b.Valid) (p : DiscordPacket)
    (hfit : p.size + 6 ≤ b.getRemainingSpace) : checkedWritePacket b p =
      some ((b.write (DiscordServerPktHeader.ofPacket p).header).write p.contents) := by
  have hheader : (DiscordServerPktHeader.ofPacket p).header.length ≤ b.getRemainingSpace := by
    rw [DiscordServerPktHeader.length_header_ofPacket]
    omega
  have hpayload : p.contents.length ≤
      (b.write (DiscordServerPktHeader.ofPacket p).header).getRemainingSpace := by
    rw [getRemainingSpace_write h hheader, DiscordServerPktHeader.length_header_ofPacket]
    simp only [DiscordPacket.size] at hfit
    omega
  rw [checkedWritePacket, checked_eq h (.write _) hheader, Option.bind_some]
  exact checked_eq (valid_write h hheader) (.write _) hpayload

/-- **A packet is sent within the bounds.** -/
theorem checkedSendPacketStep_eq (h : s.Holds sendBufferSize held out) (p : DiscordPacket) :
    checkedSendPacketStep sendBufferSize s p = some (sendPacketStep sendBufferSize s p) := by
  have hroom := h.getRemainingSpace_eq
  have hwpos : s.buffer.wpos ≤ sendBufferSize := h.size_eq ▸ h.valid.wpos_le
  have hresize := checked_eq h.valid (.resize sendBufferSize) hwpos
  have hsingle : checkedWritePacket (MessageBuffer.ofSize (p.size + 6)) p =
      some (singlePacketBuffer p) :=
    checkedWritePacket_eq (valid_ofSize _) p (by simp [getRemainingSpace, ofSize])
  have hkept : (s.buffer.resize sendBufferSize).getRemainingSpace =
      sendBufferSize - held.length := by
    rw [← hroom, getRemainingSpace, getRemainingSpace, h.size_eq]
    simp [resize]
  simp only [checkedSendPacketStep, sendPacketStep, DiscordServerPktHeader.getHeaderLength_eq,
    hresize, hsingle, hroom, Option.map_some, apply]
  by_cases hspill : sendBufferSize - held.length < p.size + 6
  · -- what was queued is still in the buffer, so the packet finds no room there
    have hnone : ¬ sendBufferSize - held.length ≥ p.size + 6 := by omega
    simp only [hspill, if_true, Option.bind_some, hkept, SendState.queuePacket, hnone, if_false]
  · have hfit : p.size + 6 ≤ s.buffer.getRemainingSpace := by omega
    simp only [hspill, if_false, Option.bind_some, hroom, checkedWritePacket_eq h.valid p hfit,
      Option.map_some]
    split <;> rfl

theorem foldlM_checkedSendPacketStep (packets : List DiscordPacket)
    (h : s.Holds sendBufferSize held out) :
    packets.foldlM (checkedSendPacketStep sendBufferSize) s =
      some (packets.foldl (sendPacketStep sendBufferSize) s) := by
  induction packets generalizing s held out with
  | nil => rfl
  | cons p ps ih =>
      rw [List.foldlM_cons, checkedSendPacketStep_eq h, List.foldl_cons]
      exact ih (holds_sendPacketStep h p)

theorem checkedUpdate_eq (sendBufferSize : ℕ) (packets : List DiscordPacket) :
    checkedUpdate sendBufferSize packets = some (update sendBufferSize packets) := by
  have hinit : SendState.Holds sendBufferSize ⟨MessageBuffer.ofSize sendBufferSize, []⟩ [] [] :=
    ⟨valid_ofSize _, rfl, by simp [ofSize], rfl, rfl⟩
  obtain ⟨held, out, hend, -⟩ := holds_foldl_sendPacketStep packets hinit
  simp only [checkedUpdate, update, foldlM_checkedSendPacketStep packets hinit, Option.bind_some,
    checked_eq hend.valid (.move []) trivial, Option.map_some]
  split <;> rfl

end SendPath

/-! ## Writing to the socket -/

namespace WriteSide

/-- `HandleQueue` with its `ReadCompleted` checked. -/
def checkedHandleQueue (w : WriteSide) (caller : WriteCaller) (outcome : WriteOutcome) :
    Option WriteSide :=
  match w.writeQueue with
  | [] => some (w.returnTo caller false)
  | queuedMessage :: rest =>
      let bytesToSend := queuedMessage.getActiveSize
      match outcome with
      | .failed .wouldBlock | .failed .tryAgain => some (w.asyncProcessQueue.returnTo caller false)
      | .failed .other => some { w with writeQueue := rest, pc := .popped caller false }
      | .sent bytesSent =>
          let w := { w with accepted := w.accepted ++ queuedMessage.active.take bytesSent }
          if bytesSent = 0 then
            if bytesToSend = 0 then some { w with writeQueue := rest, pc := .popped caller false }
            else none
          else if bytesSent < bytesToSend then
            (queuedMessage.checked (.readCompleted bytesSent)).map fun queuedMessage =>
              { w with writeQueue := queuedMessage :: rest }.asyncProcessQueue.returnTo caller false
          else if bytesSent = bytesToSend then
            some { w with writeQueue := rest, pc := .popped caller true }
          else none

/-- The writing machine with its buffer calls checked. -/
def checkedNext (w : WriteSide) : Label → Option WriteSide
  | .handleQueue outcome =>
      match w.pc with
      | .handleQueue caller => w.checkedHandleQueue caller outcome
      | _ => none
  | l => w.next l

variable {w : WriteSide}

theorem checkedHandleQueue_eq (h : w.WriteInv) (caller : WriteCaller) (outcome : WriteOutcome) :
    w.checkedHandleQueue caller outcome = w.handleQueue caller outcome := by
  cases hqueue : w.writeQueue with
  | nil => simp only [checkedHandleQueue, handleQueue, hqueue]
  | cons front rest =>
      have hfront : front.Valid := h.valid front (by simp [hqueue])
      simp only [checkedHandleQueue, handleQueue, hqueue]
      cases outcome with
      | failed error => cases error <;> rfl
      | sent bytesSent =>
          by_cases hpart : bytesSent < front.getActiveSize
          · have hread := checked_eq hfront (.readCompleted bytesSent) (Nat.le_of_lt hpart)
            simp only [hpart, if_true, hread, Option.map_some, apply]
          · simp only [hpart, if_false]

theorem checkedNext_eq (h : w.WriteInv) (l : Label) : w.checkedNext l = w.next l := by
  cases l with
  | handleQueue outcome =>
      cases hpc : w.pc with
      | handleQueue caller =>
          simp only [checkedNext, next, hpc]
          exact checkedHandleQueue_eq h caller outcome
      | _ => simp only [checkedNext, next, hpc]
  | _ => rfl

theorem run_checkedNext (ls : List Label) :
    Machine.run checkedNext {} ls = Machine.run next {} ls :=
  Machine.run_congr (fun _ _ _ => writeInv_next) (fun _ l h => checkedNext_eq h l) writeInv_new ls

end WriteSide

/-! ## All of it -/

/-- **The cursors stay in order.**  Whatever constructions, calls within bounds, copies and
moves are made, in 64-bit arithmetic; making room keeps the active bytes and makes room;
and all calls of a socket's reading and sending are within bounds. -/
theorem messageBuffer_in_order :
    (∀ memory, 3 * memory < SIZE_LIMIT → ∀ ls h,
      Machine.run (Heap.next memory) {} ls = some h →
        h.fault = false ∧ ∀ i b, h.buffers i = some b → b.Valid) ∧
    (∀ b : MessageBuffer, b.Valid → b.storage.length < SIZE_LIMIT →
      ∃ n, b.call .normalize = some n ∧ n.Valid ∧ n.active = b.active ∧ n.rpos = 0) ∧
    (∀ b : MessageBuffer, b.Valid → 3 * b.storage.length < SIZE_LIMIT →
      ∃ e, b.call .ensureFreeSpace = some e ∧ e.Valid ∧ e.active = b.active ∧
        (2 ≤ b.storage.length → 0 < e.remainingSpaceWord)) ∧
    (∀ ls, Machine.run Receiver.checkedNext {} ls = Machine.run Receiver.next {} ls) ∧
    (∀ sendBufferSize packets, SendPath.checkedUpdate sendBufferSize packets =
      some (SendPath.update sendBufferSize packets)) ∧
    ∀ ls, Machine.run WriteSide.checkedNext {} ls = Machine.run WriteSide.next {} ls := by
  refine ⟨?_, ?_, ?_, Receiver.run_checkedNext, SendPath.checkedUpdate_eq,
    WriteSide.run_checkedNext⟩
  · intro memory hmemory ls h hrun
    have hinv := Heap.inv_run hmemory hrun
    exact ⟨hinv.fault, hinv.valid⟩
  · intro b hv hs
    exact ⟨b.normalize, call_normalize hv hs, valid_normalize hv, active_normalize hv,
      rpos_normalize b⟩
  · intro b hv hs
    have hvalid := valid_ensureFreeSpace hv
    refine ⟨b.ensureFreeSpace, call_ensureFreeSpace hv hs, hvalid, active_ensureFreeSpace hv, ?_⟩
    intro htwo
    have hgrown : b.ensureFreeSpace.storage.length < SIZE_LIMIT := by
      simp only [ensureFreeSpace]
      split
      · simp only [resize, length_resizeBytes]
        omega
      · omega
    rw [remainingSpaceWord_eq hvalid hgrown]
    exact getRemainingSpace_ensureFreeSpace_pos hv htwo

/-- A full buffer that was written, read in part, copied, shrunk and moved. -/
theorem messageBuffer_in_order_moved :
    ∃ h b e, Machine.run (Heap.next 64) {} [.construct 0 3, .call 0 (.write [1, 2]),
        .call 0 (.readCompleted 1), .copy 1 0, .call 0 .normalize, .call 1 (.resize 2),
        .move 2 1 []] = some h ∧
      h.fault = false ∧ h.buffers 2 = some b ∧ b.Valid ∧ b.active = [2] ∧
      b.call .ensureFreeSpace = some e ∧ e.active = [2] ∧ 0 < e.remainingSpaceWord := by
  have hrun : (Machine.run (Heap.next 64) {} [.construct 0 3, .call 0 (.write [1, 2]),
      .call 0 (.readCompleted 1), .copy 1 0, .call 0 .normalize, .call 1 (.resize 2),
      .move 2 1 []]).map (fun h => h.buffers 2) = some (some ⟨2, 1, [1, 2]⟩) := by
    decide +kernel
  obtain ⟨h, hh, hb⟩ := Option.map_eq_some_iff.mp hrun
  have hall := messageBuffer_in_order
  have hheap := hall.1 64 (by decide) _ h hh
  have hvalid := hheap.2 2 _ hb
  obtain ⟨e, he, -, hactive, hroom⟩ := hall.2.2.1 _ hvalid (by decide)
  exact ⟨h, _, e, hh, hheap.1, hb, hvalid, rfl, he, hactive, hroom (by decide)⟩

end WarheadDiscord
