import WarheadDiscord.Common.MessageBuffer
import WarheadDiscord.Network.PacketHeader

/-!
# The send path of `DiscordSocket::Update`

One call drains the packet queue into `MessageBuffer`s and passes them to
`QueuePacket`.  Small packets are coalesced in one buffer of `_sendBufferSize`
bytes.  A packet that does not fit any more makes the loop queue a copy of that
buffer, and is then expected to find it empty.

The part of the call before the loop writes earlier buffers to the socket and does
not look at the queue.  `Write` of no bytes does nothing, so the test for an empty
payload is left out.

`Resize` does not move the cursors, so after a spill the buffer still holds what
was just queued.  `updateBytes` is what the loop puts on the wire seen from the
bytes alone, `queuedBytes_update` proves that the loop does exactly that, and
`queuedBytes_eq_frames_iff` says for which packet sequences the result is the
concatenation of the frames.

## Main definitions

* `SendState`, `sendPacketStep`, `update` — the loop.
* `queuedBytes` — what the queued buffers carry.
* `FitsAfterOversize` — the sequences that are sent as they should be.
-/

namespace WarheadDiscord.SendPath

/-- The loop's variables: the coalescing buffer, and the buffers passed to
`QueuePacket` so far. -/
structure SendState where
  buffer : MessageBuffer
  queued : List MessageBuffer

namespace SendState

/-- `Socket::QueuePacket`. -/
def queuePacket (s : SendState) (buffer : MessageBuffer) : SendState :=
  { s with queued := s.queued ++ [buffer] }

end SendState

/-- The buffer of a packet that is sent on its own. -/
def singlePacketBuffer (p : DiscordPacket) : MessageBuffer :=
  let header := DiscordServerPktHeader.ofPacket p
  ((MessageBuffer.ofSize (p.size + header.getHeaderLength)).write header.header).write p.contents

/-- The body of the loop for one dequeued packet. -/
def sendPacketStep (sendBufferSize : ℕ) (s : SendState) (p : DiscordPacket) : SendState :=
  let header := DiscordServerPktHeader.ofPacket p
  let s :=
    if s.buffer.getRemainingSpace < p.size + header.getHeaderLength then
      let s := s.queuePacket s.buffer
      { s with buffer := s.buffer.resize sendBufferSize }
    else s
  if s.buffer.getRemainingSpace ≥ p.size + header.getHeaderLength then
    { s with buffer := (s.buffer.write header.header).write p.contents }
  else s.queuePacket (singlePacketBuffer p)

/-- The buffers one `Update` passes to `QueuePacket`, for the packets waiting in
`_bufferQueue` in dequeue order. -/
def update (sendBufferSize : ℕ) (packets : List DiscordPacket) : List MessageBuffer :=
  let s := packets.foldl (sendPacketStep sendBufferSize) ⟨MessageBuffer.ofSize sendBufferSize, []⟩
  if s.buffer.getActiveSize > 0 then (s.queuePacket s.buffer).queued else s.queued

/-- The active bytes of a sequence of queued buffers, in order. -/
def queuedBytes (buffers : List MessageBuffer) : List UInt8 := buffers.flatMap MessageBuffer.active

/-- The frames of a sequence of packets, in order. -/
def frames (packets : List DiscordPacket) : List UInt8 := packets.flatMap encodeFrame

/-! ## The loop on bytes -/

/-- What a step does to the bytes held back and the bytes queued.  On a spill the
held bytes are queued and held on to. -/
def sendBytesStep (sendBufferSize : ℕ) (held out : List UInt8) (frame : List UInt8) :
    List UInt8 × List UInt8 :=
  if sendBufferSize - held.length < frame.length then (held, out ++ held ++ frame)
  else (held ++ frame, out)

/-- The bytes queued by the whole call. -/
def updateBytes (sendBufferSize : ℕ) : List UInt8 → List UInt8 → List DiscordPacket → List UInt8
  | held, out, [] => out ++ held
  | held, out, p :: ps =>
      let r := sendBytesStep sendBufferSize held out (encodeFrame p)
      updateBytes sendBufferSize r.1 r.2 ps

/-- A loop state that holds back and has queued the given bytes. -/
structure SendState.Holds (sendBufferSize : ℕ) (s : SendState) (held out : List UInt8) : Prop where
  valid : s.buffer.Valid
  rpos_eq : s.buffer.rpos = 0
  size_eq : s.buffer.storage.length = sendBufferSize
  active_eq : s.buffer.active = held
  queued_eq : queuedBytes s.queued = out

variable {sendBufferSize : ℕ} {s : SendState} {held out : List UInt8}

theorem SendState.Holds.getRemainingSpace_eq (h : s.Holds sendBufferSize held out) :
    s.buffer.getRemainingSpace = sendBufferSize - held.length := by
  have hl := MessageBuffer.length_active h.valid
  rw [h.active_eq, MessageBuffer.getActiveSize, h.rpos_eq] at hl
  rw [MessageBuffer.getRemainingSpace, h.size_eq]
  omega

/-- Writing header and payload of a packet that fits appends its frame. -/
theorem write_encodeFrame {b : MessageBuffer} (h : b.Valid) (p : DiscordPacket)
    (hfit : p.size + 6 ≤ b.getRemainingSpace) :
    let b' := (b.write (DiscordServerPktHeader.ofPacket p).header).write p.contents
    b'.Valid ∧ b'.rpos = b.rpos ∧ b'.storage.length = b.storage.length ∧
      b'.active = b.active ++ encodeFrame p := by
  have hw := h.wpos_le
  have hheader : (DiscordServerPktHeader.ofPacket p).header.length ≤ b.getRemainingSpace := by
    rw [DiscordServerPktHeader.length_header_ofPacket]; omega
  have hvalid := MessageBuffer.valid_write h hheader
  have hpayload : p.contents.length ≤
      (b.write (DiscordServerPktHeader.ofPacket p).header).getRemainingSpace := by
    rw [MessageBuffer.getRemainingSpace_write h hheader,
      DiscordServerPktHeader.length_header_ofPacket]
    simp only [DiscordPacket.size] at hfit
    omega
  have hsize : (b.write (DiscordServerPktHeader.ofPacket p).header).storage.length =
      b.storage.length :=
    MessageBuffer.length_storage_write
      (by simp only [MessageBuffer.getRemainingSpace] at hheader; omega)
  refine ⟨MessageBuffer.valid_write hvalid hpayload, by simp, ?_, ?_⟩
  · rw [MessageBuffer.length_storage_write, hsize]
    have := hvalid.wpos_le
    simp only [MessageBuffer.getRemainingSpace] at hpayload
    omega
  · rw [MessageBuffer.active_write hvalid, MessageBuffer.active_write h, encodeFrame,
      List.append_assoc]

theorem singlePacketBuffer_spec (p : DiscordPacket) :
    (singlePacketBuffer p).Valid ∧ (singlePacketBuffer p).active = encodeFrame p := by
  have h := write_encodeFrame (MessageBuffer.valid_ofSize (p.size + 6)) p
    (by simp [MessageBuffer.getRemainingSpace, MessageBuffer.ofSize])
  exact ⟨h.1, by simpa [singlePacketBuffer] using h.2.2.2⟩

/-- A packet that does not fit goes out on its own, after what is held. -/
theorem sendPacketStep_spill (h : s.Holds sendBufferSize held out) {p : DiscordPacket}
    (hspill : sendBufferSize - held.length < p.size + 6) :
    sendPacketStep sendBufferSize s p =
      ⟨s.buffer, s.queued ++ [s.buffer] ++ [singlePacketBuffer p]⟩ := by
  have hroom := h.getRemainingSpace_eq
  -- the resize is to the size the buffer already has: it changes nothing
  have hsame : s.buffer.resize sendBufferSize = s.buffer := by
    have hz := h.size_eq
    subst hz
    simp [MessageBuffer.resize, resizeBytes]
  simp only [sendPacketStep, SendState.queuePacket, hroom, hspill, hsame,
    DiscordServerPktHeader.getHeaderLength_eq, if_true]
  rw [if_neg (by omega)]

/-- A packet that fits is held. -/
theorem sendPacketStep_hold (h : s.Holds sendBufferSize held out) {p : DiscordPacket}
    (hfit : ¬ sendBufferSize - held.length < p.size + 6) :
    sendPacketStep sendBufferSize s p =
      ⟨(s.buffer.write (DiscordServerPktHeader.ofPacket p).header).write p.contents,
        s.queued⟩ := by
  have hroom := h.getRemainingSpace_eq
  simp only [sendPacketStep, hroom, DiscordServerPktHeader.getHeaderLength_eq]
  rw [if_neg hfit, if_pos (by rw [hroom]; omega)]

/-- **One step of the loop acts on the bytes as `sendBytesStep` says.** -/
theorem holds_sendPacketStep (h : s.Holds sendBufferSize held out) (p : DiscordPacket) :
    (sendPacketStep sendBufferSize s p).Holds sendBufferSize
      (sendBytesStep sendBufferSize held out (encodeFrame p)).1
      (sendBytesStep sendBufferSize held out (encodeFrame p)).2 := by
  by_cases hspill : sendBufferSize - held.length < p.size + 6
  · have hbytes : sendBytesStep sendBufferSize held out (encodeFrame p) =
        (held, out ++ held ++ encodeFrame p) := by
      simp [sendBytesStep, hspill]
    rw [sendPacketStep_spill h hspill, hbytes]
    refine ⟨h.valid, h.rpos_eq, h.size_eq, h.active_eq, ?_⟩
    have hq := h.queued_eq
    simp only [queuedBytes] at hq ⊢
    simp [List.flatMap_append, hq, h.active_eq, (singlePacketBuffer_spec p).2]
  · have hbytes : sendBytesStep sendBufferSize held out (encodeFrame p) =
        (held ++ encodeFrame p, out) := by
      simp [sendBytesStep, hspill]
    have hroom := h.getRemainingSpace_eq
    obtain ⟨hv, hr, hs, ha⟩ := write_encodeFrame h.valid p (by rw [hroom]; omega)
    rw [sendPacketStep_hold h hspill, hbytes]
    exact ⟨hv, hr.trans h.rpos_eq, hs.trans h.size_eq, by rw [ha, h.active_eq], h.queued_eq⟩

theorem holds_foldl_sendPacketStep (packets : List DiscordPacket)
    (h : s.Holds sendBufferSize held out) :
    ∃ held' out', (packets.foldl (sendPacketStep sendBufferSize) s).Holds sendBufferSize held' out' ∧
      updateBytes sendBufferSize held out packets = out' ++ held' := by
  induction packets generalizing s held out with
  | nil => exact ⟨held, out, h, rfl⟩
  | cons p ps ih =>
      obtain ⟨held', out', h', hb⟩ := ih (holds_sendPacketStep h p)
      exact ⟨held', out', h', hb⟩

/-- **What one `Update` queues, seen from the bytes alone.** -/
theorem queuedBytes_update (sendBufferSize : ℕ) (packets : List DiscordPacket) :
    queuedBytes (update sendBufferSize packets) = updateBytes sendBufferSize [] [] packets := by
  have hinit : SendState.Holds sendBufferSize ⟨MessageBuffer.ofSize sendBufferSize, []⟩ [] [] :=
    ⟨MessageBuffer.valid_ofSize _, rfl, by simp [MessageBuffer.ofSize], rfl, rfl⟩
  obtain ⟨held, out, h, hb⟩ := holds_foldl_sendPacketStep packets hinit
  have hl := MessageBuffer.length_active h.valid
  have hq := h.queued_eq
  rw [hb]
  simp only [queuedBytes] at hq
  by_cases hpos : 0 < (packets.foldl (sendPacketStep sendBufferSize)
      ⟨MessageBuffer.ofSize sendBufferSize, []⟩).buffer.getActiveSize
  · simp [update, hpos, SendState.queuePacket, queuedBytes, List.flatMap_append, hq, h.active_eq]
  · have hheld : held = [] := by
      rw [← h.active_eq]
      exact List.length_eq_zero_iff.mp (by omega)
    simp [update, hpos, queuedBytes, hq, hheld]

/-! ## When the frames arrive as they are -/

/-- After the packets at the front that are larger than the send buffer, the rest
fits into one buffer. -/
def FitsAfterOversize (sendBufferSize : ℕ) (packets : List DiscordPacket) : Prop :=
  (frames (packets.dropWhile fun p => sendBufferSize < (encodeFrame p).length)).length ≤
    sendBufferSize

instance (sendBufferSize : ℕ) (packets : List DiscordPacket) :
    Decidable (FitsAfterOversize sendBufferSize packets) :=
  inferInstanceAs (Decidable (_ ≤ _))

@[simp] theorem frames_cons (p : DiscordPacket) (ps : List DiscordPacket) :
    frames (p :: ps) = encodeFrame p ++ frames ps := by simp [frames]

/-- A frame that does not fit: the held bytes go out and stay. -/
theorem updateBytes_spill {p : DiscordPacket} (ps : List DiscordPacket)
    (h : sendBufferSize - held.length < (encodeFrame p).length) :
    updateBytes sendBufferSize held out (p :: ps) =
      updateBytes sendBufferSize held (out ++ held ++ encodeFrame p) ps := by
  simp only [updateBytes, sendBytesStep, h, if_true]

/-- A frame that fits is held back. -/
theorem updateBytes_hold {p : DiscordPacket} (ps : List DiscordPacket)
    (h : ¬ sendBufferSize - held.length < (encodeFrame p).length) :
    updateBytes sendBufferSize held out (p :: ps) =
      updateBytes sendBufferSize (held ++ encodeFrame p) out ps := by
  simp only [updateBytes, sendBytesStep, h, if_false]

/-- As long as everything fits, nothing is spilled. -/
theorem updateBytes_of_fits (packets : List DiscordPacket) (held out : List UInt8)
    (h : held.length + (frames packets).length ≤ sendBufferSize) :
    updateBytes sendBufferSize held out packets = out ++ held ++ frames packets := by
  induction packets generalizing held with
  | nil => simp [updateBytes, frames]
  | cons p ps ih =>
      rw [frames_cons, List.length_append] at h
      have hroom : ¬ sendBufferSize - held.length < (encodeFrame p).length := by omega
      rw [updateBytes_hold ps hroom, ih _ (by rw [List.length_append]; omega)]
      simp

/-- Nothing is ever lost in number: at least the bytes of the frames are queued. -/
theorem length_frames_le_length_updateBytes (sendBufferSize : ℕ) (packets : List DiscordPacket)
    (held out : List UInt8) :
    out.length + held.length + (frames packets).length ≤
      (updateBytes sendBufferSize held out packets).length := by
  induction packets generalizing held out with
  | nil => simp [updateBytes, frames]
  | cons p ps ih =>
      rw [frames_cons, List.length_append]
      by_cases hp : sendBufferSize - held.length < (encodeFrame p).length
      · have := ih held (out ++ held ++ encodeFrame p)
        rw [updateBytes_spill ps hp]
        simp only [List.length_append] at this
        omega
      · have := ih (held ++ encodeFrame p) out
        rw [updateBytes_hold ps hp]
        simp only [List.length_append] at this
        omega

/-- A spill of held bytes sends them a second time. -/
theorem length_frames_lt_length_updateBytes (sendBufferSize : ℕ) (packets : List DiscordPacket)
    (held out : List UInt8) (hheld : held ≠ [])
    (h : sendBufferSize < held.length + (frames packets).length)
    (hle : held.length ≤ sendBufferSize) :
    out.length + held.length + (frames packets).length <
      (updateBytes sendBufferSize held out packets).length := by
  induction packets generalizing held with
  | nil => simp [frames] at h; omega
  | cons p ps ih =>
      rw [frames_cons, List.length_append] at h ⊢
      by_cases hp : sendBufferSize - held.length < (encodeFrame p).length
      · have hge := length_frames_le_length_updateBytes sendBufferSize ps held
          (out ++ held ++ encodeFrame p)
        have hpos : 0 < held.length := List.length_pos_iff.mpr hheld
        rw [updateBytes_spill ps hp]
        simp only [List.length_append] at hge
        omega
      · have := ih (held ++ encodeFrame p) (by simp [hheld])
          (by rw [List.length_append]; omega) (by rw [List.length_append]; omega)
        rw [updateBytes_hold ps hp]
        rw [List.length_append] at this
        omega

/-- With an empty buffer a packet larger than the buffer goes out on its own. -/
theorem updateBytes_oversize (p : DiscordPacket) (ps : List DiscordPacket) (out : List UInt8)
    (hp : sendBufferSize < (encodeFrame p).length) :
    updateBytes sendBufferSize [] out (p :: ps) =
      updateBytes sendBufferSize [] (out ++ encodeFrame p) ps := by
  rw [updateBytes_spill ps (by simpa using hp), List.append_nil]

theorem updateBytes_eq_frames_iff (sendBufferSize : ℕ) (packets : List DiscordPacket)
    (out : List UInt8) :
    updateBytes sendBufferSize [] out packets = out ++ frames packets ↔
      FitsAfterOversize sendBufferSize packets := by
  induction packets generalizing out with
  | nil => simp [updateBytes, frames, FitsAfterOversize]
  | cons p ps ih =>
      by_cases hp : sendBufferSize < (encodeFrame p).length
      · rw [updateBytes_oversize p ps out hp, frames_cons, ← List.append_assoc, ih]
        simp only [FitsAfterOversize, List.dropWhile_cons, hp, decide_true, if_true]
      · have hdrop : FitsAfterOversize sendBufferSize (p :: ps) ↔
            (frames (p :: ps)).length ≤ sendBufferSize := by
          simp only [FitsAfterOversize, List.dropWhile_cons, hp, decide_false,
            Bool.false_eq_true, if_false]
        rw [hdrop]
        constructor
        · intro heq
          by_contra hlong
          have hne : encodeFrame p ≠ [] := by
            intro hnil
            have := length_encodeFrame p
            rw [hnil] at this
            simp at this
          have hstep : updateBytes sendBufferSize [] out (p :: ps) =
              updateBytes sendBufferSize (encodeFrame p) out ps := by
            rw [updateBytes_hold ps (by simpa using hp), List.nil_append]
          have hlt := length_frames_lt_length_updateBytes sendBufferSize ps (encodeFrame p) out hne
            (by rw [frames_cons, List.length_append] at hlong; omega) (by omega)
          rw [← hstep, heq, frames_cons] at hlt
          simp only [List.length_append] at hlt
          omega
        · intro hfit
          simpa using updateBytes_of_fits (p :: ps) [] out (by simpa using hfit)

/-- **One `Update` puts the frames of the waiting packets on the wire, in order and
each once, exactly if after the leading oversize packets the rest fits into one send
buffer.** -/
theorem queuedBytes_eq_frames_iff (sendBufferSize : ℕ) (packets : List DiscordPacket) :
    queuedBytes (update sendBufferSize packets) = frames packets ↔
      FitsAfterOversize sendBufferSize packets := by
  rw [queuedBytes_update]
  simpa using updateBytes_eq_frames_iff sendBufferSize packets []

/-- Two packets of which only the first fits: its frame is queued twice, around the
frame of the second. -/
theorem queuedBytes_ne_frames_two_packets :
    0 < 8 ∧ queuedBytes (update 8 [⟨6, [2]⟩, ⟨7, [1, 2]⟩]) ≠ frames [⟨6, [2]⟩, ⟨7, [1, 2]⟩] :=
  ⟨by decide, by decide⟩

end WarheadDiscord.SendPath
