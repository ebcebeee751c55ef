import WarheadDiscord.Network.WriteQueue

/-!
# Closing a socket after its output

`DelayedCloseSocket` sets `_closing`, and the socket is closed when `HandleQueue` has
taken the last buffer out of the write queue.  Packets reach that queue in two stages:
`SendPacket` puts them into `_bufferQueue`, `Update` first writes what is in the write
queue and then moves the packets over, so that they are written by the next `Update`.

The socket is looked at for closing only after a buffer was taken out.  If everything has
been written before `_closing` is set, no buffer will be taken out any more: `Update` does
get past its guard, but `HandleQueue` finds the queue empty and returns.

`OutputLeft` says that something is still to come: in one of the queues, in an asynchronous
write, or in the hands of the network thread.  `delayedClose_completes_iff` proves that
closing is completed in all states of a run exactly if `DelayedCloseSocket` is always called
while this is the case.

## Main definitions

* `SendSide`, `SendSide.next` — the socket as senders and the network thread see it.
* `OutputLeft` — there is something left to send.
* `CloseCompletes` — a socket that is to be closed will be.
* `AsksWithOutput` — the condition.
-/

namespace WarheadDiscord

/-- Where the network thread is in `DiscordSocket::Update`. -/
inductive UpdatePc
  | idle
  /-- In `BaseSocket::Update`. -/
  | writing
  /-- In the loop that moves the packets, with the buffer that collects them. -/
  | moving (buffer : MessageBuffer)
  deriving DecidableEq, Repr

/-- The sending side of a socket. -/
structure SendSide where
  write : WriteSide := {}
  bufferQueue : List DiscordPacket := []
  /-- The packets of `SendPacket` calls that have found the socket open and have not
  enqueued yet. -/
  sending : List DiscordPacket := []
  pc : UpdatePc := .idle
  deriving DecidableEq, Repr

namespace SendSide

/-- `SendPacket`, up to the check. -/
def sendPacket (s : SendSide) (packet : DiscordPacket) : SendSide :=
  if s.write.isOpen then { s with sending := s.sending ++ [packet] } else s

/-- The rest of `SendPacket`. -/
def enqueue (s : SendSide) (packet : DiscordPacket) : SendSide :=
  { s with bufferQueue := s.bufferQueue ++ [packet], sending := s.sending.erase packet }

/-- `Update`, up to the loop of `BaseSocket::Update`. -/
def update (s : SendSide) : SendSide :=
  if s.write.closed then s else { s with write := s.write.update, pc := .writing }

/-- The loop's body for the packet at the front. -/
def dequeue (s : SendSide) (sendBufferSize : ℕ) (buffer : MessageBuffer) (queued : DiscordPacket)
    (rest : List DiscordPacket) : SendSide :=
  let sent := SendPath.sendPacketStep sendBufferSize ⟨buffer, []⟩ queued
  { s with
    write := sent.queued.foldl WriteSide.queuePacket s.write
    bufferQueue := rest
    pc := .moving sent.buffer }

/-- The end of `Update`, with no packet left. -/
def endUpdate (s : SendSide) (buffer : MessageBuffer) : SendSide :=
  { s with
    write := if buffer.getActiveSize > 0 then s.write.queuePacket buffer else s.write
    pc := .idle }

/-- What can happen to the sending side. -/
inductive Label
  /-- Any thread calls `SendPacket`. -/
  | sendPacket (packet : DiscordPacket)
  | enqueue (packet : DiscordPacket)
  /-- Any thread calls `DelayedCloseSocket`. -/
  | delayedCloseSocket
  /-- The socket is closed from elsewhere. -/
  | closeSocket
  | update
  /-- An asynchronous write completes. -/
  | writeHandlerWrapper
  | handleQueue (outcome : WriteOutcome)
  | checkClosing
  /-- `BaseSocket::Update` has returned. -/
  | startMoving
  | dequeue
  | endUpdate
  deriving DecidableEq, Repr

/-- One step of a socket with the given `_sendBufferSize`. -/
def next (sendBufferSize : ℕ) (s : SendSide) : Label → Option SendSide
  | .sendPacket packet => some (s.sendPacket packet)
  | .enqueue packet => if packet ∈ s.sending then some (s.enqueue packet) else none
  | .delayedCloseSocket => some { s with write := s.write.delayedCloseSocket }
  | .closeSocket => some { s with write := s.write.closeSocket }
  | .update => if s.pc = .idle ∧ s.write.pc = .idle then some s.update else none
  | .writeHandlerWrapper =>
      if s.pc = .idle then (s.write.next .writeHandlerWrapper).map fun w => { s with write := w }
      else none
  | .handleQueue outcome =>
      (s.write.next (.handleQueue outcome)).map fun w => { s with write := w }
  | .checkClosing => (s.write.next .checkClosing).map fun w => { s with write := w }
  | .startMoving =>
      if s.pc = .writing ∧ s.write.pc = .idle then
        some { s with pc := .moving (MessageBuffer.ofSize sendBufferSize) }
      else none
  | .dequeue =>
      match s.pc, s.bufferQueue with
      | .moving buffer, queued :: rest => some (s.dequeue sendBufferSize buffer queued rest)
      | _, _ => none
  | .endUpdate =>
      match s.pc, s.bufferQueue with
      | .moving buffer, [] => some (s.endUpdate buffer)
      | _, _ => none

/-- The network thread goes on, and the socket takes what it is given. -/
def Label.Drains : Label → Prop
  | .update | .writeHandlerWrapper | .handleQueue (.sent _) | .checkClosing | .startMoving
  | .dequeue | .endUpdate => True
  | _ => False

/-- The bytes the network thread has taken out of `_bufferQueue` and not queued yet. -/
def held (s : SendSide) : ℕ :=
  match s.pc with
  | .moving buffer => buffer.getActiveSize
  | _ => 0

/-- Something is left to send: in the queues, in an asynchronous write, or in the hands of the
network thread, which holds packets back or has just taken a buffer out of the queue and has
not looked at `_closing` yet. -/
def OutputLeft (s : SendSide) : Prop :=
  s.bufferQueue ≠ [] ∨ s.write.writeQueue ≠ [] ∨ 0 < s.write.writes ∨ 0 < s.held ∨
    ∃ caller whole, s.write.pc = .popped caller whole

/-- If the socket is to be closed, there is something left to send, sending it closes the
socket, and in no other way can everything be sent. -/
def CloseCompletes (sendBufferSize : ℕ) (s : SendSide) : Prop :=
  s.write.closing = true → s.write.closed = false →
    s.OutputLeft ∧
      (∃ ls t, (∀ l ∈ ls, l.Drains) ∧ Machine.run (next sendBufferSize) s ls = some t ∧
        t.write.closed = true) ∧
      ∀ ls t, Machine.run (next sendBufferSize) s ls = some t → ¬ t.OutputLeft →
        t.write.closed = true

/-- `DelayedCloseSocket` is called while something is left to send, or when the socket is
closed or to be closed anyway. -/
def AsksWithOutput (s : SendSide) (l : Label) : Prop :=
  l = .delayedCloseSocket → s.write.closing = true ∨ s.write.closed = true ∨ s.OutputLeft

/-! ## The steps -/

/-- What a step can do. -/
inductive Stepped (sendBufferSize : ℕ) (s : SendSide) : Label → SendSide → Prop
  | sendPacket (packet : DiscordPacket) :
      Stepped sendBufferSize s (.sendPacket packet) (s.sendPacket packet)
  | enqueue (packet : DiscordPacket) :
      Stepped sendBufferSize s (.enqueue packet) (s.enqueue packet)
  | delayedCloseSocket :
      Stepped sendBufferSize s .delayedCloseSocket { s with write := s.write.delayedCloseSocket }
  | closeSocket : Stepped sendBufferSize s .closeSocket { s with write := s.write.closeSocket }
  | update (hpc : s.pc = .idle) (hwrite : s.write.pc = .idle) :
      Stepped sendBufferSize s .update s.update
  | writeHandlerWrapper (w : WriteSide) (hpc : s.pc = .idle)
      (hstep : s.write.next .writeHandlerWrapper = some w) :
      Stepped sendBufferSize s .writeHandlerWrapper { s with write := w }
  | handleQueue (outcome : WriteOutcome) (w : WriteSide)
      (hstep : s.write.next (.handleQueue outcome) = some w) :
      Stepped sendBufferSize s (.handleQueue outcome) { s with write := w }
  | checkClosing (w : WriteSide) (hstep : s.write.next .checkClosing = some w) :
      Stepped sendBufferSize s .checkClosing { s with write := w }
  | startMoving (hpc : s.pc = .writing) (hwrite : s.write.pc = .idle) :
      Stepped sendBufferSize s .startMoving
        { s with pc := .moving (MessageBuffer.ofSize sendBufferSize) }
  | dequeue (buffer : MessageBuffer) (queued : DiscordPacket) (rest : List DiscordPacket)
      (hpc : s.pc = .moving buffer) (hqueue : s.bufferQueue = queued :: rest) :
      Stepped sendBufferSize s .dequeue (s.dequeue sendBufferSize buffer queued rest)
  | endUpdate (buffer : MessageBuffer) (hpc : s.pc = .moving buffer)
      (hqueue : s.bufferQueue = []) : Stepped sendBufferSize s .endUpdate (s.endUpdate buffer)

variable {sendBufferSize : ℕ} {s t : SendSide} {l : Label}

theorem stepped_of_next (h : next sendBufferSize s l = some t) : Stepped sendBufferSize s l t := by
  cases l with
  | sendPacket packet =>
      cases h
      exact .sendPacket packet
  | enqueue packet =>
      obtain ⟨-, heq⟩ := Option.ite_none_right_eq_some.mp h
      cases heq
      exact .enqueue packet
  | delayedCloseSocket =>
      cases h
      exact .delayedCloseSocket
  | closeSocket =>
      cases h
      exact .closeSocket
  | update =>
      obtain ⟨⟨hpc, hwrite⟩, heq⟩ := Option.ite_none_right_eq_some.mp h
      cases heq
      exact .update hpc hwrite
  | writeHandlerWrapper =>
      obtain ⟨hpc, heq⟩ := Option.ite_none_right_eq_some.mp h
      obtain ⟨w, hstep, rfl⟩ := Option.map_eq_some_iff.mp heq
      exact .writeHandlerWrapper w hpc hstep
  | handleQueue outcome =>
      obtain ⟨w, hstep, rfl⟩ := Option.map_eq_some_iff.mp h
      exact .handleQueue outcome w hstep
  | checkClosing =>
      obtain ⟨w, hstep, rfl⟩ := Option.map_eq_some_iff.mp h
      exact .checkClosing w hstep
  | startMoving =>
      obtain ⟨⟨hpc, hwrite⟩, heq⟩ := Option.ite_none_right_eq_some.mp h
      cases heq
      exact .startMoving hpc hwrite
  | dequeue =>
      simp only [next] at h
      split at h
      case h_1 buffer queued rest hpc hqueue =>
        cases h
        exact .dequeue buffer queued rest hpc hqueue
      case h_2 => cases h
  | endUpdate =>
      simp only [next] at h
      split at h
      case h_1 buffer hpc hqueue =>
        cases h
        exact .endUpdate buffer hpc hqueue
      case h_2 => cases h

/-- The buffer that collects the packets, between two packets. -/
def Collects (sendBufferSize : ℕ) (buffer : MessageBuffer) : Prop :=
  SendPath.SendState.Holds sendBufferSize ⟨buffer, []⟩ buffer.active []

theorem collects_ofSize (n : ℕ) : Collects n (MessageBuffer.ofSize n) :=
  ⟨MessageBuffer.valid_ofSize n, rfl, by simp [MessageBuffer.ofSize], rfl, rfl⟩

/-- After a packet the buffer is as good as before, and the packet is in it or in a queued
buffer. -/
theorem Collects.sendPacketStep {buffer : MessageBuffer} (h : Collects sendBufferSize buffer)
    (p : DiscordPacket) :
    Collects sendBufferSize (SendPath.sendPacketStep sendBufferSize ⟨buffer, []⟩ p).buffer ∧
      (∀ b ∈ (SendPath.sendPacketStep sendBufferSize ⟨buffer, []⟩ p).queued, b.Valid) ∧
      (SendPath.sendPacketStep sendBufferSize ⟨buffer, []⟩ p).queued.length ≤ 2 ∧
      ((SendPath.sendPacketStep sendBufferSize ⟨buffer, []⟩ p).queued ≠ [] ∨
        0 < (SendPath.sendPacketStep sendBufferSize ⟨buffer, []⟩ p).buffer.getActiveSize) := by
  have hstep := SendPath.holds_sendPacketStep h p
  have hcollects : Collects sendBufferSize
      (SendPath.sendPacketStep sendBufferSize ⟨buffer, []⟩ p).buffer :=
    ⟨hstep.valid, hstep.rpos_eq, hstep.size_eq, rfl, rfl⟩
  by_cases hspill : sendBufferSize - buffer.active.length < p.size + 6
  · refine ⟨hcollects, ?_⟩
    rw [SendPath.sendPacketStep_spill h hspill]
    refine ⟨?_, by simp, .inl (by simp)⟩
    simp only [List.nil_append, List.singleton_append, List.mem_cons, List.not_mem_nil, or_false]
    rintro b (rfl | rfl)
    · exact h.valid
    · exact (SendPath.singlePacketBuffer_spec p).1
  · have hactive : (SendPath.sendPacketStep sendBufferSize ⟨buffer, []⟩ p).buffer.active =
        buffer.active ++ encodeFrame p := by
      rw [hstep.active_eq, SendPath.sendBytesStep, length_encodeFrame, if_neg hspill]
    refine ⟨hcollects, ?_, ?_, .inr ?_⟩
    · rw [SendPath.sendPacketStep_hold h hspill]
      simp
    · rw [SendPath.sendPacketStep_hold h hspill]
      simp
    · rw [← MessageBuffer.length_active hstep.valid, hactive, List.length_append,
        length_encodeFrame]
      omega

theorem foldl_queuePacket (buffers : List MessageBuffer) (w : WriteSide) :
    buffers.foldl WriteSide.queuePacket w =
      { w with
        writeQueue := w.writeQueue ++ buffers
        queued := w.queued ++ SendPath.queuedBytes buffers } := by
  induction buffers generalizing w with
  | nil => simp [SendPath.queuedBytes]
  | cons b buffers ih => simp [ih, WriteSide.queuePacket, SendPath.queuedBytes]

/-- What holds of the sending side whatever the socket does. -/
structure SendInv (sendBufferSize : ℕ) (s : SendSide) : Prop where
  write : s.write.WriteInv
  /-- While packets are moved nobody writes. -/
  moving : ∀ buffer, s.pc = .moving buffer →
    s.write.pc = .idle ∧ Collects sendBufferSize buffer

theorem sendInv_new : SendInv sendBufferSize {} :=
  ⟨WriteSide.writeInv_new, by simp⟩

theorem sendInv_dequeue (h : SendInv sendBufferSize s) {buffer : MessageBuffer}
    (hpc : s.pc = .moving buffer) (queued : DiscordPacket) (rest : List DiscordPacket) :
    SendInv sendBufferSize (s.dequeue sendBufferSize buffer queued rest) := by
  obtain ⟨hwrite, hcollects⟩ := h.moving buffer hpc
  obtain ⟨hcollects', hvalid, -⟩ := hcollects.sendPacketStep queued
  refine ⟨?_, ?_⟩
  · simp only [dequeue, foldl_queuePacket]
    refine ⟨?_, h.write.writes_eq, ?_⟩
    · intro b hb
      rcases List.mem_append.mp hb with hold | hnew
      · exact h.write.valid b hold
      · exact hvalid b hnew
    · intro hasync
      exact ⟨hwrite, List.append_ne_nil_of_left_ne_nil (h.write.waiting hasync).2 _⟩
  · rintro _ ⟨⟩
    simp only [dequeue, foldl_queuePacket]
    exact ⟨hwrite, hcollects'⟩

theorem sendInv_endUpdate (h : SendInv sendBufferSize s) {buffer : MessageBuffer}
    (hpc : s.pc = .moving buffer) : SendInv sendBufferSize (s.endUpdate buffer) := by
  refine ⟨?_, by simp [endUpdate]⟩
  rw [endUpdate]
  split
  · exact h.write.queuePacket (h.moving buffer hpc).2.valid
  · exact h.write

theorem sendInv_next (h : SendInv sendBufferSize s) (hstep : next sendBufferSize s l = some t) :
    SendInv sendBufferSize t := by
  -- a step of the write path is none of the moving
  have hwriting : s.write.pc ≠ .idle → ∀ w : WriteSide, w.WriteInv →
      SendInv sendBufferSize { s with write := w } := by
    intro hpc w hw
    exact ⟨hw, fun buffer hmoving => absurd (h.moving buffer hmoving).1 hpc⟩
  cases stepped_of_next hstep with
  | sendPacket packet =>
      rw [sendPacket]
      split_ifs
      · exact ⟨h.write, h.moving⟩
      · exact h
  | enqueue packet => exact ⟨h.write, h.moving⟩
  | delayedCloseSocket =>
      exact ⟨⟨h.write.valid, h.write.writes_eq, h.write.waiting⟩, h.moving⟩
  | closeSocket => exact ⟨⟨h.write.valid, h.write.writes_eq, h.write.waiting⟩, h.moving⟩
  | update hpc hwrite =>
      rw [update]
      split_ifs
      · exact h
      · exact ⟨h.write.update, by simp⟩
  | writeHandlerWrapper w hpc hw =>
      exact ⟨WriteSide.writeInv_next h.write hw, by simp [hpc]⟩
  | handleQueue outcome w hw =>
      refine hwriting ?_ w (WriteSide.writeInv_next h.write hw)
      intro hidle
      simp [WriteSide.next, hidle] at hw
  | checkClosing w hw =>
      refine hwriting ?_ w (WriteSide.writeInv_next h.write hw)
      intro hidle
      simp [WriteSide.next, hidle] at hw
  | startMoving hpc hwrite =>
      refine ⟨h.write, ?_⟩
      rintro _ ⟨⟩
      exact ⟨hwrite, collects_ofSize _⟩
  | dequeue buffer queued rest hpc hqueue => exact sendInv_dequeue h hpc queued rest
  | endUpdate buffer hpc hqueue => exact sendInv_endUpdate h hpc

/-! ## Nothing is lost on the way -/

/-- Only `DelayedCloseSocket` sets `_closing`. -/
theorem keepsFlags_next (hl : l ≠ .delayedCloseSocket) (hstep : next sendBufferSize s l = some t) :
    s.write.KeepsFlags t.write := by
  cases stepped_of_next hstep with
  | sendPacket packet =>
      rw [sendPacket]
      split_ifs <;> exact ⟨rfl, id⟩
  | enqueue packet => exact ⟨rfl, id⟩
  | delayedCloseSocket => exact absurd rfl hl
  | closeSocket => exact ⟨rfl, fun _ => rfl⟩
  | update hpc hwrite =>
      rw [update]
      split_ifs
      · exact ⟨rfl, id⟩
      · exact WriteSide.keepsFlags_update
  | writeHandlerWrapper w hpc hw => exact WriteSide.keepsFlags_next (by simp) hw
  | handleQueue outcome w hw => exact WriteSide.keepsFlags_next (by simp) hw
  | checkClosing w hw => exact WriteSide.keepsFlags_next (by simp) hw
  | startMoving hpc hwrite => exact ⟨rfl, id⟩
  | dequeue buffer queued rest hpc hqueue =>
      simp only [dequeue, foldl_queuePacket]
      exact ⟨rfl, id⟩
  | endUpdate buffer hpc hqueue =>
      rw [endUpdate]
      split <;> exact ⟨rfl, id⟩

/-- What is left after a call of `HandleQueue`. -/
theorem outputLeft_handleQueue (h : s.write.WriteInv) (hleft : s.OutputLeft)
    {outcome : WriteOutcome} {w : WriteSide}
    (hw : s.write.next (.handleQueue outcome) = some w) : OutputLeft { s with write := w } := by
  cases WriteSide.stepped_of_next hw with
  | handleQueue caller _ _ hpc hcall =>
      cases WriteSide.handled_of_handleQueue hcall with
      | empty _ hempty =>
          have hwrites : s.write.writes = 0 := by
            rw [h.writes_eq, h.not_isWritingAsync (by simp [hpc])]
            rfl
          rcases hleft with hqueue | hqueue | hasync | hheld | ⟨_, _, hpopped⟩
          · exact .inl hqueue
          · exact absurd hempty hqueue
          · omega
          · exact .inr (.inr (.inr (.inl hheld)))
          · rw [hpc] at hpopped
            cases hpopped
      | blocked _ front rest n hqueue hn =>
          refine .inr (.inl ?_)
          simp only [WriteSide.asyncProcessQueue, WriteSide.returnTo]
          split <;> exact List.cons_ne_nil _ _
      | failed front rest hqueue => exact .inr (.inr (.inr (.inr ⟨_, _, rfl⟩)))
      | written _ front rest whole hqueue => exact .inr (.inr (.inr (.inr ⟨_, _, rfl⟩)))

/-- A socket that is to be closed is closed when the last buffer has been taken out. -/
theorem closed_or_outputLeft_checkClosing (hclosing : s.write.closing = true) {w : WriteSide}
    (hw : s.write.next .checkClosing = some w) :
    w.closed = true ∨ OutputLeft { s with write := w } := by
  cases WriteSide.stepped_of_next hw with
  | checkClosing caller whole hpc =>
      by_cases hempty : s.write.writeQueue = []
      · left
        simp [WriteSide.checkClosing, hclosing, hempty, WriteSide.returnTo, WriteSide.closeSocket]
      · right
        refine .inr (.inl ?_)
        simp [WriteSide.checkClosing, hempty, WriteSide.returnTo]

theorem closed_or_outputLeft_next (h : SendInv sendBufferSize s) (hclosing : s.write.closing = true)
    (hleft : s.OutputLeft) (hstep : next sendBufferSize s l = some t) :
    t.write.closed = true ∨ t.OutputLeft := by
  cases stepped_of_next hstep with
  | sendPacket packet =>
      right
      rw [sendPacket]
      split_ifs <;> exact hleft
  | enqueue packet => exact .inr (.inl (by simp [enqueue]))
  | delayedCloseSocket => exact .inr hleft
  | closeSocket => exact .inl rfl
  | update hpc hwrite =>
      right
      rw [update]
      split_ifs
      · exact hleft
      · rcases hleft with hqueue | hqueue | hasync | hheld | ⟨_, _, hpopped⟩
        · exact .inl hqueue
        · exact .inr (.inl (by simpa using hqueue))
        · exact .inr (.inr (.inl (by simpa using hasync)))
        · simp [held, hpc] at hheld
        · rw [hwrite] at hpopped
          cases hpopped
  | writeHandlerWrapper w hpc hw =>
      have hwrites : 0 < s.write.writes := (Option.ite_none_right_eq_some.mp hw).1.2
      cases WriteSide.stepped_of_next hw
      exact .inr (.inr (.inl (h.write.writeQueue_ne_nil hwrites)))
  | handleQueue outcome w hw => exact .inr (outputLeft_handleQueue h.write hleft hw)
  | checkClosing w hw => exact closed_or_outputLeft_checkClosing hclosing hw
  | startMoving hpc hwrite =>
      right
      rcases hleft with hqueue | hqueue | hasync | hheld | hpopped
      · exact .inl hqueue
      · exact .inr (.inl hqueue)
      · exact .inr (.inr (.inl hasync))
      · simp [held, hpc] at hheld
      · exact .inr (.inr (.inr (.inr hpopped)))
  | dequeue buffer queued rest hpc hqueue =>
      right
      obtain ⟨-, -, -, hqueued | hheld⟩ := (h.moving buffer hpc).2.sendPacketStep queued
      · refine .inr (.inl ?_)
        simp only [dequeue, foldl_queuePacket]
        exact List.append_ne_nil_of_right_ne_nil _ hqueued
      · exact .inr (.inr (.inr (.inl hheld)))
  | endUpdate buffer hpc hqueue =>
      right
      by_cases hheld : buffer.getActiveSize > 0
      · exact .inr (.inl (by simp [endUpdate, hheld, WriteSide.queuePacket]))
      · rcases hleft with hqueue' | hqueue' | hasync | hheld' | ⟨_, _, hpopped⟩
        · exact absurd hqueue hqueue'
        · exact .inr (.inl (by simpa [endUpdate, hheld] using hqueue'))
        · exact .inr (.inr (.inl (by simpa [endUpdate, hheld] using hasync)))
        · simp only [held, hpc] at hheld'
          exact absurd hheld' hheld
        · rw [(h.moving buffer hpc).1] at hpopped
          cases hpopped

/-! ## Draining -/

/-- How far the network thread has to go, for one round of `Update`, before it gets to the
next buffer or packet. -/
def distance (s : SendSide) : ℕ :=
  match s.write.pc, s.pc with
  | .popped _ _, _ => 8
  | .handleQueue _, .writing => if s.write.writeQueue = [] then 3 else 4
  | .handleQueue _, _ => if s.write.writeQueue = [] then 5 else 4
  | .idle, .idle => if s.write.writeQueue = [] then 4 else 5
  | .idle, .writing => if s.write.writeQueue = [] then 2 else 7
  | .idle, .moving _ => if s.write.writeQueue = [] then 1 else 6

/-- The work left.  A packet becomes at most two buffers and a held part, and a held part
becomes a buffer. -/
def work (s : SendSide) : ℕ :=
  50 * s.bufferQueue.length + 20 * (if 0 < s.held then 1 else 0) +
    10 * s.write.writeQueue.length + s.distance

theorem work_lt_of_distance (hqueue : t.bufferQueue = s.bufferQueue) (hheld : t.held = s.held)
    (h : 10 * t.write.writeQueue.length + t.distance <
      10 * s.write.writeQueue.length + s.distance) : t.work < s.work := by
  rw [work, work, hqueue, hheld]
  omega

/-- A call of `HandleQueue` whose buffer is taken as a whole takes it out of the queue. -/
theorem exists_handleQueue {w : WriteSide} (caller : WriteCaller) {front : MessageBuffer}
    {rest : List MessageBuffer} (hqueue : w.writeQueue = front :: rest) :
    ∃ w' whole, w.handleQueue caller (.sent front.getActiveSize) = some w' ∧
      w'.writeQueue = rest ∧ w'.pc = .popped caller whole := by
  by_cases hzero : front.getActiveSize = 0
  · have hcall : w.handleQueue caller (.sent front.getActiveSize) = some { w with
        writeQueue := rest
        accepted := w.accepted ++ front.active.take 0
        pc := .popped caller false } := by
      simp only [WriteSide.handleQueue, hqueue, hzero, if_true]
    exact ⟨_, false, hcall, rfl, rfl⟩
  · have hcall : w.handleQueue caller (.sent front.getActiveSize) = some { w with
        writeQueue := rest
        accepted := w.accepted ++ front.active.take front.getActiveSize
        pc := .popped caller true } := by
      simp only [WriteSide.handleQueue, hqueue, hzero, if_false, Nat.lt_irrefl, if_true]
    exact ⟨_, true, hcall, rfl, rfl⟩

/-- The network thread inside `HandleQueue`. -/
theorem exists_drain_handleQueue (sendBufferSize : ℕ) {caller : WriteCaller}
    (hpc : s.write.pc = .handleQueue caller) :
    ∃ outcome t, Label.Drains (.handleQueue outcome) ∧
      next sendBufferSize s (.handleQueue outcome) = some t ∧ t.work < s.work := by
  cases hqueue : s.write.writeQueue with
  | nil =>
      refine ⟨.sent 0, { s with write := s.write.returnTo caller false }, trivial, ?_, ?_⟩
      · simp [next, WriteSide.next, hpc, WriteSide.handleQueue, hqueue]
      · refine work_lt_of_distance rfl rfl ?_
        cases hs : s.pc <;> simp [distance, hpc, hs, hqueue, WriteSide.returnTo]
  | cons front rest =>
      obtain ⟨w', whole, hcall, hqueue', hpc'⟩ := exists_handleQueue caller hqueue
      refine ⟨.sent front.getActiveSize, { s with write := w' }, trivial, ?_, ?_⟩
      · simp [next, WriteSide.next, hpc, hcall]
      · refine work_lt_of_distance rfl rfl ?_
        simp only [hqueue, hqueue', List.length_cons]
        cases hs : s.pc <;> simp [distance, hpc, hpc', hs, hqueue] <;> omega

/-- The network thread after `HandleQueue` has taken a buffer out. -/
theorem exists_drain_checkClosing (sendBufferSize : ℕ) {caller : WriteCaller} {whole : Bool}
    (hclosing : s.write.closing = true) (hpc : s.write.pc = .popped caller whole) :
    ∃ t, next sendBufferSize s .checkClosing = some t ∧
      (t.write.closed = true ∨ t.work < s.work) := by
  refine ⟨{ s with write := s.write.checkClosing caller whole }, ?_, ?_⟩
  · simp [next, WriteSide.next, hpc]
  · by_cases hempty : s.write.writeQueue = []
    · left
      simp [WriteSide.checkClosing, hclosing, hempty, WriteSide.returnTo, WriteSide.closeSocket]
    · right
      refine work_lt_of_distance rfl rfl ?_
      cases hs : s.pc <;> cases caller <;> cases whole <;>
        simp [distance, hpc, hs, hempty, WriteSide.checkClosing, WriteSide.returnTo]

/-- The network thread between two calls. -/
theorem exists_drain_idle (sendBufferSize : ℕ) (h : s.write.WriteInv)
    (hclosing : s.write.closing = true) (hclosed : s.write.closed = false)
    (hpc : s.pc = .idle) (hwrite : s.write.pc = .idle) :
    ∃ l t, Label.Drains l ∧ next sendBufferSize s l = some t ∧ t.work < s.work := by
  by_cases hasync : s.write.isWritingAsync = true
  · have hqueue := (h.waiting hasync).2
    refine ⟨.writeHandlerWrapper, { s with write := s.write.writeHandlerWrapper }, trivial, ?_, ?_⟩
    · have hwrites : 0 < s.write.writes := by
        rw [h.writes_eq, if_pos hasync]
        omega
      simp [next, WriteSide.next, hpc, hwrite, hwrites]
    · refine work_lt_of_distance rfl rfl ?_
      simp [distance, WriteSide.writeHandlerWrapper, hpc, hwrite, hqueue]
  · have hupdate : s.write.update = { s.write with pc := .handleQueue .update } := by
      simp [WriteSide.update, hclosed, hclosing, hasync]
    refine ⟨.update, { s with write := s.write.update, pc := .writing }, trivial, ?_, ?_⟩
    · simp [next, update, hpc, hwrite, hclosed]
    · refine work_lt_of_distance rfl (by simp [held, hpc]) ?_
      rw [hupdate]
      by_cases hqueue : s.write.writeQueue = [] <;> simp [distance, hpc, hwrite, hqueue]

/-- The network thread in the loop that moves the packets. -/
theorem exists_drain_moving (h : SendInv sendBufferSize s) (hleft : s.OutputLeft)
    {buffer : MessageBuffer} (hpc : s.pc = .moving buffer) :
    ∃ l t, Label.Drains l ∧ next sendBufferSize s l = some t ∧ t.work < s.work := by
  obtain ⟨hwrite, hcollects⟩ := h.moving buffer hpc
  have hheld : s.held = buffer.getActiveSize := by rw [held, hpc]
  cases hqueue : s.bufferQueue with
  | cons queued rest =>
      refine ⟨.dequeue, s.dequeue sendBufferSize buffer queued rest, trivial, ?_, ?_⟩
      · simp [next, hpc, hqueue]
      · obtain ⟨-, -, hlength, -⟩ := hcollects.sendPacketStep queued
        have hnear : ∀ b, (if b = ([] : List MessageBuffer) then 1 else 6) ≤ 6 := by
          intro b
          split <;> omega
        have hfar : 1 ≤ if s.write.writeQueue = [] then 1 else 6 := by
          split <;> omega
        have hone : (if 0 < (s.dequeue sendBufferSize buffer queued rest).held then 1 else 0) ≤
            1 := by
          split <;> omega
        have hdistance := hnear (s.dequeue sendBufferSize buffer queued rest).write.writeQueue
        simp only [work, distance, hpc, hwrite, hqueue, List.length_cons]
        simp only [dequeue, foldl_queuePacket, hwrite, List.length_append] at hone hdistance ⊢
        omega
  | nil =>
      refine ⟨.endUpdate, s.endUpdate buffer, trivial, by simp [next, hpc, hqueue], ?_⟩
      by_cases hpos : 0 < buffer.getActiveSize
      · have hfar : 1 ≤ if s.write.writeQueue = [] then 1 else 6 := by
          split <;> omega
        simp [work, distance, hpc, hwrite, hpos, endUpdate, held, WriteSide.queuePacket, hqueue]
        omega
      · have hne : s.write.writeQueue ≠ [] := by
          rcases hleft with hqueue' | hqueue' | hasync | hheld' | ⟨_, _, hpopped⟩
          · exact absurd hqueue hqueue'
          · exact hqueue'
          · exact h.write.writeQueue_ne_nil hasync
          · rw [hheld] at hheld'
            exact absurd hheld' hpos
          · rw [hwrite] at hpopped
            cases hpopped
        refine work_lt_of_distance rfl (by rw [hheld]; simp [held, endUpdate]; omega) ?_
        simp [distance, endUpdate, hpos, hpc, hwrite, hne]

/-- As long as something is left the network thread can do a step that brings it closer to
closing the socket. -/
theorem exists_drain (h : SendInv sendBufferSize s) (hclosing : s.write.closing = true)
    (hclosed : s.write.closed = false) (hleft : s.OutputLeft) :
    ∃ l t, Label.Drains l ∧ next sendBufferSize s l = some t ∧
      (t.write.closed = true ∨ t.work < s.work) := by
  cases hwrite : s.write.pc with
  | popped caller whole =>
      obtain ⟨t, hnext, hdone⟩ := exists_drain_checkClosing sendBufferSize hclosing hwrite
      exact ⟨.checkClosing, t, trivial, hnext, hdone⟩
  | handleQueue caller =>
      obtain ⟨outcome, t, hl, hnext, hlt⟩ := exists_drain_handleQueue sendBufferSize hwrite
      exact ⟨.handleQueue outcome, t, hl, hnext, .inr hlt⟩
  | idle =>
      cases hpc : s.pc with
      | idle =>
          obtain ⟨l, t, hl, hnext, hlt⟩ :=
            exists_drain_idle sendBufferSize h.write hclosing hclosed hpc hwrite
          exact ⟨l, t, hl, hnext, .inr hlt⟩
      | writing =>
          refine ⟨.startMoving, { s with pc := .moving (MessageBuffer.ofSize sendBufferSize) },
            trivial, by simp [next, hpc, hwrite], .inr ?_⟩
          refine work_lt_of_distance rfl (by simp [held, hpc, MessageBuffer.getActiveSize,
            MessageBuffer.ofSize]) ?_
          by_cases hqueue : s.write.writeQueue = [] <;> simp [distance, hpc, hwrite, hqueue]
      | moving buffer =>
          obtain ⟨l, t, hl, hnext, hlt⟩ := exists_drain_moving h hleft hpc
          exact ⟨l, t, hl, hnext, .inr hlt⟩

/-! ## Closing -/

/-- A socket that is to be closed is closed, or has something left to send. -/
structure ClosingInv (sendBufferSize : ℕ) (s : SendSide) : Prop where
  inv : SendInv sendBufferSize s
  left : s.write.closing = true → s.write.closed = false → s.OutputLeft

theorem closingInv_new : ClosingInv sendBufferSize {} := ⟨sendInv_new, by simp⟩

theorem closingInv_next (h : ClosingInv sendBufferSize s) (hl : AsksWithOutput s l)
    (hstep : next sendBufferSize s l = some t) : ClosingInv sendBufferSize t := by
  refine ⟨sendInv_next h.inv hstep, ?_⟩
  intro hclosing hopen
  by_cases hask : l = .delayedCloseSocket
  · subst hask
    cases hstep
    rcases hl rfl with halready | hclosed | hleft
    · exact h.left halready hopen
    · exact absurd hclosed (by simpa [WriteSide.delayedCloseSocket] using hopen)
    · exact hleft
  · obtain ⟨hsame, hkeeps⟩ := keepsFlags_next hask hstep
    rw [hsame] at hclosing
    have hopen' : s.write.closed = false := by
      rw [← Bool.not_eq_true]
      intro hclosed
      rw [hkeeps hclosed] at hopen
      cases hopen
    refine (closed_or_outputLeft_next h.inv hclosing (h.left hclosing hopen') hstep).resolve_left ?_
    simp [hopen]

/-- When the socket is to be closed, asking for it again changes nothing. -/
theorem closing_next (h : s.write.closing = true ∧ ClosingInv sendBufferSize s)
    (hstep : next sendBufferSize s l = some t) :
    t.write.closing = true ∧ ClosingInv sendBufferSize t := by
  refine ⟨?_, closingInv_next h.2 (fun _ => .inl h.1) hstep⟩
  by_cases hask : l = .delayedCloseSocket
  · subst hask
    cases hstep
    rfl
  · rw [(keepsFlags_next hask hstep).1]
    exact h.1

theorem closeCompletes_of_closingInv (h : ClosingInv sendBufferSize s) :
    s.CloseCompletes sendBufferSize := by
  intro hclosing hclosed
  have hleft := h.left hclosing hclosed
  refine ⟨hleft, ?_, ?_⟩
  · refine Machine.exists_run_of_measure work (P := fun s => s.write.closing = true ∧
      s.write.closed = false ∧ ClosingInv sendBufferSize s) ?_ ⟨hclosing, hclosed, h⟩
    rintro s ⟨hclosing, hclosed, h⟩
    obtain ⟨l, t, hl, hnext, hdone⟩ :=
      exists_drain h.inv hclosing hclosed (h.left hclosing hclosed)
    refine ⟨l, t, hl, hnext, ?_⟩
    cases hclosed' : t.write.closed with
    | true => exact .inl rfl
    | false =>
        obtain ⟨hclosing', h'⟩ := closing_next ⟨hclosing, h⟩ hnext
        exact .inr ⟨⟨hclosing', rfl, h'⟩, hdone.resolve_left (by simp [hclosed'])⟩
  · intro ls t hrun hnone
    obtain ⟨hclosing', h'⟩ : t.write.closing = true ∧ ClosingInv sendBufferSize t :=
      Machine.run_induction (fun _ _ _ h hstep => closing_next h hstep) ⟨hclosing, h⟩ hrun
    by_contra hopen
    exact hnone (h'.left hclosing' (by simpa using hopen))

/-- **A socket that is to be closed will be closed, in all states of a run, exactly if
`DelayedCloseSocket` is always called while something is left to send.** -/
theorem delayedClose_completes_iff (sendBufferSize : ℕ) (ls : List Label) :
    (∀ ls' s, ls' <+: ls → Machine.run (next sendBufferSize) {} ls' = some s →
        s.CloseCompletes sendBufferSize) ↔
      Machine.Along (next sendBufferSize) AsksWithOutput {} ls := by
  rw [Machine.along_iff_forall_prefix]
  constructor
  · intro hcompletes pre l s hpre hrun hask
    subst hask
    by_contra hnone
    simp only [not_or, Bool.not_eq_true] at hnone
    have hrun' : Machine.run (next sendBufferSize) {} (pre ++ [.delayedCloseSocket]) =
        some { s with write := s.write.delayedCloseSocket } := by
      rw [Machine.run_append, hrun]
      rfl
    exact hnone.2.2 (hcompletes _ _ hpre hrun' rfl hnone.2.1).1
  · intro hasks ls' s hls' hrun
    refine closeCompletes_of_closingInv (Machine.run_induction_of
      (fun _ _ _ h hl hstep => closingInv_next h hl hstep) ?_ closingInv_new hrun)
    rw [Machine.along_iff_forall_prefix]
    intro pre l t hpre
    exact hasks pre l t (hpre.trans hls')

/-- The error is sent, moved and written before the socket is asked to close: it is not closed,
and nothing is left to send. -/
theorem not_closeCompletes_drained :
    ∃ s, Machine.run (next 16) {} [.sendPacket ⟨3, [1]⟩, .enqueue ⟨3, [1]⟩, .update, .startMoving,
        .dequeue, .endUpdate, .update, .handleQueue (.sent 7), .checkClosing, .startMoving,
        .endUpdate, .delayedCloseSocket] = some s ∧
      s.write.closing = true ∧ s.write.closed = false ∧ s.bufferQueue = [] ∧
      s.write.writeQueue = [] ∧ s.write.writes = 0 ∧ s.pc = .idle ∧ s.write.pc = .idle ∧
      ¬ s.CloseCompletes 16 := by
  refine ⟨_, rfl, rfl, rfl, rfl, rfl, rfl, rfl, rfl, ?_⟩
  intro hcompletes
  rcases (hcompletes rfl rfl).1 with hqueue | hqueue | hasync | hheld | ⟨_, _, hpopped⟩
  · exact hqueue rfl
  · exact hqueue rfl
  · exact absurd hasync (by decide)
  · exact absurd hheld (by decide)
  · cases hpopped

end SendSide
end WarheadDiscord
