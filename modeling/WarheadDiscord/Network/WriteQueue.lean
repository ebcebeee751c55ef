import WarheadDiscord.Lib.Machine
import WarheadDiscord.Network.SendPath

/-!
# The write queue of a socket

`QueuePacket` puts a buffer into `_writeQueue`.  `Update` writes from the front of the
queue as long as the socket takes whole buffers.  When it takes a part of a buffer, or
nothing, an asynchronous write without data is posted, and its completion writes again.
How far a buffer has been written is kept in its read cursor.  This is the build without
completion ports.

The queue belongs to the network thread.  Other threads set `_closing` and `_closed` at
any time, so the step that takes a buffer out of the queue and the step that looks at
`_closing` are two.  What `write_some` does is part of the label.

`queued` and `accepted` are the bytes passed to `QueuePacket` and the bytes taken by the
socket so far.  As long as there is no hard error, they differ by what is left in the
queue (`WriteInv.bytes`), from which `write_queue_drains` follows.

## Main definitions

* `WriteOutcome` — what `write_some` does.
* `WriteSide` — the state; `WriteSide.next` — its steps.
* `WriteInv` — the invariant.
-/

namespace WarheadDiscord

/-- The error codes `HandleQueue` tells apart. -/
inductive WriteError
  | wouldBlock
  | tryAgain
  /-- Any other error. -/
  | other
  deriving DecidableEq, Repr

/-- What `write_some` does: it takes a number of bytes, or fails. -/
inductive WriteOutcome
  | sent (bytesSent : ℕ)
  | failed (error : WriteError)
  deriving DecidableEq, Repr

/-- Who has called `HandleQueue`. -/
inductive WriteCaller
  | update
  | writeHandlerWrapper
  deriving DecidableEq, Repr

/-- Where the network thread is. -/
inductive WritePc
  | idle
  /-- About to call `HandleQueue`. -/
  | handleQueue (caller : WriteCaller)
  /-- A buffer has been taken out of the queue and `_closing` comes next.  `whole` says that
  it was written to its end, so that `HandleQueue` asks for more. -/
  | popped (caller : WriteCaller) (whole : Bool)
  deriving DecidableEq, Repr

/-- The writing side of a socket. -/
structure WriteSide where
  writeQueue : List MessageBuffer := []
  closed : Bool := false
  closing : Bool := false
  isWritingAsync : Bool := false
  pc : WritePc := .idle
  /-- Asynchronous writes posted and not completed. -/
  writes : ℕ := 0
  /-- All bytes passed to `QueuePacket`. -/
  queued : List UInt8 := []
  /-- All bytes taken by the socket. -/
  accepted : List UInt8 := []
  /-- The calls of `CloseSocket` from `HandleQueue`. -/
  closeCalls : ℕ := 0
  deriving DecidableEq, Repr

namespace WriteSide

def isOpen (w : WriteSide) : Bool := !w.closed && !w.closing

def closeSocket (w : WriteSide) : WriteSide := { w with closed := true }

def delayedCloseSocket (w : WriteSide) : WriteSide := { w with closing := true }

def queuePacket (w : WriteSide) (buffer : MessageBuffer) : WriteSide :=
  { w with writeQueue := w.writeQueue ++ [buffer], queued := w.queued ++ buffer.active }

/-- `Update`, up to its loop. -/
def update (w : WriteSide) : WriteSide :=
  if w.closed then w
  else if w.isWritingAsync || (w.writeQueue.isEmpty && !w.closing) then w
  else { w with pc := .handleQueue .update }

/-- `WriteHandlerWrapper`, up to its call of `HandleQueue`. -/
def writeHandlerWrapper (w : WriteSide) : WriteSide :=
  { w with
    isWritingAsync := false
    writes := w.writes - 1
    pc := .handleQueue .writeHandlerWrapper }

def asyncProcessQueue (w : WriteSide) : WriteSide :=
  if w.isWritingAsync then w else { w with isWritingAsync := true, writes := w.writes + 1 }

/-- Where `HandleQueue` returns to: the loop of `Update` goes on if the answer is `true`. -/
def returnTo (w : WriteSide) (caller : WriteCaller) (more : Bool) : WriteSide :=
  { w with pc := if caller = .update ∧ more then .handleQueue .update else .idle }

/-- `HandleQueue`, up to the place where it looks at `_closing`.  `write_some` takes at
least one byte of a buffer that has one. -/
def handleQueue (w : WriteSide) (caller : WriteCaller) (outcome : WriteOutcome) :
    Option WriteSide :=
  match w.writeQueue with
  | [] => some (w.returnTo caller false)
  | queuedMessage :: rest =>
      let bytesToSend := queuedMessage.getActiveSize
      match outcome with
      | .failed .wouldBlock | .failed .tryAgain => some (w.asyncProcessQueue.returnTo caller false)
      | .failed .other => some { w with writeQueue := rest, pc := .popped caller false }
      | .sent bytesSent =>
          let w := { w with accepted := w.accepted ++ queuedMessage.active.take bytesSent }
          if bytesSent = 0 then
            if bytesToSend = 0 then some { w with writeQueue := rest, pc := .popped caller false }
            else none
          else if bytesSent < bytesToSend then
            some ({ w with writeQueue := queuedMessage.readCompleted bytesSent :: rest
              }.asyncProcessQueue.returnTo caller false)
          else if bytesSent = bytesToSend then
            some { w with writeQueue := rest, pc := .popped caller true }
          else none

/-- The end of `HandleQueue` after a buffer has been taken out of the queue. -/
def checkClosing (w : WriteSide) (caller : WriteCaller) (whole : Bool) : WriteSide :=
  let w :=
    if w.closing && w.writeQueue.isEmpty then
      { w with closeCalls := w.closeCalls + 1 }.closeSocket
    else w
  w.returnTo caller (whole && !w.writeQueue.isEmpty)

/-- What can happen to the writing side. -/
inductive Label
  /-- The network thread queues a buffer. -/
  | queuePacket (buffer : MessageBuffer) (valid : buffer.Valid)
  | update
  /-- An asynchronous write completes. -/
  | writeHandlerWrapper
  | handleQueue (outcome : WriteOutcome)
  | checkClosing
  /-- Any thread asks for the socket to be closed. -/
  | delayedCloseSocket
  /-- The socket is closed from elsewhere. -/
  | closeSocket

/-- One step. -/
def next (w : WriteSide) : Label → Option WriteSide
  | .queuePacket buffer _ => if w.pc = .idle then some (w.queuePacket buffer) else none
  | .update => if w.pc = .idle then some w.update else none
  | .writeHandlerWrapper =>
      if w.pc = .idle ∧ 0 < w.writes then some w.writeHandlerWrapper else none
  | .handleQueue outcome =>
      match w.pc with
      | .handleQueue caller => w.handleQueue caller outcome
      | _ => none
  | .checkClosing =>
      match w.pc with
      | .popped caller whole => some (w.checkClosing caller whole)
      | _ => none
  | .delayedCloseSocket => some w.delayedCloseSocket
  | .closeSocket => some w.closeSocket

/-- The step is not a write that fails for good. -/
def Label.NoHardError : Label → Prop
  | .handleQueue (.failed .other) => False
  | _ => True

/-! ## The exits of `HandleQueue` -/

/-- What a call of `HandleQueue` can do before it looks at `_closing`. -/
inductive Handled (w : WriteSide) (caller : WriteCaller) : WriteOutcome → WriteSide → Prop
  /-- There is nothing to write. -/
  | empty (outcome : WriteOutcome) (hempty : w.writeQueue = []) :
      Handled w caller outcome (w.returnTo caller false)
  /-- The socket takes a part of the first buffer, or nothing, and is asked again later. -/
  | blocked (outcome : WriteOutcome) (front : MessageBuffer) (rest : List MessageBuffer) (n : ℕ)
      (hqueue : w.writeQueue = front :: rest) (hn : n ≤ front.getActiveSize) :
      Handled w caller outcome ({ w with
        writeQueue := front.readCompleted n :: rest
        accepted := w.accepted ++ front.active.take n }.asyncProcessQueue.returnTo caller false)
  /-- The first buffer is given up. -/
  | failed (front : MessageBuffer) (rest : List MessageBuffer)
      (hqueue : w.writeQueue = front :: rest) :
      Handled w caller (.failed .other)
        { w with writeQueue := rest, pc := .popped caller false }
  /-- The first buffer has been written to its end. -/
  | written (outcome : WriteOutcome) (front : MessageBuffer) (rest : List MessageBuffer)
      (whole : Bool) (hqueue : w.writeQueue = front :: rest) :
      Handled w caller outcome { w with
        writeQueue := rest
        accepted := w.accepted ++ front.active
        pc := .popped caller whole }

variable {w w' : WriteSide} {caller : WriteCaller} {outcome : WriteOutcome}

theorem handled_of_handleQueue (h : w.handleQueue caller outcome = some w') :
    w.Handled caller outcome w' := by
  unfold handleQueue at h
  split at h
  case h_1 hqueue =>
    cases h
    exact .empty outcome hqueue
  case h_2 front rest hqueue =>
    have hblocked : ∀ o, w.Handled caller o (w.asyncProcessQueue.returnTo caller false) := by
      intro o
      have hsame : { w with writeQueue := front.readCompleted 0 :: rest
                            accepted := w.accepted ++ front.active.take 0 } = w := by
        simp [MessageBuffer.readCompleted, ← hqueue]
      have hstep : w.Handled caller o _ := .blocked o front rest 0 hqueue (Nat.zero_le _)
      rwa [hsame] at hstep
    have htake : front.active.take front.getActiveSize = front.active := by
      rw [MessageBuffer.active, List.take_take, Nat.min_self]
    cases outcome with
    | failed error =>
        cases error with
        | wouldBlock =>
            cases h
            exact hblocked _
        | tryAgain =>
            cases h
            exact hblocked _
        | other =>
            cases h
            exact .failed front rest hqueue
    | sent n =>
        simp only at h
        split_ifs at h with hzero hsize hpart hall
        · cases h
          rw [hzero, ← hsize, htake]
          exact .written _ front rest false hqueue
        · cases h
          exact .blocked _ front rest n hqueue (by omega)
        · cases h
          rw [hall, htake]
          exact .written _ front rest true hqueue

/-- What a step can do. -/
inductive Stepped (w : WriteSide) : Label → WriteSide → Prop
  | queuePacket (b : MessageBuffer) (hb : b.Valid) : Stepped w (.queuePacket b hb) (w.queuePacket b)
  | update : Stepped w .update w.update
  | writeHandlerWrapper : Stepped w .writeHandlerWrapper w.writeHandlerWrapper
  | handleQueue (caller : WriteCaller) (outcome : WriteOutcome) (w' : WriteSide)
      (hpc : w.pc = .handleQueue caller) (hstep : w.handleQueue caller outcome = some w') :
      Stepped w (.handleQueue outcome) w'
  | checkClosing (caller : WriteCaller) (whole : Bool) (hpc : w.pc = .popped caller whole) :
      Stepped w .checkClosing (w.checkClosing caller whole)
  | delayedCloseSocket : Stepped w .delayedCloseSocket w.delayedCloseSocket
  | closeSocket : Stepped w .closeSocket w.closeSocket

theorem stepped_of_next {l : Label} (h : w.next l = some w') : w.Stepped l w' := by
  cases l with
  | queuePacket b hb =>
      obtain ⟨-, heq⟩ := Option.ite_none_right_eq_some.mp h
      cases heq
      exact .queuePacket b hb
  | update =>
      obtain ⟨-, heq⟩ := Option.ite_none_right_eq_some.mp h
      cases heq
      exact .update
  | writeHandlerWrapper =>
      obtain ⟨-, heq⟩ := Option.ite_none_right_eq_some.mp h
      cases heq
      exact .writeHandlerWrapper
  | handleQueue outcome =>
      simp only [next] at h
      split at h
      case h_1 caller hpc => exact .handleQueue caller outcome w' hpc h
      case h_2 => cases h
  | checkClosing =>
      simp only [next] at h
      split at h
      case h_1 caller whole hpc =>
        cases h
        exact .checkClosing caller whole hpc
      case h_2 => cases h
  | delayedCloseSocket =>
      cases h
      exact .delayedCloseSocket
  | closeSocket =>
      cases h
      exact .closeSocket

/-! ## What every step keeps -/

/-- What holds of the writing side whatever the socket does. -/
structure WriteInv (w : WriteSide) : Prop where
  valid : ∀ b ∈ w.writeQueue, b.Valid
  /-- The flag counts the asynchronous writes. -/
  writes_eq : w.writes = if w.isWritingAsync then 1 else 0
  /-- While one is outstanding nobody writes, and there is something to write. -/
  waiting : w.isWritingAsync = true → w.pc = .idle ∧ w.writeQueue ≠ []

theorem writeInv_new : WriteInv {} := ⟨by simp, rfl, by simp⟩

namespace WriteInv
variable (h : w.WriteInv)
include h

theorem queuePacket {b : MessageBuffer} (hb : b.Valid) : (w.queuePacket b).WriteInv := by
  refine ⟨?_, h.writes_eq, ?_⟩
  · intro b' hb'
    rcases List.mem_append.mp hb' with hold | hnew
    · exact h.valid b' hold
    · rw [List.mem_singleton.mp hnew]
      exact hb
  · intro hasync
    exact ⟨(h.waiting hasync).1, by simp [WriteSide.queuePacket]⟩

theorem not_isWritingAsync (hpc : w.pc ≠ .idle) : w.isWritingAsync = false := by
  rw [← Bool.not_eq_true]
  exact fun hasync => hpc (h.waiting hasync).1

/-- While a write is outstanding there is something to write. -/
theorem writeQueue_ne_nil (hwrites : 0 < w.writes) : w.writeQueue ≠ [] := by
  refine (h.waiting ?_).2
  by_contra hasync
  rw [h.writes_eq, if_neg hasync] at hwrites
  omega

theorem update : w.update.WriteInv := by
  rw [WriteSide.update]
  split_ifs with hclosed hstays
  · exact h
  · exact h
  · have hasync : w.isWritingAsync = false := by
      rw [Bool.or_eq_true, not_or, Bool.not_eq_true] at hstays
      exact hstays.1
    exact ⟨h.valid, h.writes_eq, by simp [hasync]⟩

theorem writeHandlerWrapper : w.writeHandlerWrapper.WriteInv := by
  have hone : w.writes - 1 = 0 := by
    rw [h.writes_eq]
    split <;> rfl
  exact ⟨h.valid, hone, by simp [WriteSide.writeHandlerWrapper]⟩

theorem returnTo (hasync : w.isWritingAsync = false) (more : Bool) :
    (w.returnTo caller more).WriteInv :=
  ⟨h.valid, h.writes_eq, fun hasync' => by simp [WriteSide.returnTo, hasync] at hasync'⟩

theorem handleQueue (hpc : w.pc = .handleQueue caller)
    (hstep : w.handleQueue caller outcome = some w') : w'.WriteInv := by
  have hasync := h.not_isWritingAsync (by simp [hpc])
  have hwrites : w.writes = 0 := by rw [h.writes_eq, hasync]; rfl
  cases handled_of_handleQueue hstep with
  | empty _ hempty => exact h.returnTo hasync false
  | blocked _ front rest n hqueue hn =>
      have hfront : front.Valid := h.valid front (by simp [hqueue])
      refine ⟨?_, ?_, ?_⟩
      · intro b hb
        simp only [WriteSide.asyncProcessQueue, hasync, WriteSide.returnTo] at hb
        rcases List.mem_cons.mp hb with rfl | hb
        · exact MessageBuffer.valid_readCompleted hfront hn
        · exact h.valid b (by simp [hqueue, hb])
      · simp [WriteSide.asyncProcessQueue, hasync, WriteSide.returnTo, hwrites]
      · simp [WriteSide.asyncProcessQueue, hasync, WriteSide.returnTo]
  | failed front rest hqueue =>
      exact ⟨fun b hb => h.valid b (by rw [hqueue]; exact List.mem_cons_of_mem _ hb), h.writes_eq,
        by simp [hasync]⟩
  | written _ front rest whole hqueue =>
      exact ⟨fun b hb => h.valid b (by rw [hqueue]; exact List.mem_cons_of_mem _ hb), h.writes_eq,
        by simp [hasync]⟩

theorem checkClosing {whole : Bool} (hpc : w.pc = .popped caller whole) :
    (w.checkClosing caller whole).WriteInv := by
  have hasync := h.not_isWritingAsync (by simp [hpc])
  rw [WriteSide.checkClosing]
  split_ifs with hcloses
  · exact ⟨h.valid, h.writes_eq, by simp [WriteSide.returnTo, WriteSide.closeSocket, hasync]⟩
  · exact h.returnTo hasync _

end WriteInv

theorem writeInv_next {l : Label} (h : w.WriteInv) (hstep : w.next l = some w') : w'.WriteInv := by
  cases stepped_of_next hstep with
  | queuePacket b hb => exact h.queuePacket hb
  | update => exact h.update
  | writeHandlerWrapper => exact h.writeHandlerWrapper
  | handleQueue caller outcome _ hpc hstep => exact h.handleQueue hpc hstep
  | checkClosing caller whole hpc => exact h.checkClosing hpc
  | delayedCloseSocket => exact ⟨h.valid, h.writes_eq, h.waiting⟩
  | closeSocket => exact ⟨h.valid, h.writes_eq, h.waiting⟩

@[simp] theorem update_writeQueue : w.update.writeQueue = w.writeQueue := by
  rw [update]
  split_ifs <;> rfl

@[simp] theorem update_writes : w.update.writes = w.writes := by
  rw [update]
  split_ifs <;> rfl

/-- `_closing` is as before, and `_closed` is not taken back. -/
def KeepsFlags (w w' : WriteSide) : Prop :=
  w'.closing = w.closing ∧ (w.closed = true → w'.closed = true)

theorem keepsFlags_update : w.KeepsFlags w.update := by
  rw [update]
  split_ifs <;> exact ⟨rfl, id⟩

/-- Only `DelayedCloseSocket` sets `_closing`. -/
theorem keepsFlags_next {l : Label} (hl : l ≠ .delayedCloseSocket) (hstep : w.next l = some w') :
    w.KeepsFlags w' := by
  cases stepped_of_next hstep with
  | queuePacket b hb => exact ⟨rfl, id⟩
  | update => exact keepsFlags_update
  | writeHandlerWrapper => exact ⟨rfl, id⟩
  | handleQueue caller outcome _ hpc hcall =>
      cases handled_of_handleQueue hcall with
      | empty _ hempty => exact ⟨rfl, id⟩
      | blocked _ front rest n hqueue hn =>
          simp only [asyncProcessQueue, returnTo]
          split <;> exact ⟨rfl, id⟩
      | failed front rest hqueue => exact ⟨rfl, id⟩
      | written _ front rest whole hqueue => exact ⟨rfl, id⟩
  | checkClosing caller whole hpc =>
      rw [checkClosing]
      split_ifs
      · exact ⟨rfl, fun _ => rfl⟩
      · exact ⟨rfl, id⟩
  | delayedCloseSocket => exact absurd rfl hl
  | closeSocket => exact ⟨rfl, fun _ => rfl⟩

/-- All that was queued has been taken by the socket or is still in the queue. -/
def Accounted (w : WriteSide) : Prop :=
  w.accepted ++ SendPath.queuedBytes w.writeQueue = w.queued

theorem accounted_handleQueue (h : w.Accounted) (hstep : w.handleQueue caller outcome = some w')
    (herror : outcome ≠ .failed .other) : w'.Accounted := by
  unfold Accounted SendPath.queuedBytes at h ⊢
  cases handled_of_handleQueue hstep with
  | empty _ hempty => exact h
  | blocked _ front rest n hqueue hn =>
      -- what was taken from the first buffer and what is left of it are the buffer
      have hbytes : w.accepted ++ front.active.take n ++
          (front.active.drop n ++ rest.flatMap MessageBuffer.active) = w.queued := by
        rw [← h, hqueue, List.flatMap_cons, List.append_assoc,
          ← List.append_assoc (front.active.take n), List.take_append_drop]
      rw [← MessageBuffer.active_readCompleted] at hbytes
      simp only [asyncProcessQueue, returnTo]
      split <;> exact hbytes
  | failed front rest hqueue => exact absurd rfl herror
  | written _ front rest whole hqueue =>
      rw [hqueue, List.flatMap_cons] at h
      simpa using h

theorem accounted_next {l : Label} (h : w.Accounted) (hl : l.NoHardError)
    (hstep : w.next l = some w') : w'.Accounted := by
  cases stepped_of_next hstep with
  | queuePacket b hb =>
      unfold Accounted SendPath.queuedBytes at h ⊢
      simp [queuePacket, ← h]
  | update =>
      rw [update]
      split_ifs <;> exact h
  | writeHandlerWrapper => exact h
  | handleQueue caller outcome _ hpc hstep =>
      refine accounted_handleQueue h hstep ?_
      rintro rfl
      exact hl
  | checkClosing caller whole hpc =>
      rw [checkClosing]
      split_ifs <;> exact h
  | delayedCloseSocket => exact h
  | closeSocket => exact h

/-- `CloseSocket` is called only if it was asked for and the queue is empty. -/
theorem next_closeCalls {l : Label} (hstep : w.next l = some w')
    (hcalls : w'.closeCalls ≠ w.closeCalls) : w.closing = true ∧ w.writeQueue = [] := by
  cases stepped_of_next hstep with
  | queuePacket b hb => exact absurd rfl hcalls
  | update =>
      rw [update] at hcalls
      split_ifs at hcalls <;> exact absurd rfl hcalls
  | writeHandlerWrapper => exact absurd rfl hcalls
  | handleQueue caller outcome _ hpc hstep =>
      cases handled_of_handleQueue hstep with
      | empty _ hempty => exact absurd rfl hcalls
      | blocked _ front rest n hqueue hn =>
          simp only [asyncProcessQueue, returnTo] at hcalls
          split at hcalls <;> exact absurd rfl hcalls
      | failed front rest hqueue => exact absurd rfl hcalls
      | written _ front rest whole hqueue => exact absurd rfl hcalls
  | checkClosing caller whole hpc =>
      rw [checkClosing] at hcalls
      split_ifs at hcalls with hcloses
      · simpa using hcloses
      · exact absurd rfl hcalls
  | delayedCloseSocket => exact absurd rfl hcalls
  | closeSocket => exact absurd rfl hcalls

/-- **Without a hard error, what the socket has taken is a prefix of what was queued, at
most one asynchronous write is outstanding, and `HandleQueue` closes the socket only if this
was asked for and everything has been taken.** -/
theorem write_queue_drains {ls : List Label} (hls : ∀ l ∈ ls, l.NoHardError)
    (hrun : Machine.run next {} ls = some w) :
    w.accepted <+: w.queued ∧ w.writes ≤ 1 ∧
      ∀ l w', l.NoHardError → w.next l = some w' → w'.closeCalls ≠ w.closeCalls →
        w.closing = true ∧ w.accepted = w.queued := by
  have hinv : w.WriteInv :=
    Machine.run_induction (fun _ _ _ h hstep => writeInv_next h hstep) writeInv_new hrun
  have haccounted : w.Accounted :=
    Machine.run_induction_of (fun _ _ _ h hl hstep => accounted_next h hl hstep)
      (Machine.along_of_forall hls _) (by rfl) hrun
  refine ⟨⟨_, haccounted⟩, ?_, ?_⟩
  · rw [hinv.writes_eq]
    split <;> omega
  · intro l w' _ hstep hcalls
    obtain ⟨hclosing, hempty⟩ := next_closeCalls hstep hcalls
    rw [Accounted, hempty] at haccounted
    exact ⟨hclosing, by simpa [SendPath.queuedBytes] using haccounted⟩

/-- The socket blocks in the middle of a buffer, the socket is to be closed, and the rest is
written when the socket is ready. -/
theorem write_queue_drains_after_blocking :
    (Machine.run next {} [.queuePacket ⟨3, 0, [1, 2, 3]⟩ ⟨by decide, by decide⟩, .update,
        .handleQueue (.sent 1), .delayedCloseSocket, .writeHandlerWrapper,
        .handleQueue (.sent 2)]).any
      (fun w => w.accepted = [1, 2, 3] ∧ (w.next .checkClosing).any fun w' => w'.closed) = true ∧
    ∀ w, Machine.run next {} [.queuePacket ⟨3, 0, [1, 2, 3]⟩ ⟨by decide, by decide⟩, .update,
        .handleQueue (.sent 1), .delayedCloseSocket, .writeHandlerWrapper,
        .handleQueue (.sent 2)] = some w → w.accepted <+: w.queued := by
  refine ⟨rfl, ?_⟩
  intro w hrun
  refine (write_queue_drains ?_ hrun).1
  simp [Label.NoHardError]

end WriteSide
end WarheadDiscord
