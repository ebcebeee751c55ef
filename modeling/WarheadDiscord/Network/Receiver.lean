import WarheadDiscord.Lib.Machine
import WarheadDiscord.Network.Framing

/-!
# Receiving: `Socket::AsyncRead` and `DiscordSocket::ReadHandler` over whole runs

The receiving side of a socket as a machine.  A step is a completed read, one pass
of the loop of `ReadHandler`, or something done to the socket from outside: another
thread closes it, or a callback posts a read.  What `ReadDataHandler` answers to a
packet is part of the label, so that every handler is covered and the loop can be
interrupted between any two passes.

The state keeps two histories that the program does not have: the bytes received
so far and the calls of `ReadDataHandler`.  The invariant relates them through the
reference parse: the packets handed over, followed by the parse of the pending
bytes, are the parse of all bytes received, whatever arrives next.

## Main definitions

* `Receiver` — buffers, flags and the two histories.
* `Receiver.pass` — one pass of the loop with its consequences.
* `Receiver.next` — the machine.
* `Receiver.Inv` — its invariant.
-/

namespace WarheadDiscord

open Bytes MessageBuffer ReadBuffers

/-- The receiving side of a socket. -/
structure Receiver where
  buffers : ReadBuffers := ReadBuffers.new
  closed : Bool := false
  closing : Bool := false
  /-- Reads posted and not completed. -/
  reads : ℕ := 0
  /-- `ReadHandler` is in its loop. -/
  handling : Bool := false
  /-- An `ASSERT` has failed. -/
  aborted : Bool := false
  /-- The last `ReadHandler` found the socket closed, or was left by an answer other
  than `Ok`. -/
  paused : Bool := false
  /-- All bytes received. -/
  stream : List UInt8 := []
  /-- All calls of `ReadDataHandler`, with their answers. -/
  calls : List (DiscordPacket × ReadDataHandlerResult) := []
  deriving DecidableEq, Repr

namespace Receiver

def isOpen (r : Receiver) : Bool := !r.closed && !r.closing

def closeSocket (r : Receiver) : Receiver := { r with closed := true }

def delayedCloseSocket (r : Receiver) : Receiver := { r with closing := true }

/-- Make room and post a read. -/
def asyncRead (r : Receiver) : Receiver :=
  if r.isOpen then
    { r with
      buffers := { r.buffers with
        readBuffer := r.buffers.readBuffer.normalize.ensureFreeSpace }
      reads := r.reads + 1 }
  else r

/-- `ReadHandlerInternal` without an error, up to the loop of `ReadHandler`. -/
def readHandlerInternal (r : Receiver) (chunk : List UInt8) : Receiver :=
  { r with
    buffers := { r.buffers with
      readBuffer := (r.buffers.readBuffer.copyAtWritePointer chunk).writeCompleted chunk.length }
    reads := r.reads - 1
    handling := r.isOpen
    paused := !r.isOpen
    stream := r.stream ++ chunk }

/-- `ReadHandlerInternal` with an error. -/
def readError (r : Receiver) : Receiver := { r with reads := r.reads - 1 }.closeSocket

/-- The rest of a pass after `ReadDataHandler` has answered. -/
def answered (r : Receiver) (p : DiscordPacket) (b : ReadBuffers)
    (answer : ReadDataHandlerResult) : Receiver :=
  let r := { r with buffers := b.resetHeader, calls := r.calls ++ [(p, answer)] }
  match answer with
  | .ok => r
  | .error => { r with handling := false, paused := true }.closeSocket
  | .waitingForQuery => { r with handling := false, paused := true }

/-- One pass of the loop of `ReadHandler`; a call of `ReadDataHandler` in it answers
`answer`. -/
def pass (r : Receiver) (answer : ReadDataHandlerResult) : Receiver :=
  if 0 < r.buffers.readBuffer.getActiveSize then
    match iteration r.buffers with
    | none => { r with handling := false, aborted := true }
    | some (.incomplete b) => { r with handling := false, buffers := b }.asyncRead
    | some (.malformed b) => { r with handling := false, buffers := b }.closeSocket
    | some (.packet p b) => r.answered p b answer
  else { r with handling := false }.asyncRead

/-- The packet the next pass hands to `ReadDataHandler`. -/
def nextPacket (r : Receiver) : Option DiscordPacket :=
  if 0 < r.buffers.readBuffer.getActiveSize then
    match iteration r.buffers with
    | some (.packet p _) => some p
    | _ => none
  else none

/-- What can happen to the receiving side. -/
inductive Label
  /-- A callback posts a read. -/
  | asyncRead
  | receive (chunk : List UInt8)
  | readError
  | pass (answer : ReadDataHandlerResult)
  | closeSocket
  | delayedCloseSocket
  deriving DecidableEq, Repr

/-- The machine.  Completion handlers run on the socket's network thread, so none
starts while the loop is running.  A callback posts a read only when none is
outstanding; that the callbacks of `DiscordSocket` do so is part of its invariant. -/
def next (r : Receiver) : Label → Option Receiver
  | .asyncRead => if r.reads = 0 ∧ r.handling = false then some r.asyncRead else none
  | .receive chunk =>
      if 0 < r.reads ∧ r.handling = false ∧ chunk ≠ [] ∧
          chunk.length ≤ r.buffers.readBuffer.getRemainingSpace then
        some (r.readHandlerInternal chunk)
      else none
  | .readError => if 0 < r.reads ∧ r.handling = false then some r.readError else none
  | .pass answer => if r.handling = true then some (r.pass answer) else none
  | .closeSocket => some r.closeSocket
  | .delayedCloseSocket => some r.delayedCloseSocket

/-- The packets handed over. -/
def delivered (r : Receiver) : List DiscordPacket := r.calls.map Prod.fst

/-- The bytes received are the packets handed over and the pending bytes. -/
structure Reading (r : Receiver) : Prop where
  between : r.buffers.Between
  parse_stream : ∀ rest, parse (r.stream ++ rest) =
    prepend r.delivered (parse (r.buffers.pending ++ rest))

/-- An invalid header was reached. -/
structure Rejected (r : Receiver) : Prop where
  closed : r.closed = true
  parse_stream : ∀ rest, parse (r.stream ++ rest) = (r.delivered, true)

/-- The invariant of the receiving side. -/
structure Inv (r : Receiver) : Prop where
  aborted : r.aborted = false
  reads_le : r.reads ≤ 1
  reads_handling : r.handling = true → r.reads = 0
  /-- A read that is outstanding can bring something. -/
  room : 0 < r.reads → 0 < r.buffers.readBuffer.getRemainingSpace
  stage : r.Reading ∨ r.Rejected ∧ r.reads = 0 ∧ r.handling = false
  /-- A `ReadHandler` that was not stopped has taken every frame. -/
  complete : r.handling = false → r.paused = false →
    parse r.buffers.pending = ([], false) ∨ r.Rejected

variable {r : Receiver}

/-! ## Steps that only touch the flags and the read buffer -/

theorem inv_new : Inv {} where
  aborted := rfl
  reads_le := Nat.zero_le _
  reads_handling := fun _ => rfl
  room := fun h => absurd h (Nat.lt_irrefl 0)
  stage := .inl ⟨between_new, fun rest => by rw [pending_new]; rfl⟩
  complete := fun _ _ => .inl (by rw [pending_new]; exact parse_of_length_lt (by decide))

theorem inv_closeSocket (h : r.Inv) : r.closeSocket.Inv where
  aborted := h.aborted
  reads_le := h.reads_le
  reads_handling := h.reads_handling
  room := h.room
  stage := h.stage.imp (fun hr => ⟨hr.between, hr.parse_stream⟩)
    fun ⟨hr, hreads, hidle⟩ => ⟨⟨rfl, hr.parse_stream⟩, hreads, hidle⟩
  complete := fun hi hp => (h.complete hi hp).imp id fun hr => ⟨rfl, hr.parse_stream⟩

theorem inv_delayedCloseSocket (h : r.Inv) : r.delayedCloseSocket.Inv where
  aborted := h.aborted
  reads_le := h.reads_le
  reads_handling := h.reads_handling
  room := h.room
  stage := h.stage.imp (fun hr => ⟨hr.between, hr.parse_stream⟩)
    fun ⟨hr, hreads, hidle⟩ => ⟨⟨hr.closed, hr.parse_stream⟩, hreads, hidle⟩
  complete := fun hi hp => (h.complete hi hp).imp id fun hr => ⟨hr.closed, hr.parse_stream⟩

/-- Making room moves no pending byte. -/
theorem reading_asyncRead (h : r.Reading) : r.asyncRead.Reading ∧
    r.asyncRead.buffers.pending = r.buffers.pending := by
  by_cases ho : r.isOpen = true
  · have hv := h.between.shape.read_valid
    have hactive : r.buffers.readBuffer.normalize.ensureFreeSpace.active =
        r.buffers.readBuffer.active ++ [] := by
      rw [active_ensureFreeSpace (valid_normalize hv), active_normalize hv, List.append_nil]
    have hsize : READ_BLOCK_SIZE ≤
        r.buffers.readBuffer.normalize.ensureFreeSpace.storage.length := by
      have hle := le_length_storage_ensureFreeSpace r.buffers.readBuffer.normalize
      rw [length_storage_normalize hv] at hle
      exact le_trans h.between.shape.read_size hle
    have hpend := pending_readBuffer r.buffers hactive
    rw [List.append_nil] at hpend
    simp only [asyncRead, ho, if_true]
    refine ⟨⟨between_readBuffer h.between (valid_ensureFreeSpace (valid_normalize hv)) hsize,
      fun rest => ?_⟩, hpend⟩
    rw [hpend]
    exact h.parse_stream rest
  · simp only [asyncRead, ho]
    exact ⟨h, rfl⟩

@[simp] theorem closed_asyncRead (r : Receiver) : r.asyncRead.closed = r.closed := by
  simp only [asyncRead]; split <;> rfl

@[simp] theorem stream_asyncRead (r : Receiver) : r.asyncRead.stream = r.stream := by
  simp only [asyncRead]; split <;> rfl

@[simp] theorem calls_asyncRead (r : Receiver) : r.asyncRead.calls = r.calls := by
  simp only [asyncRead]; split <;> rfl

@[simp] theorem aborted_asyncRead (r : Receiver) : r.asyncRead.aborted = r.aborted := by
  simp only [asyncRead]; split <;> rfl

@[simp] theorem handling_asyncRead (r : Receiver) : r.asyncRead.handling = r.handling := by
  simp only [asyncRead]; split <;> rfl

@[simp] theorem paused_asyncRead (r : Receiver) : r.asyncRead.paused = r.paused := by
  simp only [asyncRead]; split <;> rfl

theorem asyncRead_of_closed (h : r.closed = true) : r.asyncRead = r := by
  simp [asyncRead, isOpen, h]

theorem reads_asyncRead_le (r : Receiver) : r.asyncRead.reads ≤ r.reads + 1 := by
  simp only [asyncRead]; split <;> simp

theorem inv_asyncRead (h : r.Inv) (hreads : r.reads = 0) (hidle : r.handling = false) :
    r.asyncRead.Inv := by
  have hle := reads_asyncRead_le r
  rcases h.stage with hr | ⟨hr, -, -⟩
  · obtain ⟨hr', hpend⟩ := reading_asyncRead hr
    refine ⟨by simpa using h.aborted, by omega, by simp [hidle], fun hpos => ?_, .inl hr',
      fun _ hp => ?_⟩
    · have hv := hr.between.shape.read_valid
      have hsize : 4096 ≤ r.buffers.readBuffer.storage.length := hr.between.shape.read_size
      by_cases ho : r.isOpen = true
      · simp only [asyncRead, ho, if_true]
        exact getRemainingSpace_ensureFreeSpace_pos (valid_normalize hv)
          (by rw [length_storage_normalize hv]; omega)
      · rw [asyncRead, if_neg ho] at hpos
        omega
    rw [hpend]
    refine (h.complete hidle (by simpa using hp)).imp id fun hj => ⟨by simpa using hj.closed, ?_⟩
    simpa [delivered] using hj.parse_stream
  · rw [asyncRead_of_closed hr.closed]
    exact h

/-! ## A completed read -/

theorem inv_readHandlerInternal (h : r.Inv) (hreads : 0 < r.reads) {chunk : List UInt8}
    (hne : chunk ≠ []) (hle : chunk.length ≤ r.buffers.readBuffer.getRemainingSpace) :
    (r.readHandlerInternal chunk).Inv := by
  have hone := h.reads_le
  have hr : r.Reading := h.stage.resolve_right fun hj => by omega
  have hv := hr.between.shape.read_valid
  have hbuffer : (r.readHandlerInternal chunk).buffers =
      { r.buffers with readBuffer := r.buffers.readBuffer.write chunk } := by
    simp only [readHandlerInternal, writeCompleted_copy _ hne]
  have hsize : (r.buffers.readBuffer.write chunk).storage.length =
      r.buffers.readBuffer.storage.length := by
    have hw := hv.wpos_le
    simp only [getRemainingSpace] at hle
    exact length_storage_write (by omega)
  have hpend : (r.readHandlerInternal chunk).buffers.pending = r.buffers.pending ++ chunk := by
    rw [hbuffer]
    exact pending_readBuffer r.buffers (active_write hv chunk)
  have hzero : (r.readHandlerInternal chunk).reads = 0 := by
    simp only [readHandlerInternal]; omega
  refine ⟨h.aborted, by omega, fun _ => hzero, fun hpos => by omega, .inl ⟨?_, fun rest => ?_⟩,
    fun hi hp => ?_⟩
  · rw [hbuffer]
    exact between_readBuffer hr.between (valid_write hv hle)
      (hsize ▸ hr.between.shape.read_size)
  · rw [hpend, List.append_assoc]
    simp only [readHandlerInternal, List.append_assoc]
    exact hr.parse_stream (chunk ++ rest)
  · simp only [readHandlerInternal] at hi hp
    simp [hi] at hp

/-! ## One pass of the loop -/

/-- What a pass can do: leave the loop with less than a frame pending and post a
read, close the socket at an invalid header, or hand over the next frame. -/
theorem pass_cases (h : r.Reading) (answer : ReadDataHandlerResult) :
    (∃ b, r.pass answer = { r with handling := false, buffers := b }.asyncRead ∧ b.Between ∧
      b.pending = r.buffers.pending ∧ parse b.pending = ([], false)) ∨
    (∃ b, r.pass answer = { r with handling := false, buffers := b }.closeSocket ∧
      ∀ rest, parse (r.buffers.pending ++ rest) = ([], true)) ∨
    (∃ p b, r.nextPacket = some p ∧ r.pass answer = r.answered p b answer ∧
      b.resetHeader.Between ∧
      b.readBuffer.getActiveSize < r.buffers.readBuffer.getActiveSize ∧
      ∀ rest, parse (r.buffers.pending ++ rest) =
        prepend [p] (parse (b.resetHeader.pending ++ rest))) := by
  by_cases hpos : 0 < r.buffers.readBuffer.getActiveSize
  · have hspec := iteration_spec h.between hpos
    simp only [pass, nextPacket, hpos, if_true]
    revert hspec
    generalize iteration r.buffers = it
    intro hspec
    cases hspec with
    | incomplete hb hnil hsame =>
        exact .inl ⟨_, rfl, hb, hsame, parse_pending_of_drained hb hnil⟩
    | malformed hbad => exact .inr (.inl ⟨_, rfl, hbad⟩)
    | packet hb hless hframe => exact .inr (.inr ⟨_, _, rfl, rfl, hb, hless, hframe⟩)
  · have hnil : r.buffers.readBuffer.active = [] := by
      rw [← List.length_eq_zero_iff, length_active h.between.shape.read_valid]
      omega
    refine .inl ⟨r.buffers, ?_, h.between, rfl, parse_pending_of_drained h.between hnil⟩
    rw [pass, if_neg hpos]

/-- A pass that calls `ReadDataHandler` goes on as the answer says. -/
theorem pass_of_nextPacket {p : DiscordPacket} (h : r.nextPacket = some p)
    (answer : ReadDataHandlerResult) : ∃ b, r.pass answer = r.answered p b answer := by
  simp only [nextPacket] at h
  split at h
  · rename_i hpos
    simp only [pass, hpos, if_true]
    cases hit : iteration r.buffers with
    | none => simp [hit] at h
    | some it =>
        cases it with
        | incomplete b => simp [hit] at h
        | malformed b => simp [hit] at h
        | packet q b =>
            simp only [hit, Option.some.injEq] at h
            exact ⟨b, by rw [h]⟩
  · cases h

/-- A pass that does not call it leaves the loop. -/
theorem pass_of_nextPacket_eq_none (h : r.nextPacket = none) (answer : ReadDataHandlerResult) :
    (r.pass answer).handling = false ∧ (r.pass answer).reads ≤ r.reads + 1 := by
  simp only [nextPacket] at h
  split at h
  · rename_i hpos
    simp only [pass, hpos, if_true]
    cases hit : iteration r.buffers with
    | none => exact ⟨rfl, Nat.le_succ _⟩
    | some it =>
        cases it with
        | incomplete b => exact ⟨by simp, reads_asyncRead_le _⟩
        | malformed b => exact ⟨rfl, Nat.le_succ _⟩
        | packet q b => simp [hit] at h
  · rename_i hpos
    simp only [pass, hpos, if_false]
    exact ⟨by simp, reads_asyncRead_le _⟩

/-- After a packet was handed over, the rest of the stream is what is still
pending. -/
theorem reading_answered (h : r.Reading) {p : DiscordPacket} {b : ReadBuffers}
    (hb : b.resetHeader.Between)
    (hframe : ∀ rest, parse (r.buffers.pending ++ rest) =
      prepend [p] (parse (b.resetHeader.pending ++ rest))) (answer : ReadDataHandlerResult) :
    (r.answered p b answer).Reading := by
  have hparse : ∀ rest, parse (r.stream ++ rest) =
      prepend (r.delivered ++ [p]) (parse (b.resetHeader.pending ++ rest)) := fun rest => by
    rw [h.parse_stream, hframe, prepend_prepend]
  cases answer <;> exact ⟨hb, by simpa [answered, closeSocket, delivered] using hparse⟩

theorem inv_pass (h : r.Inv) (hh : r.handling = true) (answer : ReadDataHandlerResult) :
    (r.pass answer).Inv := by
  have hr : r.Reading := h.stage.resolve_right fun hj => by simp [hj.2.2] at hh
  have hzero := h.reads_handling hh
  rcases pass_cases hr answer with ⟨b, he, hb, hsame, hnone⟩ | ⟨b, he, hbad⟩ |
      ⟨p, b, -, he, hb, -, hframe⟩
  · rw [he]
    refine inv_asyncRead ⟨h.aborted, h.reads_le, fun _ => hzero, fun hpos => ?_, .inl ⟨hb, ?_⟩,
      fun _ _ => .inl hnone⟩ hzero rfl
    · exact absurd hpos (by simp [hzero])
    · intro rest
      simp only [hsame]
      exact hr.parse_stream rest
  · have hj : (r.pass answer).Rejected := by
      rw [he]
      refine ⟨rfl, fun rest => ?_⟩
      change parse (r.stream ++ rest) = (r.delivered, true)
      rw [hr.parse_stream, hbad]
      simp [prepend]
    rw [he] at hj ⊢
    exact ⟨h.aborted, h.reads_le, fun _ => hzero,
      fun hpos => absurd hpos (by simp [closeSocket, hzero]),
      .inr ⟨hj, hzero, rfl⟩, fun _ _ => .inr hj⟩
  · have hreading := reading_answered hr hb hframe answer
    have hroom : ¬ 0 < r.reads := by omega
    rw [he]
    cases answer with
    | ok =>
        exact ⟨h.aborted, h.reads_le, h.reads_handling, fun hpos => absurd hpos hroom,
          .inl hreading, fun hi => by simp [answered, hh] at hi⟩
    | error =>
        exact ⟨h.aborted, h.reads_le, fun _ => hzero, fun hpos => absurd hpos hroom,
          .inl hreading, fun _ hp => by simp [answered, closeSocket] at hp⟩
    | waitingForQuery =>
        exact ⟨h.aborted, h.reads_le, fun _ => hzero, fun hpos => absurd hpos hroom,
          .inl hreading, fun _ hp => by simp [answered] at hp⟩

/-! ## Runs -/

/-- What a step can do. -/
inductive Stepped (r : Receiver) : Label → Receiver → Prop
  | asyncRead (hreads : r.reads = 0) (hidle : r.handling = false) :
      Stepped r .asyncRead r.asyncRead
  | receive (chunk : List UInt8) (hreads : 0 < r.reads) (hidle : r.handling = false)
      (hne : chunk ≠ []) (hle : chunk.length ≤ r.buffers.readBuffer.getRemainingSpace) :
      Stepped r (.receive chunk) (r.readHandlerInternal chunk)
  | readError (hreads : 0 < r.reads) (hidle : r.handling = false) :
      Stepped r .readError r.readError
  | pass (answer : ReadDataHandlerResult) (hh : r.handling = true) :
      Stepped r (.pass answer) (r.pass answer)
  | closeSocket : Stepped r .closeSocket r.closeSocket
  | delayedCloseSocket : Stepped r .delayedCloseSocket r.delayedCloseSocket

theorem stepped_of_next {l : Label} {r' : Receiver} (hn : r.next l = some r') :
    r.Stepped l r' := by
  cases l with
  | asyncRead =>
      obtain ⟨⟨hreads, hidle⟩, heq⟩ := Option.ite_none_right_eq_some.mp hn
      cases heq
      exact .asyncRead hreads hidle
  | receive chunk =>
      obtain ⟨⟨hreads, hidle, hne, hle⟩, heq⟩ := Option.ite_none_right_eq_some.mp hn
      cases heq
      exact .receive chunk hreads hidle hne hle
  | readError =>
      obtain ⟨⟨hreads, hidle⟩, heq⟩ := Option.ite_none_right_eq_some.mp hn
      cases heq
      exact .readError hreads hidle
  | pass answer =>
      obtain ⟨hh, heq⟩ := Option.ite_none_right_eq_some.mp hn
      cases heq
      exact .pass answer hh
  | closeSocket =>
      cases hn
      exact .closeSocket
  | delayedCloseSocket =>
      cases hn
      exact .delayedCloseSocket

theorem inv_next {l : Label} {r' : Receiver} (h : r.Inv) (hn : r.next l = some r') : r'.Inv := by
  cases stepped_of_next hn with
  | asyncRead hreads hidle => exact inv_asyncRead h hreads hidle
  | receive chunk hreads hidle hne hle => exact inv_readHandlerInternal h hreads hne hle
  | readError hreads hidle =>
      have hone := h.reads_le
      have hr : r.Reading := h.stage.resolve_right fun hj => by omega
      refine inv_closeSocket ⟨h.aborted, ?_, fun hf => ?_, fun hpos => ?_,
        .inl ⟨hr.between, hr.parse_stream⟩, ?_⟩
      · exact le_trans (Nat.sub_le _ _) hone
      · simp [hidle] at hf
      · exact h.room (lt_of_lt_of_le hpos (Nat.sub_le _ _))
      · exact fun hi hp => (h.complete hi hp).imp id fun hj => ⟨hj.closed, hj.parse_stream⟩
  | pass answer hh => exact inv_pass h hh answer
  | closeSocket => exact inv_closeSocket h
  | delayedCloseSocket => exact inv_delayedCloseSocket h

theorem inv_run {ls : List Label} (h : Machine.run next {} ls = some r) : r.Inv :=
  Machine.run_induction (fun _ _ _ => inv_next) inv_new h

/-- While the loop is not running, an open socket has no complete frame pending. -/
def Drained (r : Receiver) : Prop :=
  r.handling = false → r.isOpen = true → (parse r.buffers.pending).1 = []

theorem isOpen_asyncRead (r : Receiver) : r.asyncRead.isOpen = r.isOpen := by
  simp only [asyncRead]
  split <;> rfl

/-- A pass leaves no frame behind, unless it is stopped by `WaitingForQuery` in front
of one. -/
theorem drained_pass (h : r.Inv) (hh : r.handling = true) {answer : ReadDataHandlerResult}
    (hwait : answer = .waitingForQuery → ∀ p, r.nextPacket = some p →
      (parse r.buffers.pending).1 = [p]) : (r.pass answer).Drained := by
  have hr : r.Reading := h.stage.resolve_right fun hj => by simp [hj.2.2] at hh
  rcases pass_cases hr answer with ⟨b, he, hb, hsame, hnone⟩ | ⟨b, he, -⟩ |
      ⟨p, b, hp, he, hb, -, hframe⟩ <;> rw [he] <;> intro hidle hopen
  · have hreading : { r with handling := false, buffers := b }.Reading :=
      ⟨hb, fun rest => by rw [hsame]; exact hr.parse_stream rest⟩
    rw [(reading_asyncRead hreading).2, hnone]
  · cases hopen
  · cases answer with
    | ok => simp [answered, hh] at hidle
    | error => simp [answered, closeSocket, isOpen] at hopen
    | waitingForQuery =>
        have hlast := hwait rfl p hp
        have hsplit := hframe []
        rw [List.append_nil, List.append_nil] at hsplit
        rw [hsplit] at hlast
        simpa [prepend, answered] using hlast

theorem drained_next (h : r.Inv) (hd : r.Drained) {l : Label} {r' : Receiver}
    (hn : r.next l = some r')
    (hwait : l = .pass .waitingForQuery → ∀ p, r.nextPacket = some p →
      (parse r.buffers.pending).1 = [p]) : r'.Drained := by
  cases stepped_of_next hn with
  | asyncRead hreads hidle =>
      intro _ hopen
      rw [isOpen_asyncRead] at hopen
      rcases h.stage with hr | ⟨hr, -, -⟩
      · rw [(reading_asyncRead hr).2]
        exact hd hidle hopen
      · simp [isOpen, hr.closed] at hopen
  | receive chunk hreads hwaiting hne hle =>
      intro hidle hopen
      change r.isOpen = true at hopen
      simp [readHandlerInternal, hopen] at hidle
  | readError hreads hidle =>
      intro _ hopen
      cases hopen
  | pass answer hh => exact drained_pass h hh fun ha => hwait (by rw [ha])
  | closeSocket =>
      intro _ hopen
      cases hopen
  | delayedCloseSocket =>
      intro _ hopen
      simp [delayedCloseSocket, isOpen] at hopen

/-- A step of the socket itself, not a close from elsewhere. -/
def Label.Inside (l : Label) : Prop := l ≠ .closeSocket ∧ l ≠ .delayedCloseSocket

/-- A socket that only its own reading closes. -/
structure Undisturbed (r : Receiver) : Prop where
  inv : r.Inv
  closing : r.closing = false
  closed : r.closed = true → r.reads = 0 ∧ r.handling = false
  paused : r.paused = true → ∃ c ∈ r.calls, c.2 ≠ .ok

theorem undisturbed_asyncRead (h : r.Undisturbed) (hinv : r.asyncRead.Inv) :
    r.asyncRead.Undisturbed := by
  refine ⟨hinv, ?_, fun hc => ?_, fun hp => ?_⟩
  · simp only [asyncRead]
    split <;> exact h.closing
  · rw [closed_asyncRead] at hc
    rw [asyncRead_of_closed hc]
    exact h.closed hc
  · rw [paused_asyncRead] at hp
    rw [calls_asyncRead]
    exact h.paused hp

theorem undisturbed_pass (h : r.Undisturbed) (hh : r.handling = true)
    (answer : ReadDataHandlerResult) : (r.pass answer).Undisturbed := by
  have hinv := inv_pass h.inv hh answer
  have hr : r.Reading := h.inv.stage.resolve_right fun hj => by simp [hj.2.2] at hh
  have hzero := h.inv.reads_handling hh
  have hopen : r.closed = false := by
    cases hc : r.closed with
    | false => rfl
    | true => simp [(h.closed hc).2] at hh
  rcases pass_cases hr answer with ⟨b, he, -⟩ | ⟨b, he, -⟩ | ⟨p, b, -, he, -⟩ <;> rw [he] at hinv ⊢
  · refine ⟨hinv, ?_, fun hc => ?_, fun hp => ?_⟩
    · simp only [asyncRead]
      split <;> exact h.closing
    · simp [hopen] at hc
    · simp only [paused_asyncRead, calls_asyncRead] at hp ⊢
      exact h.paused hp
  · exact ⟨hinv, h.closing, fun _ => ⟨hzero, rfl⟩, h.paused⟩
  · cases answer with
    | ok =>
        refine ⟨hinv, h.closing, fun hc => ?_, fun hp => ?_⟩
        · simp [answered, hopen] at hc
        · obtain ⟨c, hc, hne⟩ := h.paused hp
          exact ⟨c, List.mem_append_left _ hc, hne⟩
    | error =>
        exact ⟨hinv, h.closing, fun _ => ⟨hzero, rfl⟩,
          fun _ => ⟨(p, .error), List.mem_append_right _ List.mem_cons_self, by simp⟩⟩
    | waitingForQuery =>
        refine ⟨hinv, h.closing, fun _ => ⟨hzero, rfl⟩,
          fun _ => ⟨(p, .waitingForQuery), List.mem_append_right _ List.mem_cons_self, by simp⟩⟩

theorem undisturbed_next {l : Label} {r' : Receiver} (h : r.Undisturbed) (hl : l.Inside)
    (hn : r.next l = some r') : r'.Undisturbed := by
  have hinv := inv_next h.inv hn
  cases stepped_of_next hn with
  | asyncRead hreads hidle => exact undisturbed_asyncRead h hinv
  | receive chunk hreads hidle hne hle =>
      have hopen : r.closed = false := by
        cases hc : r.closed with
        | false => rfl
        | true => exact absurd (h.closed hc).1 (by omega)
      refine ⟨hinv, h.closing, fun hc => ?_, fun hp => ?_⟩
      · simp [readHandlerInternal, hopen] at hc
      · simp [readHandlerInternal, isOpen, hopen, h.closing] at hp
  | readError hreads hidle =>
      have hone := h.inv.reads_le
      refine ⟨hinv, h.closing, fun _ => ⟨?_, hidle⟩, h.paused⟩
      simp only [readError, closeSocket]
      omega
  | pass answer hh => exact undisturbed_pass h hh answer
  | closeSocket => exact absurd rfl hl.1
  | delayedCloseSocket => exact absurd rfl hl.2

/-- While every answer is `Ok` and nobody else closes the socket, `ReadHandler` is
never left early. -/
theorem paused_eq_false_of_ok {ls : List Label} (h : Machine.run next {} ls = some r)
    (hls : ∀ l ∈ ls, l.Inside) (hok : ∀ c ∈ r.calls, c.2 = .ok) : r.paused = false := by
  have hu : r.Undisturbed :=
    Machine.run_induction_of (fun _ _ _ => undisturbed_next) (Machine.along_of_forall hls _)
      ⟨inv_new, rfl, fun hc => Bool.noConfusion hc, fun hp => Bool.noConfusion hp⟩ h
  cases hp : r.paused with
  | false => rfl
  | true =>
      obtain ⟨c, hc, hne⟩ := hu.paused hp
      exact absurd (hok c hc) hne

/-- `ReadHandler` returns: each pass that stays in the loop has used up bytes. -/
theorem handling_eventually_false (h : r.Inv) (hh : r.handling = true)
    (answers : List ReadDataHandlerResult)
    (hlen : r.buffers.readBuffer.getActiveSize < answers.length) :
    ∃ k r', Machine.run next r ((answers.take k).map Label.pass) = some r' ∧
      r'.handling = false := by
  induction answers generalizing r with
  | nil => simp at hlen
  | cons answer answers ih =>
      have hr : r.Reading := h.stage.resolve_right fun hj => by simp [hj.2.2] at hh
      have hinv := inv_pass h hh answer
      have hn : r.next (.pass answer) = some (r.pass answer) := by simp [next, hh]
      cases hp : (r.pass answer).handling with
      | false => exact ⟨1, r.pass answer, by simp [Machine.run_cons, hn], hp⟩
      | true =>
          -- only an answered packet keeps the loop running
          have hless : (r.pass answer).buffers.readBuffer.getActiveSize <
              r.buffers.readBuffer.getActiveSize := by
            rcases pass_cases hr answer with ⟨b, he, -⟩ | ⟨b, he, -⟩ | ⟨p, b, -, he, -, hless, -⟩
            · simp [he] at hp
            · simp [he, closeSocket] at hp
            · rw [he]
              cases answer <;> exact hless
          rw [List.length_cons] at hlen
          obtain ⟨k, r', hrun, hdone⟩ := ih hinv hp (by omega)
          exact ⟨k + 1, r', by simpa [Machine.run_cons, hn] using hrun, hdone⟩

/-- **The receive path is the reference parse.**  In every run no `ASSERT` fails and
what was handed to `ReadDataHandler` is a prefix of the parse of the bytes received.
A `ReadHandler` that was not stopped has handed over every frame in front of the
first invalid header, and the socket is closed if there is such a header; it is not
stopped while every answer is `Ok` and nobody else closes the socket.  The loop
always ends. -/
theorem readHandler_refines_parse {ls : List Label} (h : Machine.run next {} ls = some r) :
    r.aborted = false ∧
    r.delivered <+: (parse r.stream).1 ∧
    (r.handling = false → r.paused = false →
      r.delivered = (parse r.stream).1 ∧ ((parse r.stream).2 = true → r.closed = true)) ∧
    ((∀ c ∈ r.calls, c.2 = .ok) → (∀ l ∈ ls, l.Inside) → r.paused = false) ∧
    (r.handling = true → ∀ answers : List ReadDataHandlerResult,
      r.buffers.readBuffer.getActiveSize < answers.length →
      ∃ k r', Machine.run next r ((answers.take k).map Label.pass) = some r' ∧
        r'.handling = false) := by
  have hinv := inv_run h
  refine ⟨hinv.aborted, ?_, fun hi hp => ?_, fun hok hls => paused_eq_false_of_ok h hls hok,
    handling_eventually_false hinv⟩
  · rcases hinv.stage with hr | ⟨hr, -, -⟩
    · have hparse := hr.parse_stream []
      rw [List.append_nil] at hparse
      rw [hparse]
      exact List.prefix_append _ _
    · have hparse := hr.parse_stream []
      rw [List.append_nil] at hparse
      rewrite [hparse]
      exact List.prefix_rfl
  · have hrejected : r.Rejected → r.delivered = (parse r.stream).1 ∧
        ((parse r.stream).2 = true → r.closed = true) := fun hr => by
      have hparse := hr.parse_stream []
      rw [List.append_nil] at hparse
      rw [hparse]
      exact ⟨rfl, fun _ => hr.closed⟩
    rcases hinv.stage with hr | ⟨hr, -, -⟩
    · rcases hinv.complete hi hp with hnone | hj
      · have hparse := hr.parse_stream []
        rw [List.append_nil, List.append_nil, hnone] at hparse
        rw [hparse]
        exact ⟨by simp [prepend], fun hf => Bool.noConfusion hf⟩
      · exact hrejected hj
    · exact hrejected hr

/-- A header that arrives in two reads, the second of which also brings the payload
and the start of the next header. -/
theorem readHandler_refines_parse_split_header :
    ∃ r, Machine.run next {} [.asyncRead, .receive [0, 0, 0], .pass .ok,
        .receive [3, 3, 0, 42, 0, 0], .pass .ok, .pass .ok] = some r ∧
      r.delivered = [⟨3, [42]⟩] ∧ r.handling = false ∧ r.paused = false ∧
      r.aborted = false ∧ r.delivered = (parse r.stream).1 := by
  have hrun : (Machine.run next {} [.asyncRead, .receive [0, 0, 0], .pass .ok,
      .receive [3, 3, 0, 42, 0, 0], .pass .ok, .pass .ok]).map
        (fun r => (r.delivered, r.handling, r.paused)) = some ([⟨3, [42]⟩], false, false) := by
    decide +kernel
  obtain ⟨r, hr, hr'⟩ := Option.map_eq_some_iff.mp hrun
  simp only [Prod.mk.injEq] at hr'
  obtain ⟨hd, hh, hp⟩ := hr'
  have hspec := readHandler_refines_parse hr
  exact ⟨r, hr, hd, hh, hp, hspec.1, (hspec.2.2.1 hh hp).1⟩

end Receiver
end WarheadDiscord
