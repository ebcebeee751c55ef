import WarheadDiscord.Lib.Machine
import WarheadDiscord.Network.SendPath

/-!
# The write queue with completion ports

Where the system has completion ports, `QueuePacket` posts the write at once, `Update` has nothing
to do with the queue, and `WriteHandler` takes what was transferred off the front buffer and posts
the rest of it or the next one.  A posted write points into the front buffer, so this one must stay
where it is until the write completes.

Unlike the other build, this one never drops a buffer: after a write that has failed the flag
`_isWritingAsync` stays, and with it the queue.  So what the socket has taken and what is in the
queue are always all that was queued (`ports_run`), and a write is outstanding exactly as long as
there is something to write, until one fails.

`WriteHandler` looks at `_closing` at its end, and its step stands for that time; other threads set
`_closing` and `_closed` in between.  What the system does is part of the label.

## Main definitions

* `PortSide` — the state; `PortSide.next` — its steps.
* `PortInv` — the invariant.
-/

namespace WarheadDiscord

/-- The writing side of a socket. -/
structure PortSide where
  writeQueue : List MessageBuffer := []
  closed : Bool := false
  closing : Bool := false
  isWritingAsync : Bool := false
  /-- What the writes that have not completed were given. -/
  writes : List (List UInt8) := []
  /-- The front of an empty queue was taken. -/
  faulted : Bool := false
  /-- A write has completed with an error. -/
  failed : Bool := false
  /-- All bytes passed to `QueuePacket`. -/
  queued : List UInt8 := []
  /-- All bytes taken by the socket. -/
  accepted : List UInt8 := []
  deriving DecidableEq, Repr

namespace PortSide

def closeSocket (s : PortSide) : PortSide := { s with closed := true }

def delayedCloseSocket (s : PortSide) : PortSide := { s with closing := true }

def asyncProcessQueue (s : PortSide) : PortSide :=
  if s.isWritingAsync then s
  else
    match s.writeQueue with
    | [] => { s with isWritingAsync := true, faulted := true }
    | buffer :: _ => { s with isWritingAsync := true, writes := s.writes ++ [buffer.active] }

def queuePacket (s : PortSide) (buffer : MessageBuffer) : PortSide :=
  { s with writeQueue := s.writeQueue ++ [buffer], queued := s.queued ++ buffer.active
    }.asyncProcessQueue

/-- `WriteHandler` without an error, behind `_writeQueue.front()`. -/
def readCompleted (s : PortSide) (front : MessageBuffer) (rest : List MessageBuffer)
    (transferedBytes : ℕ) : PortSide :=
  let front := front.readCompleted transferedBytes
  let s :=
    { s with
      isWritingAsync := false
      writeQueue := if front.getActiveSize = 0 then rest else front :: rest }
  if !s.writeQueue.isEmpty then s.asyncProcessQueue
  else if s.closing then s.closeSocket
  else s

/-- `WriteHandler`; without a number of bytes there is an error. -/
def writeHandler (s : PortSide) : Option ℕ → PortSide
  | none => { s with failed := true }.closeSocket
  | some transferedBytes =>
      match s.writeQueue with
      | [] => { s with isWritingAsync := false, faulted := true }
      | front :: rest => s.readCompleted front rest transferedBytes

/-- What can happen to the writing side. -/
inductive Label
  /-- The network thread queues a buffer. -/
  | queuePacket (buffer : MessageBuffer) (valid : buffer.Valid)
  /-- The write completes that was posted first. -/
  | writeHandler (outcome : Option ℕ)
  /-- Any thread asks for the socket to be closed. -/
  | delayedCloseSocket
  /-- The socket is closed from elsewhere. -/
  | closeSocket

/-- The system takes at least one byte of a region that has one, and no more than there are. -/
def Transfers (region : List UInt8) (transferedBytes : ℕ) : Prop :=
  transferedBytes ≤ region.length ∧ (transferedBytes = 0 → region = [])

instance (region : List UInt8) (n : ℕ) : Decidable (Transfers region n) :=
  inferInstanceAs (Decidable (_ ∧ _))

/-- One step. -/
def next (s : PortSide) : Label → Option PortSide
  | .queuePacket buffer _ => some (s.queuePacket buffer)
  | .writeHandler outcome =>
      match s.writes with
      | [] => none
      | region :: writes =>
          match outcome with
          | none => some ({ s with writes := writes }.writeHandler none)
          | some transferedBytes =>
              if Transfers region transferedBytes then
                some ({ s with
                  writes := writes, accepted := s.accepted ++ region.take transferedBytes
                  }.writeHandler (some transferedBytes))
              else none
  | .delayedCloseSocket => some s.delayedCloseSocket
  | .closeSocket => some s.closeSocket

/-! ## The invariant -/

/-- The regions that are posted while there is a queue and no write has failed. -/
def posted : List MessageBuffer → Bool → List (List UInt8)
  | front :: _, false => [front.active]
  | _, _ => []

/-- One write is outstanding as long as there is something to write, and it was given what the
front buffer still holds. -/
structure PortInv (s : PortSide) : Prop where
  valid : ∀ b ∈ s.writeQueue, b.Valid
  faulted : s.faulted = false
  writing : s.isWritingAsync = !s.writeQueue.isEmpty
  writes : s.writes = posted s.writeQueue s.failed
  bytes : s.accepted ++ SendPath.queuedBytes s.writeQueue = s.queued
  failed : s.failed = true → s.writeQueue ≠ []

theorem portInv_new : PortInv {} where
  valid := by simp
  faulted := rfl
  writing := rfl
  writes := rfl
  bytes := rfl
  failed := nofun

variable {s s' : PortSide}

theorem PortInv.queuePacket (h : s.PortInv) {buffer : MessageBuffer} (hvalid : buffer.Valid) :
    (s.queuePacket buffer).PortInv := by
  have hall : ∀ b ∈ s.writeQueue ++ [buffer], b.Valid := by
    intro b hb
    rcases List.mem_append.mp hb with hb | hb
    · exact h.valid b hb
    · rw [List.mem_singleton.mp hb]
      exact hvalid
  have hbytes : s.accepted ++ SendPath.queuedBytes (s.writeQueue ++ [buffer]) =
      s.queued ++ buffer.active := by
    rw [← h.bytes]
    simp [SendPath.queuedBytes]
  have hwriting := h.writing
  have hwrites := h.writes
  unfold PortSide.queuePacket PortSide.asyncProcessQueue
  cases hqueue : s.writeQueue with
  | nil =>
      -- nothing is outstanding, so the write is posted
      have hfailed : s.failed = false := by
        by_contra hfailed
        exact h.failed (by simpa using hfailed) hqueue
      rw [hqueue] at hall hbytes hwriting hwrites
      simp only [hwriting, List.isEmpty_nil, Bool.not_true, Bool.false_eq_true, if_false,
        List.nil_append]
      exact ⟨hall, h.faulted, rfl, by simp [hwrites, hfailed, posted], hbytes, by simp⟩
  | cons front rest =>
      rw [hqueue] at hall hbytes hwriting hwrites
      simp only [hwriting, List.isEmpty_cons, Bool.not_false, if_true, List.cons_append]
      exact ⟨hall, h.faulted, rfl, by rw [hwrites]; cases s.failed <;> rfl, hbytes, by simp⟩

/-! ## The completions -/

/-- The queue after a completion. -/
def remaining (front : MessageBuffer) (rest : List MessageBuffer) (transferedBytes : ℕ) :
    List MessageBuffer :=
  let front := front.readCompleted transferedBytes
  if front.getActiveSize = 0 then rest else front :: rest

/-- What is taken from the queue, and what is left of it. -/
theorem take_append_queuedBytes_remaining {front : MessageBuffer} (hvalid : front.Valid)
    (rest : List MessageBuffer) (n : ℕ) :
    front.active.take n ++ SendPath.queuedBytes (remaining front rest n) =
      SendPath.queuedBytes (front :: rest) := by
  have hsize : (front.readCompleted n).getActiveSize = front.getActiveSize - n :=
    MessageBuffer.getActiveSize_readCompleted front n
  simp only [remaining, SendPath.queuedBytes]
  split
  · have hall : front.active.take n = front.active :=
      List.take_of_length_le (by rw [MessageBuffer.length_active hvalid]; omega)
    rw [hall, List.flatMap_cons]
  · rw [List.flatMap_cons, List.flatMap_cons, MessageBuffer.active_readCompleted,
      ← List.append_assoc, List.take_append_drop]

theorem valid_remaining {front : MessageBuffer} {rest : List MessageBuffer}
    (h : ∀ b ∈ front :: rest, b.Valid) {n : ℕ} (hn : n ≤ front.getActiveSize) :
    ∀ b ∈ remaining front rest n, b.Valid := by
  obtain ⟨hfront, hrest⟩ := List.forall_mem_cons.mp h
  intro b hb
  simp only [remaining] at hb
  split at hb
  · exact hrest b hb
  · rcases List.mem_cons.mp hb with rfl | hb
    · exact MessageBuffer.valid_readCompleted hfront hn
    · exact hrest b hb

theorem writeHandler_some {front : MessageBuffer} {rest : List MessageBuffer}
    (hqueue : s.writeQueue = front :: rest) (n : ℕ) :
    s.writeHandler (some n) = s.readCompleted front rest n := by
  rw [writeHandler, hqueue]

theorem readCompleted_eq (hwrites : s.writes = []) (front : MessageBuffer)
    (rest : List MessageBuffer) (n : ℕ) :
    s.readCompleted front rest n =
      { s with
        writeQueue := remaining front rest n
        isWritingAsync := !(remaining front rest n).isEmpty
        writes := posted (remaining front rest n) false
        closed := s.closed || ((remaining front rest n).isEmpty && s.closing) } := by
  have hleft : (if (front.readCompleted n).getActiveSize = 0 then rest
      else front.readCompleted n :: rest) = remaining front rest n := rfl
  simp only [readCompleted, hleft]
  cases remaining front rest n with
  | nil => cases hclosing : s.closing <;> simp [closeSocket, posted, hwrites]
  | cons front' rest' => simp [asyncProcessQueue, posted, hwrites]

/-- The steps of a state that keeps the invariant. -/
inductive Stepped (s : PortSide) : Label → PortSide → Prop
  | queuePacket (buffer : MessageBuffer) (valid : buffer.Valid) :
      Stepped s (.queuePacket buffer valid) (s.queuePacket buffer)
  | failed (queue : s.writeQueue ≠ []) (running : s.failed = false) :
      Stepped s (.writeHandler none) { s with writes := [], failed := true, closed := true }
  | transfered {front : MessageBuffer} {rest : List MessageBuffer} {n : ℕ}
      (queue : s.writeQueue = front :: rest) (running : s.failed = false)
      (transfers : Transfers front.active n) :
      Stepped s (.writeHandler (some n))
        { s with
          writeQueue := remaining front rest n
          isWritingAsync := !(remaining front rest n).isEmpty
          writes := posted (remaining front rest n) false
          closed := s.closed || ((remaining front rest n).isEmpty && s.closing)
          accepted := s.accepted ++ front.active.take n }
  | delayedCloseSocket : Stepped s .delayedCloseSocket s.delayedCloseSocket
  | closeSocket : Stepped s .closeSocket s.closeSocket

theorem stepped_of_next (h : s.PortInv) {l : Label} (hnext : s.next l = some s') :
    s.Stepped l s' := by
  cases l with
  | queuePacket buffer valid =>
      cases hnext
      exact .queuePacket buffer valid
  | delayedCloseSocket =>
      cases hnext
      exact .delayedCloseSocket
  | closeSocket =>
      cases hnext
      exact .closeSocket
  | writeHandler outcome =>
      have hwrites := h.writes
      cases hqueue : s.writeQueue with
      | nil =>
          rw [hqueue, posted] at hwrites
          · simp [next, hwrites] at hnext
          · simp
      | cons front rest =>
          cases hfailed : s.failed with
          | true =>
              rw [hqueue, hfailed, posted] at hwrites
              · simp [next, hwrites] at hnext
              · simp
          | false =>
              rw [hqueue, hfailed, posted] at hwrites
              cases outcome with
              | none =>
                  simp only [next, hwrites] at hnext
                  cases hnext
                  exact .failed (by simp [hqueue]) hfailed
              | some n =>
                  simp only [next, hwrites, Option.ite_none_right_eq_some] at hnext
                  obtain ⟨htransfers, heq⟩ := hnext
                  cases heq
                  have hhandler := writeHandler_some
                    (s := { s with writes := [], accepted := s.accepted ++ front.active.take n })
                    hqueue n
                  rw [readCompleted_eq rfl] at hhandler
                  rw [hhandler]
                  exact .transfered hqueue hfailed htransfers

theorem PortInv.next (h : s.PortInv) {l : Label} (hnext : s.next l = some s') : s'.PortInv := by
  cases stepped_of_next h hnext with
  | queuePacket buffer valid => exact h.queuePacket valid
  | delayedCloseSocket => exact { h with }
  | closeSocket => exact { h with }
  | failed queue running =>
      refine ⟨h.valid, h.faulted, h.writing, ?_, h.bytes, fun _ => queue⟩
      cases s.writeQueue <;> simp [posted]
  | @transfered front rest n queue running transfers =>
      have hvalid := h.valid
      have hbytes := h.bytes
      rw [queue] at hvalid hbytes
      have hfront : front.Valid := hvalid front List.mem_cons_self
      have hn : n ≤ front.getActiveSize := by
        rw [← MessageBuffer.length_active hfront]
        exact transfers.1
      refine ⟨valid_remaining hvalid hn, h.faulted, rfl, by simp [running], ?_, by simp [running]⟩
      rw [← hbytes, ← take_append_queuedBytes_remaining hfront rest n, List.append_assoc]

/-- **Nothing is lost or sent twice**: over every run the front of the queue is never taken when
there is none; at most one write is outstanding, and the buffer it was given is still the front of
the queue with the same bytes to send; the bytes that the socket has taken and those in the queue
are what was queued; and unless a write has failed, one is outstanding as long as there is something
to send. -/
theorem ports_run {ls : List Label} (hrun : Machine.run next {} ls = some s) :
    s.faulted = false ∧
      (∀ region ∈ s.writes, ∃ front rest, s.writeQueue = front :: rest ∧ region = front.active) ∧
      s.writes.length = (if s.failed ∨ s.writeQueue = [] then 0 else 1) ∧
      s.accepted ++ SendPath.queuedBytes s.writeQueue = s.queued := by
  have h : s.PortInv :=
    Machine.run_induction (fun _ _ _ h hnext => PortInv.next h hnext) portInv_new hrun
  have hwrites := h.writes
  refine ⟨h.faulted, ?_, ?_, h.bytes⟩
  · intro region hregion
    rw [hwrites] at hregion
    cases hqueue : s.writeQueue with
    | nil => simp [posted, hqueue] at hregion
    | cons front rest =>
        refine ⟨front, rest, rfl, ?_⟩
        cases hfailed : s.failed <;> simp [posted, hqueue, hfailed] at hregion
        exact hregion
  · cases hqueue : s.writeQueue <;> cases hfailed : s.failed <;>
      simp [hwrites, posted, hqueue, hfailed]

/-- A buffer of which one byte was taken, and a second one behind it. -/
def partialRun : List Label :=
  [.queuePacket ⟨3, 0, [1, 2, 3]⟩ ⟨by decide, by decide⟩,
    .queuePacket ⟨1, 0, [4]⟩ ⟨by decide, by decide⟩, .writeHandler (some 1), .delayedCloseSocket]

/-- The state after it. -/
def partialSide : PortSide where
  writeQueue := [⟨3, 1, [1, 2, 3]⟩, ⟨1, 0, [4]⟩]
  closing := true
  isWritingAsync := true
  writes := [[2, 3]]
  queued := [1, 2, 3, 4]
  accepted := [1]

theorem ports_run_partialRun :
    Machine.run next {} partialRun = some partialSide ∧
      partialSide.accepted ++ SendPath.queuedBytes partialSide.writeQueue = partialSide.queued :=
  have hrun : Machine.run next {} partialRun = some partialSide := by decide
  ⟨hrun, (ports_run hrun).2.2.2⟩

/-! ## Writing everything -/

/-- A write completes without an error. -/
def Label.Completes : Label → Prop
  | .writeHandler (some _) => True
  | _ => False

/-- The bytes to send and the buffers that hold them. -/
def left (s : PortSide) : ℕ := (SendPath.queuedBytes s.writeQueue).length + s.writeQueue.length

theorem left_remaining {front : MessageBuffer} (hvalid : front.Valid) (rest : List MessageBuffer)
    {n : ℕ} (htransfers : Transfers front.active n) :
    (SendPath.queuedBytes (remaining front rest n)).length + (remaining front rest n).length <
      (SendPath.queuedBytes (front :: rest)).length + (front :: rest).length := by
  have hbytes := congrArg List.length (take_append_queuedBytes_remaining hvalid rest n)
  rw [List.length_append, List.length_take, min_eq_left htransfers.1] at hbytes
  have hsize := MessageBuffer.getActiveSize_readCompleted front n
  have hlength := MessageBuffer.length_active hvalid
  by_cases hn : n = 0
  · -- the front buffer was empty, and is gone
    have hempty : front.active = [] := htransfers.2 hn
    have hgone : remaining front rest n = rest := by
      rw [remaining, if_pos]
      rw [hsize, ← hlength, hempty]
      simp
    rw [hgone] at hbytes ⊢
    rw [List.length_cons]
    omega
  · have hle : (remaining front rest n).length ≤ (front :: rest).length := by
      rw [remaining]
      split <;> simp
    omega

/-- What completions do to the writing side, from `s` to `s'`. -/
structure Drained (s s' : PortSide) (completions : ℕ) : Prop where
  inv : s'.PortInv
  running : s'.failed = false
  queued : s'.queued = s.queued
  closing : s'.closing = s.closing
  left : completions + s'.left ≤ s.left
  empty : s.writeQueue = [] → s'.writeQueue = []
  closed : s'.closed =
    (s.closed || (s.closing && !s.writeQueue.isEmpty && s'.writeQueue.isEmpty))

theorem drained_next (h : s.PortInv) (hrunning : s.failed = false) {l : Label}
    (hl : l.Completes) (hnext : s.next l = some s') : s.Drained s' 1 := by
  have hinv := PortInv.next h hnext
  cases stepped_of_next h hnext with
  | @transfered front rest n queue running transfers =>
      have hlt := left_remaining (h.valid front (by simp [queue])) rest transfers
      refine ⟨hinv, hrunning, rfl, rfl, ?_, by simp [queue], ?_⟩
      · simp only [PortSide.left, queue]
        omega
      · simp [queue, Bool.and_comm]
  | _ => cases hl

theorem drained_run {ls : List Label} (hls : ∀ l ∈ ls, l.Completes) (h : s.PortInv)
    (hrunning : s.failed = false) (hrun : Machine.run next s ls = some s') :
    s.Drained s' ls.length := by
  induction ls generalizing s with
  | nil =>
      cases hrun
      refine ⟨h, hrunning, rfl, rfl, by simp, id, ?_⟩
      cases s'.writeQueue <;> simp
  | cons l ls ih =>
      obtain ⟨hl, hls⟩ := List.forall_mem_cons.mp hls
      rw [Machine.run_cons] at hrun
      obtain ⟨s₁, hnext, hrest⟩ := Option.bind_eq_some_iff.mp hrun
      have hfirst := drained_next h hrunning hl hnext
      have hlast := ih hls hfirst.inv hfirst.running hrest
      refine ⟨hlast.inv, hlast.running, hlast.queued.trans hfirst.queued,
        hlast.closing.trans hfirst.closing, ?_, fun hempty => hlast.empty (hfirst.empty hempty), ?_⟩
      · have hle₁ := hfirst.left
        have hle := hlast.left
        rw [List.length_cons]
        omega
      · rw [hlast.closed, hfirst.closed, hfirst.closing]
        cases hqueue₁ : s₁.writeQueue with
        | nil => simp [hlast.empty hqueue₁]
        | cons front rest =>
            cases hqueue : s.writeQueue with
            | nil =>
                rw [hfirst.empty hqueue] at hqueue₁
                cases hqueue₁
            | cons front' rest' => simp

/-- **Everything is written, and a socket that was to be closed is closed**, if the writes that are
outstanding complete without errors and nothing else is queued: there are no more of them than bytes
and buffers, one follows the other until the queue is empty, and then all that was ever queued has
been taken by the socket.  The socket has been closed if this was asked for while there was
something in the queue, and not otherwise. -/
theorem ports_drain {ls ls' : List Label} (hrun : Machine.run next {} ls = some s)
    (hfailed : s.failed = false) (hls' : ∀ l ∈ ls', l.Completes)
    (hrun' : Machine.run next s ls' = some s') :
    ls'.length ≤ s.left ∧
      (s'.writeQueue ≠ [] → ∃ n, (s'.next (.writeHandler (some n))).isSome) ∧
      (s'.writeQueue = [] → s'.accepted = s.queued ∧
        s'.closed = (s.closed || (s.closing && !s.writeQueue.isEmpty))) := by
  have h : s.PortInv :=
    Machine.run_induction (fun _ _ _ h hnext => PortInv.next h hnext) portInv_new hrun
  have hdrained := drained_run hls' h hfailed hrun'
  refine ⟨by have := hdrained.left; omega, ?_, ?_⟩
  · intro hne
    have hwrites := hdrained.inv.writes
    obtain ⟨front, rest, hqueue⟩ := List.exists_cons_of_ne_nil hne
    rw [hqueue, hdrained.running] at hwrites
    have hall : Transfers front.active front.active.length :=
      ⟨le_refl _, List.eq_nil_of_length_eq_zero⟩
    refine ⟨front.active.length, ?_⟩
    simp [next, hwrites, posted, hall]
  · intro hempty
    have hbytes := hdrained.inv.bytes
    have hclosed := hdrained.closed
    rw [hempty] at hbytes hclosed
    refine ⟨?_, by simpa using hclosed⟩
    rw [← hdrained.queued, ← hbytes]
    simp [SendPath.queuedBytes]

theorem ports_drain_partialRun :
    ∃ s', Machine.run next partialSide [.writeHandler (some 2), .writeHandler (some 1)] = some s' ∧
      s'.writeQueue = [] ∧ s'.accepted = [1, 2, 3, 4] ∧ s'.closed = true := by
  have hrun : Machine.run next {} partialRun = some partialSide := by decide
  have hcompletes : ∀ l ∈ [Label.writeHandler (some 2), .writeHandler (some 1)], l.Completes := by
    simp [Label.Completes]
  exact ⟨_, rfl, rfl, (ports_drain hrun rfl hcompletes rfl).2.2 rfl⟩

end PortSide
end WarheadDiscord
