import WarheadDiscord.Server.AuthGate

/-!
# Frames behind `CLIENT_AUTH_SESSION`

When a login starts, `ReadHandler` returns in the middle of the read buffer, and when
the login has succeeded the callback chain posts a read.  Nothing looks at the bytes
that were left in the buffer, so a complete frame that the client had sent behind its
auth packet waits until more bytes arrive.

A read posted with such a frame pending can only come from the callback chain:
`no_stalled_frame` says that no frame is stalled in a run in which nothing stands
behind an auth packet, and `stalled_frame_behind_auth` is a run in which a ping does.

## Main definitions

* `DiscordSocket.NothingBehindAuth` — the auth packet is the last complete frame that
  has arrived when it is handed over.
-/

namespace WarheadDiscord.DiscordSocket

variable {env : Env} {s s' : DiscordSocket}

/-- When `ReadHandler` is about to hand over a packet that starts a login, that packet
is the last complete frame received. -/
def NothingBehindAuth (env : Env) (s : DiscordSocket) : Prop :=
  s.receiver.handling = true → ∀ p, s.receiver.nextPacket = some p → s.startsAuth env p = true →
    (parse s.receiver.buffers.pending).1 = [p]

theorem drained_step (h : s.AuthInv env) (hd : s.receiver.Drained)
    (hq : s.NothingBehindAuth env) (hst : Step env s s') : s'.receiver.Drained := by
  rcases receiver_step h.tokens_le hst with heq | ⟨l, hn, hstarts⟩
  · rw [heq]
    exact hd
  · refine Receiver.drained_next h.receiver hd hn ?_
    intro hl p hp
    have hh : s.receiver.handling = true := by
      rw [hl] at hn
      simp only [Receiver.next, Option.ite_none_right_eq_some] at hn
      exact hn.1
    exact hq hh p hp (hstarts hl p hp)

/-- **No frame is stalled in a run in which nothing stands behind an auth packet**:
while the socket is open and a read is outstanding, every complete frame received has
been handed over. -/
theorem no_stalled_frame {ls : List Label}
    (hq : Machine.Along (next env) (fun s _ => s.NothingBehindAuth env) {} ls)
    (h : Machine.run (next env) {} ls = some s) (hopen : s.receiver.isOpen = true)
    (hread : 0 < s.receiver.reads) : (parse s.receiver.buffers.pending).1 = [] := by
  have hinit : ({} : DiscordSocket).receiver.Drained := by
    intro _ _
    change (parse ReadBuffers.new.pending).1 = []
    rw [ReadBuffers.pending_new, parse_of_length_lt (by decide)]
  have hboth : s.AuthInv env ∧ s.receiver.Drained := by
    refine Machine.run_induction_of (P := fun s => s.AuthInv env ∧ s.receiver.Drained) ?_ hq
      ⟨authInv_new, hinit⟩ h
    rintro s l t ⟨hinv, hd⟩ hs hn
    have hst := next_step hinv.tokens_le hn
    exact ⟨authInv_step hinv hst, drained_step hinv hd hs hst⟩
  refine hboth.2 ?_ hopen
  cases hh : s.receiver.handling with
  | false => rfl
  | true =>
      have hzero := hboth.1.receiver.reads_handling hh
      omega

/-- The frame of a login stands alone in the buffers. -/
def authAlone (env : Env) (s : DiscordSocket) : Bool :=
  s.receiver.nextPacket.all fun p => !s.startsAuth env p || decide (p.size + 2 < 10000 ∧
    p.opcode.toNat < NUM_DISCORD_CODE_HANDLERS ∧
    s.receiver.buffers.pending = rawHeader p.size p.opcode.toNat ++ p.contents)

theorem nothingBehindAuth_of_authAlone (h : s.authAlone env = true) : s.NothingBehindAuth env := by
  intro _ p hp hstarts
  simp only [authAlone, hp, Option.all_some, hstarts, Bool.not_true, Bool.false_or,
    decide_eq_true_eq] at h
  obtain ⟨hsize, hcmd, hpending⟩ := h
  have hparse := parse_frame hsize hcmd (rfl : p.contents.length = p.size) []
  have hnil : parse [] = ([], false) := parse_of_length_lt (by decide)
  rw [List.append_nil, hnil] at hparse
  rw [hpending, hparse]
  simp [prepend]

/-- A client logs in, and the message that it sends then is handed over. -/
theorem no_stalled_frame_message :
    ∃ s, Machine.run (next sampleEnv) {} messageRun = some s ∧ s.session = true ∧
      s.receiver.isOpen = true ∧ 0 < s.receiver.reads ∧
      (parse s.receiver.buffers.pending).1 = [] := by
  have hrun : (Machine.run (next sampleEnv) {} messageRun).map
      (fun s => (s.session, s.receiver.isOpen, s.receiver.reads)) = some (true, true, 1) := by
    decide +kernel
  have halone : Machine.Along (next sampleEnv) (fun s _ => s.authAlone sampleEnv = true) {}
      messageRun := by
    decide +kernel
  have hquiet := halone.mono fun _ _ => nothingBehindAuth_of_authAlone
  obtain ⟨s, hs, hs'⟩ := Option.map_eq_some_iff.mp hrun
  simp only [Prod.mk.injEq] at hs'
  obtain ⟨hsession, hopen, hreads⟩ := hs'
  have hpos : 0 < s.receiver.reads := by omega
  exact ⟨s, hs, hsession, hopen, hpos, no_stalled_frame hquiet hs hopen hpos⟩

/-- An auth packet and a ping in one read, then the answers of a login that succeeds. -/
def pipelinedRun : List Label :=
  [.ipAnswer [], .receive ([0, 0, 0, 10, 2, 0, 0, 0, 0, 0, 1, 0, 0, 0] ++
    (rawHeader 16 5 ++ List.replicate 16 0)), .pass 1] ++ sampleLogin

/-- The ping is complete and was not handed over, while the socket is open and waits
for more. -/
theorem stalled_frame_behind_auth :
    ∃ s, Machine.run (next sampleEnv) {} pipelinedRun = some s ∧ s.receiver.isOpen = true ∧
      s.receiver.reads = 1 ∧
      (parse s.receiver.buffers.pending).1 = [⟨5, List.replicate 16 0⟩] := by
  have hrun : (Machine.run (next sampleEnv) {} pipelinedRun).map
      (fun s => (s.receiver.isOpen, s.receiver.reads, s.receiver.buffers.pending)) =
        some (true, 1, rawHeader 16 5 ++ List.replicate 16 0 ++ []) := by
    decide +kernel
  obtain ⟨s, hs, hs'⟩ := Option.map_eq_some_iff.mp hrun
  simp only [Prod.mk.injEq] at hs'
  obtain ⟨hopen, hreads, hpending⟩ := hs'
  refine ⟨s, hs, hopen, hreads, ?_⟩
  rw [hpending, parse_frame (by decide) (by decide) List.length_replicate,
    parse_of_length_lt (by decide)]
  rfl

end WarheadDiscord.DiscordSocket
