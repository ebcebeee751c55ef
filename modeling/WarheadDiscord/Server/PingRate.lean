import Mathlib.Data.List.Induction
import WarheadDiscord.Lib.Machine
import WarheadDiscord.Server.AuthGate

/-!
# Pings that come too fast

`HandlePing` counts the pings that come less than ten seconds after the one before, starts
from zero at a gap that is longer, and disconnects the client when it has counted more than
five.  That there was no ping before is kept as the time zero.

The counter is what its name says: it is the length of the run of short gaps at the end of
all the pings of the socket (`pingInv_run`), in every run of the socket, whatever else happens
between the pings.  `overspeed_pings` says what becomes of the next ping.

A ping counts here when its two numbers can be read.  Times are nanoseconds of the steady
clock.

## Main definitions

* `DiscordSocket.pings` — the pings of a run, with their times.
* `gaps`, `fastRun` — the gaps between some times, and the run of short ones at their end.
-/

namespace WarheadDiscord

/-- A ping that was handled. -/
structure Ping where
  now : ℕ
  contents : List UInt8
  deriving DecidableEq, Repr

/-- The answer to a ping: the first of its numbers. -/
def Ping.pong (ping : Ping) : DiscordPacket :=
  ⟨DiscordCode.serverSendPong.toUInt16, ping.contents.take 8⟩

/-! ## Runs of short gaps -/

/-- The gaps between some times. -/
def gaps : List ℕ → List ℕ
  | a :: b :: times => (b - a) :: gaps (b :: times)
  | _ => []

/-- The length of the run of short gaps at the end. -/
def fastRun (times : List ℕ) : ℕ :=
  ((gaps times).reverse.takeWhile (· < DiscordSocket.tenSeconds)).length

theorem gaps_concat (times : List ℕ) (a b : ℕ) :
    gaps (times ++ [a] ++ [b]) = gaps (times ++ [a]) ++ [b - a] := by
  induction times with
  | nil => rfl
  | cons t times ih =>
    cases times with
    | nil => rfl
    | cons u times =>
      simp only [List.cons_append, gaps] at ih ⊢
      rw [ih]

/-- One more time. -/
theorem fastRun_concat (times : List ℕ) (a b : ℕ) :
    fastRun (times ++ [a] ++ [b]) =
      if b - a < DiscordSocket.tenSeconds then fastRun (times ++ [a]) + 1 else 0 := by
  rw [fastRun, gaps_concat, List.reverse_concat, List.takeWhile_cons]
  split_ifs with h₁ h₂ h₂
  · rfl
  · exact absurd (of_decide_eq_true h₁) h₂
  · exact absurd (decide_eq_true h₂) h₁
  · rfl

/-- Without short gaps there is no run. -/
theorem fastRun_eq_zero {times : List ℕ}
    (h : ∀ gap ∈ gaps times, DiscordSocket.tenSeconds ≤ gap) : fastRun times = 0 := by
  unfold fastRun
  cases hgaps : (gaps times).reverse with
  | nil => rfl
  | cons gap rest =>
    have hmem : gap ∈ gaps times := by
      rw [← List.mem_reverse, hgaps]
      exact List.mem_cons_self
    rw [List.takeWhile_cons, if_neg]
    · rfl
    · simpa using h gap hmem

namespace DiscordSocket

/-- The ping that a step handles. -/
def pingOf (s : DiscordSocket) : Label → Option Ping
  | .pass now =>
      if s.receiver.handling then
        s.receiver.nextPacket.bind fun p =>
          if p.opcode = DiscordCode.clientSendPing.toUInt16 ∧ 16 ≤ p.contents.length then
            some ⟨now, p.contents⟩
          else none
      else none
  | _ => none

/-- The pings of a run. -/
def pings (env : Env) : DiscordSocket → List Label → List Ping
  | _, [] => []
  | s, l :: ls =>
      (s.pingOf l).toList ++
        match s.next env l with
        | some t => pings env t ls
        | none => []

variable {env : Env} {s t : DiscordSocket} {l : Label} {ls : List Label}

theorem pings_concat (h : Machine.run (next env) s ls = some t) (l : Label) :
    pings env s (ls ++ [l]) = pings env s ls ++ (t.pingOf l).toList := by
  induction ls generalizing s with
  | nil =>
    cases h
    rw [List.nil_append, pings, pings]
    cases t.next env l <;> simp [pings]
  | cons l' ls ih =>
    rw [Machine.run_cons, Option.bind_eq_some_iff] at h
    obtain ⟨u, hu, h⟩ := h
    simp only [List.cons_append, pings, hu]
    rw [ih h, List.append_assoc]

/-! ## What the other steps leave alone -/

/-- The pongs among the packets that were sent. -/
def pongs (s : DiscordSocket) : List DiscordPacket :=
  s.sent.filter fun p => p.opcode = DiscordCode.serverSendPong.toUInt16

/-- What pings are about. -/
structure SamePings (s t : DiscordSocket) : Prop where
  lastPingTime : t.lastPingTime = s.lastPingTime
  overSpeedPings : t.overSpeedPings = s.overSpeedPings
  pongs : t.pongs = s.pongs

theorem SamePings.trans {u : DiscordSocket} (h : SamePings s t) (h' : SamePings t u) :
    SamePings s u :=
  ⟨h'.lastPingTime.trans h.lastPingTime, h'.overSpeedPings.trans h.overSpeedPings,
    h'.pongs.trans h.pongs⟩

theorem samePings_reject (s : DiscordSocket) (code : DiscordAuthResponseCodes) :
    SamePings s (s.reject code) := by
  unfold reject sendAuthResponseError sendPacket
  split
  · refine ⟨rfl, rfl, ?_⟩
    simp [pongs, DiscordCode.toUInt16]
  · exact ⟨rfl, rfl, rfl⟩

theorem samePings_readDataHandler (env : Env) (now : ℕ) {p : DiscordPacket}
    (h : ¬ (p.opcode = DiscordCode.clientSendPing.toUInt16 ∧ 16 ≤ p.contents.length)) :
    SamePings s (s.readDataHandler env now p).2 := by
  unfold readDataHandler
  split
  · rename_i hping
    have hshort : p.contents.length < 16 := by
      by_contra hlong
      exact h ⟨hping, not_lt.1 hlong⟩
    rw [handlePing, if_pos hshort]
    exact ⟨rfl, rfl, rfl⟩
  · split
    · split
      · exact ⟨rfl, rfl, rfl⟩
      · split <;> exact ⟨rfl, rfl, rfl⟩
    · split
      · exact ⟨rfl, rfl, rfl⟩
      · split <;> exact ⟨rfl, rfl, rfl⟩

theorem isOpen_of_isOpen_pass {r : Receiver} {answer : ReadDataHandlerResult}
    (h : (r.pass answer).isOpen = true) : r.isOpen = true := by
  unfold Receiver.pass at h
  split at h
  · split at h
    · exact h
    · rwa [Receiver.isOpen_asyncRead] at h
    · cases h
    · unfold Receiver.answered at h
      cases answer with
      | ok => exact h
      | error => cases h
      | waitingForQuery => exact h
  · rwa [Receiver.isOpen_asyncRead] at h

/-- The step leaves the counter alone, and it does not open the socket. -/
structure Unpinged (s t : DiscordSocket) : Prop where
  same : SamePings s t
  isOpen : t.receiver.isOpen = true → s.receiver.isOpen = true

theorem unpinged_asyncRead (h : Unpinged s t) : Unpinged s t.asyncRead :=
  ⟨h.same.trans ⟨rfl, rfl, rfl⟩, fun hopen => h.isOpen (by
    rwa [asyncRead, Receiver.isOpen_asyncRead] at hopen)⟩

theorem unpinged_reject (h : Unpinged s t) (code : DiscordAuthResponseCodes) :
    Unpinged s (t.reject code) := by
  refine ⟨h.same.trans (samePings_reject t code), ?_⟩
  intro hopen
  simp [reject, Receiver.delayedCloseSocket, Receiver.isOpen] at hopen

theorem unpinged_checkIpCallback (s : DiscordSocket) (rows : List (Bool × Bool)) :
    Unpinged s (s.checkIpCallback rows) := by
  unfold checkIpCallback
  dsimp only
  split
  · apply unpinged_reject
    exact ⟨⟨rfl, rfl, rfl⟩, id⟩
  · apply unpinged_asyncRead
    exact ⟨⟨rfl, rfl, rfl⟩, id⟩

theorem unpinged_accountCallback (env : Env) (s : DiscordSocket) (i : ℕ) (c : Chain)
    (account : Option AccountInfo) (isClosed : Bool) (now : ℕ) :
    Unpinged s (s.accountCallback env i c account isClosed now) := by
  unfold accountCallback
  dsimp only
  split
  · apply unpinged_reject
    exact ⟨⟨rfl, rfl, rfl⟩, id⟩
  · exact ⟨⟨rfl, rfl, rfl⟩, id⟩

theorem unpinged_guildCallback (s : DiscordSocket) (i : ℕ) (c : Chain) (account : AccountInfo)
    (isExist : Bool) : Unpinged s (s.guildCallback i c account isExist) := by
  unfold guildCallback
  dsimp only
  split
  · apply unpinged_reject
    exact ⟨⟨rfl, rfl, rfl⟩, id⟩
  · exact ⟨⟨rfl, rfl, rfl⟩, id⟩

theorem unpinged_channelCallback (s : DiscordSocket) (i : ℕ) (c : Chain)
    (channels : Vector ℤ DEFAULT_CHANNELS_COUNT) :
    Unpinged s (s.channelCallback i c channels) := by
  unfold channelCallback
  split
  · apply unpinged_reject
    exact ⟨⟨rfl, rfl, rfl⟩, id⟩
  · split
    · apply unpinged_reject
      exact ⟨⟨rfl, rfl, rfl⟩, id⟩
    · exact ⟨⟨rfl, rfl, rfl⟩, id⟩

theorem unpinged_proceed {i : ℕ} {c : Chain} (h : s.proceed i c = some t) : Unpinged s t := by
  unfold proceed at h
  split at h
  · cases h
    exact ⟨⟨rfl, rfl, rfl⟩, id⟩
  · cases h
    exact ⟨⟨rfl, rfl, rfl⟩, id⟩
  · cases h
    exact ⟨⟨rfl, rfl, rfl⟩, id⟩
  · cases h
    apply unpinged_asyncRead
    exact ⟨⟨rfl, rfl, rfl⟩, id⟩
  · cases h

theorem unpinged_readHandlerPass (env : Env) {now : ℕ} (hhandling : s.receiver.handling = true)
    (hping : s.pingOf (.pass now) = none) : Unpinged s (s.readHandlerPass env now) := by
  simp only [pingOf, hhandling, if_true] at hping
  unfold readHandlerPass
  cases hnext : s.receiver.nextPacket with
  | none => exact ⟨⟨rfl, rfl, rfl⟩, isOpen_of_isOpen_pass⟩
  | some p =>
    rw [hnext, Option.bind_some] at hping
    have hno : ¬ (p.opcode = DiscordCode.clientSendPing.toUInt16 ∧ 16 ≤ p.contents.length) := by
      intro hp
      rw [if_pos hp] at hping
      cases hping
    exact ⟨(samePings_readDataHandler env now hno).trans ⟨rfl, rfl, rfl⟩, isOpen_of_isOpen_pass⟩

/-- What is not a ping leaves the counter alone, and does not open the socket. -/
theorem unpinged_next (h : s.next env l = some t) (hping : s.pingOf l = none) :
    Unpinged s t := by
  cases taken_of_next h with
  | ipAnswer rows _ _ => exact unpinged_checkIpCallback s rows
  | receive hr =>
    simp only [Receiver.next, Option.ite_none_right_eq_some] at hr
    cases hr.2
    exact ⟨⟨rfl, rfl, rfl⟩, id⟩
  | readError hr =>
    simp only [Receiver.next, Option.ite_none_right_eq_some] at hr
    cases hr.2
    exact ⟨⟨rfl, rfl, rfl⟩, fun hopen => by cases hopen⟩
  | pass now hhandling => exact unpinged_readHandlerPass env hhandling hping
  | accountAnswer row isClosed now _ _ _ =>
    exact unpinged_accountCallback env s _ _ _ isClosed now
  | guildAnswer isExist _ _ => exact unpinged_guildCallback s _ _ _ isExist
  | channelAnswer channels _ _ => exact unpinged_channelCallback s _ _ channels
  | proceed _ hnext => exact unpinged_proceed hnext
  | closeSocket => exact ⟨⟨rfl, rfl, rfl⟩, fun hopen => by cases hopen⟩

/-! ## A ping -/

/-- `HandlePing` on a packet that can be read. -/
theorem handlePing_eq (s : DiscordSocket) (ping : Ping) (hlength : 16 ≤ ping.contents.length) :
    s.handlePing ping.now ping.contents = some
      (if s.session = true ∧ ¬ (s.isFastPing ping.now = true ∧
          5 < (s.countPing ping.now).overSpeedPings) then
        (true, (s.countPing ping.now).sendPacket ping.pong)
      else (false, s.countPing ping.now)) := by
  have hsession : (s.countPing ping.now).session = s.session := rfl
  rw [handlePing, if_neg (not_lt.2 hlength)]
  dsimp only
  rw [hsession]
  by_cases hs : s.session = true
  · by_cases hfast : s.isFastPing ping.now = true ∧ 5 < (s.countPing ping.now).overSpeedPings
    · simp [hs, hfast.1, hfast.2]
    · simp [hs, hfast, Ping.pong]
  · simp [hs]

/-- The step of a ping. -/
theorem next_of_pingOf {ping : Ping} (env : Env) (h : s.pingOf l = some ping) :
    16 ≤ ping.contents.length ∧ ∃ p b answer t,
      s.handlePing ping.now ping.contents = some (answer, t) ∧
      s.next env l =
        some (t.withReceiver (s.receiver.answered p b (if answer then .ok else .error))) := by
  cases l with
  | pass now =>
    simp only [pingOf, Option.ite_none_right_eq_some, Option.bind_eq_some_iff] at h
    obtain ⟨hhandling, p, hp, ⟨hopcode, hlength⟩, hping⟩ := h
    cases hping
    refine ⟨hlength, ?_⟩
    rcases hhandle : s.handlePing now p.contents with - | ⟨answer, t⟩
    · rw [handlePing_eq s ⟨now, p.contents⟩ hlength] at hhandle
      cases hhandle
    · have hanswer : s.readDataHandler env now p = (if answer then .ok else .error, t) := by
        simp only [readDataHandler, hopcode, if_true, hhandle]
        cases answer <;> rfl
      obtain ⟨b, hpass⟩ := Receiver.pass_of_nextPacket hp (if answer then .ok else .error)
      refine ⟨p, b, answer, t, rfl, ?_⟩
      simp only [next, hhandling, if_true, readHandlerPass, hp, hanswer, hpass]
  | _ => cases h

/-- After the epoch, and not backwards. -/
structure InOrder (times : List ℕ) : Prop where
  sorted : times.Pairwise (· ≤ ·)
  pos : ∀ time ∈ times, 0 < time

theorem InOrder.of_append {times rest : List ℕ} (h : InOrder (times ++ rest)) : InOrder times :=
  ⟨(List.pairwise_append.1 h.sorted).1, fun time hmem => h.pos time (List.mem_append_left _ hmem)⟩

/-- What the socket knows about its pings. -/
structure PingInv (s : DiscordSocket) (handled : List Ping) : Prop where
  last : s.lastPingTime = (handled.map Ping.now).getLast?.getD 0
  count : s.overSpeedPings = fastRun (handled.map Ping.now)
  few : ∀ times, times <+: handled.map Ping.now → fastRun times ≤ 5
  pongs : s.pongs = handled.map Ping.pong

/-- **The counter after one more ping.** -/
theorem PingInv.countPing {handled : List Ping} (h : s.PingInv handled) {now : ℕ}
    (htimes : InOrder (handled.map Ping.now ++ [now])) :
    (s.countPing now).overSpeedPings = fastRun (handled.map Ping.now ++ [now]) ∧
      (5 < fastRun (handled.map Ping.now ++ [now]) → s.isFastPing now = true) := by
  have hlast := h.last
  have hcount := h.count
  have hfew := h.few _ List.prefix_rfl
  rcases List.eq_nil_or_concat (handled.map Ping.now) with hnil | ⟨times, a, hconcat⟩
  · rw [hnil] at hlast hcount ⊢
    have hzero : s.lastPingTime = 0 := hlast
    rw [DiscordSocket.countPing, if_pos hzero]
    exact ⟨hcount, fun hlt => absurd hlt (by simp [fastRun, gaps])⟩
  · rw [List.concat_eq_append] at hconcat
    rw [hconcat] at hlast hcount hfew htimes ⊢
    rw [List.getLast?_concat, Option.getD_some] at hlast
    have hpos : 0 < a := htimes.pos a (by simp)
    have hfast : s.isFastPing now = true ↔ now - a < tenSeconds := by
      simp [isFastPing, hlast, hpos.ne']
    rw [fastRun_concat, DiscordSocket.countPing, if_neg (by omega)]
    dsimp only
    by_cases hshort : now - a < tenSeconds
    · rw [if_pos (hfast.2 hshort), if_pos hshort, hcount, Nat.mod_eq_of_lt (by omega)]
      exact ⟨rfl, fun _ => hfast.2 hshort⟩
    · rw [if_neg (fun hf => hshort (hfast.1 hf)), if_neg hshort]
      exact ⟨rfl, fun hlt => absurd hlt (by decide)⟩

/-- The answer to one more ping. -/
theorem PingInv.handlePing {handled : List Ping} (h : s.PingInv handled) {ping : Ping}
    (htimes : InOrder ((handled ++ [ping]).map Ping.now)) (hlength : 16 ≤ ping.contents.length) :
    s.handlePing ping.now ping.contents = some
      (if s.session = true ∧ fastRun ((handled ++ [ping]).map Ping.now) ≤ 5 then
        (true, (s.countPing ping.now).sendPacket ping.pong)
      else (false, s.countPing ping.now)) := by
  rw [List.map_append] at htimes ⊢
  obtain ⟨hcount, hfast⟩ := h.countPing htimes
  have hiff : ¬ (s.isFastPing ping.now = true ∧ 5 < (s.countPing ping.now).overSpeedPings) ↔
      fastRun (handled.map Ping.now ++ [ping].map Ping.now) ≤ 5 := by
    rw [hcount, not_and, not_lt]
    exact ⟨fun hle => not_lt.1 fun hlt => not_lt.2 (hle (hfast hlt)) hlt, fun hle _ => hle⟩
  simp only [handlePing_eq s ping hlength, hiff]

/-- A ping that leaves the socket open. -/
theorem PingInv.concat {handled : List Ping} (h : s.PingInv handled) {ping : Ping}
    (htimes : InOrder ((handled ++ [ping]).map Ping.now))
    (hfew : fastRun ((handled ++ [ping]).map Ping.now) ≤ 5) (hopen : s.receiver.isOpen = true)
    (r : Receiver) :
    PingInv (((s.countPing ping.now).sendPacket ping.pong).withReceiver r)
      (handled ++ [ping]) := by
  rw [List.map_append] at htimes hfew
  have hsend : (s.countPing ping.now).sendPacket ping.pong =
      { s.countPing ping.now with sent := s.sent ++ [ping.pong] } := if_pos hopen
  rw [hsend]
  refine ⟨?_, ?_, ?_, ?_⟩
  · simp [withReceiver, DiscordSocket.countPing]
  · rw [List.map_append]
    exact (h.countPing htimes).1
  · intro times hprefix
    rw [List.map_append] at hprefix
    rcases List.prefix_concat_iff.1 hprefix with rfl | hprefix
    · exact hfew
    · exact h.few times hprefix
  · have hpongs := h.pongs
    simp only [DiscordSocket.pongs, withReceiver, List.filter_append, List.map_append] at hpongs ⊢
    rw [hpongs]
    rfl

theorem isOpen_answered {r : Receiver} {p : DiscordPacket} {b : ReadBuffers} {answer : Bool}
    (h : (r.answered p b (if answer then .ok else .error)).isOpen = true) :
    answer = true ∧ r.isOpen = true := by
  cases answer with
  | false => cases h
  | true => exact ⟨rfl, h⟩

/-- **The counter of a socket that is open**, in every run. -/
theorem pingInv_run (hrun : Machine.run (next env) {} ls = some s)
    (htimes : InOrder ((pings env {} ls).map Ping.now)) (hopen : s.receiver.isOpen = true) :
    s.PingInv (pings env {} ls) := by
  induction ls using List.reverseRecOn generalizing s with
  | nil =>
    cases hrun
    refine ⟨rfl, rfl, ?_, rfl⟩
    intro times hprefix
    rw [List.prefix_nil.1 hprefix]
    decide
  | append_singleton ls l ih =>
    rw [Machine.run_append, Option.bind_eq_some_iff] at hrun
    obtain ⟨u, hu, hnext⟩ := hrun
    rw [Machine.run_cons, Option.bind_eq_some_iff] at hnext
    obtain ⟨v, hv, hrun⟩ := hnext
    cases hrun
    rw [pings_concat hu] at htimes ⊢
    cases hping : u.pingOf l with
    | none =>
      have hstep := unpinged_next hv hping
      rw [hping, Option.toList_none, List.append_nil] at htimes
      have hinv := ih hu htimes (hstep.isOpen hopen)
      rw [Option.toList_none, List.append_nil]
      exact ⟨hstep.same.lastPingTime.trans hinv.last, hstep.same.overSpeedPings.trans hinv.count,
        hinv.few, hstep.same.pongs.trans hinv.pongs⟩
    | some ping =>
      obtain ⟨hlength, p, b, answer, t, hhandle, hstep⟩ := next_of_pingOf env hping
      rw [hstep] at hv
      cases hv
      obtain ⟨rfl, hopen'⟩ := isOpen_answered hopen
      rw [hping, Option.toList_some] at htimes
      rw [Option.toList_some]
      have hbefore : InOrder ((pings env {} ls).map Ping.now) := by
        rw [List.map_append] at htimes
        exact htimes.of_append
      have hinv := ih hu hbefore hopen'
      rw [hinv.handlePing htimes hlength] at hhandle
      split_ifs at hhandle with hanswer
      · cases hhandle
        exact hinv.concat htimes hanswer.2 hopen' _
      · cases hhandle

/-- What becomes of a ping that a socket handles after some others. -/
structure Pinged (s t : DiscordSocket) (earlier : List Ping) (ping : Ping) : Prop where
  /-- `_OverSpeedPings` is the length of the run of short gaps. -/
  count : t.overSpeedPings = fastRun ((earlier ++ [ping]).map Ping.now)
  /-- `HandlePing` returns false, and the client is disconnected, when there are too many. -/
  returns : (s.handlePing ping.now ping.contents).map Prod.fst =
    some (decide (fastRun ((earlier ++ [ping]).map Ping.now) ≤ 5))
  closed_iff : t.receiver.closed = true ↔ 5 < fastRun ((earlier ++ [ping]).map Ping.now)
  /-- There were never too many before. -/
  first : ∀ times, times <+: earlier.map Ping.now → fastRun times ≤ 5
  /-- Every ping has its answer, but the one that disconnects. -/
  pongs : s.pongs = earlier.map Ping.pong ∧
    t.pongs = earlier.map Ping.pong ++
      if 5 < fastRun ((earlier ++ [ping]).map Ping.now) then [] else [ping.pong]
  /-- A client that is slow is not disconnected. -/
  slow : (∀ gap ∈ gaps ((earlier ++ [ping]).map Ping.now), tenSeconds ≤ gap) →
    t.receiver.closed = false

/-- **The pings of a socket that is open and has a session**, in every run. -/
theorem overspeed_pings {ping : Ping} (hrun : Machine.run (next env) {} ls = some s)
    (hping : s.pingOf l = some ping) (hsession : s.session = true)
    (hopen : s.receiver.isOpen = true)
    (htimes : InOrder ((pings env {} (ls ++ [l])).map Ping.now)) :
    ∃ t, s.next env l = some t ∧ Pinged s t (pings env {} ls) ping := by
  rw [pings_concat hrun, hping, Option.toList_some] at htimes
  have hbefore : InOrder ((pings env {} ls).map Ping.now) := by
    rw [List.map_append] at htimes
    exact htimes.of_append
  have hinv := pingInv_run hrun hbefore hopen
  obtain ⟨hlength, p, b, answer, t, hhandle, hstep⟩ := next_of_pingOf env hping
  have hhandle' := hinv.handlePing htimes hlength
  have hclosed : s.receiver.closed = false := by
    simp only [Receiver.isOpen, Bool.and_eq_true, Bool.not_eq_true'] at hopen
    exact hopen.1
  refine ⟨_, hstep, ?_⟩
  by_cases hfew : fastRun ((pings env {} ls ++ [ping]).map Ping.now) ≤ 5
  · rw [if_pos ⟨hsession, hfew⟩] at hhandle'
    rw [hhandle'] at hhandle
    cases hhandle
    have hafter := hinv.concat htimes hfew hopen (s.receiver.answered p b .ok)
    refine ⟨hafter.count, ?_, ?_, hinv.few, ⟨hinv.pongs, ?_⟩, fun _ => hclosed⟩
    · rw [hhandle', decide_eq_true hfew]
      rfl
    · rw [← not_le]
      exact iff_of_false (fun h => by cases hclosed.symm.trans h) (not_not.2 hfew)
    · rw [if_neg (not_lt.2 hfew), ← List.map_singleton, ← List.map_append]
      exact hafter.pongs
  · rw [if_neg fun h => hfew h.2] at hhandle'
    rw [hhandle'] at hhandle
    cases hhandle
    have hcount : (s.countPing ping.now).overSpeedPings =
        fastRun ((pings env {} ls ++ [ping]).map Ping.now) := by
      rw [List.map_append] at htimes ⊢
      exact (hinv.countPing htimes).1
    refine ⟨hcount, ?_, ?_, hinv.few, ⟨hinv.pongs, ?_⟩, ?_⟩
    · rw [hhandle', decide_eq_false hfew]
      rfl
    · exact iff_of_true rfl (not_le.1 hfew)
    · rw [if_pos (not_le.1 hfew), List.append_nil]
      exact hinv.pongs
    · intro hslow
      exact absurd (fastRun_eq_zero hslow) (by omega)

/-- The frame of a ping. -/
def pingFrame : List UInt8 := [0, 0, 0, 18, 5, 0] ++ List.replicate 16 7

/-- A client that logs in and sends a ping every second, up to the seventh, which is received but
not handled yet. -/
def pingRun : List Label :=
  [.ipAnswer [], .receive [0, 0, 0, 10, 2, 0, 0, 0, 0, 0, 1, 0, 0, 0], .pass 1] ++ sampleLogin ++
    ([2, 3, 4, 5, 6, 7].flatMap fun second =>
      [.receive pingFrame, .pass (second * 1000000000), .pass (second * 1000000000)]) ++
    [.receive pingFrame]

/-- The seventh ping disconnects the client, and the six before it have their answers. -/
theorem overspeed_pings_seven :
    ∃ s t, Machine.run (next sampleEnv) {} pingRun = some s ∧
      s.next sampleEnv (.pass 8000000000) = some t ∧ t.overSpeedPings = 6 ∧
      t.receiver.closed = true ∧ t.pongs = List.replicate 6 ⟨7, List.replicate 8 7⟩ := by
  have hrun : (Machine.run (next sampleEnv) {} pingRun).map (fun s =>
      (s.pingOf (.pass 8000000000), s.session, s.receiver.isOpen)) =
      some (some ⟨8000000000, List.replicate 16 7⟩, true, true) := by decide +kernel
  have hpings : pings sampleEnv {} pingRun =
      [2, 3, 4, 5, 6, 7].map fun second => ⟨second * 1000000000, List.replicate 16 7⟩ := by
    decide +kernel
  obtain ⟨s, hs, hstate⟩ := Option.map_eq_some_iff.mp hrun
  obtain ⟨hping, hstate⟩ := Prod.mk.inj hstate
  obtain ⟨hsession, hopen⟩ := Prod.mk.inj hstate
  have htimes : InOrder ((pings sampleEnv {} (pingRun ++ [.pass 8000000000])).map Ping.now) := by
    rw [pings_concat hs, hpings, hping]
    exact ⟨by decide, by decide⟩
  obtain ⟨t, hnext, hpinged⟩ := overspeed_pings hs hping hsession hopen htimes
  rw [hpings] at hpinged
  exact ⟨s, t, hs, hnext, hpinged.count, hpinged.closed_iff.mpr (by decide), hpinged.pongs.2⟩

end DiscordSocket
end WarheadDiscord
