import WarheadDiscord.Network.Receiver
import WarheadDiscord.Network.SendPath

/-!
# Frames from the encoder to the decoder

The sender writes a header with shifts, the receiver lays a packed struct over the bytes
and turns the size around.  `encodeFrame_eq` says that both mean the same six bytes, so the
reference parse of a sequence of frames gives the packets back, and does so in front of
whatever follows (`parse_frames_append`).

A socket that is fed such a stream, in whatever chunks, and whose `ReadDataHandler` always
answers `Ok` hands over these packets and has nothing left.  The header's size is a
`uint32`: a payload of `2 ^ 32` bytes has the header of an empty one, so that the receiver
refuses long payloads only as long as their size can be told.

## Main definitions

* `Sendable` — the packets that pass both checks of the receiver.
* `Receiver.Label.Feeds` — bytes arrive, and are answered with `Ok`.
* `Receiver.Fed` — the state of a socket that only this has happened to.
-/

namespace WarheadDiscord

open Bytes SendPath

/-! ## The header -/

/-- Numbers that agree in their low bytes are laid out the same. -/
theorem toLE_mod (n v : ℕ) : toLE n (v % 256 ^ n) = toLE n v := by
  have h := toLE_ofLE (toLE n v)
  rwa [length_toLE, ofLE_toLE] at h

theorem and_255 (x : ℕ) : 255 &&& x = x % 256 := by
  rw [Nat.and_comm]
  exact Nat.and_two_pow_sub_one_eq_mod x 8

/-- The shifts lay the size out most significant byte first, and the opcode least
significant byte first. -/
theorem header_new (size : UInt32) (cmd : UInt16) :
    (DiscordServerPktHeader.new size cmd).header = toBE 4 size.toNat ++ toLE 2 cmd.toNat := by
  have hsize : ∀ (k : UInt32), k.toNat < 32 → ((0xFF : UInt32) &&& (size >>> k)).toUInt8 =
      UInt8.ofNat (size.toNat / 2 ^ k.toNat) := by
    intro k hk
    apply UInt8.toNat_inj.mp
    simp [Nat.mod_eq_of_lt hk, Nat.shiftRight_eq_div_pow, and_255]
  have hcmd : ∀ (k : UInt16), k.toNat < 16 → ((0xFF : UInt16) &&& (cmd >>> k)).toUInt8 =
      UInt8.ofNat (cmd.toNat / 2 ^ k.toNat) := by
    intro k hk
    apply UInt8.toNat_inj.mp
    simp [Nat.mod_eq_of_lt hk, Nat.shiftRight_eq_div_pow, and_255]
  have hlow : ((0xFF : UInt32) &&& size).toUInt8 = UInt8.ofNat size.toNat := by
    apply UInt8.toNat_inj.mp
    simp [and_255]
  have hlow' : ((0xFF : UInt16) &&& cmd).toUInt8 = UInt8.ofNat cmd.toNat := by
    apply UInt8.toNat_inj.mp
    simp [and_255]
  simp only [DiscordServerPktHeader.new, hsize 24 (by decide), hsize 16 (by decide),
    hsize 8 (by decide), hcmd 8 (by decide), hlow, hlow']
  simp [toBE, toLE, Nat.div_div_eq_div_mul]

/-- **A frame is the raw header of its packet and the payload.** -/
theorem encodeFrame_eq (p : DiscordPacket) :
    encodeFrame p = rawHeader p.size p.opcode.toNat ++ p.contents := by
  have hsize : toBE 4 (UInt32.ofNat (p.size + 2)).toNat = toBE 4 (p.size + 2) := by
    rw [toBE, toBE, UInt32.toNat_ofNat', show 2 ^ 32 = 256 ^ 4 from rfl, toLE_mod]
  rw [encodeFrame, DiscordServerPktHeader.ofPacket, header_new, hsize, rawHeader]

/-! ## The reference parse of frames -/

/-- A packet that passes both checks of the receiver. -/
structure DiscordPacket.Sendable (p : DiscordPacket) : Prop where
  opcode_lt : p.opcode.toNat < NUM_DISCORD_CODE_HANDLERS
  size_le : p.size ≤ 9997

/-- **Frames are parsed back, whatever follows.** -/
theorem parse_frames_append {ps : List DiscordPacket} (hps : ∀ p ∈ ps, p.Sendable)
    (rest : List UInt8) : parse (frames ps ++ rest) = prepend ps (parse rest) := by
  induction ps with
  | nil => simp [frames, prepend]
  | cons p ps ih =>
      have hp := hps p List.mem_cons_self
      have hsize : p.size + 2 < 10000 := by
        have := hp.size_le
        omega
      have hpayload : p.contents.length = p.size := rfl
      rw [frames_cons, List.append_assoc, encodeFrame_eq,
        parse_frame hsize hp.opcode_lt hpayload, ih fun q hq => hps q (List.mem_cons_of_mem _ hq),
        prepend_prepend]
      simp

theorem parse_frames {ps : List DiscordPacket} (hps : ∀ p ∈ ps, p.Sendable) :
    parse (frames ps) = (ps, false) := by
  have hnil : parse [] = ([], false) := parse_of_length_lt (by decide)
  have h := parse_frames_append hps []
  rw [List.append_nil, hnil] at h
  simpa [prepend] using h

/-- The header of a payload that is too long, but whose length can be told, is invalid. -/
theorem parse_long_header {q : DiscordPacket} (hlong : 9998 ≤ q.size) (hlt : q.size < 2 ^ 32)
    (rest : List UInt8) : parse ((encodeFrame q).take 6 ++ rest) = ([], true) := by
  have htake : (encodeFrame q).take 6 = rawHeader q.size q.opcode.toNat := by
    rw [encodeFrame_eq, List.take_append_of_le_length (by simp), List.take_of_length_le (by simp)]
  rw [htake]
  refine parse_malformed (length_rawHeader _ _) ?_ rest
  have h4 : (rawHeader q.size q.opcode.toNat).take 4 = toBE 4 (q.size + 2) := by
    rw [rawHeader, List.take_append_of_le_length (by simp), List.take_of_length_le (by simp)]
  simp only [DiscordClientPktHeader.isValid, DiscordClientPktHeader.isValidSize, decodeHeader, h4,
    ofBE_toBE]
  rw [Bool.and_eq_false_iff, Bool.and_eq_false_iff, decide_eq_false_iff_not,
    decide_eq_false_iff_not]
  left
  omega

/-! ## Nothing stays pending -/

theorem decodeHeader_append_of_le {bs : List UInt8} (h : 6 ≤ bs.length) (rest : List UInt8) :
    decodeHeader (bs ++ rest) = decodeHeader bs := by
  have hsplit := List.take_append_drop 6 bs
  have hlen : (bs.take 6).length = 6 := by simpa using h
  rw [← hsplit, List.append_assoc, decodeHeader_append hlen, decodeHeader_append hlen]

/-- Zeros are no frame. -/
theorem parse_zeros (k : ℕ) : (parse (List.replicate k 0)).1 = [] := by
  by_cases hk : k < 6
  · rw [parse_of_length_lt (by simpa using hk)]
  · have hsplit : List.replicate k (0 : UInt8) =
        List.replicate 6 0 ++ List.replicate (k - 6) 0 := by
      rw [List.replicate_append_replicate]
      congr 1
      omega
    rw [hsplit, parse_malformed (by simp) (by decide)]

/-- A header whose payload is missing becomes a frame when zeros are added. -/
theorem exists_parse_zeros {q : List UInt8} (hlen : 6 ≤ q.length) (hq : parse q = ([], false)) :
    ∃ k, (parse (q ++ List.replicate k 0)).1 ≠ [] := by
  rw [parse, if_neg (by omega)] at hq
  dsimp only at hq
  split_ifs at hq with hvalid hshort
  · cases hq
  · refine ⟨6 + ((decodeHeader q).size - 2) - q.length, ?_⟩
    rw [parse, if_neg (by rw [List.length_append]; omega), decodeHeader_append_of_le hlen]
    simp only
    rw [if_neg hvalid, if_neg (by rw [List.length_append, List.length_replicate]; omega)]
    simp
  · cases hq

/-- Only the empty rest parses like nothing, whatever follows. -/
theorem eq_nil_of_parse_append {q : List UInt8}
    (h : ∀ rest, parse (q ++ rest) = parse rest) : q = [] := by
  by_contra hne
  have hpos : 0 < q.length := List.length_pos_iff.mpr hne
  -- filled up to a header, the rest still parses like nothing, and then becomes a frame
  have hshort : parse (List.replicate (6 - q.length) 0) = ([], false) :=
    parse_of_length_lt (by simp; omega)
  have hheader := h (List.replicate (6 - q.length) 0)
  rw [hshort] at hheader
  obtain ⟨k, hk⟩ := exists_parse_zeros (by simp; omega) hheader
  rw [List.append_assoc, h, List.replicate_append_replicate] at hk
  exact hk (parse_zeros _)

/-! ## A socket that is fed -/

namespace Receiver

/-- Bytes arrive, and what they carry is answered with `Ok`. -/
def Label.Feeds : Label → Prop
  | .receive _ | .pass .ok => True
  | _ => False

/-- The state of a socket that has posted its first read and was fed since. -/
structure Fed (r : Receiver) : Prop where
  undisturbed : r.Undisturbed
  ok : ∀ c ∈ r.calls, c.2 = .ok
  rejected : r.closed = true → r.Rejected
  reads_eq : r.handling = false → r.closed = false → r.reads = 1

variable {r r' : Receiver}

theorem Fed.isOpen (h : r.Fed) (hclosed : r.closed = false) : r.isOpen = true := by
  simp [Receiver.isOpen, hclosed, h.undisturbed.closing]

theorem Fed.closed_eq_false (h : r.Fed) (hbusy : 0 < r.reads ∨ r.handling = true) :
    r.closed = false := by
  rw [← Bool.not_eq_true]
  intro hclosed
  obtain ⟨hreads, hidle⟩ := h.undisturbed.closed hclosed
  rcases hbusy with hpos | hhandling
  · omega
  · rw [hidle] at hhandling
    cases hhandling

/-- A socket that was fed is not left early. -/
theorem Fed.paused_eq_false (h : r.Fed) : r.paused = false := by
  rw [← Bool.not_eq_true]
  intro hpaused
  obtain ⟨c, hc, hne⟩ := h.undisturbed.paused hpaused
  exact hne (h.ok c hc)

theorem fed_asyncRead_new : ({} : Receiver).asyncRead.Fed := by
  have hnew : ({} : Receiver).Undisturbed :=
    ⟨inv_new, rfl, fun hc => Bool.noConfusion hc, fun hp => Bool.noConfusion hp⟩
  refine ⟨undisturbed_asyncRead hnew (inv_asyncRead inv_new rfl rfl), ?_, ?_, ?_⟩
  · simp
  · intro hclosed
    cases hclosed
  · intro _ _
    rfl

theorem fed_pass (h : r.Fed) (hh : r.handling = true) : (r.pass .ok).Fed := by
  have hundisturbed := undisturbed_pass h.undisturbed hh .ok
  have hclosed := h.closed_eq_false (.inr hh)
  have hzero := h.undisturbed.inv.reads_handling hh
  have hr : r.Reading := h.undisturbed.inv.stage.resolve_right fun hj => by simp [hj.2.2] at hh
  rcases pass_cases hr .ok with ⟨b, he, -⟩ | ⟨b, he, hbad⟩ | ⟨p, b, -, he, -⟩ <;>
    rw [he] at hundisturbed ⊢
  · have hopen : { r with handling := false, buffers := b }.isOpen = true := h.isOpen hclosed
    refine ⟨hundisturbed, ?_, ?_, ?_⟩
    · simpa using h.ok
    · intro hc
      simp [hclosed] at hc
    · intro _ _
      rw [asyncRead, if_pos hopen]
      simp [hzero]
  · refine ⟨hundisturbed, h.ok, ?_, ?_⟩
    · intro _
      refine ⟨rfl, ?_⟩
      intro rest
      change parse (r.stream ++ rest) = (r.delivered, true)
      rw [hr.parse_stream, hbad]
      simp [prepend]
    · intro _ hc
      cases hc
  · refine ⟨hundisturbed, ?_, ?_, ?_⟩
    · intro c hc
      rcases List.mem_append.mp hc with hold | hnew
      · exact h.ok c hold
      · rw [List.mem_singleton.mp hnew]
    · intro hc
      exact absurd hc (by simp [answered, hclosed])
    · intro hidle
      exact absurd hidle (by simp [answered, hh])

theorem fed_next {l : Label} (h : r.Fed) (hl : l.Feeds) (hn : r.next l = some r') : r'.Fed := by
  have hinside : l.Inside := by
    constructor <;> rintro rfl <;> exact hl
  have hundisturbed := undisturbed_next h.undisturbed hinside hn
  cases l with
  | receive chunk =>
      obtain ⟨⟨hreads, -⟩, heq⟩ := Option.ite_none_right_eq_some.mp hn
      cases heq
      have hclosed := h.closed_eq_false (.inl hreads)
      refine ⟨hundisturbed, h.ok, ?_, ?_⟩
      · intro hc
        exact absurd hc (by simp [readHandlerInternal, hclosed])
      · intro hidle
        exact absurd hidle (by simp [readHandlerInternal, h.isOpen hclosed])
  | pass answer =>
      obtain ⟨hh, heq⟩ := Option.ite_none_right_eq_some.mp hn
      cases heq
      cases answer with
      | ok => exact fed_pass h hh
      | error => exact hl.elim
      | waitingForQuery => exact hl.elim
  | asyncRead => exact hl.elim
  | readError => exact hl.elim
  | closeSocket => exact hl.elim
  | delayedCloseSocket => exact hl.elim

theorem fed_run {ls : List Label} (hls : ∀ l ∈ ls, l.Feeds)
    (hrun : Machine.run next {} (.asyncRead :: ls) = some r) : r.Fed := by
  have hfirst : next {} .asyncRead = some ({} : Receiver).asyncRead := rfl
  rw [Machine.run_cons, hfirst, Option.bind_some] at hrun
  exact Machine.run_induction_of (fun _ _ _ => fed_next) (Machine.along_of_forall hls _)
    fed_asyncRead_new hrun

/-- The parse of a stream that was refused runs into an invalid header, however it goes on. -/
theorem Rejected.parse_eq (h : r.Rejected) : parse r.stream = (r.delivered, true) := by
  have hparse := h.parse_stream []
  rwa [List.append_nil] at hparse

/-- A loop in which every packet is answered with `Ok` ends. -/
theorem Fed.loop_ends (h : r.Fed) (hh : r.handling = true) :
    ∃ k r', Machine.run next r (List.replicate k (.pass .ok)) = some r' ∧ r'.handling = false := by
  obtain ⟨k, r', hrun, hdone⟩ := handling_eventually_false h.undisturbed.inv hh
    (List.replicate (r.buffers.readBuffer.getActiveSize + 1) .ok) (by simp)
  rw [List.take_replicate, List.map_replicate] at hrun
  exact ⟨_, r', hrun, hdone⟩

section
variable {ps : List DiscordPacket} (hps : ∀ p ∈ ps, p.Sendable) (h : r.Fed)
include hps h

/-- Frames are never refused. -/
theorem Fed.closed_of_prefix (hstream : r.stream <+: frames ps) : r.closed = false := by
  rw [← Bool.not_eq_true]
  intro hclosed
  obtain ⟨rest, hrest⟩ := hstream
  have hparse := (h.rejected hclosed).parse_stream rest
  rw [hrest, parse_frames hps] at hparse
  cases hparse

/-- All packets have been handed over, and no byte is left. -/
theorem Fed.delivered_of_frames (hstream : r.stream = frames ps) (hidle : r.handling = false) :
    r.delivered = ps ∧ r.buffers.pending = [] := by
  have hopen := h.closed_of_prefix hps (hstream ▸ List.prefix_rfl)
  have hnot : ¬ r.Rejected := fun hj => by simp [hj.closed] at hopen
  have hr : r.Reading := h.undisturbed.inv.stage.resolve_right fun hj => hnot hj.1
  have hnone : parse r.buffers.pending = ([], false) :=
    (h.undisturbed.inv.complete hidle h.paused_eq_false).resolve_right hnot
  have hdelivered : r.delivered = ps := by
    have hparse := hr.parse_stream []
    rw [List.append_nil, List.append_nil, hnone, hstream, parse_frames hps] at hparse
    simpa [prepend] using hparse.symm
  refine ⟨hdelivered, eq_nil_of_parse_append ?_⟩
  intro rest
  have hparse := hr.parse_stream rest
  rw [hstream, parse_frames_append hps, hdelivered] at hparse
  simpa [prepend, Prod.ext_iff] using hparse.symm

/-- A payload that is too long is refused when its header has arrived. -/
theorem Fed.rejected_of_long {q : DiscordPacket} (hlong : 9998 ≤ q.size) (hlt : q.size < 2 ^ 32)
    {rest : List UInt8} (hstream : r.stream = frames ps ++ ((encodeFrame q).take 6 ++ rest))
    (hidle : r.handling = false) : r.closed = true ∧ r.reads = 0 ∧ r.delivered = ps := by
  have hparse : parse r.stream = (ps, true) := by
    rw [hstream, parse_frames_append hps, parse_long_header hlong hlt]
    simp [prepend]
  have hj : r.Rejected := by
    rcases h.undisturbed.inv.complete hidle h.paused_eq_false with hnone | hj
    · rcases h.undisturbed.inv.stage with hr | ⟨hj, -, -⟩
      · have hflag := hr.parse_stream []
        rw [List.append_nil, List.append_nil, hparse, hnone] at hflag
        simp [prepend] at hflag
      · exact hj
    · exact hj
  have hdelivered := hj.parse_eq
  rw [hparse] at hdelivered
  exact ⟨hj.closed, (h.undisturbed.closed hj.closed).1, (congrArg Prod.fst hdelivered).symm⟩

end

/-- **Frames arrive as they were sent, however the stream is cut.**  A socket that is fed a
part of the frames of `ps` goes on: its loop ends, and then a read is outstanding that can
bring something.  Fed all of them, it has handed over exactly `ps` and has nothing left.
Fed the header of a payload that is too long, and whatever follows, it has handed over what
was in front and is closed. -/
theorem frames_delivered {ps : List DiscordPacket} (hps : ∀ p ∈ ps, p.Sendable) {ls : List Label}
    (hls : ∀ l ∈ ls, l.Feeds) (hrun : Machine.run next {} (.asyncRead :: ls) = some r) :
    (r.stream <+: frames ps →
      (r.handling = true → ∃ k r', Machine.run next r (List.replicate k (.pass .ok)) = some r' ∧
        r'.handling = false) ∧
      (r.handling = false → r.reads = 1 ∧ 0 < r.buffers.readBuffer.getRemainingSpace)) ∧
    (r.stream = frames ps → r.handling = false →
      r.calls = ps.map (fun p => (p, .ok)) ∧ r.buffers.pending = [] ∧ r.closed = false) ∧
    ∀ (q : DiscordPacket) (rest : List UInt8), 9998 ≤ q.size → q.size < 2 ^ 32 →
      r.stream = frames ps ++ ((encodeFrame q).take 6 ++ rest) → r.handling = false →
        r.closed = true ∧ r.reads = 0 ∧ r.delivered = ps := by
  have h := fed_run hls hrun
  refine ⟨?_, ?_, ?_⟩
  · intro hstream
    refine ⟨h.loop_ends, ?_⟩
    intro hidle
    have hreads := h.reads_eq hidle (h.closed_of_prefix hps hstream)
    exact ⟨hreads, h.undisturbed.inv.room (by omega)⟩
  · intro hstream hidle
    obtain ⟨hdelivered, hpending⟩ := h.delivered_of_frames hps hstream hidle
    refine ⟨?_, hpending, h.closed_of_prefix hps (hstream ▸ List.prefix_rfl)⟩
    have hcalls : r.calls.map (fun c => (c.1, ReadDataHandlerResult.ok)) = r.calls := by
      conv_rhs => rw [← List.map_id r.calls]
      refine List.map_congr_left ?_
      intro c hc
      rw [← h.ok c hc, id]
    rw [← hdelivered, delivered, List.map_map]
    exact hcalls.symm
  · intro q rest hlong hlt hstream hidle
    exact h.rejected_of_long hps hlong hlt hstream hidle

/-- Two frames, cut in the middle of the second header. -/
theorem frames_delivered_two :
    ∃ r, Machine.run next {} [.asyncRead, .receive [0, 0, 0, 3, 3, 0, 42, 0, 0], .pass .ok,
        .pass .ok, .receive [0, 2, 5, 0], .pass .ok, .pass .ok] = some r ∧
      r.calls = [(⟨3, [42]⟩, .ok), (⟨5, []⟩, .ok)] ∧ r.buffers.pending = [] ∧ r.closed = false := by
  have hrun : (Machine.run next {} [.asyncRead, .receive [0, 0, 0, 3, 3, 0, 42, 0, 0], .pass .ok,
      .pass .ok, .receive [0, 2, 5, 0], .pass .ok, .pass .ok]).map
        (fun r => (r.stream, r.handling)) = some (frames [⟨3, [42]⟩, ⟨5, []⟩], false) := by
    decide +kernel
  obtain ⟨r, hr, hr'⟩ := Option.map_eq_some_iff.mp hrun
  simp only [Prod.mk.injEq] at hr'
  refine ⟨r, hr, (frames_delivered ?_ ?_ hr).2.1 hr'.1 hr'.2⟩
  · simp only [List.mem_cons, List.not_mem_nil, or_false]
    rintro p (rfl | rfl) <;> exact ⟨by decide, by decide⟩
  · simp [Label.Feeds]

/-- The header of a payload of `2 ^ 32` bytes is that of an empty one. -/
theorem long_payload_not_rejected :
    ∃ q : DiscordPacket, 9998 ≤ q.size ∧ ∃ r, Machine.run next {}
        [.asyncRead, .receive ((encodeFrame q).take 6), .pass .ok, .pass .ok] = some r ∧
      r.handling = false ∧ r.closed = false ∧ r.delivered = [⟨1, []⟩] := by
  have hsize : (⟨1, List.replicate (2 ^ 32) 0⟩ : DiscordPacket).size = 2 ^ 32 :=
    List.length_replicate
  have hheader : (encodeFrame ⟨1, List.replicate (2 ^ 32) 0⟩).take 6 = [0, 0, 0, 2, 1, 0] := by
    rw [encodeFrame, DiscordServerPktHeader.ofPacket, hsize]
    rfl
  refine ⟨⟨1, List.replicate (2 ^ 32) 0⟩, by omega, ?_⟩
  rw [hheader]
  have hrun : (Machine.run next {} [.asyncRead, .receive [0, 0, 0, 2, 1, 0], .pass .ok,
      .pass .ok]).map (fun r => (r.handling, r.closed, r.delivered)) =
        some (false, false, [⟨1, []⟩]) := by
    decide +kernel
  obtain ⟨r, hr, hr'⟩ := Option.map_eq_some_iff.mp hrun
  simp only [Prod.mk.injEq] at hr'
  exact ⟨r, hr, hr'⟩

end Receiver
end WarheadDiscord
