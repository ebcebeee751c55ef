import WarheadDiscord.Lib.Bytes
import WarheadDiscord.Network.PacketHeader

/-!
# The reference parse of a received byte stream

What a stream of bytes from a client means, without buffers and without chunks:
frames one after the other, up to the first header that is not valid or to the
first frame that has not arrived completely.

The lemmas are the four ways a stream can begin.  `parse_frame` is the one that
makes progress, and the parse of the rest does not depend on what came before.

## Main definitions

* `decodeHeader` — the six bytes of a header as the client meant them.
* `rawHeader` — the six bytes for a payload length and an opcode.
* `parse` — the frames of a stream, and whether it runs into an invalid header.
-/

namespace WarheadDiscord

open Bytes

/-- Four bytes of size, most significant first, two bytes of opcode, least
significant first. -/
def decodeHeader (bs : List UInt8) : DiscordClientPktHeader where
  size := ofBE (bs.take 4)
  cmd := ofLE ((bs.drop 4).take 2)

/-- The header of a payload of `n` bytes. -/
def rawHeader (n cmd : ℕ) : List UInt8 := toBE 4 (n + 2) ++ toLE 2 cmd

@[simp] theorem length_rawHeader (n cmd : ℕ) : (rawHeader n cmd).length = 6 := by
  simp [rawHeader]

/-- The frames of a stream up to the first invalid header, and whether there is
such a header. -/
def parse (stream : List UInt8) : List DiscordPacket × Bool :=
  if stream.length < 6 then ([], false)
  else
    let header := decodeHeader stream
    if !header.isValid then ([], true)
    else if stream.length < 6 + (header.size - 2) then ([], false)
    else
      let rest := parse (stream.drop (6 + (header.size - 2)))
      (⟨UInt16.ofNat header.cmd, (stream.drop 6).take (header.size - 2)⟩ :: rest.1, rest.2)
termination_by stream.length
decreasing_by simp only [List.length_drop]; omega

/-- Put frames in front of a parse. -/
def prepend (frames : List DiscordPacket) (p : List DiscordPacket × Bool) :
    List DiscordPacket × Bool := (frames ++ p.1, p.2)

@[simp] theorem prepend_prepend (fs gs : List DiscordPacket) (p : List DiscordPacket × Bool) :
    prepend fs (prepend gs p) = prepend (fs ++ gs) p := by
  simp [prepend]

theorem parse_of_length_lt {stream : List UInt8} (h : stream.length < 6) :
    parse stream = ([], false) := by
  rw [parse, if_pos h]

/-- The opcode of a header is all that follows its size. -/
theorem toLE_decodeHeader_cmd {bs : List UInt8} (h : bs.length = 6) :
    toLE 2 (decodeHeader bs).cmd = bs.drop 4 := by
  have hdrop : (bs.drop 4).take 2 = bs.drop 4 :=
    List.take_of_length_le (by rw [List.length_drop]; omega)
  have hinv := toLE_ofLE (bs.drop 4)
  rw [List.length_drop, h] at hinv
  rw [decodeHeader, hdrop]
  exact hinv

/-- Only the first six bytes decide about a header. -/
theorem decodeHeader_append {bs : List UInt8} (h : bs.length = 6) (rest : List UInt8) :
    decodeHeader (bs ++ rest) = decodeHeader bs := by
  have h4 : (bs ++ rest).take 4 = bs.take 4 := List.take_append_of_le_length (by omega)
  have h2 : ((bs ++ rest).drop 4).take 2 = (bs.drop 4).take 2 := by
    rw [List.drop_append_of_le_length (by omega),
      List.take_append_of_le_length (by rw [List.length_drop]; omega)]
  simp only [decodeHeader, h4, h2]

/-- An invalid header ends the parse, whatever follows. -/
theorem parse_malformed {bs : List UInt8} (h : bs.length = 6)
    (hbad : (decodeHeader bs).isValid = false) (rest : List UInt8) :
    parse (bs ++ rest) = ([], true) := by
  rw [parse, if_neg (by rw [List.length_append]; omega), decodeHeader_append h]
  simp [hbad]

/-- A header is the raw header of what it decodes to. -/
theorem rawHeader_decodeHeader {bs : List UInt8} (h : bs.length = 6)
    (hvalid : (decodeHeader bs).isValid = true) :
    rawHeader ((decodeHeader bs).size - 2) (decodeHeader bs).cmd = bs := by
  have hsize : 2 ≤ (decodeHeader bs).size := by
    simp only [DiscordClientPktHeader.isValid, DiscordClientPktHeader.isValidSize,
      Bool.and_eq_true, decide_eq_true_eq] at hvalid
    exact hvalid.1.1
  have h4 : toBE 4 (ofBE (bs.take 4)) = bs.take 4 := by
    have := toBE_ofBE (bs.take 4)
    rwa [List.length_take, h] at this
  rw [rawHeader, Nat.sub_add_cancel hsize, toLE_decodeHeader_cmd h]
  simp only [decodeHeader, h4]
  exact List.take_append_drop 4 bs

section
variable {n cmd : ℕ} (hn : n + 2 < 10000) (hc : cmd < NUM_DISCORD_CODE_HANDLERS)
include hn hc

theorem decodeHeader_rawHeader (rest : List UInt8) :
    decodeHeader (rawHeader n cmd ++ rest) = ⟨n + 2, cmd⟩ := by
  have hc' : cmd < 8 := hc
  have h4 : (rawHeader n cmd).take 4 = toBE 4 (n + 2) := by
    rw [rawHeader, List.take_append_of_le_length (by simp), List.take_of_length_le (by simp)]
  have h2 : ((rawHeader n cmd).drop 4).take 2 = toLE 2 cmd := by
    have h0 : (toBE 4 (n + 2)).drop 4 = [] := List.drop_eq_nil_of_le (by simp)
    rw [rawHeader, List.drop_append_of_le_length (by simp), h0, List.nil_append,
      List.take_of_length_le (by simp)]
  rw [decodeHeader_append (length_rawHeader n cmd)]
  simp only [decodeHeader, h4, h2, ofBE_toBE, ofLE_toLE]
  rw [Nat.mod_eq_of_lt (by omega), Nat.mod_eq_of_lt (by omega)]

theorem isValid_header : (⟨n + 2, cmd⟩ : DiscordClientPktHeader).isValid = true := by
  simp [DiscordClientPktHeader.isValid, DiscordClientPktHeader.isValidSize,
    DiscordClientPktHeader.isValidOpcode, hn, hc]

/-- A valid header and its whole payload are one frame. -/
theorem parse_frame {payload : List UInt8} (hp : payload.length = n) (rest : List UInt8) :
    parse (rawHeader n cmd ++ payload ++ rest) =
      prepend [⟨UInt16.ofNat cmd, payload⟩] (parse rest) := by
  have hlen : (rawHeader n cmd ++ payload).length = 6 + n := by simp [hp]
  have h6 : (rawHeader n cmd ++ payload ++ rest).drop 6 = payload ++ rest := by
    rw [List.append_assoc, List.drop_append_of_le_length (by simp),
      List.drop_eq_nil_of_le (by simp), List.nil_append]
  have hdrop : (rawHeader n cmd ++ payload ++ rest).drop (6 + n) = rest := by
    rw [List.drop_append_of_le_length (by omega), List.drop_eq_nil_of_le (by omega),
      List.nil_append]
  have hd : decodeHeader (rawHeader n cmd ++ payload ++ rest) = ⟨n + 2, cmd⟩ := by
    rw [List.append_assoc, decodeHeader_rawHeader hn hc]
  rw [parse]
  simp only [hd, isValid_header hn hc, Bool.not_true, Bool.false_eq_true, if_false,
    Nat.add_sub_cancel]
  rw [if_neg (by rw [List.length_append, hlen]; omega),
    if_neg (by rw [List.length_append, hlen]; omega), h6, hdrop,
    List.take_append_of_le_length (by omega), List.take_of_length_le (by omega)]
  rfl

/-- A valid header whose payload has not arrived completely is no frame yet. -/
theorem parse_incomplete {payload : List UInt8} (hp : payload.length < n) :
    parse (rawHeader n cmd ++ payload) = ([], false) := by
  have hlen : (rawHeader n cmd ++ payload).length = 6 + payload.length := by simp
  rw [parse, if_neg (by omega)]
  simp only [decodeHeader_rawHeader hn hc, isValid_header hn hc, Bool.not_true,
    Bool.false_eq_true, if_false, Nat.add_sub_cancel]
  rw [if_pos (by omega)]

end
end WarheadDiscord
