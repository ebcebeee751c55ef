import WarheadDiscord.Bot.Embed
import WarheadDiscord.Packets.MessagePackets
import WarheadDiscord.Server.Channels

/-!
# What is sent for a packet with an embed

`HandleSendDiscordEmbedMessageOpcode` makes an embed of a packet and sends it to a channel of
the guild.  `DiscordSharedDefines.h` has limits for embeds: a number of fields that nothing
ever looks at, and bytes for the texts of a field.  The handler compares the texts with
these, and when one is too long it logs an error and adds the field all the same.

What keeps an embed small is therefore only what the embed does itself: it takes 25 fields,
and it cuts texts by their characters.  `embedLimits_iff` says which messages stay in the
limits of the program.

## Main definitions

* `getChannelID`, `handleSendDiscordEmbedMessageOpcode` — the code.
* `callEmbed` — `Call` of the handler for a message.
* `WithinLimits`, `FitsLimits` — the limits for an embed, and the messages that meet them.
-/

namespace WarheadDiscord

open Dpp (Embed FitsCut npos utf8substr utf8substr_fits)

/-- `GetChannelID`; the array of channels is not empty. -/
def getChannelID (channels : DiscordChannelsList) (channelType : BitVec 8) : ℤ :=
  if h : channelType.toNat < DEFAULT_CHANNELS_COUNT then channels[channelType.toNat] else 0

/-- An error that is logged for a field, with the text. -/
inductive EmbedSizeError
  | name (context : List UInt8)
  | value (context : List UInt8)
  deriving DecidableEq, Repr

/-- How a call of the handler ends; `undefined` is a read behind the end of a string. -/
inductive EmbedCall
  | threw (e : ByteBufferException)
  | noChannel
  | sendEmbedMessage (channelID : ℤ) (embed : Embed) (errors : List EmbedSizeError)
  | undefined
  deriving DecidableEq, Repr

def EmbedField.sizeErrors (f : EmbedField) : List EmbedSizeError :=
  (if f.isCorrectName then [] else [.name f.name]) ++
    if f.isCorrectValue then [] else [.value f.value]

/-- The embed that the handler makes of a packet. -/
def makeEmbed (packet : SendDiscordEmbedMessage) : Option Embed := do
  let embed := Embed.setColor {} packet.color
  let embed ← embed.setTitle packet.title
  let embed ← embed.setDescription packet.description
  let embed ← packet.embedFields.foldlM (fun e f => e.addField f.name f.value f.isInline) embed
  return embed.setTimestamp packet.timestamp.val

def handleSendDiscordEmbedMessageOpcode (channels : DiscordChannelsList)
    (packet : SendDiscordEmbedMessage) : EmbedCall :=
  let channelID := getChannelID channels packet.channelType
  if channelID = 0 then .noChannel
  else
    match makeEmbed packet with
    | none => .undefined
    | some embed =>
        .sendEmbedMessage channelID embed (packet.embedFields.flatMap EmbedField.sizeErrors)

/-- `PacketHandler::Call` for the opcode of embeds. -/
def callEmbed (bigEndian : Bool) (channels : DiscordChannelsList) (content : List UInt8) :
    EmbedCall :=
  match SendDiscordEmbedMessage.read bigEndian (.new content) with
  | (.error e, _) => .threw e
  | (.ok (), packet) => handleSendDiscordEmbedMessageOpcode channels packet

/-! ## The limits -/

def WithinLimits (embed : Embed) : Prop :=
  embed.fields.length ≤ WARHEAED_DISCORD_MAX_EMBED_FIELDS ∧
    ∀ f ∈ embed.fields, f.name.length ≤ 256 ∧ f.value.length ≤ 1024

/-- The fields of a message stay within the limits when they are cut. -/
def EmbedContent.Fits (m : EmbedContent) : Prop :=
  m.fields.length ≤ WARHEAED_DISCORD_MAX_EMBED_FIELDS ∧
    ∀ f ∈ m.fields, FitsCut 256 f.name.1 ∧ FitsCut 1024 f.value.1

/-- The message is not complete, has no channel, or fits. -/
def FitsLimits (channels : DiscordChannelsList) (content : List UInt8) : Prop :=
  ∀ (m : EmbedContent) (rest : List UInt8), content = m.bytes ++ rest →
    getChannelID channels m.header.channelType = 0 ∨ m.Fits

/-! ## The embed of a message -/

/-- What is left of a field. -/
def FieldContent.cut (f : FieldContent) : Dpp.EmbedField :=
  ⟨(utf8substr f.name.1 0 256).getD [], (utf8substr f.value.1 0 1024).getD [], f.field.isInline⟩

theorem CString.utf8substr_eq_getD (t : CString) (leng : ℕ) (hpos : leng ≠ 0)
    (hnpos : 4 * leng < npos) :
    utf8substr t.1 0 leng = some ((utf8substr t.1 0 leng).getD []) ∧
      (((utf8substr t.1 0 leng).getD []).length ≤ leng ↔ FitsCut leng t.1) := by
  obtain ⟨cut, hcut, hfits⟩ := utf8substr_fits t.2.2 t.2.1 hpos hnpos
  rw [hcut]
  exact ⟨rfl, hfits⟩

theorem addField_eq (e : Embed) (f : FieldContent) :
    e.addField f.field.name f.field.value f.field.isInline =
      some (if e.fields.length < 25 then { e with fields := e.fields ++ [f.cut] } else e) := by
  obtain ⟨hname, -⟩ := f.name.utf8substr_eq_getD 256 (by decide) (by decide)
  obtain ⟨hvalue, -⟩ := f.value.utf8substr_eq_getD 1024 (by decide) (by decide)
  rw [Embed.addField]
  split_ifs with hlt
  · simp only [FieldContent.field, FieldContent.cut]
    rw [hname, hvalue]
    rfl
  · rfl

/-- The embed takes 25 fields. -/
theorem foldlM_addField (fs : List FieldContent) (e : Embed) :
    (fs.map FieldContent.field).foldlM (fun e f => e.addField f.name f.value f.isInline) e =
      some { e with
        fields := e.fields ++ (fs.take (25 - e.fields.length)).map FieldContent.cut } := by
  induction fs generalizing e with
  | nil => simp
  | cons f fs ih =>
    rw [List.map_cons, List.foldlM_cons, addField_eq, Option.bind_eq_bind, Option.bind_some, ih]
    split_ifs with hlt
    · have hnext : 25 - e.fields.length = 25 - (e.fields.length + 1) + 1 := by omega
      rw [hnext, List.take_succ_cons]
      simp
    · have hfull : 25 - e.fields.length = 0 := by omega
      simp [hfull]

/-- The embed of a message. -/
theorem makeEmbed_packet (m : EmbedContent) (content : List UInt8) :
    ∃ embed, makeEmbed (m.packet content) = some embed ∧
      embed.fields = (m.fields.take 25).map FieldContent.cut := by
  obtain ⟨htitle, -⟩ := m.header.title.utf8substr_eq_getD 256 (by decide) (by decide)
  obtain ⟨hdescription, -⟩ :=
    m.header.description.utf8substr_eq_getD 4096 (by decide) (by decide)
  simp only [makeEmbed, EmbedContent.packet, Embed.setTitle, Embed.setDescription]
  rw [htitle, hdescription]
  simp only [Option.map_some, Option.bind_eq_bind, Option.bind_some, foldlM_addField]
  exact ⟨_, rfl, List.nil_append _⟩

theorem withinLimits_iff {m : EmbedContent} {embed : Embed}
    (h : embed.fields = (m.fields.take 25).map FieldContent.cut) :
    WithinLimits embed ↔ m.Fits := by
  have hcut : ∀ f : FieldContent, (f.cut.name.length ≤ 256 ∧ f.cut.value.length ≤ 1024) ↔
      FitsCut 256 f.name.1 ∧ FitsCut 1024 f.value.1 := by
    intro f
    exact and_congr (f.name.utf8substr_eq_getD 256 (by decide) (by decide)).2
      (f.value.utf8substr_eq_getD 1024 (by decide) (by decide)).2
  have hlength : embed.fields.length = min 25 m.fields.length := by
    rw [h, List.length_map, List.length_take]
  unfold WithinLimits EmbedContent.Fits WARHEAED_DISCORD_MAX_EMBED_FIELDS
  rw [hlength, show min 25 m.fields.length ≤ 24 ↔ m.fields.length ≤ 24 by omega, h]
  refine and_congr_right fun hle => ?_
  rw [List.take_of_length_le (by omega), List.forall_mem_map]
  exact forall₂_congr fun f _ => hcut f

/-- What happens for a complete message with a channel. -/
theorem callEmbed_bytes (bigEndian : Bool) {channels : DiscordChannelsList} {m : EmbedContent}
    {content rest : List UInt8} (hcontent : content = m.bytes ++ rest)
    (hchannel : getChannelID channels m.header.channelType ≠ 0) :
    ∃ embed errors, callEmbed bigEndian channels content =
        .sendEmbedMessage (getChannelID channels m.header.channelType) embed errors ∧
      (WithinLimits embed ↔ m.Fits) := by
  have hread : SendDiscordEmbedMessage.read bigEndian (.new content) =
      (.ok (), m.packet content) :=
    SendDiscordEmbedMessage.read_eq_ok_iff.2 ⟨m, rest, hcontent, rfl⟩
  obtain ⟨embed, hembed, hfields⟩ := makeEmbed_packet m content
  have hchannel' : getChannelID channels (m.packet content).channelType ≠ 0 := hchannel
  rw [callEmbed, hread]
  simp only [handleSendDiscordEmbedMessageOpcode, if_neg hchannel', hembed]
  exact ⟨embed, _, rfl, withinLimits_iff hfields⟩

/-- **Which messages stay within the limits.** -/
theorem embedLimits_iff (bigEndian : Bool) (channels : DiscordChannelsList)
    (content : List UInt8) :
    (∀ channelID embed errors,
      callEmbed bigEndian channels content = .sendEmbedMessage channelID embed errors →
        WithinLimits embed) ↔ FitsLimits channels content := by
  constructor
  · intro h m rest hcontent
    by_cases hchannel : getChannelID channels m.header.channelType = 0
    · exact .inl hchannel
    · obtain ⟨embed, errors, hcall, hfits⟩ := callEmbed_bytes bigEndian hcontent hchannel
      exact .inr (hfits.1 (h _ _ _ hcall))
  · intro h channelID embed errors hcall
    rcases hread : SendDiscordEmbedMessage.read bigEndian (.new content) with ⟨e | ⟨⟩, packet⟩
    · rw [callEmbed, hread] at hcall
      cases hcall
    · obtain ⟨m, rest, hcontent, rfl⟩ := SendDiscordEmbedMessage.read_eq_ok_iff.1 hread
      by_cases hchannel : getChannelID channels m.header.channelType = 0
      · have hchannel' : getChannelID channels (m.packet content).channelType = 0 := hchannel
        rw [callEmbed, hread] at hcall
        simp only [handleSendDiscordEmbedMessageOpcode, if_pos hchannel'] at hcall
        cases hcall
      · obtain ⟨embed', errors', hcall', hlimits⟩ :=
          callEmbed_bytes bigEndian hcontent hchannel
        rw [hcall'] at hcall
        cases hcall
        exact hlimits.2 ((h m rest hcontent).resolve_left hchannel)

/-- A message with 25 fields. -/
def manyFields : EmbedContent where
  header := ⟨0, 0, emptyText, emptyText, 25⟩
  fields := List.replicate 25 ⟨emptyText, emptyText, 0⟩
  length_fields := by decide
  timestamp := 0

/-- All of its fields are sent. -/
theorem not_withinLimits_manyFields :
    ¬ ∀ channelID embed errors,
      callEmbed false (Vector.replicate DEFAULT_CHANNELS_COUNT 1) manyFields.bytes =
        .sendEmbedMessage channelID embed errors → WithinLimits embed := by
  intro h
  have hchannel : getChannelID (Vector.replicate DEFAULT_CHANNELS_COUNT 1)
      manyFields.header.channelType ≠ 0 := by decide
  obtain ⟨embed, errors, hcall, hlimits⟩ :=
    callEmbed_bytes false (List.append_nil manyFields.bytes).symm hchannel
  have hfits := hlimits.1 (h _ _ _ hcall)
  exact absurd hfits.1 (by decide)

end WarheadDiscord
