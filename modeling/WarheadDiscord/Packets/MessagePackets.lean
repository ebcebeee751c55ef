import WarheadDiscord.Packets.ByteBuffer

/-!
# The packet with an embed

`SendDiscordEmbedMessage::Read` takes a message apart that a client has sent.  The number of
fields is in the message, so it may be any number, and a string that starts at the end of the
message is empty.  What ends the loop is the `bool` behind the two strings of a field: there
is a byte for it or an exception is thrown.  A field that was read therefore took three bytes
at least (`three_le_length_bytes`), and not more fields are read than a third of the bytes,
and, unless an exception is thrown, as many as the message says (`read_bounded`).

A read that succeeds has found a message of one layout, `EmbedContent.bytes`, with whatever
behind it (`read_eq_ok_iff`).

## Main definitions

* `SendDiscordEmbedMessage`, `Reading` — the packet, and code that changes it and may throw.
* `SendDiscordEmbedMessage.read` — `Read`.
* `EmbedContent`, `EmbedContent.bytes` — a message, and its bytes.
-/

namespace WarheadDiscord

open Bytes Utf8

structure EmbedField where
  name : List UInt8
  value : List UInt8
  isInline : Bool
  deriving DecidableEq, Repr

namespace EmbedField

def isCorrectName (f : EmbedField) : Bool := f.name.length ≤ 256

def isCorrectValue (f : EmbedField) : Bool := f.value.length ≤ 1024

end EmbedField

def WARHEAED_DISCORD_MAX_EMBED_FIELDS : ℕ := 24

namespace ByteBuffer

variable (bigEndian : Bool)

/-- `operator>>` for `bool`. -/
def readBool (buf : ByteBuffer) : Except ByteBufferException Bool × ByteBuffer :=
  mapResult (fun c => .ok (0 < c.toInt)) (buf.readValue bigEndian 1)

/-- `operator>>` for `int64`. -/
def readInt64 (buf : ByteBuffer) : Except ByteBufferException (Signed .w64) × ByteBuffer :=
  mapResult (fun value => .ok (Signed.ofPattern .w64 value)) (buf.readValue bigEndian 8)

end ByteBuffer

structure SendDiscordEmbedMessage where
  worldPacket : ByteBuffer
  channelType : BitVec 8 := 0
  color : BitVec 32 := 0
  title : List UInt8 := []
  description : List UInt8 := []
  /-- A `size_t`. -/
  embedFieldsSize : BitVec 64 := 0
  timestamp : Signed .w64 := ⟨0, by decide, by decide⟩
  embedFields : List EmbedField := []

namespace SendDiscordEmbedMessage

/-- Code that changes a packet and may throw; what it did before it threw stays. -/
abbrev Reading := ExceptT ByteBufferException (StateM SendDiscordEmbedMessage)

/-- `_worldPacket >> value` -/
def extract {α : Type} (f : ByteBuffer → Except ByteBufferException α × ByteBuffer) : Reading α :=
  fun p => ((f p.worldPacket).1, { p with worldPacket := (f p.worldPacket).2 })

variable (bigEndian : Bool)

def readText : Reading (List UInt8) := extract (ByteBuffer.readCString bigEndian · true)

/-- What the body of the loop of `Read` reads. -/
def readField : Reading EmbedField := do
  let name ← readText bigEndian
  let value ← readText bigEndian
  let isInline ← extract (ByteBuffer.readBool bigEndian)
  return ⟨name, value, isInline⟩

def emplaceBack (p : SendDiscordEmbedMessage) (embedField : EmbedField) :
    SendDiscordEmbedMessage :=
  { p with embedFields := p.embedFields ++ [embedField] }

/-- The loop of `Read`, with so many rounds to go. -/
def readFields : ℕ → Reading Unit
  | 0 => pure ()
  | rounds + 1 => do
      let embedField ← readField bigEndian
      modify (emplaceBack · embedField)
      readFields rounds

/-- `Read` up to its loop; it returns `EmbedFieldsSize`. -/
def readHeader : Reading (BitVec 64) := do
  let channelType ← extract (ByteBuffer.readValue bigEndian · 1)
  modify ({ · with channelType := channelType })
  let color ← extract (ByteBuffer.readValue bigEndian · 4)
  modify ({ · with color := color })
  let title ← readText bigEndian
  modify ({ · with title := title })
  let description ← readText bigEndian
  modify ({ · with description := description })
  let embedFieldsSize ← extract (ByteBuffer.readValue bigEndian · 8)
  modify ({ · with embedFieldsSize := embedFieldsSize })
  return embedFieldsSize

def read : Reading Unit := do
  let embedFieldsSize ← readHeader bigEndian
  readFields bigEndian embedFieldsSize.toNat
  let timestamp ← extract (ByteBuffer.readInt64 bigEndian)
  modify ({ · with timestamp := timestamp })

/-- The packet of a message that was received. -/
def new (content : List UInt8) : SendDiscordEmbedMessage := { worldPacket := .ofMessage content }

end SendDiscordEmbedMessage

/-! ## The layout of a message -/

/-- Text that can be sent as a string with a zero behind it. -/
abbrev CString := { text : List UInt8 // (∀ b ∈ text, b ≠ 0) ∧ isValid text = true }

def CString.bytes (t : CString) : List UInt8 := t.1 ++ [0]

def emptyText : CString := ⟨[], by simp, isValid_iff.2 ⟨[], .nil⟩⟩

theorem CString.bytes_append_ne_nil (t : CString) (rest : List UInt8) : t.bytes ++ rest ≠ [] := by
  simp [CString.bytes]

/-- A field of a message; any positive `char` stands for `true`. -/
structure FieldContent where
  name : CString
  value : CString
  isInline : BitVec 8

namespace FieldContent

def bytes (f : FieldContent) : List UInt8 :=
  f.name.bytes ++ f.value.bytes ++ toLE 1 f.isInline.toNat

def field (f : FieldContent) : EmbedField := ⟨f.name.1, f.value.1, 0 < f.isInline.toInt⟩

theorem three_le_length_bytes (f : FieldContent) : 3 ≤ f.bytes.length := by
  simp only [bytes, CString.bytes, List.length_append, List.length_singleton, length_toLE]
  omega

end FieldContent

/-- What is in front of the fields. -/
structure EmbedHeader where
  channelType : BitVec 8
  color : BitVec 32
  title : CString
  description : CString
  embedFieldsSize : BitVec 64

def EmbedHeader.bytes (e : EmbedHeader) : List UInt8 :=
  toLE 1 e.channelType.toNat ++ toLE 4 e.color.toNat ++ e.title.bytes ++ e.description.bytes ++
    toLE 8 e.embedFieldsSize.toNat

/-- What a message with an embed consists of. -/
structure EmbedContent where
  header : EmbedHeader
  fields : List FieldContent
  length_fields : fields.length = header.embedFieldsSize.toNat
  timestamp : BitVec 64

namespace EmbedContent

def bytes (m : EmbedContent) : List UInt8 :=
  m.header.bytes ++ m.fields.flatMap FieldContent.bytes ++ toLE 8 m.timestamp.toNat

/-- The packet that was read from a message with this content. -/
def packet (m : EmbedContent) (message : List UInt8) : SendDiscordEmbedMessage where
  worldPacket := (ByteBuffer.ofMessage message).skip m.bytes.length
  channelType := m.header.channelType
  color := m.header.color
  title := m.header.title.1
  description := m.header.description.1
  embedFieldsSize := m.header.embedFieldsSize
  timestamp := Signed.ofPattern .w64 m.timestamp
  embedFields := m.fields.map FieldContent.field

end EmbedContent

namespace SendDiscordEmbedMessage

/-! ## How code that may throw goes on -/

variable {bigEndian : Bool} {α β : Type} {p q : SendDiscordEmbedMessage}

theorem bind_of_ok {x : Reading α} {a : α} (h : x p = (.ok a, q)) (f : α → Reading β) :
    (x >>= f) p = f a q := by
  simp only [bind, ExceptT.bind, ExceptT.mk, StateT.bind, h]
  rfl

theorem bind_of_error {x : Reading α} {e : ByteBufferException} (h : x p = (.error e, q))
    (f : α → Reading β) : (x >>= f) p = (.error e, q) := by
  simp only [bind, ExceptT.bind, ExceptT.mk, StateT.bind, h]
  rfl

theorem bind_eq_ok {x : Reading α} {f : α → Reading β} {b : β} (h : (x >>= f) p = (.ok b, q)) :
    ∃ a p', x p = (.ok a, p') ∧ f a p' = (.ok b, q) := by
  rcases hx : x p with ⟨e | a, p'⟩
  · rw [bind_of_error hx] at h
    cases h
  · rw [bind_of_ok hx] at h
    exact ⟨a, p', rfl, h⟩

/-- What was read is stored. -/
theorem store_eq_ok {x : Reading α} {g : α → SendDiscordEmbedMessage → SendDiscordEmbedMessage}
    {f : α → Reading β} {b : β}
    (h : (x >>= fun a => modify (g a) >>= fun _ => f a) p = (.ok b, q)) :
    ∃ a p', x p = (.ok a, p') ∧ f a (g a p') = (.ok b, q) :=
  bind_eq_ok h

theorem store_of_ok {x : Reading α} {a : α} (h : x p = (.ok a, q))
    (g : α → SendDiscordEmbedMessage → SendDiscordEmbedMessage) (f : α → Reading β) :
    (x >>= fun a => modify (g a) >>= fun _ => f a) p = f a (g a q) :=
  bind_of_ok h _

/-! ## What is read -/

/-- What has not been read yet. -/
def unread (p : SendDiscordEmbedMessage) : List UInt8 := p.worldPacket.unread

def advance (p : SendDiscordEmbedMessage) (n : ℕ) : SendDiscordEmbedMessage :=
  { p with worldPacket := p.worldPacket.skip n }

theorem unread_advance (n : ℕ) : (p.advance n).unread = p.unread.drop n :=
  ByteBuffer.unread_skip n

theorem advance_advance (m n : ℕ) : (p.advance m).advance n = p.advance (m + n) := by
  simp only [advance, ByteBuffer.skip_skip]

theorem unread_advance_length {bytes rest : List UInt8} (h : p.unread = bytes ++ rest) :
    (p.advance bytes.length).unread = rest := by
  rw [unread_advance, h, List.drop_left]

theorem extract_eq_ok {f : ByteBuffer → Except ByteBufferException α × ByteBuffer} {a : α}
    (h : extract f p = (.ok a, q)) :
    f p.worldPacket = (.ok a, q.worldPacket) ∧ q = { p with worldPacket := q.worldPacket } := by
  obtain ⟨hresult, hq⟩ := Prod.mk.inj h
  subst hq
  exact ⟨Prod.ext hresult rfl, rfl⟩

theorem extract_of_eq {f : ByteBuffer → Except ByteBufferException α × ByteBuffer}
    {r : Except ByteBufferException α} {n : ℕ} (h : f p.worldPacket = (r, p.worldPacket.skip n)) :
    extract f p = (r, p.advance n) := by
  rw [extract, h]
  rfl

/-- A number is read where its bytes are, and only there. -/
theorem extract_readValue_eq_ok {w : ℕ} (hw : 0 < w) {value : BitVec (8 * w)}
    (h : extract (ByteBuffer.readValue bigEndian · w) p = (.ok value, q)) :
    p.unread = toLE w value.toNat ++ q.unread ∧ q = p.advance w := by
  obtain ⟨hread, hq⟩ := extract_eq_ok h
  obtain ⟨hunread, hskip⟩ := ByteBuffer.unread_of_readValue_eq_ok bigEndian hw hread
  rw [hskip] at hq
  exact ⟨hunread, hq⟩

theorem extract_readValue_of_unread {w : ℕ} (hw : 0 < w) {value : BitVec (8 * w)}
    {rest : List UInt8} (h : p.unread = toLE w value.toNat ++ rest) :
    extract (ByteBuffer.readValue bigEndian · w) p = (.ok value, p.advance w) :=
  extract_of_eq (ByteBuffer.readValue_of_unread bigEndian hw h)

/-- The same for what is made of a number. -/
theorem extract_mapResult_eq_ok {w : ℕ} (hw : 0 < w) {g : BitVec (8 * w) → β} {b : β}
    (h : extract (fun buf => ByteBuffer.mapResult (fun value => .ok (g value))
      (buf.readValue bigEndian w)) p = (.ok b, q)) :
    ∃ value, g value = b ∧ p.unread = toLE w value.toNat ++ q.unread ∧ q = p.advance w := by
  obtain ⟨hread, hq⟩ := extract_eq_ok h
  rcases hvalue : p.worldPacket.readValue bigEndian w with ⟨e | value, buf⟩
  · rw [hvalue] at hread
    cases hread
  · rw [hvalue] at hread
    obtain ⟨hb, rfl⟩ := Prod.mk.inj hread
    obtain ⟨hunread, hskip⟩ := ByteBuffer.unread_of_readValue_eq_ok bigEndian hw hvalue
    rw [hskip] at hq
    exact ⟨value, Except.ok.inj hb, hunread, hq⟩

theorem extract_mapResult_of_unread {w : ℕ} (hw : 0 < w) (g : BitVec (8 * w) → β)
    {value : BitVec (8 * w)} {rest : List UInt8} (h : p.unread = toLE w value.toNat ++ rest) :
    extract (fun buf => ByteBuffer.mapResult (fun value => .ok (g value))
      (buf.readValue bigEndian w)) p = (.ok (g value), p.advance w) := by
  refine extract_of_eq ?_
  rw [ByteBuffer.readValue_of_unread bigEndian hw h]
  rfl

/-- Text that was read and has something behind it ends with a zero. -/
theorem readText_eq_ok {text : List UInt8} (h : readText bigEndian p = (.ok text, q))
    (hq : q.unread ≠ []) :
    ∃ t : CString, t.1 = text ∧ p.unread = t.bytes ++ q.unread ∧
      q = p.advance t.bytes.length := by
  obtain ⟨hread, hpacket⟩ := extract_eq_ok h
  obtain ⟨hzero, hvalid, hends⟩ := ByteBuffer.unread_of_readCString_eq_ok bigEndian hread
  rcases hends with ⟨hunread, hskip⟩ | hnil
  · rw [hskip] at hpacket
    refine ⟨⟨text, hzero, hvalid⟩, rfl, ?_, ?_⟩
    · rw [CString.bytes, List.append_assoc]
      exact hunread
    · rw [CString.bytes, List.length_append]
      exact hpacket
  · exact absurd hnil hq

theorem readText_of_unread {t : CString} {rest : List UInt8} (h : p.unread = t.bytes ++ rest) :
    readText bigEndian p = (.ok t.1, p.advance t.bytes.length) := by
  have hunread : p.worldPacket.unread = t.1 ++ 0 :: rest := by
    rw [CString.bytes, List.append_assoc] at h
    exact h
  rw [CString.bytes, List.length_append]
  exact extract_of_eq (ByteBuffer.readCString_of_unread bigEndian t.2.1 t.2.2 hunread)

/-- The body of the loop finds the bytes of a field. -/
theorem readField_eq_ok {embedField : EmbedField}
    (h : readField bigEndian p = (.ok embedField, q)) :
    ∃ f : FieldContent, f.field = embedField ∧ p.unread = f.bytes ++ q.unread ∧
      q = p.advance f.bytes.length := by
  obtain ⟨name, p₁, hname, h⟩ := bind_eq_ok h
  obtain ⟨value, p₂, hvalue, h⟩ := bind_eq_ok h
  obtain ⟨isInline, p₃, hinline, h⟩ := bind_eq_ok h
  obtain ⟨c, hc, hunread₂, hp₃⟩ := extract_mapResult_eq_ok (by decide) hinline
  have hne₂ : p₂.unread ≠ [] := by
    rw [hunread₂]
    exact List.append_ne_nil_of_left_ne_nil (by simp [toLE]) _
  obtain ⟨v, hv, hunread₁, hp₂⟩ := readText_eq_ok hvalue hne₂
  have hne₁ : p₁.unread ≠ [] := by
    rw [hunread₁]
    exact v.bytes_append_ne_nil _
  obtain ⟨n, hn, hunread, hp₁⟩ := readText_eq_ok hname hne₁
  obtain ⟨hfield, rfl⟩ := Prod.mk.inj h
  refine ⟨⟨n, v, c⟩, ?_, ?_, ?_⟩
  · rw [FieldContent.field, hn, hv, hc]
    exact Except.ok.inj hfield
  · rw [hunread, hunread₁, hunread₂, FieldContent.bytes, List.append_assoc, List.append_assoc]
  · rw [hp₃, hp₂, hp₁, advance_advance, advance_advance]
    simp only [FieldContent.bytes, List.length_append, length_toLE, Nat.add_assoc]

theorem readField_of_unread {f : FieldContent} {rest : List UInt8}
    (h : p.unread = f.bytes ++ rest) :
    readField bigEndian p = (.ok f.field, p.advance f.bytes.length) := by
  rw [FieldContent.bytes, List.append_assoc, List.append_assoc] at h
  have hvalue := unread_advance_length h
  have hinline : extract (ByteBuffer.readBool bigEndian)
      ((p.advance f.name.bytes.length).advance f.value.bytes.length) =
        (.ok (0 < f.isInline.toInt), _) :=
    extract_mapResult_of_unread (by decide) _ (unread_advance_length hvalue)
  rw [readField, bind_of_ok (readText_of_unread h), bind_of_ok (readText_of_unread hvalue),
    bind_of_ok hinline]
  simp only [advance_advance, FieldContent.bytes, List.length_append, length_toLE, Nat.add_assoc]
  rfl

/-- The packet with some more fields, and behind their bytes. -/
def withFields (p : SendDiscordEmbedMessage) (fs : List FieldContent) : SendDiscordEmbedMessage :=
  { p.advance (fs.flatMap FieldContent.bytes).length with
    embedFields := p.embedFields ++ fs.map FieldContent.field }

theorem withFields_nil : p.withFields [] = p := by
  simp [withFields, advance, ByteBuffer.skip]

theorem withFields_cons (f : FieldContent) (fs : List FieldContent) :
    p.withFields (f :: fs) = (emplaceBack (p.advance f.bytes.length) f.field).withFields fs := by
  simp only [withFields, emplaceBack, advance, ByteBuffer.skip_skip, List.flatMap_cons,
    List.length_append, List.map_cons, List.append_assoc, List.singleton_append]

/-- The loop finds the bytes of so many fields as it has rounds. -/
theorem readFields_eq_ok {rounds : ℕ} (h : readFields bigEndian rounds p = (.ok (), q)) :
    ∃ fs : List FieldContent, fs.length = rounds ∧
      p.unread = fs.flatMap FieldContent.bytes ++ q.unread ∧ q = p.withFields fs := by
  induction rounds generalizing p with
  | zero =>
    cases h
    exact ⟨[], rfl, rfl, withFields_nil.symm⟩
  | succ rounds ih =>
    obtain ⟨embedField, p₁, hfield, h⟩ := store_eq_ok h
    obtain ⟨f, rfl, hunread, rfl⟩ := readField_eq_ok hfield
    obtain ⟨fs, hlength, hfs, hq⟩ := ih h
    refine ⟨f :: fs, congrArg (· + 1) hlength, ?_, ?_⟩
    · rw [List.flatMap_cons, List.append_assoc, ← hfs]
      exact hunread
    · rw [withFields_cons, hq]

theorem readFields_of_unread {fs : List FieldContent} {rest : List UInt8}
    (h : p.unread = fs.flatMap FieldContent.bytes ++ rest) :
    readFields bigEndian fs.length p = (.ok (), p.withFields fs) := by
  induction fs generalizing p with
  | nil =>
    rw [withFields_nil]
    rfl
  | cons f fs ih =>
    rw [List.flatMap_cons, List.append_assoc] at h
    rw [List.length_cons, readFields, store_of_ok (readField_of_unread h), withFields_cons]
    exact ih (unread_advance_length h)

/-- The packet with a header, and behind its bytes. -/
def withHeader (p : SendDiscordEmbedMessage) (e : EmbedHeader) : SendDiscordEmbedMessage :=
  { p.advance e.bytes.length with
    channelType := e.channelType
    color := e.color
    title := e.title.1
    description := e.description.1
    embedFieldsSize := e.embedFieldsSize }

theorem readHeader_eq_ok {size : BitVec 64} (h : readHeader bigEndian p = (.ok size, q)) :
    ∃ e : EmbedHeader, e.embedFieldsSize = size ∧ p.unread = e.bytes ++ q.unread ∧
      q = p.withHeader e := by
  obtain ⟨channelType, p₁, hchannel, h⟩ := store_eq_ok h
  obtain ⟨color, p₂, hcolor, h⟩ := store_eq_ok h
  obtain ⟨title, p₃, htitle, h⟩ := store_eq_ok h
  obtain ⟨description, p₄, hdescription, h⟩ := store_eq_ok h
  obtain ⟨size', p₅, hsize, h⟩ := store_eq_ok h
  obtain ⟨hreturn, rfl⟩ := Prod.mk.inj h
  cases hreturn
  -- backwards, because a string is complete only when something is behind it
  obtain ⟨hunread₄, hp₅⟩ := extract_readValue_eq_ok (by decide) hsize
  have hne₄ : p₄.unread ≠ [] := by
    change p₄.unread = _ at hunread₄
    rw [hunread₄]
    exact List.append_ne_nil_of_left_ne_nil (by simp [toLE]) _
  obtain ⟨d, hd, hunread₃, hp₄⟩ := readText_eq_ok hdescription hne₄
  have hne₃ : p₃.unread ≠ [] := by
    change p₃.unread = _ at hunread₃
    rw [hunread₃]
    exact d.bytes_append_ne_nil _
  obtain ⟨t, ht, hunread₂, hp₃⟩ := readText_eq_ok htitle hne₃
  obtain ⟨hunread₁, hp₂⟩ := extract_readValue_eq_ok (by decide) hcolor
  obtain ⟨hunread, hp₁⟩ := extract_readValue_eq_ok (by decide) hchannel
  refine ⟨⟨channelType, color, t, d, size⟩, rfl, ?_, ?_⟩
  · change p₁.unread = _ at hunread₁
    change p₂.unread = _ at hunread₂
    change p₃.unread = _ at hunread₃
    change p₄.unread = _ at hunread₄
    rw [hunread, hunread₁, hunread₂, hunread₃, hunread₄]
    simp only [EmbedHeader.bytes, List.append_assoc]
    rfl
  · subst hp₅ hp₄ hp₃ hp₂ hp₁ hd ht
    simp only [withHeader, EmbedHeader.bytes, advance, ByteBuffer.skip_skip, List.length_append,
      length_toLE]

theorem readHeader_of_unread {e : EmbedHeader} {rest : List UInt8}
    (h : p.unread = e.bytes ++ rest) :
    readHeader bigEndian p = (.ok e.embedFieldsSize, p.withHeader e) := by
  simp only [EmbedHeader.bytes, List.append_assoc] at h
  let p₁ := { p.advance 1 with channelType := e.channelType }
  have hcolor : p₁.unread = _ := unread_advance_length h
  let p₂ := { p₁.advance 4 with color := e.color }
  have htitle : p₂.unread = _ := unread_advance_length hcolor
  let p₃ := { p₂.advance e.title.bytes.length with title := e.title.1 }
  have hdescription : p₃.unread = _ := unread_advance_length htitle
  let p₄ := { p₃.advance e.description.bytes.length with description := e.description.1 }
  have hsize : p₄.unread = _ := unread_advance_length hdescription
  refine (store_of_ok (extract_readValue_of_unread (by decide) h) _ _).trans ?_
  refine (store_of_ok (extract_readValue_of_unread (by decide) hcolor) _ _).trans ?_
  refine (store_of_ok (readText_of_unread htitle) _ _).trans ?_
  refine (store_of_ok (readText_of_unread hdescription) _ _).trans ?_
  refine (store_of_ok (extract_readValue_of_unread (by decide) hsize) _ _).trans ?_
  simp only [p₁, p₂, p₃, p₄, withHeader, EmbedHeader.bytes, advance, ByteBuffer.skip_skip,
    List.length_append, length_toLE]
  rfl

/-- **What `Read` accepts**: the messages of one layout, whatever is behind. -/
theorem read_eq_ok_iff {content : List UInt8} :
    read bigEndian (new content) = (.ok (), p) ↔
      ∃ (m : EmbedContent) (rest : List UInt8), content = m.bytes ++ rest ∧
        p = m.packet content := by
  constructor
  · intro h
    obtain ⟨size, p₁, hheader, h⟩ := bind_eq_ok h
    obtain ⟨⟨⟩, p₂, hfields, h⟩ := bind_eq_ok h
    obtain ⟨timestamp, p₃, htime, h⟩ := bind_eq_ok h
    obtain ⟨-, rfl⟩ := Prod.mk.inj h
    obtain ⟨e, he, hunread, hp₁⟩ := readHeader_eq_ok hheader
    obtain ⟨fs, hlength, hunread₁, hp₂⟩ := readFields_eq_ok hfields
    obtain ⟨stamp, hstamp, hunread₂, hp₃⟩ := extract_mapResult_eq_ok (by decide) htime
    subst he hp₁ hp₂ hp₃ hstamp
    refine ⟨⟨e, fs, hlength, stamp⟩,
      ((((new content).withHeader e).withFields fs).advance 8).unread, ?_, ?_⟩
    · rw [hunread₁, hunread₂] at hunread
      rw [EmbedContent.bytes, List.append_assoc, List.append_assoc]
      exact hunread
    · simp only [EmbedContent.packet, EmbedContent.bytes, withFields, withHeader, advance, new,
        ByteBuffer.skip_skip, List.length_append, length_toLE]
      rfl
  · rintro ⟨m, rest, hcontent, rfl⟩
    rw [EmbedContent.bytes, List.append_assoc, List.append_assoc] at hcontent
    have hheader : (new content).unread = _ := hcontent
    have hfields : ((new content).withHeader m.header).unread = _ :=
      unread_advance_length hheader
    have htime : (((new content).withHeader m.header).withFields m.fields).unread = _ :=
      unread_advance_length hfields
    rw [read, bind_of_ok (readHeader_of_unread hheader), ← m.length_fields,
      bind_of_ok (readFields_of_unread hfields)]
    refine (bind_of_ok (extract_mapResult_of_unread (by decide) _ htime) _).trans ?_
    simp only [EmbedContent.packet, EmbedContent.bytes, withFields, withHeader, advance, new,
      ByteBuffer.skip_skip, List.length_append, length_toLE]
    rfl

/-! ## How much is read -/

/-- What holds of a packet holds behind the code too, also when it throws. -/
def Keeps (P : SendDiscordEmbedMessage → Prop) (x : Reading α) : Prop := ∀ p, P p → P (x p).2

section Keeps

variable {P : SendDiscordEmbedMessage → Prop}

theorem snd_bind {x : Reading α} {f : α → Reading β} (hx : P (x p).2)
    (hf : ∀ a, Keeps P (f a)) : P ((x >>= f) p).2 := by
  rcases h : x p with ⟨e | a, q⟩
  · rw [bind_of_error h]
    rwa [h] at hx
  · rw [bind_of_ok h]
    rw [h] at hx
    exact hf a q hx

theorem Keeps.bind {x : Reading α} {f : α → Reading β} (hx : Keeps P x)
    (hf : ∀ a, Keeps P (f a)) : Keeps P (x >>= f) :=
  fun p hp => snd_bind (hx p hp) hf

theorem keeps_modify {g : SendDiscordEmbedMessage → SendDiscordEmbedMessage}
    (h : ∀ p, P p → P (g p)) : Keeps P (modify g) := h

end Keeps

/-- The bound is about the fields alone. -/
def FieldsAtMost (n : ℕ) (p : SendDiscordEmbedMessage) : Prop := 3 * p.embedFields.length ≤ n

variable (bigEndian) {n : ℕ}

theorem keeps_extract (f : ByteBuffer → Except ByteBufferException α × ByteBuffer) :
    Keeps (FieldsAtMost n) (extract f) := fun _ h => h

theorem keeps_readHeader : Keeps (FieldsAtMost n) (readHeader bigEndian) := by
  refine .bind (keeps_extract _) fun _ => .bind (keeps_modify fun _ h => h) fun _ => ?_
  refine .bind (keeps_extract _) fun _ => .bind (keeps_modify fun _ h => h) fun _ => ?_
  refine .bind (keeps_extract _) fun _ => .bind (keeps_modify fun _ h => h) fun _ => ?_
  refine .bind (keeps_extract _) fun _ => .bind (keeps_modify fun _ h => h) fun _ => ?_
  refine .bind (keeps_extract _) fun _ => .bind (keeps_modify fun _ h => h) fun _ => ?_
  exact fun _ h => h

theorem keeps_readField : Keeps (FieldsAtMost n) (readField bigEndian) := by
  refine .bind (keeps_extract _) fun _ => .bind (keeps_extract _) fun _ => ?_
  exact .bind (keeps_extract _) fun _ _ h => h

/-- The position is behind three bytes for each field. -/
structure Bounded (n : ℕ) (p : SendDiscordEmbedMessage) : Prop where
  fields_le : 3 * p.embedFields.length ≤ p.worldPacket.rpos
  rpos_le : p.worldPacket.rpos ≤ n
  size_eq : p.worldPacket.size = n

theorem Bounded.fieldsAtMost (h : Bounded n p) : FieldsAtMost n p :=
  h.fields_le.trans h.rpos_le

/-- A round of the loop. -/
theorem bounded_emplaceBack (h : Bounded n p) {f : FieldContent} {rest : List UInt8}
    (hunread : p.unread = f.bytes ++ rest) :
    Bounded n (emplaceBack (p.advance f.bytes.length) f.field) := by
  have hlength := congrArg List.length hunread
  rw [unread, ByteBuffer.unread, List.length_drop, List.length_append] at hlength
  have hthree := f.three_le_length_bytes
  have hsize : p.worldPacket.storage.length = n := h.size_eq
  have hfields := h.fields_le
  have hrpos := h.rpos_le
  refine ⟨?_, ?_, h.size_eq⟩
  · simp only [emplaceBack, advance, ByteBuffer.skip, List.length_append, List.length_singleton]
    omega
  · simp only [emplaceBack, advance, ByteBuffer.skip]
    omega

theorem fieldsAtMost_readFields (rounds : ℕ) (h : Bounded n p) :
    FieldsAtMost n (readFields bigEndian rounds p).2 := by
  induction rounds generalizing p with
  | zero => exact h.fieldsAtMost
  | succ rounds ih =>
    rcases hfield : readField bigEndian p with ⟨e | embedField, q⟩
    · have hkeeps := keeps_readField bigEndian p h.fieldsAtMost
      rw [hfield] at hkeeps
      rw [readFields, bind_of_error hfield]
      exact hkeeps
    · obtain ⟨f, rfl, hunread, rfl⟩ := readField_eq_ok hfield
      rw [readFields, store_of_ok hfield]
      exact ih (bounded_emplaceBack h hunread)

theorem fieldsAtMost_read (content : List UInt8) :
    FieldsAtMost content.length (read bigEndian (new content)).2 := by
  rcases hheader : readHeader bigEndian (new content) with ⟨e | size, q⟩
  · have hkeeps : FieldsAtMost content.length (readHeader bigEndian (new content)).2 :=
      keeps_readHeader bigEndian _ (Nat.zero_le _)
    rw [hheader] at hkeeps
    rw [read, bind_of_error hheader]
    exact hkeeps
  · obtain ⟨e, rfl, hunread, rfl⟩ := readHeader_eq_ok hheader
    have hlength : content.length = e.bytes.length + _ :=
      (congrArg List.length hunread).trans List.length_append
    have hbounded : Bounded content.length ((new content).withHeader e) := by
      refine ⟨Nat.zero_le _, ?_, rfl⟩
      simp only [withHeader, advance, new, ByteBuffer.skip, ByteBuffer.ofMessage]
      omega
    rw [read, bind_of_ok hheader]
    refine snd_bind (fieldsAtMost_readFields bigEndian _ hbounded) fun _ => ?_
    exact .bind (keeps_extract _) fun _ => keeps_modify fun _ h => h

/-- **Reading is bounded by the size of the message**, whatever number of fields is in it.  A read
that returns has found a message and has exactly as many fields as this message says; if there is
no message to find, an exception is thrown. -/
theorem read_bounded (content : List UInt8) :
    (read bigEndian (new content)).2.embedFields.length ≤ content.length / 3 ∧
      ((read bigEndian (new content)).1 = .ok () ∧
          (∃ (m : EmbedContent) (rest : List UInt8), content = m.bytes ++ rest ∧
            (read bigEndian (new content)).2 = m.packet content ∧
            (read bigEndian (new content)).2.embedFields.length =
              m.header.embedFieldsSize.toNat) ∧
          (read bigEndian (new content)).2.embedFields.length =
            (read bigEndian (new content)).2.embedFieldsSize.toNat ∧
          (read bigEndian (new content)).2.worldPacket.rpos ≤
            (read bigEndian (new content)).2.worldPacket.size ∨
        (∃ e, (read bigEndian (new content)).1 = .error e) ∧
          ∀ (m : EmbedContent) (rest : List UInt8), content ≠ m.bytes ++ rest) := by
  have hfields : 3 * (read bigEndian (new content)).2.embedFields.length ≤ content.length :=
    fieldsAtMost_read bigEndian content
  refine ⟨by omega, ?_⟩
  rcases hread : read bigEndian (new content) with ⟨e | _, p⟩
  · refine .inr ⟨⟨e, rfl⟩, ?_⟩
    intro m rest hcontent
    have hok : read bigEndian (new content) = (.ok (), m.packet content) :=
      read_eq_ok_iff.2 ⟨m, rest, hcontent, rfl⟩
    rw [hread] at hok
    cases hok
  · left
    obtain ⟨m, rest, hcontent, rfl⟩ := read_eq_ok_iff.1 hread
    have hlength := congrArg List.length hcontent
    rw [List.length_append] at hlength
    have hsize : (m.packet content).embedFields.length = m.header.embedFieldsSize.toNat := by
      simp only [EmbedContent.packet, List.length_map, m.length_fields]
    refine ⟨rfl, ⟨m, rest, hcontent, rfl, hsize⟩, hsize, ?_⟩
    simp only [EmbedContent.packet, ByteBuffer.skip, ByteBuffer.ofMessage, ByteBuffer.size]
    omega

/-- A message with the field `a: b`. -/
def oneField : EmbedContent where
  header := ⟨1, 0, ⟨[116], by decide +kernel⟩, emptyText, 1⟩
  fields := [⟨⟨[97], by decide +kernel⟩, ⟨[98], by decide +kernel⟩, 1⟩]
  length_fields := rfl
  timestamp := 0

theorem read_bounded_oneField :
    (read false (new oneField.bytes)).1 = .ok () ∧
      (read false (new oneField.bytes)).2.embedFields = [⟨[97], [98], true⟩] := by
  rcases (read_bounded false oneField.bytes).2 with ⟨hok, -⟩ | ⟨-, hnone⟩
  · have hread : read false (new oneField.bytes) = (.ok (), oneField.packet oneField.bytes) :=
      read_eq_ok_iff.2 ⟨oneField, [], (List.append_nil _).symm, rfl⟩
    exact ⟨hok, by rw [hread]; rfl⟩
  · exact absurd (List.append_nil _).symm (hnone oneField [])

end SendDiscordEmbedMessage

end WarheadDiscord
