import Mathlib.Data.List.Basic
import Mathlib.Data.Nat.Basic

/-!
# The socket's byte buffer

`MessageBuffer` is a vector of bytes with two cursors.  Bytes are written at
`wpos` and taken at `rpos`; what lies between is the active part.  The class
checks no bound: `Write` copies to wherever `wpos` points and the two
`Completed` calls only move a cursor.  `Valid` is the order of the cursors that
its callers have to keep, and each operation below comes with the bound under
which it keeps that order and with what it does to the active bytes.

`size_type` subtraction wraps in the source.  Here it truncates; on a valid buffer
neither happens.

## Main definitions

* `MessageBuffer` — storage and cursors.
* `MessageBuffer.active` — the bytes between the cursors.
* `MessageBuffer.Valid` — `rpos ≤ wpos ≤ size`.
-/

namespace WarheadDiscord

/-- The size of a fresh buffer. -/
def READ_BLOCK_SIZE : ℕ := 4096

/-- `std::vector::resize`: truncate, or extend with zeros. -/
def resizeBytes (storage : List UInt8) (bytes : ℕ) : List UInt8 :=
  storage.take bytes ++ List.replicate (bytes - storage.length) 0

@[simp] theorem length_resizeBytes (storage : List UInt8) (bytes : ℕ) :
    (resizeBytes storage bytes).length = bytes := by
  simp only [resizeBytes, List.length_append, List.length_take, List.length_replicate]
  omega

/-- Growing a vector keeps what it held. -/
theorem take_resizeBytes {storage : List UInt8} {bytes n : ℕ} (hn : n ≤ storage.length)
    (hb : n ≤ bytes) : (resizeBytes storage bytes).take n = storage.take n := by
  rw [resizeBytes, List.take_append_of_le_length (by rw [List.length_take]; omega),
    List.take_take, Nat.min_eq_left hb]

/-- A byte vector, the position bytes are written at and the position they are
taken from. -/
structure MessageBuffer where
  wpos : ℕ
  rpos : ℕ
  storage : List UInt8
  deriving DecidableEq, Repr

namespace MessageBuffer

/-- `MessageBuffer(initialSize)`. -/
def ofSize (initialSize : ℕ) : MessageBuffer := ⟨0, 0, List.replicate initialSize 0⟩

/-- The default constructor. -/
def new : MessageBuffer := ofSize READ_BLOCK_SIZE

def reset (b : MessageBuffer) : MessageBuffer := { b with wpos := 0, rpos := 0 }

/-- Only the storage changes: the cursors stay where they are. -/
def resize (b : MessageBuffer) (bytes : ℕ) : MessageBuffer :=
  { b with storage := resizeBytes b.storage bytes }

def readCompleted (b : MessageBuffer) (bytes : ℕ) : MessageBuffer :=
  { b with rpos := b.rpos + bytes }

def writeCompleted (b : MessageBuffer) (bytes : ℕ) : MessageBuffer :=
  { b with wpos := b.wpos + bytes }

def getActiveSize (b : MessageBuffer) : ℕ := b.wpos - b.rpos

def getRemainingSpace (b : MessageBuffer) : ℕ := b.storage.length - b.wpos

def hasActiveSize (b : MessageBuffer) : Bool := 0 < b.getActiveSize

def hasRemainingSpace (b : MessageBuffer) : Bool := 0 < b.getRemainingSpace

/-- What `GetReadPointer` points at, as far as the storage goes. -/
def readPointer (b : MessageBuffer) : List UInt8 := b.storage.drop b.rpos

/-- Discards inactive data. -/
def normalize (b : MessageBuffer) : MessageBuffer :=
  if b.rpos = 0 then b
  else
    -- memmove of the active part to the front; the bytes behind it stay
    let moved := b.readPointer.take b.getActiveSize
    { wpos := b.wpos - b.rpos
      rpos := 0
      storage := if b.rpos = b.wpos then b.storage
        else moved ++ b.storage.drop moved.length }

/-- Ensures there is some free space. -/
def ensureFreeSpace (b : MessageBuffer) : MessageBuffer :=
  if b.getRemainingSpace = 0 then b.resize (b.storage.length * 3 / 2) else b

/-- The bytes copied to `GetWritePointer()`; the cursor does not move. -/
def copyAtWritePointer (b : MessageBuffer) (data : List UInt8) : MessageBuffer :=
  { b with storage := b.storage.take b.wpos ++ data ++ b.storage.drop (b.wpos + data.length) }

/-- An object overlaid at `GetReadPointer()` and modified in place. -/
def copyAtReadPointer (b : MessageBuffer) (data : List UInt8) : MessageBuffer :=
  { b with storage := b.storage.take b.rpos ++ data ++ b.storage.drop (b.rpos + data.length) }

def write (b : MessageBuffer) (data : List UInt8) : MessageBuffer :=
  if data.length = 0 then b else (b.copyAtWritePointer data).writeCompleted data.length

/-- `Move`: the storage is handed over, an emptied buffer stays behind. -/
def move (b : MessageBuffer) : List UInt8 × MessageBuffer := (b.storage, ⟨0, 0, []⟩)

/-- The bytes written and not yet taken. -/
def active (b : MessageBuffer) : List UInt8 := b.readPointer.take b.getActiveSize

/-- The order of the cursors every caller has to keep. -/
structure Valid (b : MessageBuffer) : Prop where
  rpos_le : b.rpos ≤ b.wpos
  wpos_le : b.wpos ≤ b.storage.length

variable {b : MessageBuffer}

theorem active_eq (b : MessageBuffer) :
    b.active = (b.storage.take b.wpos).drop b.rpos := by
  simp only [active, readPointer, getActiveSize, List.drop_take]

theorem length_active (h : b.Valid) : b.active.length = b.getActiveSize := by
  rw [active_eq, List.length_drop, List.length_take, getActiveSize,
    Nat.min_eq_left h.wpos_le]

theorem hasActiveSize_eq_true : b.hasActiveSize = true ↔ 0 < b.getActiveSize := by
  simp [hasActiveSize]

/-- A buffer whose bytes are all read has no active size. -/
theorem hasActiveSize_of_active_eq_nil (h : b.Valid) (hnil : b.active = []) :
    b.hasActiveSize = false := by
  rw [← Bool.not_eq_true, hasActiveSize_eq_true, ← length_active h, hnil]
  simp

theorem hasRemainingSpace_eq_true : b.hasRemainingSpace = true ↔ 0 < b.getRemainingSpace := by
  simp [hasRemainingSpace]

/-! ## Construction, `Reset` and `Resize` -/

theorem valid_ofSize (n : ℕ) : (ofSize n).Valid := ⟨le_rfl, by simp [ofSize]⟩

@[simp] theorem active_ofSize (n : ℕ) : (ofSize n).active = [] := rfl

theorem valid_reset (b : MessageBuffer) : b.reset.Valid := ⟨le_rfl, by simp [reset]⟩

@[simp] theorem active_reset (b : MessageBuffer) : b.reset.active = [] := by
  simp [active_eq, reset]

theorem valid_resize (h : b.Valid) {n : ℕ} (hn : b.wpos ≤ n) : (b.resize n).Valid :=
  ⟨h.rpos_le, by simpa [resize] using hn⟩

theorem active_resize (h : b.Valid) {n : ℕ} (hn : b.wpos ≤ n) :
    (b.resize n).active = b.active := by
  simp only [active_eq, resize, take_resizeBytes h.wpos_le hn]

/-! ## Writing -/

@[simp] theorem wpos_write (b : MessageBuffer) (data : List UInt8) :
    (b.write data).wpos = b.wpos + data.length := by
  by_cases hd : data.length = 0
  · simp [write, hd]
  · simp [write, hd, writeCompleted, copyAtWritePointer]

@[simp] theorem rpos_write (b : MessageBuffer) (data : List UInt8) :
    (b.write data).rpos = b.rpos := by
  by_cases hd : data.length = 0 <;> simp [write, hd, writeCompleted, copyAtWritePointer]

theorem length_storage_write {data : List UInt8}
    (hd : b.wpos + data.length ≤ b.storage.length) :
    (b.write data).storage.length = b.storage.length := by
  by_cases h0 : data.length = 0
  · simp [write, h0]
  · simp only [write, h0, if_false, writeCompleted, copyAtWritePointer, List.length_append,
      List.length_take, List.length_drop]
    omega

theorem valid_write (h : b.Valid) {data : List UInt8}
    (hd : data.length ≤ b.getRemainingSpace) : (b.write data).Valid := by
  have hw := h.wpos_le
  simp only [getRemainingSpace] at hd
  have hl : (b.write data).storage.length = b.storage.length := length_storage_write (by omega)
  constructor
  · rw [rpos_write, wpos_write]; exact le_trans h.rpos_le (Nat.le_add_right _ _)
  · rw [wpos_write, hl]; omega

/-- Writing within the remaining space appends to the active bytes. -/
theorem active_write (h : b.Valid) (data : List UInt8) :
    (b.write data).active = b.active ++ data := by
  by_cases h0 : data.length = 0
  · simp [write, List.length_eq_zero_iff.mp h0]
  · have hlen : (b.storage.take b.wpos ++ data).length = b.wpos + data.length := by
      rw [List.length_append, List.length_take, Nat.min_eq_left h.wpos_le]
    rw [active_eq, active_eq]
    simp only [write, h0, if_false, writeCompleted, copyAtWritePointer]
    rw [List.take_append_of_le_length (Nat.le_of_eq hlen.symm), ← hlen, List.take_length,
      List.drop_append_of_le_length]
    rw [List.length_take, Nat.min_eq_left h.wpos_le]
    exact h.rpos_le

theorem getRemainingSpace_write {data : List UInt8} (h : b.Valid)
    (hd : data.length ≤ b.getRemainingSpace) :
    (b.write data).getRemainingSpace = b.getRemainingSpace - data.length := by
  have hw := h.wpos_le
  simp only [getRemainingSpace] at hd ⊢
  rw [length_storage_write (by omega), wpos_write]
  omega

/-- A completed asynchronous read: the bytes were put at the write pointer by the
operating system, the cursor follows. -/
theorem writeCompleted_copy (b : MessageBuffer) {data : List UInt8} (hd : data ≠ []) :
    (b.copyAtWritePointer data).writeCompleted data.length = b.write data := by
  simp [write, hd]

/-! ## Taking -/

theorem valid_readCompleted (h : b.Valid) {n : ℕ} (hn : n ≤ b.getActiveSize) :
    (b.readCompleted n).Valid := by
  have := h.rpos_le
  simp only [getActiveSize] at hn
  exact ⟨by simp only [readCompleted]; omega, h.wpos_le⟩

theorem active_readCompleted (b : MessageBuffer) (n : ℕ) :
    (b.readCompleted n).active = b.active.drop n := by
  simp [active_eq, readCompleted, List.drop_drop]

theorem getActiveSize_readCompleted (b : MessageBuffer) (n : ℕ) :
    (b.readCompleted n).getActiveSize = b.getActiveSize - n := by
  simp only [getActiveSize, readCompleted]
  omega

/-- What a caller copies from the read pointer is the front of the active part. -/
theorem take_readPointer {n : ℕ} (hn : n ≤ b.getActiveSize) :
    b.readPointer.take n = b.active.take n := by
  rw [active, List.take_take, Nat.min_eq_left hn]

/-- An object as long as the buffer replaces it. -/
theorem storage_copyAtReadPointer {data : List UInt8} (hr : b.rpos = 0)
    (hd : b.storage.length ≤ data.length) : (b.copyAtReadPointer data).storage = data := by
  simp only [copyAtReadPointer, hr, List.take_zero, List.nil_append, Nat.zero_add]
  rw [List.drop_eq_nil_of_le hd, List.append_nil]

/-! ## Making room -/

@[simp] theorem rpos_normalize (b : MessageBuffer) : b.normalize.rpos = 0 := by
  by_cases h : b.rpos = 0 <;> simp [normalize, h]

@[simp] theorem wpos_normalize (b : MessageBuffer) :
    b.normalize.wpos = b.wpos - b.rpos := by
  by_cases h : b.rpos = 0 <;> simp [normalize, h]

theorem length_storage_normalize (h : b.Valid) :
    b.normalize.storage.length = b.storage.length := by
  have hl := length_active h
  have hw := h.wpos_le
  simp only [active, getActiveSize] at hl
  by_cases h0 : b.rpos = 0
  · simp [normalize, h0]
  · by_cases h1 : b.rpos = b.wpos
    · have h2 : b.wpos ≠ 0 := h1 ▸ h0
      simp [normalize, h1, h2]
    · simp only [normalize, h0, h1, if_false, List.length_append, List.length_drop,
        getActiveSize, hl]
      omega

theorem valid_normalize (h : b.Valid) : b.normalize.Valid := by
  refine ⟨by simp, ?_⟩
  have := h.wpos_le
  rw [length_storage_normalize h, wpos_normalize]
  omega

/-- Normalizing moves the active bytes to the front and leaves them as they are. -/
theorem active_normalize (h : b.Valid) : b.normalize.active = b.active := by
  have hl := length_active h
  by_cases h0 : b.rpos = 0
  · simp [normalize, h0]
  · by_cases h1 : b.rpos = b.wpos
    · have he : b.active = [] := List.length_eq_zero_iff.mp (by rw [hl, getActiveSize]; omega)
      have hn : b.normalize.getActiveSize = 0 := by simp [getActiveSize, h1]
      rw [he, active, hn, List.take_zero]
    · rw [active_eq b.normalize, rpos_normalize, wpos_normalize, List.drop_zero]
      simp only [normalize, h0, h1, if_false]
      change (b.active ++ _).take b.getActiveSize = b.active
      rw [List.take_append_of_le_length (Nat.le_of_eq hl.symm),
        List.take_of_length_le (Nat.le_of_eq hl)]

theorem valid_ensureFreeSpace (h : b.Valid) : b.ensureFreeSpace.Valid := by
  have hw := h.wpos_le
  simp only [ensureFreeSpace]
  split
  · exact valid_resize h (by omega)
  · exact h

theorem active_ensureFreeSpace (h : b.Valid) : b.ensureFreeSpace.active = b.active := by
  have hw := h.wpos_le
  simp only [ensureFreeSpace]
  split
  · exact active_resize h (by omega)
  · rfl

/-- A buffer of at least two bytes has room after `EnsureFreeSpace`. -/
theorem getRemainingSpace_ensureFreeSpace_pos (h : b.Valid) (hs : 2 ≤ b.storage.length) :
    0 < b.ensureFreeSpace.getRemainingSpace := by
  have hw := h.wpos_le
  by_cases hr : b.getRemainingSpace = 0
  · have he : b.ensureFreeSpace = b.resize (b.storage.length * 3 / 2) := if_pos hr
    rw [he]
    simp only [getRemainingSpace, resize, length_resizeBytes] at hr ⊢
    omega
  · simp only [ensureFreeSpace, hr, if_false]
    omega

theorem le_length_storage_ensureFreeSpace (b : MessageBuffer) :
    b.storage.length ≤ b.ensureFreeSpace.storage.length := by
  simp only [ensureFreeSpace]
  split
  · simp only [resize, length_resizeBytes]; omega
  · exact le_rfl

end MessageBuffer
end WarheadDiscord
