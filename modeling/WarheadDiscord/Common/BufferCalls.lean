import Mathlib.Algebra.GroupWithZero.Nat
import WarheadDiscord.Common.MessageBuffer
import WarheadDiscord.Lib.Machine

/-!
# The calls of `MessageBuffer`, as the machine runs them

All sizes of the class are 64-bit words and every one it computes is a difference, so a
cursor out of order becomes a huge length handed to `memmove` or to the socket.  `call`
is a member function with that arithmetic; it is `none` where memory outside the storage
is touched.  `InBounds` is the bound the caller of a function has to keep.  Within the
bounds, on a buffer whose cursors are in order, no word wraps and the call is the plain
operation of `MessageBuffer`.

`Heap` is a set of buffers on which calls, constructions, copies and moves are made in
any order.  An allocation that the memory cannot serve throws and changes nothing: no
such step is taken.  The memory of a machine ends far below a third of what a word
counts, so `size * 3` does not wrap.

## Main definitions

* `MessageBuffer.Op`, `MessageBuffer.apply` — the member functions.
* `MessageBuffer.InBounds` — what their callers have to keep.
* `MessageBuffer.call` — the functions in 64-bit arithmetic.
* `Heap`, `Heap.next` — buffers and what is done to them.
-/

namespace WarheadDiscord

namespace MessageBuffer

/-- The member functions that change a buffer, with their arguments. -/
inductive Op
  | reset
  | resize (bytes : ℕ)
  | readCompleted (bytes : ℕ)
  | writeCompleted (bytes : ℕ)
  | write (data : List UInt8)
  | normalize
  | ensureFreeSpace
  /-- `Move` only hands out a reference to the storage.  Its receiver decides what is left
  of it. -/
  | move (left : List UInt8)
  deriving DecidableEq, Repr

/-- What a call does. -/
def apply (b : MessageBuffer) : Op → MessageBuffer
  | .reset => b.reset
  | .resize bytes => b.resize bytes
  | .readCompleted bytes => b.readCompleted bytes
  | .writeCompleted bytes => b.writeCompleted bytes
  | .write data => b.write data
  | .normalize => b.normalize
  | .ensureFreeSpace => b.ensureFreeSpace
  | .move left => ⟨0, 0, left⟩

/-- What the caller has to keep. -/
def InBounds (b : MessageBuffer) : Op → Prop
  | .resize bytes => b.wpos ≤ bytes
  | .readCompleted bytes => bytes ≤ b.getActiveSize
  | .writeCompleted bytes => bytes ≤ b.getRemainingSpace
  | .write data => data.length ≤ b.getRemainingSpace
  | _ => True

instance (b : MessageBuffer) (op : Op) : Decidable (b.InBounds op) :=
  match op with
  | .resize _ | .readCompleted _ | .writeCompleted _ | .write _ =>
      inferInstanceAs (Decidable (_ ≤ _))
  | .reset | .normalize | .ensureFreeSpace | .move _ => inferInstanceAs (Decidable True)

instance (b : MessageBuffer) : Decidable b.Valid :=
  decidable_of_iff (b.rpos ≤ b.wpos ∧ b.wpos ≤ b.storage.length)
    ⟨fun h => ⟨h.1, h.2⟩, fun h => ⟨h.rpos_le, h.wpos_le⟩⟩

variable {b : MessageBuffer} {op : Op}

/-- **A call within its bounds keeps the order of the cursors.** -/
theorem valid_apply (h : b.Valid) (hop : b.InBounds op) : (b.apply op).Valid := by
  cases op with
  | reset => exact valid_reset b
  | resize bytes => exact valid_resize h hop
  | readCompleted bytes => exact valid_readCompleted h hop
  | writeCompleted bytes =>
      have hw := h.wpos_le
      have hr := h.rpos_le
      simp only [InBounds, getRemainingSpace] at hop
      constructor <;> simp only [apply, writeCompleted] <;> omega
  | write data => exact valid_write h hop
  | normalize => exact valid_normalize h
  | ensureFreeSpace => exact valid_ensureFreeSpace h
  | move left => exact ⟨le_rfl, Nat.zero_le _⟩

/-! ## In 64-bit words -/

/-- What a `size_type` can count. -/
def SIZE_LIMIT : ℕ := 2 ^ 64

/-- `size_type` subtraction. -/
def sizeSub (a b : ℕ) : ℕ := (a + SIZE_LIMIT - b) % SIZE_LIMIT

/-- `GetActiveSize`, as a word. -/
def activeSizeWord (b : MessageBuffer) : ℕ := sizeSub b.wpos b.rpos

/-- `GetRemainingSpace`, as a word. -/
def remainingSpaceWord (b : MessageBuffer) : ℕ := sizeSub b.storage.length b.wpos

/-- A call in 64-bit arithmetic; `none` when it touches memory outside the storage. -/
def call (b : MessageBuffer) : Op → Option MessageBuffer
  | .reset => some { b with wpos := 0, rpos := 0 }
  | .resize bytes => some { b with storage := resizeBytes b.storage bytes }
  | .readCompleted bytes => some { b with rpos := (b.rpos + bytes) % SIZE_LIMIT }
  | .writeCompleted bytes => some { b with wpos := (b.wpos + bytes) % SIZE_LIMIT }
  | .write data =>
      if data.length = 0 then some b
      else if b.wpos + data.length ≤ b.storage.length then
        some { b.copyAtWritePointer data with wpos := (b.wpos + data.length) % SIZE_LIMIT }
      else none
  | .normalize =>
      if b.rpos = 0 then some b
      else if b.rpos = b.wpos then
        some { b with wpos := sizeSub b.wpos b.rpos, rpos := 0 }
      else if b.rpos + b.activeSizeWord ≤ b.storage.length then
        some
          { wpos := sizeSub b.wpos b.rpos
            rpos := 0
            storage := b.readPointer.take b.activeSizeWord ++ b.storage.drop b.activeSizeWord }
      else none
  | .ensureFreeSpace =>
      if b.remainingSpaceWord = 0 then
        some { b with storage := resizeBytes b.storage (b.storage.length * 3 % SIZE_LIMIT / 2) }
      else some b
  | .move left => some ⟨0, 0, left⟩

theorem sizeSub_eq {m n : ℕ} (hle : n ≤ m) (hm : m < SIZE_LIMIT) : sizeSub m n = m - n := by
  have hsum : m + SIZE_LIMIT - n = (m - n) + SIZE_LIMIT := by omega
  rw [sizeSub, hsum, Nat.add_mod_right, Nat.mod_eq_of_lt (by omega)]

theorem activeSizeWord_eq (h : b.Valid) (hs : b.storage.length < SIZE_LIMIT) :
    b.activeSizeWord = b.getActiveSize :=
  sizeSub_eq h.rpos_le (lt_of_le_of_lt h.wpos_le hs)

theorem remainingSpaceWord_eq (h : b.Valid) (hs : b.storage.length < SIZE_LIMIT) :
    b.remainingSpaceWord = b.getRemainingSpace :=
  sizeSub_eq h.wpos_le hs

theorem call_normalize (h : b.Valid) (hs : b.storage.length < SIZE_LIMIT) :
    b.call .normalize = some b.normalize := by
  have hw := h.wpos_le
  have hr := h.rpos_le
  have hword := activeSizeWord_eq h hs
  have hlen : (b.readPointer.take b.getActiveSize).length = b.getActiveSize := length_active h
  have hsub : sizeSub b.wpos b.rpos = b.wpos - b.rpos := hword
  by_cases h0 : b.rpos = 0
  · simp only [call, normalize, h0, if_true]
  · by_cases h1 : b.rpos = b.wpos
    · simp only [call, normalize, h0, if_false, if_pos h1, hsub]
    · have hin : b.rpos + b.getActiveSize ≤ b.storage.length := by
        simp only [getActiveSize]
        omega
      simp only [call, normalize, h0, h1, if_false, hword, hsub, if_pos hin, hlen]

theorem call_ensureFreeSpace (h : b.Valid) (hs : 3 * b.storage.length < SIZE_LIMIT) :
    b.call .ensureFreeSpace = some b.ensureFreeSpace := by
  have hword := remainingSpaceWord_eq h (by omega)
  have hsize : b.storage.length * 3 % SIZE_LIMIT = b.storage.length * 3 :=
    Nat.mod_eq_of_lt (by omega)
  simp only [call, ensureFreeSpace, hword, hsize, resize]
  split <;> rfl

/-- **Within the bounds no word wraps and no foreign memory is touched.** -/
theorem call_eq (h : b.Valid) (hs : 3 * b.storage.length < SIZE_LIMIT) (hop : b.InBounds op) :
    b.call op = some (b.apply op) := by
  have hw := h.wpos_le
  have hr := h.rpos_le
  cases op with
  | reset => rfl
  | resize bytes => rfl
  | readCompleted bytes =>
      simp only [InBounds, getActiveSize] at hop
      have hsum : (b.rpos + bytes) % SIZE_LIMIT = b.rpos + bytes := Nat.mod_eq_of_lt (by omega)
      simp only [call, apply, readCompleted, hsum]
  | writeCompleted bytes =>
      simp only [InBounds, getRemainingSpace] at hop
      have hsum : (b.wpos + bytes) % SIZE_LIMIT = b.wpos + bytes := Nat.mod_eq_of_lt (by omega)
      simp only [call, apply, writeCompleted, hsum]
  | write data =>
      simp only [InBounds, getRemainingSpace] at hop
      have hin : b.wpos + data.length ≤ b.storage.length := by omega
      have hsum : (b.wpos + data.length) % SIZE_LIMIT = b.wpos + data.length :=
        Nat.mod_eq_of_lt (by omega)
      simp only [call, apply, write, hsum, if_pos hin]
      split <;> rfl
  | normalize => exact call_normalize h (by omega)
  | ensureFreeSpace => exact call_ensureFreeSpace h hs
  | move left => rfl

end MessageBuffer

/-! ## Buffers and what is done to them -/

open MessageBuffer

/-- The buffers that exist. -/
structure Heap where
  buffers : ℕ → Option MessageBuffer := fun _ => none
  /-- Memory outside a storage was touched. -/
  fault : Bool := false

namespace Heap

def set (h : Heap) (i : ℕ) (b : MessageBuffer) : Heap :=
  { h with buffers := fun j => if j = i then some b else h.buffers j }

/-- What can be done to the buffers. -/
inductive Label
  /-- `MessageBuffer(initialSize)`; the default constructor is that of `READ_BLOCK_SIZE`. -/
  | construct (i initialSize : ℕ)
  /-- A member function is called within its bounds. -/
  | call (i : ℕ) (op : Op)
  /-- The copy constructor, and the assignment of a copy. -/
  | copy (i right : ℕ)
  /-- The move constructor, and the assignment of a buffer that is moved. -/
  | move (i right : ℕ) (left : List UInt8)
  deriving DecidableEq, Repr

/-- One step on buffers that live in `memory` bytes.  An allocation that does not fit throws
and changes nothing. -/
def next (memory : ℕ) (h : Heap) : Label → Option Heap
  | .construct i initialSize =>
      if initialSize ≤ memory then some (h.set i (ofSize initialSize)) else none
  | .call i op =>
      match h.buffers i with
      | none => none
      | some b =>
          if b.InBounds op then
            match b.call op with
            | none => some { h with fault := true }
            | some b' => if b'.storage.length ≤ memory then some (h.set i b') else none
          else none
  | .copy i right =>
      match h.buffers right with
      | none => none
      | some b => if i = right then some h else some (h.set i b)
  | .move i right left =>
      match h.buffers right with
      | none => none
      | some b =>
          if i = right then some h
          else if left.length ≤ memory then
            -- the cursors are read before `Move` takes them back
            some ((h.set i b).set right ⟨0, 0, left⟩)
          else none

/-- Every buffer has its cursors in order and fits into the memory. -/
structure Inv (memory : ℕ) (h : Heap) : Prop where
  fault : h.fault = false
  valid : ∀ i b, h.buffers i = some b → b.Valid
  fits : ∀ i b, h.buffers i = some b → b.storage.length ≤ memory

variable {memory : ℕ} {h h' : Heap}

theorem Inv.set (hinv : h.Inv memory) {b : MessageBuffer} (hb : b.Valid)
    (hfits : b.storage.length ≤ memory) (i : ℕ) : (h.set i b).Inv memory := by
  refine ⟨hinv.fault, ?_, ?_⟩
  · intro j c hj
    simp only [Heap.set] at hj
    split at hj
    · cases hj
      exact hb
    · exact hinv.valid j c hj
  · intro j c hj
    simp only [Heap.set] at hj
    split at hj
    · cases hj
      exact hfits
    · exact hinv.fits j c hj

theorem inv_new (memory : ℕ) : Inv memory {} := ⟨rfl, by simp, by simp⟩

/-- One step keeps every buffer in order. -/
theorem inv_next (hmemory : 3 * memory < SIZE_LIMIT) {l : Label} (hinv : h.Inv memory)
    (hnext : h.next memory l = some h') : h'.Inv memory := by
  cases l with
  | construct i initialSize =>
      obtain ⟨hfits, heq⟩ := Option.ite_none_right_eq_some.mp hnext
      cases heq
      exact hinv.set (valid_ofSize initialSize) (by simpa [ofSize] using hfits) i
  | call i op =>
      cases hi : h.buffers i with
      | none => simp [next, hi] at hnext
      | some b =>
          have hvalid := hinv.valid i b hi
          have hfits := hinv.fits i b hi
          simp only [next, hi] at hnext
          obtain ⟨hop, hnext⟩ := Option.ite_none_right_eq_some.mp hnext
          rw [call_eq hvalid (by omega) hop] at hnext
          obtain ⟨hfits', heq⟩ := Option.ite_none_right_eq_some.mp hnext
          cases heq
          exact hinv.set (valid_apply hvalid hop) hfits' i
  | copy i right =>
      cases hright : h.buffers right with
      | none => simp [next, hright] at hnext
      | some b =>
          simp only [next, hright] at hnext
          split at hnext
          · cases hnext
            exact hinv
          · cases hnext
            exact hinv.set (hinv.valid right b hright) (hinv.fits right b hright) i
  | move i right left =>
      cases hright : h.buffers right with
      | none => simp [next, hright] at hnext
      | some b =>
          simp only [next, hright] at hnext
          split at hnext
          · cases hnext
            exact hinv
          · obtain ⟨hfits, heq⟩ := Option.ite_none_right_eq_some.mp hnext
            cases heq
            have hcopied := hinv.set (hinv.valid right b hright) (hinv.fits right b hright) i
            exact hcopied.set ⟨le_rfl, Nat.zero_le _⟩ hfits right

/-- **Every sequence of constructions, calls within bounds, copies and moves** leaves each
buffer with its cursors in order, and never touches foreign memory. -/
theorem inv_run (hmemory : 3 * memory < SIZE_LIMIT) {ls : List Label}
    (hrun : Machine.run (next memory) {} ls = some h) : h.Inv memory :=
  Machine.run_induction (fun _ _ _ => inv_next hmemory) (inv_new memory) hrun

end Heap
end WarheadDiscord
