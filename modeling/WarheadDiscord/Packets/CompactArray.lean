import WarheadDiscord.Packets.ByteBuffer

/-!
# Arrays with a mask

A `CompactArray` has up to 32 places, a mask of the places that have been set, and a vector that ends
behind the last of them.  In a packet stand the mask and the values of the places that are set.

`Insert` asserts that its index is below 32.  Reading never comes to this assertion (`read_spec`),
and what it builds from the bytes of an array is the array (`read_writeArray`): the places that are
skipped get the same zeros.

The elements are numbers of `w` bytes; numbers with a fraction are their bit patterns.

## Main definitions

* `CompactArray` — the array; `CompactArray.insert`, `CompactArray.clear`.
* `CompactArray.write`, `CompactArray.read` — the operators of the packet.
* `CompactArray.Shaped` — the invariant.
-/

namespace WarheadDiscord

open Bytes ByteBuffer

structure CompactArray (w : ℕ) where
  mask : BitVec 32
  contents : List (BitVec (8 * w))
  deriving DecidableEq, Repr

namespace CompactArray

variable {w : ℕ}

def new : CompactArray w := ⟨0, []⟩

/-- `Insert`; `none` when the assertion fails. -/
def insert (a : CompactArray w) (index : ℕ) (value : BitVec (8 * w)) : Option (CompactArray w) :=
  if index < 32 then
    let contents :=
      if a.contents.length ≤ index then
        a.contents ++ List.replicate (index + 1 - a.contents.length) 0
      else a.contents
    some ⟨a.mask ||| 1#32 <<< index, contents.set index value⟩
  else none

def clear (_ : CompactArray w) : CompactArray w := ⟨0, []⟩

/-- The element at a place, zero behind the end. -/
def get (a : CompactArray w) (index : ℕ) : BitVec (8 * w) := a.contents.getD index 0

/-- The loop of `operator<<`. -/
def writeLoop (bigEndian : Bool) (a : CompactArray w) : List ℕ → ByteBuffer → Option ByteBuffer
  | [], buf => some buf
  | i :: is, buf =>
      if a.mask &&& 1#32 <<< i ≠ 0 then
        (buf.appendValue bigEndian (a.get i)).bind fun buf => writeLoop bigEndian a is buf
      else writeLoop bigEndian a is buf

/-- `operator<<` -/
def write (bigEndian : Bool) (buf : ByteBuffer) (a : CompactArray w) : Option ByteBuffer :=
  (buf.appendValue bigEndian (w := 4) a.mask).bind fun buf =>
    writeLoop bigEndian a (List.range a.contents.length) buf

theorem toNat_ushiftRight_one (mask : BitVec 32) : (mask >>> 1).toNat = mask.toNat / 2 := by
  simp [Nat.shiftRight_eq_div_pow]

/-- The loop of `operator>>`; `none` when the assertion of `Insert` fails. -/
def readLoop (bigEndian : Bool) (mask : BitVec 32) (index : ℕ) (a : CompactArray w)
    (buf : ByteBuffer) :
    Option (Except ByteBufferException Unit × CompactArray w × ByteBuffer) :=
  if mask ≠ 0 then
    if mask &&& 1 ≠ 0 then
      match buf.readValue bigEndian w with
      | (.error e, buf) => some (.error e, a, buf)
      | (.ok value, buf) =>
          match a.insert index value with
          | none => none
          | some a => readLoop bigEndian (mask >>> 1) (index + 1) a buf
    else readLoop bigEndian (mask >>> 1) (index + 1) a buf
  else some (.ok (), a, buf)
termination_by mask.toNat
decreasing_by
  all_goals
    have hpos : mask.toNat ≠ 0 := fun h => ‹mask ≠ 0› (BitVec.eq_of_toNat_eq h)
    rw [toNat_ushiftRight_one]
    omega

/-- `operator>>` -/
def read (bigEndian : Bool) (buf : ByteBuffer) (a : CompactArray w) :
    Option (Except ByteBufferException Unit × CompactArray w × ByteBuffer) :=
  match buf.readValue bigEndian 4 with
  | (.error e, buf) => some (.error e, a, buf)
  | (.ok mask, buf) => readLoop bigEndian mask 0 a buf

/-! ## The invariant -/

/-- The vector ends behind the last place that is set, and the other places are zero. -/
structure Shaped (a : CompactArray w) : Prop where
  bound : ∀ i, a.mask.getLsbD i = true → i < a.contents.length
  last : ∀ i, a.contents.length = i + 1 → a.mask.getLsbD i = true
  zero : ∀ i, a.mask.getLsbD i = false → a.get i = 0

variable {a b c : CompactArray w} {index : ℕ} {value : BitVec (8 * w)}

theorem shaped_new : (new : CompactArray w).Shaped where
  bound := by simp [new]
  last := by simp [new]
  zero := by simp [new, get]

theorem Shaped.length_le (h : a.Shaped) (h' : b.Shaped) (hmask : a.mask = b.mask) :
    a.contents.length ≤ b.contents.length := by
  cases hlength : a.contents.length with
  | zero => exact Nat.zero_le _
  | succ i => exact h'.bound i (hmask ▸ h.last i hlength)

/-- An array is known by its mask and its elements. -/
theorem Shaped.ext (h : a.Shaped) (h' : b.Shaped) (hmask : a.mask = b.mask)
    (hget : ∀ i, a.get i = b.get i) : a = b := by
  have hlength : a.contents.length = b.contents.length :=
    le_antisymm (h.length_le h' hmask) (h'.length_le h hmask.symm)
  have hcontents : a.contents = b.contents := by
    apply List.ext_getElem hlength
    intro i hi hi'
    have := hget i
    rwa [get, get, List.getD_eq_getElem _ _ hi, List.getD_eq_getElem _ _ hi'] at this
  cases a
  cases b
  simp_all

theorem getLsbD_or_shiftLeft (mask : BitVec 32) (h : index < 32) (j : ℕ) :
    (mask ||| 1#32 <<< index).getLsbD j = (mask.getLsbD j || decide (j = index)) := by
  rw [BitVec.getLsbD_or, ← BitVec.twoPow_eq, BitVec.getLsbD_twoPow]
  simp [h, eq_comm]

theorem getD_append_replicate (xs : List (BitVec (8 * w))) (n j : ℕ) :
    (xs ++ List.replicate n 0).getD j 0 = xs.getD j 0 := by
  by_cases hj : j < xs.length
  · rw [List.getD_append _ _ _ _ hj]
  · rw [List.getD_append_right _ _ _ _ (by omega), List.getD_eq_default xs 0 (by omega)]
    by_cases hn : j - xs.length < n
    · simp [List.getD, hn]
    · rw [List.getD_eq_default _ _ (by simpa using hn)]

/-- What `Insert` changes. -/
theorem exists_insert (h : index < 32) (a : CompactArray w) (value : BitVec (8 * w)) :
    ∃ b, a.insert index value = some b ∧
      (∀ j, b.mask.getLsbD j = (a.mask.getLsbD j || decide (j = index))) ∧
      (∀ j, b.get j = if j = index then value else a.get j) ∧
      b.contents.length = max a.contents.length (index + 1) := by
  refine ⟨_, by rw [insert, if_pos h], getLsbD_or_shiftLeft a.mask h, ?_, ?_⟩
  · intro j
    dsimp only [get]
    by_cases hj : j = index
    · subst hj
      rw [if_pos rfl]
      split_ifs with hle
      · rw [List.getD_eq_getElem _ _ (by simp; omega)]
        simp
      · rw [List.getD_eq_getElem _ _ (by simp; omega)]
        simp
    · rw [if_neg hj, List.getD, List.getElem?_set_ne (Ne.symm hj), ← List.getD]
      split_ifs
      · exact getD_append_replicate _ _ _
      · rfl
  · dsimp only
    split_ifs with hle
    · simp
      omega
    · simp
      omega

theorem Shaped.insert (h : a.Shaped) (hindex : index < 32)
    (hinsert : a.insert index value = some b) : b.Shaped := by
  obtain ⟨b', hb, hmask, hget, hlength⟩ := exists_insert hindex a value
  rw [hinsert] at hb
  cases hb
  refine ⟨?_, ?_, ?_⟩
  · intro i hi
    rw [hmask, Bool.or_eq_true, decide_eq_true_eq] at hi
    rw [hlength]
    rcases hi with hi | rfl
    · have := h.bound i hi
      omega
    · omega
  · intro i hi
    rw [hmask, Bool.or_eq_true, decide_eq_true_eq]
    by_cases hlt : a.contents.length ≤ index
    · right
      omega
    · left
      exact h.last i (by omega)
  · intro i hi
    rw [hmask, Bool.or_eq_false_iff, decide_eq_false_iff_not] at hi
    rw [hget, if_neg hi.2, h.zero i hi.1]

/-- The calls that change an array. -/
inductive Call (w : ℕ)
  | insert (index : ℕ) (value : BitVec (8 * w))
  | clear

def call (a : CompactArray w) : Call w → Option (CompactArray w)
  | .insert index value => a.insert index value
  | .clear => some a.clear

def run : CompactArray w → List (Call w) → Option (CompactArray w)
  | a, [] => some a
  | a, c :: cs => (a.call c).bind fun a => run a cs

theorem Shaped.run {calls : List (Call w)} (h : a.Shaped) (hrun : a.run calls = some b) :
    b.Shaped := by
  induction calls generalizing a with
  | nil =>
      cases hrun
      exact h
  | cons call calls ih =>
      rw [CompactArray.run, Option.bind_eq_some_iff] at hrun
      obtain ⟨c, hc, hrun⟩ := hrun
      refine ih ?_ hrun
      cases call with
      | clear =>
          cases hc
          exact shaped_new
      | insert index value =>
          by_cases hindex : index < 32
          · exact h.insert hindex hc
          · simp [CompactArray.call, CompactArray.insert, hindex] at hc

/-! ## The packet -/

theorem and_shiftLeft_ne_zero_iff (mask : BitVec 32) (i : ℕ) :
    mask &&& 1#32 <<< i ≠ 0 ↔ mask.getLsbD i = true := by
  rw [← BitVec.twoPow_eq, BitVec.and_twoPow]
  cases hi : mask.getLsbD i with
  | false => simp
  | true =>
      have hlt := BitVec.lt_of_getLsbD hi
      have hne : BitVec.twoPow 32 i ≠ 0 := by
        intro hzero
        have hbit := congrArg (fun x => x.getLsbD i) hzero
        simp [hlt] at hbit
      simpa using hne

/-- The bytes of the places in a list that are set. -/
def elements (a : CompactArray w) (places : List ℕ) : List UInt8 :=
  (places.filter a.mask.getLsbD).flatMap fun i => toLE w (a.get i).toNat

theorem elements_cons_of_true {i : ℕ} {is : List ℕ} (h : a.mask.getLsbD i = true) :
    a.elements (i :: is) = toLE w (a.get i).toNat ++ a.elements is := by
  simp [elements, h]

theorem elements_cons_of_false {i : ℕ} {is : List ℕ} (h : a.mask.getLsbD i = false) :
    a.elements (i :: is) = a.elements is := by
  simp [elements, h]

theorem elements_eq_nil {is : List ℕ} (h : ∀ i ∈ is, a.mask.getLsbD i = false) :
    a.elements is = [] := by
  have hfilter : is.filter a.mask.getLsbD = [] := List.filter_eq_nil_iff.mpr (by simpa using h)
  rw [elements, hfilter, List.flatMap_nil]

theorem elements_append (is is' : List ℕ) :
    a.elements (is ++ is') = a.elements is ++ a.elements is' := by
  simp [elements]

/-- All bytes of an array. -/
def encoded (a : CompactArray w) : List UInt8 :=
  toLE 4 a.mask.toNat ++ a.elements (List.range a.contents.length)

variable (bigEndian : Bool) {buf : ByteBuffer} {rest : List UInt8}

theorem writeLoop_of_wpos_eq (a : CompactArray w) (is : List ℕ) (hpos : 0 < w)
    (hw : buf.wpos = buf.size) (hsize : buf.size + w * is.length < 10000000) :
    writeLoop bigEndian a is buf =
      some ⟨buf.storage ++ a.elements is, buf.rpos, buf.size + (a.elements is).length⟩ := by
  induction is generalizing buf with
  | nil => simp [writeLoop, elements, ← hw]
  | cons i is ih =>
      rw [List.length_cons, Nat.mul_succ] at hsize
      rw [writeLoop]
      cases h : a.mask.getLsbD i with
      | false =>
          rw [if_neg (by rw [and_shiftLeft_ne_zero_iff, h]; nofun), elements_cons_of_false h]
          exact ih hw (by omega)
      | true =>
          have hlength : (buf.storage ++ toLE w (a.get i).toNat).length = buf.size + w := by
            rw [List.length_append, length_toLE, size]
          rw [if_pos ((and_shiftLeft_ne_zero_iff _ _).mpr h), elements_cons_of_true h,
            appendValue_of_wpos_eq bigEndian (a.get i) hw hpos (by omega), Option.bind_some,
            ih hlength.symm (by rw [size, hlength]; omega)]
          simp [size, Nat.add_assoc]

theorem Shaped.length_le_32 (h : a.Shaped) : a.contents.length ≤ 32 := by
  cases hlength : a.contents.length with
  | zero => exact Nat.zero_le _
  | succ i => exact BitVec.lt_of_getLsbD (h.last i hlength)

/-- **`operator<<` puts the bytes of an array behind the others.** -/
theorem write_of_wpos_eq (h : a.Shaped) (hpos : 0 < w) (hw : buf.wpos = buf.size)
    (hsize : buf.size + 4 + 32 * w < 10000000) :
    write bigEndian buf a =
      some ⟨buf.storage ++ a.encoded, buf.rpos, buf.size + a.encoded.length⟩ := by
  have hmul : w * a.contents.length ≤ 32 * w := by
    rw [Nat.mul_comm 32]
    exact Nat.mul_le_mul_left w h.length_le_32
  have hlength : (buf.storage ++ toLE 4 a.mask.toNat).length = buf.size + 4 := by
    rw [List.length_append, length_toLE, size]
  have hmask := appendValue_of_wpos_eq bigEndian (w := 4) a.mask hw (by decide) (by omega)
  rw [write, hmask, Option.bind_some, writeLoop_of_wpos_eq bigEndian a _ hpos hlength.symm]
  · simp [encoded, size, Nat.add_assoc]
  · rw [size, hlength, List.length_range]
    omega

theorem elements_range (h : a.Shaped) :
    a.elements (List.range a.contents.length) = a.elements (List.range' 0 32) := by
  obtain ⟨k, hk⟩ := Nat.exists_eq_add_of_le h.length_le_32
  have hrest : a.elements (List.range' (0 + a.contents.length) k) = [] := by
    apply elements_eq_nil
    intro i hi
    rw [List.mem_range'_1] at hi
    rw [← Bool.not_eq_true]
    intro hbit
    have := h.bound i hbit
    omega
  rw [hk, ← List.range'_append_1, elements_append, hrest, List.append_nil, List.range_eq_range']

theorem getLsbD_of_ushiftRight_eq_zero {mask : BitVec 32} {i j : ℕ} (h : mask >>> i = 0)
    (hj : i ≤ j) : mask.getLsbD j = false := by
  have hbit := congrArg (fun x => x.getLsbD (j - i)) h
  simpa [BitVec.getLsbD_ushiftRight, Nat.add_sub_cancel' hj] using hbit

/-- No more places come. -/
theorem Shaped.eq_of_ushiftRight_eq_zero {i : ℕ} (ha : a.Shaped) (hc : c.Shaped)
    (hmask : ∀ j, c.mask.getLsbD j = (a.mask.getLsbD j && decide (j < i)))
    (hget : ∀ j < i, c.get j = a.get j) (hzero : a.mask >>> i = 0) : c = a := by
  have hbits : ∀ j, c.mask.getLsbD j = a.mask.getLsbD j := by
    intro j
    rw [hmask]
    by_cases hj : j < i
    · simp [hj]
    · rw [getLsbD_of_ushiftRight_eq_zero hzero (by omega), Bool.false_and]
  refine hc.ext ha (BitVec.eq_of_getLsbD_eq fun j _ => hbits j) ?_
  intro j
  by_cases hj : j < i
  · exact hget j hj
  · have hbit := getLsbD_of_ushiftRight_eq_zero hzero (Nat.le_of_not_lt hj)
    rw [ha.zero j hbit, hc.zero j (by rw [hbits, hbit])]

theorem readLoop_of_ushiftRight_eq_zero {i : ℕ} (is : List ℕ) (ha : a.Shaped) (hc : c.Shaped)
    (hmask : ∀ j, c.mask.getLsbD j = (a.mask.getLsbD j && decide (j < i)))
    (hget : ∀ j < i, c.get j = a.get j) (his : ∀ j ∈ is, i ≤ j) (hzero : a.mask >>> i = 0) :
    readLoop bigEndian (a.mask >>> i) i c buf =
      some (.ok (), a, buf.skip (a.elements is).length) := by
  have hnil : a.elements is = [] :=
    elements_eq_nil fun j hj => getLsbD_of_ushiftRight_eq_zero hzero (his j hj)
  rw [readLoop, if_neg (not_not_intro hzero), hnil,
    ha.eq_of_ushiftRight_eq_zero hc hmask hget hzero]
  rfl

/-- The places that come are those of `a`, and `c` has the ones in front of them. -/
theorem readLoop_of_unread {i n : ℕ} (hn : i + n = 32) (hpos : 0 < w) (ha : a.Shaped)
    (hc : c.Shaped) (hmask : ∀ j, c.mask.getLsbD j = (a.mask.getLsbD j && decide (j < i)))
    (hget : ∀ j < i, c.get j = a.get j)
    (hunread : buf.unread = a.elements (List.range' i n) ++ rest) :
    readLoop bigEndian (a.mask >>> i) i c buf =
      some (.ok (), a, buf.skip (a.elements (List.range' i n)).length) := by
  have hplaces : ∀ j ∈ List.range' i n, i ≤ j := fun j hj => (List.mem_range'_1.mp hj).1
  induction n generalizing i c buf with
  | zero =>
      have hzero : a.mask >>> i = 0 := BitVec.ushiftRight_eq_zero (by omega)
      exact readLoop_of_ushiftRight_eq_zero bigEndian _ ha hc hmask hget hplaces hzero
  | succ n ih =>
      by_cases hzero : a.mask >>> i = 0
      · exact readLoop_of_ushiftRight_eq_zero bigEndian _ ha hc hmask hget hplaces hzero
      · have hi : i < 32 := by omega
        have hlow : a.mask >>> i &&& 1 ≠ 0 ↔ a.mask.getLsbD i = true := by
          have := and_shiftLeft_ne_zero_iff (a.mask >>> i) 0
          simpa using this
        have hnext : a.mask >>> i >>> 1 = a.mask >>> (i + 1) := (BitVec.shiftRight_add _ _ _).symm
        have hplaces' : ∀ j ∈ List.range' (i + 1) n, i + 1 ≤ j :=
          fun j hj => (List.mem_range'_1.mp hj).1
        rw [List.range'_succ] at hunread ⊢
        rw [readLoop, if_pos hzero]
        cases hbit : a.mask.getLsbD i with
        | false =>
            rw [elements_cons_of_false hbit] at hunread ⊢
            rw [if_neg (by rw [hlow, hbit]; nofun), hnext]
            refine ih (by omega) hc ?_ ?_ hunread hplaces'
            · intro j
              rw [hmask]
              by_cases hj : j = i
              · simp [hj, hbit]
              · have hiff : j < i ↔ j < i + 1 := by omega
                simp [hiff]
            · intro j hj
              by_cases hji : j = i
              · rw [hji, ha.zero i hbit, hc.zero i (by simp [hmask])]
              · exact hget j (by omega)
        | true =>
            rw [elements_cons_of_true hbit, List.append_assoc] at hunread
            obtain ⟨c', hinsert, hmask', hget', -⟩ := exists_insert hi c (a.get i)
            have hskip : (buf.skip w).unread = a.elements (List.range' (i + 1) n) ++ rest := by
              rw [unread_skip, hunread, List.drop_left' (length_toLE _ _)]
            rw [if_pos (hlow.mpr hbit), readValue_of_unread bigEndian hpos hunread]
            dsimp only
            rw [hinsert]
            dsimp only
            rw [hnext, ih (by omega) (hc.insert hi hinsert) ?_ ?_ hskip hplaces',
              elements_cons_of_true hbit, List.length_append, length_toLE, skip_skip]
            · intro j
              rw [hmask', hmask]
              by_cases hj : j = i
              · simp [hj, hbit]
              · have hiff : j < i ↔ j < i + 1 := by omega
                simp [hiff, hj]
            · intro j hj
              rw [hget']
              by_cases hji : j = i
              · rw [if_pos hji, hji]
              · rw [if_neg hji]
                exact hget j (by omega)

/-- **An array is read back**, whatever is written in front of it and behind it, and whatever calls
have built it. -/
theorem read_writeArray {calls : List (Call w)} (hrun : run new calls = some a) (hpos : 0 < w)
    (hw : buf.wpos = buf.size) (hsize : buf.size + 4 + 32 * w < 10000000) (later : List UInt8)
    (wpos : ℕ) :
    ∃ buf', write bigEndian buf a = some buf' ∧
      read bigEndian ⟨buf'.storage ++ later, buf.size, wpos⟩ (new : CompactArray w) =
        some (.ok (), a, ⟨buf'.storage ++ later, buf'.size, wpos⟩) := by
  have ha : a.Shaped := shaped_new.run hrun
  refine ⟨_, write_of_wpos_eq bigEndian ha hpos hw hsize, ?_⟩
  have hunread : unread ⟨buf.storage ++ a.encoded ++ later, buf.size, wpos⟩ =
      toLE 4 a.mask.toNat ++ (a.elements (List.range' 0 32) ++ later) := by
    rw [unread, size, List.append_assoc, List.drop_left, encoded, elements_range ha,
      List.append_assoc]
  have hmask := readValue_of_unread bigEndian (w := 4) (by decide) hunread
  have hskip : (skip ⟨buf.storage ++ a.encoded ++ later, buf.size, wpos⟩ 4).unread =
      a.elements (List.range' 0 32) ++ later := by
    rw [unread_skip, hunread, List.drop_left' (length_toLE _ _)]
  have hloop := readLoop_of_unread bigEndian (i := 0) (by decide) hpos ha shaped_new (by simp [new])
    (by simp) hskip
  rw [BitVec.ushiftRight_zero] at hloop
  rw [read, hmask]
  dsimp only
  rw [hloop, skip_skip, ← elements_range ha]
  simp [skip, size, encoded]

/-- Two places are set, one of them twice, and something is in front and behind. -/
theorem read_writeArray_twoPlaces :
    ∃ buf', write true ⟨[7], 0, 1⟩ (⟨0x21, [3, 0, 0, 0, 0, 6]⟩ : CompactArray 2) = some buf' ∧
      read true ⟨buf'.storage ++ [8], 1, 1⟩ (new : CompactArray 2) =
        some (.ok (), ⟨0x21, [3, 0, 0, 0, 0, 6]⟩, ⟨buf'.storage ++ [8], buf'.size, 1⟩) := by
  have hrun : run new [.insert 9 1, .clear, .insert 5 4, .insert 0 3, .insert 5 6] =
      some (⟨0x21, [3, 0, 0, 0, 0, 6]⟩ : CompactArray 2) := by decide
  exact read_writeArray true hrun (by decide) rfl (by decide) [8] 1

/-! ## Any packet -/

theorem readLoop_spec {n : ℕ} {mask : BitVec 32} (hn : index + n = 32) (hmask : mask.toNat < 2 ^ n)
    (ha : a.Shaped) (hbuf : buf.rpos ≤ buf.size) :
    ∃ r a' buf', readLoop bigEndian mask index a buf = some (r, a', buf') ∧ a'.Shaped ∧
      Within buf buf' ∧ (r = .ok () → ∀ j, a'.mask.getLsbD j =
        (a.mask.getLsbD j || (decide (index ≤ j) && mask.getLsbD (j - index)))) := by
  induction n generalizing index mask a buf with
  | zero =>
      obtain rfl : mask = 0 := BitVec.eq_of_toNat_eq (by simpa using hmask)
      rw [readLoop, if_neg (by simp)]
      exact ⟨_, _, _, rfl, ha, ⟨rfl, hbuf⟩, by simp⟩
  | succ n ih =>
      by_cases hzero : mask = 0
      · subst hzero
        rw [readLoop, if_neg (by simp)]
        exact ⟨_, _, _, rfl, ha, ⟨rfl, hbuf⟩, by simp⟩
      · have hn' : index + 1 + n = 32 := by omega
        have hrest : (mask >>> 1).toNat < 2 ^ n := by
          rw [toNat_ushiftRight_one]
          rw [pow_succ] at hmask
          omega
        have hlow : mask &&& 1 ≠ 0 ↔ mask.getLsbD 0 = true := and_shiftLeft_ne_zero_iff mask 0
        -- The bits of what is left are one place further down.
        have hbits : ∀ j, j ≠ index →
            (decide (index + 1 ≤ j) && (mask >>> 1).getLsbD (j - (index + 1))) =
              (decide (index ≤ j) && mask.getLsbD (j - index)) := by
          intro j hj
          by_cases hle : index + 1 ≤ j
          · have hsub : 1 + (j - (index + 1)) = j - index := by omega
            have hle' : index ≤ j := by omega
            simp [BitVec.getLsbD_ushiftRight, hsub, hle, hle']
          · have hle' : ¬ index ≤ j := by omega
            simp [hle, hle']
        rw [readLoop, if_pos hzero]
        by_cases hbit : mask.getLsbD 0 = true
        · rw [if_pos (hlow.mpr hbit)]
          have hw := within_readValue bigEndian hbuf w
          cases hread : buf.readValue bigEndian w with
          | mk r buf' =>
              rw [hread] at hw
              cases r with
              | error e => exact ⟨_, _, _, rfl, ha, hw, by simp⟩
              | ok value =>
                  have hindex : index < 32 := by omega
                  obtain ⟨b, hinsert, hbmask, -, -⟩ := exists_insert hindex a value
                  obtain ⟨r, a', buf'', hloop, ha', hw', hok⟩ :=
                    ih hn' hrest (ha.insert hindex hinsert) hw.rpos_le
                  dsimp only
                  rw [hinsert]
                  refine ⟨r, a', buf'', hloop, ha', hw.trans hw', ?_⟩
                  intro hr j
                  rw [hok hr, hbmask]
                  by_cases hj : j = index
                  · simp [hj, hbit]
                  · rw [hbits j hj]
                    simp [hj]
        · obtain ⟨r, a', buf', hloop, ha', hw, hok⟩ := ih hn' hrest ha hbuf
          rw [if_neg fun h => hbit (hlow.mp h)]
          refine ⟨r, a', buf', hloop, ha', hw, ?_⟩
          intro hr j
          rw [hok hr]
          by_cases hj : j = index
          · have hlt : ¬ index + 1 ≤ index := by omega
            rw [hj, Nat.sub_self, Bool.eq_false_of_not_eq_true hbit, decide_eq_false hlt,
              Bool.false_and, Bool.and_false]
          · rw [hbits j hj]

/-- **No packet brings `Insert` to its assertion.**  What was read joins the places that had been
set before, and the array keeps its form also where bytes are missing. -/
theorem read_spec {calls : List (Call w)} (hrun : run new calls = some a)
    (hbuf : buf.rpos ≤ buf.size) :
    ∃ r a' buf', read bigEndian buf a = some (r, a', buf') ∧ a'.Shaped ∧ Within buf buf' ∧
      (r = .ok () → ∃ mask rest, buf.unread = toLE 4 mask.toNat ++ rest ∧
        a'.mask = a.mask ||| mask) := by
  have ha : a.Shaped := shaped_new.run hrun
  have hw := within_readValue bigEndian hbuf 4
  rw [read]
  cases hread : buf.readValue bigEndian 4 with
  | mk r buf' =>
      rw [hread] at hw
      cases r with
      | error e => exact ⟨_, _, _, rfl, ha, hw, by simp⟩
      | ok mask =>
          obtain ⟨r, a', buf'', hloop, ha', hw', hok⟩ :=
            readLoop_spec bigEndian (by decide : 0 + 32 = 32) mask.isLt ha hw.rpos_le
          refine ⟨r, a', buf'', hloop, ha', hw.trans hw', ?_⟩
          intro hr
          refine ⟨mask, buf'.unread, ?_, ?_⟩
          · exact (unread_of_readValue_eq_ok bigEndian (by decide) hread).1
          · apply BitVec.eq_of_getLsbD_eq
            intro j _
            rw [hok hr]
            simp

/-- The last element is cut off. -/
theorem read_spec_cut :
    ∃ r a' buf', read false ⟨[9, 6, 0, 0, 0x80, 1, 2, 3, 4, 5], 1, 0⟩
        (⟨1, [7]⟩ : CompactArray 2) = some (r, a', buf') ∧ a'.Shaped ∧
      Within ⟨[9, 6, 0, 0, 0x80, 1, 2, 3, 4, 5], 1, 0⟩ buf' ∧
      (r = .ok () → ∃ mask rest,
        unread ⟨[9, 6, 0, 0, 0x80, 1, 2, 3, 4, 5], 1, 0⟩ = toLE 4 mask.toNat ++ rest ∧
          a'.mask = 1 ||| mask) := by
  have hrun : run new [.insert 0 7] = some (⟨1, [7]⟩ : CompactArray 2) := by decide
  exact read_spec false hrun (by decide)

end CompactArray
end WarheadDiscord
