import Mathlib.Data.Nat.Bitwise
import Mathlib.Data.UInt
import Mathlib.Tactic.Ring
import WarheadDiscord.Lib.Sparse
import WarheadDiscord.Packets.ByteBuffer

/-!
# Packed numbers

## The number

`appendPackGUID` writes the bytes of a number that are not zero, and in front of them a byte with a
mark for each.  `readPackGUID` takes a byte for each mark, also if it is zero, so that a number may
come in several forms of which only one is ever written (`readPackGUID_spec`).

## The time

`AppendPackedTime` puts the fields of a local time into 32 bits, without the seconds.  Eight bits
are written of the year, counted from 2000, and five of them are read; the day of the week is
written and not read.  `localtime` and `mktime` are those of the system.

## Main definitions

* `ByteBuffer.packLoop`, `ByteBuffer.appendPackGUID` — writing.
* `ByteBuffer.unpackLoop`, `ByteBuffer.readPackGUID` — reading.
* `ByteBuffer.packed` — the bytes that are written.
* `ByteBuffer.appendPackedTime`, `ByteBuffer.readPackedTime` — the time.
-/

namespace WarheadDiscord.ByteBuffer

open Bytes Sparse

theorem toNat_shiftRight_eight (guid : UInt64) : (guid >>> 8).toNat = guid.toNat / 256 := by
  simp [Nat.shiftRight_eq_div_pow]

/-- The loop of `appendPackGUID`: the mark, and the bytes behind it. -/
def packLoop (guid : UInt64) (i : ℕ) (mark : UInt8) (bytes : List UInt8) : UInt8 × List UInt8 :=
  if guid ≠ 0 then
    if guid &&& 0xFF ≠ 0 then
      packLoop (guid >>> 8) (i + 1) (mark ||| UInt8.ofNat (1 <<< i))
        (bytes ++ [(guid &&& 0xFF).toUInt8])
    else packLoop (guid >>> 8) (i + 1) mark bytes
  else (mark, bytes)
termination_by guid.toNat
decreasing_by
  all_goals
    have hpos : guid.toNat ≠ 0 := fun h => ‹guid ≠ 0› (UInt64.toNat_inj.mp h)
    rw [toNat_shiftRight_eight]
    omega

def appendPackGUID (buf : ByteBuffer) (guid : UInt64) : Option ByteBuffer :=
  let (mark, bytes) := packLoop guid 0 0 []
  buf.append (mark :: bytes)

/-- The loop of `readPackGUID`. -/
def unpackLoop (bigEndian : Bool) (guidmark : UInt8) :
    List ℕ → UInt64 → ByteBuffer → Except ByteBufferException Unit × UInt64 × ByteBuffer
  | [], guid, buf => (.ok (), guid, buf)
  | i :: is, guid, buf =>
      if guidmark &&& UInt8.ofNat (1 <<< i) ≠ 0 then
        if buf.rpos + 1 > buf.size then (.error (.position false buf.rpos 1 buf.size), guid, buf)
        else
          match buf.readValue bigEndian 1 with
          | (.error e, buf) => (.error e, guid, buf)
          | (.ok bit, buf) =>
              unpackLoop bigEndian guidmark is
                (guid ||| UInt64.ofNat (bit.toNat <<< (i * 8))) buf
      else unpackLoop bigEndian guidmark is guid buf

/-- The number is a reference in the source, and it is set also where the function throws. -/
def readPackGUID (bigEndian : Bool) (buf : ByteBuffer) (guid : UInt64) :
    Except ByteBufferException Unit × UInt64 × ByteBuffer :=
  if buf.rpos + 1 > buf.size then (.error (.position false buf.rpos 1 buf.size), guid, buf)
  else
    match buf.readValue bigEndian 1 with
    | (.error e, buf) => (.error e, 0, buf)
    | (.ok guidmark, buf) => unpackLoop bigEndian (UInt8.ofBitVec guidmark) (List.range 8) 0 buf

/-! ## The mark -/

/-- The bits of a byte, the low one first. -/
def bits (mark : UInt8) : List Bool := (List.range 8).map mark.toNat.testBit

theorem toNat_ofNat_shiftLeft {i : ℕ} (h : i < 8) : (UInt8.ofNat (1 <<< i)).toNat = 2 ^ i := by
  have hlt : 2 ^ i < 2 ^ 8 := Nat.pow_lt_pow_right (by decide) h
  rw [Nat.shiftLeft_eq, one_mul, UInt8.toNat_ofNat']
  exact Nat.mod_eq_of_lt hlt

theorem and_ofNat_shiftLeft_ne_zero_iff (mark : UInt8) {i : ℕ} (h : i < 8) :
    mark &&& UInt8.ofNat (1 <<< i) ≠ 0 ↔ mark.toNat.testBit i = true := by
  rw [ne_eq, ← UInt8.toNat_inj, UInt8.toNat_and, toNat_ofNat_shiftLeft h, Nat.and_two_pow]
  cases mark.toNat.testBit i <;> simp

/-- The mark of some bytes, the first of which has the bit `i`. -/
def markOf : ℕ → List UInt8 → UInt8
  | _, [] => 0
  | i, b :: bs => (if b ≠ 0 then UInt8.ofNat (1 <<< i) else 0) ||| markOf (i + 1) bs

theorem testBit_markOf {i j : ℕ} {bs : List UInt8} (h : i + bs.length ≤ 8) :
    (markOf i bs).toNat.testBit j = (decide (i ≤ j) && ((marks bs)[j - i]?).getD false) := by
  induction bs generalizing i with
  | nil => simp [markOf, marks]
  | cons b bs ih =>
      rw [List.length_cons] at h
      have hi : i < 8 := by omega
      have hbit : (if b ≠ 0 then UInt8.ofNat (1 <<< i) else 0).toNat.testBit j =
          (decide (b ≠ 0) && decide (i = j)) := by
        by_cases hb : b = 0
        · simp [hb]
        · rw [if_pos hb, toNat_ofNat_shiftLeft hi, Nat.testBit_two_pow]
          simp [hb]
      rw [markOf, UInt8.toNat_or, Nat.testBit_or, hbit, ih (by omega), marks_cons]
      rcases lt_trichotomy i j with hlt | rfl | hgt
      · have hsub : j - i = (j - (i + 1)) + 1 := by omega
        have hne : ¬ i = j := by omega
        have hle : i ≤ j := by omega
        have hle' : i + 1 ≤ j := by omega
        rw [hsub, List.getElem?_cons_succ]
        simp [hne, hle, hle']
      · simp
      · have hle : ¬ i ≤ j := by omega
        have hle' : ¬ i + 1 ≤ j := by omega
        have hne : ¬ i = j := by omega
        simp [hle, hle', hne]

theorem bits_markOf {bs : List UInt8} (h : bs.length = 8) : bits (markOf 0 bs) = marks bs := by
  apply List.ext_getElem
  · simp [bits, h]
  · intro j hj hj'
    simp only [bits, List.getElem_map, List.getElem_range]
    rw [testBit_markOf (by omega), Nat.sub_zero, List.getElem?_eq_getElem hj']
    simp

/-! ## What is written -/

/-- The bytes of a number in packed form. -/
def packed (guid : UInt64) : List UInt8 :=
  markOf 0 (toLE 8 guid.toNat) :: entries (toLE 8 guid.toNat)

theorem toLE_zero (n : ℕ) : toLE n 0 = List.replicate n 0 := by
  induction n with
  | zero => rfl
  | succ n ih => simp [toLE, ih, List.replicate_succ]

theorem markOf_replicate_zero (i n : ℕ) : markOf i (List.replicate n 0) = 0 := by
  induction n generalizing i with
  | zero => rfl
  | succ n ih => simp [List.replicate_succ, markOf, ih]

theorem entries_replicate_zero (n : ℕ) : entries (List.replicate n (0 : UInt8)) = [] := by
  simp [entries]

theorem toUInt8_and_ff (guid : UInt64) : (guid &&& 0xFF).toUInt8 = UInt8.ofNat guid.toNat := by
  have hmask : (0xFF : UInt64).toNat = 2 ^ 8 - 1 := rfl
  apply UInt8.toNat_inj.mp
  rw [UInt64.toNat_toUInt8, UInt64.toNat_and, hmask, Nat.and_two_pow_sub_one_eq_mod,
    UInt8.toNat_ofNat', Nat.mod_mod]

theorem and_ff_ne_zero_iff (guid : UInt64) :
    guid &&& 0xFF ≠ 0 ↔ UInt8.ofNat guid.toNat ≠ 0 := by
  have hmask : (0xFF : UInt64).toNat = 2 ^ 8 - 1 := rfl
  rw [ne_eq, ne_eq, ← UInt64.toNat_inj, ← UInt8.toNat_inj, UInt64.toNat_and, hmask,
    Nat.and_two_pow_sub_one_eq_mod, UInt8.toNat_ofNat']
  rfl

/-- The loop stops at the highest byte that is not zero, and the bytes above it have no marks. -/
theorem packLoop_eq {guid : UInt64} {i n : ℕ} (mark : UInt8) (bytes : List UInt8)
    (h : guid.toNat < 256 ^ n) :
    packLoop guid i mark bytes =
      (mark ||| markOf i (toLE n guid.toNat), bytes ++ entries (toLE n guid.toNat)) := by
  induction n generalizing guid i mark bytes with
  | zero =>
      obtain rfl : guid = 0 := by
        apply UInt64.toNat_inj.mp
        simpa using h
      rw [packLoop, if_neg (by simp)]
      simp [toLE, markOf, entries]
  | succ n ih =>
      by_cases hzero : guid = 0
      · subst hzero
        rw [packLoop, if_neg (by simp), UInt64.toNat_zero, toLE_zero, markOf_replicate_zero,
          entries_replicate_zero]
        simp
      · have hrest : (guid >>> 8).toNat < 256 ^ n := by
          rw [toNat_shiftRight_eight]
          rw [pow_succ'] at h
          omega
        rw [packLoop, if_pos hzero, toLE, markOf]
        by_cases hlow : UInt8.ofNat guid.toNat = 0
        · have hskip : ¬ guid &&& 0xFF ≠ 0 := fun h => (and_ff_ne_zero_iff guid).mp h hlow
          rw [if_neg hskip, ih mark bytes hrest, toNat_shiftRight_eight, hlow, entries_cons_zero]
          simp
        · rw [if_pos ((and_ff_ne_zero_iff guid).mpr hlow), ih _ _ hrest, toNat_shiftRight_eight,
            toUInt8_and_ff, if_pos hlow, entries_cons_of_ne hlow, UInt8.or_assoc]
          simp

theorem toNat_lt_pow (guid : UInt64) : guid.toNat < 256 ^ 8 := guid.toNat_lt

theorem appendPackGUID_eq (buf : ByteBuffer) (guid : UInt64) :
    buf.appendPackGUID guid = buf.append (packed guid) := by
  rw [appendPackGUID, packLoop_eq 0 [] (toNat_lt_pow guid)]
  simp [packed]

/-! ## What is read -/

variable (bigEndian : Bool) {buf : ByteBuffer} {guid : UInt64} {mark : UInt8} {xs rest : List UInt8}

theorem unread_eq_nil_iff : buf.unread = [] ↔ buf.size ≤ buf.rpos := by
  simp [unread, size]

/-- A byte more in front of what was read. -/
theorem toNat_or_shiftLeft {i : ℕ} (hi : i < 8) (h : guid.toNat < 256 ^ i) (b : UInt8) :
    (guid ||| UInt64.ofNat (b.toNat <<< (i * 8))).toNat = guid.toNat + 256 ^ i * b.toNat := by
  have hpow : (256 : ℕ) ^ i = 2 ^ (i * 8) := by
    rw [Nat.mul_comm, pow_mul]
    rfl
  have hb : b.toNat < 256 := b.toNat_lt
  have hlt : 2 ^ (i * 8) * b.toNat < 2 ^ 64 := by
    calc 2 ^ (i * 8) * b.toNat < 2 ^ (i * 8) * 2 ^ 8 :=
          Nat.mul_lt_mul_of_pos_left hb (Nat.two_pow_pos _)
      _ = 2 ^ (i * 8 + 8) := (pow_add 2 _ _).symm
      _ ≤ 2 ^ 64 := Nat.pow_le_pow_right (by decide) (by omega)
  rw [hpow] at h ⊢
  rw [UInt64.toNat_or, UInt64.toNat_ofNat', Nat.shiftLeft_eq, Nat.mul_comm b.toNat,
    Nat.mod_eq_of_lt hlt, Nat.or_comm, ← Nat.two_pow_add_eq_or_of_lt h, Nat.add_comm]

theorem unpackLoop_of_fill {i n : ℕ} (hn : i + n = 8) (hguid : guid.toNat < 256 ^ i)
    (h : fill ((List.range' i n).map mark.toNat.testBit) buf.unread = some (xs, rest)) :
    unpackLoop bigEndian mark (List.range' i n) guid buf =
      (.ok (), UInt64.ofNat (guid.toNat + 256 ^ i * ofLE xs),
        buf.skip (((List.range' i n).map mark.toNat.testBit).count true)) := by
  induction n generalizing i guid buf xs with
  | zero =>
      cases h
      simp [unpackLoop, ofLE, skip]
  | succ n ih =>
      have hi : i < 8 := by omega
      rw [List.range'_succ, List.map_cons] at h ⊢
      rw [unpackLoop]
      have hbit := and_ofNat_shiftLeft_ne_zero_iff mark hi
      cases hmark : mark.toNat.testBit i with
      | false =>
          rw [hmark, fill, Option.map_eq_some_iff] at h
          obtain ⟨⟨xs', rest'⟩, hfill, heq⟩ := h
          cases heq
          have hlt : guid.toNat < 256 ^ (i + 1) :=
            hguid.trans (Nat.pow_lt_pow_right (by decide) (Nat.lt_succ_self i))
          rw [hmark] at hbit
          rw [if_neg fun h => Bool.false_ne_true (hbit.mp h), ih (by omega) hlt hfill]
          simp [ofLE, pow_succ, Nat.mul_assoc]
      | true =>
          rw [hmark] at h
          cases hunread : buf.unread with
          | nil =>
              rw [hunread] at h
              cases h
          | cons b bs =>
              rw [hunread, fill, Option.map_eq_some_iff] at h
              obtain ⟨⟨xs', rest'⟩, hfill, heq⟩ := h
              cases heq
              obtain ⟨hlt, hread⟩ := readValue_of_unread_cons bigEndian hunread
              have hskip : (buf.skip 1).unread = bs := by
                rw [unread_skip, hunread]
                rfl
              have hor := toNat_or_shiftLeft hi hguid b
              have hb : b.toNat < 256 := b.toNat_lt
              have hnext : (guid ||| UInt64.ofNat (b.toNat <<< (i * 8))).toNat < 256 ^ (i + 1) := by
                calc _ = guid.toNat + 256 ^ i * b.toNat := hor
                  _ < 256 ^ i + 256 ^ i * b.toNat := Nat.add_lt_add_right hguid _
                  _ = 256 ^ i * (b.toNat + 1) := by rw [Nat.mul_succ, Nat.add_comm]
                  _ ≤ 256 ^ i * 256 := Nat.mul_le_mul_left _ hb
              rw [← hskip] at hfill
              rw [if_pos (hbit.mpr hmark), if_neg (by omega), hread]
              simp only [UInt8.toNat_toBitVec]
              rw [ih (by omega) hnext hfill, hor, skip_skip]
              simp only [List.count_cons_self, ofLE, Nat.add_comm 1]
              congr 3
              ring

/-- A byte that is missing: the others have been read. -/
theorem unpackLoop_of_fill_eq_none {i n : ℕ} (hn : i + n = 8) (hpos : buf.rpos ≤ buf.size)
    (h : fill ((List.range' i n).map mark.toNat.testBit) buf.unread = none) :
    ∃ guid', unpackLoop bigEndian mark (List.range' i n) guid buf =
      (.error (.position false buf.size 1 buf.size), guid', { buf with rpos := buf.size }) := by
  induction n generalizing i guid buf with
  | zero => cases h
  | succ n ih =>
      have hi : i < 8 := by omega
      rw [List.range'_succ, List.map_cons] at h
      rw [List.range'_succ, unpackLoop]
      have hbit := and_ofNat_shiftLeft_ne_zero_iff mark hi
      cases hmark : mark.toNat.testBit i with
      | false =>
          rw [hmark, fill, Option.map_eq_none_iff] at h
          rw [hmark] at hbit
          rw [if_neg fun h => Bool.false_ne_true (hbit.mp h)]
          exact ih (by omega) hpos h
      | true =>
          rw [hmark] at h
          rw [if_pos (hbit.mpr hmark)]
          cases hunread : buf.unread with
          | nil =>
              rw [unread_eq_nil_iff] at hunread
              have hend : buf.rpos = buf.size := by omega
              rw [if_pos (by omega), hend]
              exact ⟨guid, by rw [← hend]⟩
          | cons b bs =>
              rw [hunread, fill, Option.map_eq_none_iff] at h
              obtain ⟨hlt, hread⟩ := readValue_of_unread_cons bigEndian hunread
              have hskip : (buf.skip 1).unread = bs := by
                rw [unread_skip, hunread]
                rfl
              rw [← hskip] at h
              rw [if_neg (by omega), hread]
              exact ih (by omega) hlt h

theorem bits_eq (mark : UInt8) : bits mark = (List.range' 0 8).map mark.toNat.testBit := by
  rw [bits, List.range_eq_range']

theorem readPackGUID_of_unread {ys : List UInt8} (g : UInt64) (h : buf.unread = mark :: ys) :
    buf.readPackGUID bigEndian g = unpackLoop bigEndian mark (List.range' 0 8) 0 (buf.skip 1) ∧
      (buf.skip 1).unread = ys := by
  obtain ⟨hlt, hread⟩ := readValue_of_unread_cons bigEndian h
  refine ⟨?_, ?_⟩
  · rw [readPackGUID, if_neg (by omega), hread, List.range_eq_range']
  · rw [unread_skip, h]
    rfl

/-- What is read from the marks and the bytes behind them. -/
theorem readPackGUID_of_fill {ys : List UInt8} (g : UInt64) (h : buf.unread = mark :: ys)
    (hfill : fill (bits mark) ys = some (xs, rest)) :
    buf.readPackGUID bigEndian g =
      (.ok (), UInt64.ofNat (ofLE xs), buf.skip (1 + (bits mark).count true)) := by
  obtain ⟨hread, hys⟩ := readPackGUID_of_unread bigEndian g h
  rw [bits_eq, ← hys] at hfill
  rw [hread, unpackLoop_of_fill bigEndian (by omega) (by decide) hfill, skip_skip, bits_eq]
  simp

/-- **A packed number is read back**, whatever is written in front of it and behind it. -/
theorem readPackGUID_appendPackGUID {guid : UInt64} (hw : buf.wpos = buf.size)
    (hsize : buf.size + 9 < 10000000) (later : List UInt8) (wpos : ℕ) (g : UInt64) :
    ∃ buf', buf.appendPackGUID guid = some buf' ∧ buf'.storage = buf.storage ++ packed guid ∧
      readPackGUID bigEndian ⟨buf'.storage ++ later, buf.size, wpos⟩ g =
        (.ok (), guid, ⟨buf'.storage ++ later, buf'.size, wpos⟩) := by
  have hlength : (packed guid).length ≤ 9 := by
    have hentries : (entries (toLE 8 guid.toNat)).length ≤ (toLE 8 guid.toNat).length :=
      List.length_filter_le _ _
    rw [length_toLE] at hentries
    rw [packed, List.length_cons]
    omega
  have hpos : 0 < (packed guid).length := by simp [packed]
  have happend := append_of_wpos_eq hw hpos (by omega)
  refine ⟨_, (appendPackGUID_eq buf guid).trans happend, rfl, ?_⟩
  have hunread : unread ⟨buf.storage ++ packed guid ++ later, buf.size, wpos⟩ =
      markOf 0 (toLE 8 guid.toNat) :: (entries (toLE 8 guid.toNat) ++ later) := by
    rw [unread, size, List.append_assoc, List.drop_left]
    rfl
  have hbits := bits_markOf (length_toLE 8 guid.toNat)
  have hfill := fill_entries (toLE 8 guid.toNat) later
  rw [← hbits] at hfill
  have hcount : (bits (markOf 0 (toLE 8 guid.toNat))).count true =
      (entries (toLE 8 guid.toNat)).length := by
    obtain ⟨taken, happ, htaken, -⟩ := exists_taken_of_fill hfill
    rw [← htaken, List.append_cancel_right happ]
  rw [readPackGUID_of_fill bigEndian g hunread hfill, ofLE_toLE,
    Nat.mod_eq_of_lt (toNat_lt_pow guid), UInt64.ofNat_toNat, hcount]
  simp [skip, size, packed, Nat.add_comm]

/-- Something is in front, something is behind, and the host has the high byte first. -/
theorem readPackGUID_appendPackGUID_between :
    ∃ buf', appendPackGUID ⟨[7], 0, 1⟩ 0x1200000000340056 = some buf' ∧
      buf'.storage = [7] ++ packed 0x1200000000340056 ∧
      readPackGUID true ⟨buf'.storage ++ [8, 9], 1, 1⟩ 5 =
        (.ok (), 0x1200000000340056, ⟨buf'.storage ++ [8, 9], buf'.size, 1⟩) :=
  readPackGUID_appendPackGUID true rfl (by decide) [8, 9] 1 5

theorem bits_injective {mark' : UInt8} (h : bits mark = bits mark') : mark = mark' := by
  apply UInt8.toNat_inj.mp
  apply Nat.eq_of_testBit_eq
  intro j
  by_cases hj : j < 8
  · simpa [bits, hj] using congrArg (fun bs => bs[j]?) h
  · have hle : 2 ^ 8 ≤ 2 ^ j := Nat.pow_le_pow_right (by decide) (by omega)
    rw [Nat.testBit_lt_two_pow (lt_of_lt_of_le mark.toNat_lt hle),
      Nat.testBit_lt_two_pow (lt_of_lt_of_le mark'.toNat_lt hle)]

/-- The bytes of a number are those that were read. -/
theorem toLE_ofNat_ofLE (h : xs.length = 8) : toLE 8 (UInt64.ofNat (ofLE xs)).toNat = xs := by
  have hback : toLE 8 (ofLE xs) = xs := by
    rw [← h]
    exact toLE_ofLE xs
  have hlt : ofLE xs < 2 ^ 64 := by
    have hmod := ofLE_toLE 8 (ofLE xs)
    rw [hback] at hmod
    rw [hmod]
    exact Nat.mod_lt (ofLE xs) (by decide : 0 < 256 ^ 8)
  rw [UInt64.toNat_ofNat', Nat.mod_eq_of_lt hlt, hback]

theorem packed_eq_cons_iff {taken : List UInt8} (h : xs.length = 8) :
    packed (UInt64.ofNat (ofLE xs)) = mark :: taken ↔
      marks xs = bits mark ∧ entries xs = taken := by
  rw [packed, toLE_ofNat_ofLE h, List.cons.injEq, ← bits_markOf h]
  exact and_congr_left' ⟨congrArg bits, bits_injective⟩

theorem readPackGUID_of_mark {ys : List UInt8} (hunread : buf.unread = mark :: ys) (g : UInt64) :
    (∃ taken rest guid, ys = taken ++ rest ∧ taken.length = (bits mark).count true ∧
      buf.readPackGUID bigEndian g = (.ok (), guid, buf.skip (1 + taken.length)) ∧
      (packed guid = mark :: taken ↔ 0 ∉ taken)) ∨
    (ys.length < (bits mark).count true ∧ ∃ guid,
      buf.readPackGUID bigEndian g =
        (.error (.position false buf.size 1 buf.size), guid, { buf with rpos := buf.size })) := by
  cases hfill : fill (bits mark) ys with
  | some r =>
      left
      obtain ⟨xs, rest⟩ := r
      obtain ⟨taken, hys, hlength, hiff⟩ := exists_taken_of_fill hfill
      have hxs : xs.length = 8 := by
        rw [length_of_fill hfill]
        simp [bits]
      refine ⟨taken, rest, UInt64.ofNat (ofLE xs), hys, hlength, ?_, ?_⟩
      · rw [readPackGUID_of_fill bigEndian g hunread hfill, hlength]
      · rw [packed_eq_cons_iff hxs, hiff]
  | none =>
      right
      refine ⟨fill_eq_none_iff.mp hfill, ?_⟩
      obtain ⟨hread, hys⟩ := readPackGUID_of_unread bigEndian g hunread
      rw [bits_eq, ← hys] at hfill
      rw [hread]
      have hlt := (readValue_of_unread_cons bigEndian hunread).1
      exact unpackLoop_of_fill_eq_none bigEndian (by omega) hlt hfill

/-- **What `readPackGUID` accepts**: a byte for each mark, and nothing behind them.  The form that
`appendPackGUID` writes is the one without zeros.  Where bytes are missing, all that there are have
been read, and without a mark the number is left as it was. -/
theorem readPackGUID_spec (bigEndian : Bool) (buf : ByteBuffer) (g : UInt64) :
    (buf.unread = [] ∧ buf.readPackGUID bigEndian g =
      (.error (.position false buf.rpos 1 buf.size), g, buf)) ∨
    ∃ mark ys, buf.unread = mark :: ys ∧
      ((∃ taken rest guid, ys = taken ++ rest ∧ taken.length = (bits mark).count true ∧
        buf.readPackGUID bigEndian g = (.ok (), guid, buf.skip (1 + taken.length)) ∧
        (packed guid = mark :: taken ↔ 0 ∉ taken)) ∨
      (ys.length < (bits mark).count true ∧ ∃ guid,
        buf.readPackGUID bigEndian g =
          (.error (.position false buf.size 1 buf.size), guid,
            { buf with rpos := buf.size }))) := by
  cases hunread : buf.unread with
  | nil =>
      left
      have hend : buf.rpos + 1 > buf.size := by
        rw [unread, List.drop_eq_nil_iff] at hunread
        exact Nat.lt_succ_of_le hunread
      refine ⟨rfl, ?_⟩
      rw [readPackGUID, if_pos hend]
  | cons mark ys =>
      right
      exact ⟨mark, ys, rfl, readPackGUID_of_mark bigEndian hunread g⟩

-- The second of three marks stands for a zero.
example : readPackGUID false ⟨[9, 0x85, 1, 0, 2, 3], 1, 0⟩ 0 =
    (.ok (), 0x0200000000000001, ⟨[9, 0x85, 1, 0, 2, 3], 5, 0⟩) := rfl

/-! ## The time -/

/-- `struct tm` -/
structure Tm where
  sec : ℤ := 0
  min : ℤ := 0
  hour : ℤ := 0
  mday : ℤ := 0
  mon : ℤ := 0
  year : ℤ := 0
  wday : ℤ := 0
  yday : ℤ := 0
  isdst : ℤ := 0
  deriving DecidableEq, Repr

/-- The fields that are written are those of a calendar. -/
structure Tm.Valid (lt : Tm) : Prop where
  min : 0 ≤ lt.min ∧ lt.min < 60
  hour : 0 ≤ lt.hour ∧ lt.hour < 24
  mday : 1 ≤ lt.mday ∧ lt.mday ≤ 31
  mon : 0 ≤ lt.mon ∧ lt.mon < 12
  wday : 0 ≤ lt.wday ∧ lt.wday < 7

/-- `Warhead::Time::TimeBreakdown` -/
def timeBreakdown (localtime : ℤ → Tm) (epochTime time : ℤ) : Tm :=
  localtime (if time = 0 then epochTime else time)

def packTime (lt : Tm) : BitVec (8 * 4) :=
  BitVec.ofInt 32 (lt.year - 100) <<< 24 ||| BitVec.ofInt 32 lt.mon <<< 20 |||
    BitVec.ofInt 32 (lt.mday - 1) <<< 14 ||| BitVec.ofInt 32 lt.wday <<< 11 |||
    BitVec.ofInt 32 lt.hour <<< 6 ||| BitVec.ofInt 32 lt.min

def appendPackedTime (bigEndian : Bool) (localtime : ℤ → Tm) (epochTime : ℤ) (buf : ByteBuffer)
    (time : ℤ) : Option ByteBuffer :=
  buf.appendValue bigEndian (packTime (timeBreakdown localtime epochTime time))

def unpackTime (packedDate : BitVec (8 * 4)) : Tm where
  min := (packedDate &&& 0x3F).toNat
  hour := ((packedDate >>> 6) &&& 0x1F).toNat
  mday := ((packedDate >>> 14) &&& 0x3F).toNat + 1
  mon := ((packedDate >>> 20) &&& 0xF).toNat
  year := ((packedDate >>> 24) &&& 0x1F).toNat + 100

def readPackedTime (bigEndian : Bool) (mktime : Tm → ℤ) (buf : ByteBuffer) :
    Except ByteBufferException (BitVec 32) × ByteBuffer :=
  mapResult (fun packedDate => .ok (BitVec.ofInt 32 (mktime (unpackTime packedDate))))
    (buf.readValue bigEndian 4)

/-- A field of `k` bits beside those above it. -/
theorem shiftLeft_or_shiftLeft {s c i k : ℕ} (h : c < 2 ^ k) :
    s <<< (i + k) ||| c <<< i = (s * 2 ^ k + c) <<< i := by
  rw [Nat.add_comm i k, Nat.shiftLeft_add, ← Nat.shiftLeft_or_distrib,
    ← Nat.shiftLeft_add_eq_or_of_lt h, Nat.shiftLeft_eq s k]

theorem toNat_ofInt_of_lt {v : ℤ} {n : ℕ} (hv : 0 ≤ v) (hlt : v < n) (hn : n ≤ 2 ^ 32) :
    (BitVec.ofInt 32 v).toNat = v.toNat := by
  rw [BitVec.toNat_ofInt]
  omega

/-- The fields stand side by side. -/
theorem toNat_packTime {lt : Tm} (h : lt.Valid) :
    (packTime lt).toNat =
      (((((lt.year - 100) % 256).toNat * 2 ^ 4 + lt.mon.toNat) * 2 ^ 6 +
        (lt.mday - 1).toNat) * 2 ^ 3 + lt.wday.toNat) * 2 ^ 11 + lt.hour.toNat * 2 ^ 6 +
        lt.min.toNat := by
  obtain ⟨hmin, hhour, hmday, hmon, hwday⟩ := h
  have hyear : (BitVec.ofInt 32 (lt.year - 100) <<< 24).toNat =
      ((lt.year - 100) % 256).toNat <<< (20 + 4) := by
    rw [BitVec.toNat_shiftLeft, BitVec.toNat_ofInt, Nat.shiftLeft_eq, Nat.shiftLeft_eq]
    omega
  have hfield : ∀ (v : ℤ) (i n : ℕ), 0 ≤ v → v < n → n * 2 ^ i ≤ 2 ^ 32 →
      (BitVec.ofInt 32 v <<< i).toNat = v.toNat <<< i := by
    intro v i n hv hlt hn
    have hn' : n ≤ 2 ^ 32 := (Nat.le_mul_of_pos_right n (Nat.two_pow_pos i)).trans hn
    have hsmall : v.toNat * 2 ^ i < 2 ^ 32 :=
      lt_of_lt_of_le (Nat.mul_lt_mul_of_pos_right (by omega) (Nat.two_pow_pos i)) hn
    rw [BitVec.toNat_shiftLeft, toNat_ofInt_of_lt hv hlt hn', Nat.shiftLeft_eq,
      Nat.mod_eq_of_lt hsmall]
  rw [packTime]
  simp only [BitVec.toNat_or]
  rw [hyear, hfield lt.mon 20 12 hmon.1 hmon.2 (by decide),
    hfield (lt.mday - 1) 14 31 (by omega) (by omega) (by decide),
    hfield lt.wday 11 7 hwday.1 hwday.2 (by decide),
    hfield lt.hour 6 24 hhour.1 hhour.2 (by decide),
    toNat_ofInt_of_lt hmin.1 (n := 60) hmin.2 (by decide)]
  rw [shiftLeft_or_shiftLeft (by omega : lt.mon.toNat < 2 ^ 4),
    shiftLeft_or_shiftLeft (i := 14) (k := 6) (by omega : (lt.mday - 1).toNat < 2 ^ 6),
    shiftLeft_or_shiftLeft (i := 11) (k := 3) (by omega : lt.wday.toNat < 2 ^ 3),
    shiftLeft_or_shiftLeft (i := 6) (k := 5) (by omega : lt.hour.toNat < 2 ^ 5),
    ← Nat.shiftLeft_add_eq_or_of_lt (by omega : lt.min.toNat < 2 ^ 6), Nat.shiftLeft_eq]
  ring

theorem fields_of_packed {y mo d w h m n : ℕ} (hmo : mo < 2 ^ 4) (hd : d < 2 ^ 6) (hw : w < 2 ^ 3)
    (hh : h < 2 ^ 5) (hm : m < 2 ^ 6)
    (hn : n = (((y * 2 ^ 4 + mo) * 2 ^ 6 + d) * 2 ^ 3 + w) * 2 ^ 11 + h * 2 ^ 6 + m) :
    n % 2 ^ 6 = m ∧ n / 2 ^ 6 % 2 ^ 5 = h ∧ n / 2 ^ 14 % 2 ^ 6 = d ∧ n / 2 ^ 20 % 2 ^ 4 = mo ∧
      n / 2 ^ 24 % 2 ^ 5 = y % 2 ^ 5 := by
  have h14 : n / 2 ^ 14 = (y * 2 ^ 4 + mo) * 2 ^ 6 + d := by omega
  have h20 : n / 2 ^ 20 = y * 2 ^ 4 + mo := by omega
  have h24 : n / 2 ^ 24 = y := by omega
  refine ⟨by omega, by omega, by omega, by omega, by rw [h24]⟩

/-- The year comes back modulo 32; the seconds and the days of the week and the year do not. -/
theorem unpackTime_packTime {lt : Tm} (h : lt.Valid) :
    unpackTime (packTime lt) =
      { min := lt.min, hour := lt.hour, mday := lt.mday, mon := lt.mon,
        year := 100 + (lt.year - 100) % 32 } := by
  have hpack := toNat_packTime h
  obtain ⟨hmin, hhour, hmday, hmon, hwday⟩ := h
  have hmask6 : (0x3F : BitVec (8 * 4)).toNat = 2 ^ 6 - 1 := rfl
  have hmask5 : (0x1F : BitVec (8 * 4)).toNat = 2 ^ 5 - 1 := rfl
  have hmask4 : (0xF : BitVec (8 * 4)).toNat = 2 ^ 4 - 1 := rfl
  obtain ⟨hm, hh, hd, hmo, hy⟩ := fields_of_packed (by omega) (by omega) (by omega) (by omega)
    (by omega) hpack
  simp only [unpackTime, Tm.mk.injEq, BitVec.toNat_and, BitVec.toNat_ushiftRight,
    Nat.shiftRight_eq_div_pow, hmask6, hmask5, hmask4, Nat.and_two_pow_sub_one_eq_mod, hm, hh, hd,
    hmo, hy, true_and, and_true]
  clear hpack hm hh hd hmo hy
  omega

/-- **A packed time is read back** without its seconds, as a year between 2000 and 2031. -/
theorem readPackedTime_appendPackedTime {localtime : ℤ → Tm} {epochTime time : ℤ}
    (hvalid : (timeBreakdown localtime epochTime time).Valid) (hw : buf.wpos = buf.size)
    (hsize : buf.size + 4 < 10000000) (later : List UInt8) (wpos : ℕ) (mktime : Tm → ℤ) :
    let lt := timeBreakdown localtime epochTime time
    ∃ buf', appendPackedTime bigEndian localtime epochTime buf time = some buf' ∧
      buf'.size = buf.size + 4 ∧
      readPackedTime bigEndian mktime ⟨buf'.storage ++ later, buf.size, wpos⟩ =
        (.ok (BitVec.ofInt 32 (mktime
          { min := lt.min, hour := lt.hour, mday := lt.mday, mon := lt.mon,
            year := 100 + (lt.year - 100) % 32 })),
          ⟨buf'.storage ++ later, buf'.size, wpos⟩) := by
  intro lt
  have happend := appendValue_of_wpos_eq bigEndian (packTime lt) hw (by decide) hsize
  refine ⟨_, happend, by simp [size], ?_⟩
  have hunread : unread ⟨buf.storage ++ toLE 4 (packTime lt).toNat ++ later, buf.size, wpos⟩ =
      toLE 4 (packTime lt).toNat ++ later := by
    rw [unread, size, List.append_assoc, List.drop_left]
  rw [readPackedTime, readValue_of_unread bigEndian (by decide) hunread, mapResult,
    unpackTime_packTime hvalid]
  simp [skip, size, lt]

/-- A day in 2040 is read as one in 2008. -/
theorem readPackedTime_appendPackedTime_later :
    let localtime : ℤ → Tm := fun _ =>
      { sec := 5, min := 30, hour := 12, mday := 24, mon := 11, year := 140, wday := 1,
        yday := 358 }
    ∃ buf', appendPackedTime true localtime 0 ⟨[7], 0, 1⟩ 2239965005 = some buf' ∧ buf'.size = 5 ∧
      readPackedTime true (fun _ => 1230121800) ⟨buf'.storage ++ [8], 1, 1⟩ =
        (.ok 1230121800, ⟨buf'.storage ++ [8], buf'.size, 1⟩) :=
  readPackedTime_appendPackedTime true
    ⟨by decide, by decide, by decide, by decide, by decide⟩ rfl (by decide) [8] 1
    (fun _ => 1230121800)

end WarheadDiscord.ByteBuffer
