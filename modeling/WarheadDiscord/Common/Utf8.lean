import Mathlib.Data.List.Basic
import Mathlib.Data.Nat.Bitwise

/-!
# UTF-8

The functions of the `utf8` library that the server uses.  `validateNext` reads one
sequence of one to four octets; everything else repeats it until the octets are used up or
an exception is thrown, and this loop is `codePoints`.

The main fact is that a sequence that was accepted is the one `append` writes for its code
point (`append_of_sequence`), and that what `append` writes is accepted
(`validateNext_append`).  So text that was accepted comes back unchanged from a conversion
to UTF-16 and back.

A code point is the `uint32` it is computed as.  The callers treat all exceptions alike, so
these carry the error only.

## Main definitions

* `UtfError`, `validateNext` — one sequence.
* `codePoints`, `isValid`, `distance` — all of them.
* `append`, `utf8to16`, `utf16to8` — the conversions.
-/

namespace WarheadDiscord.Utf8

inductive UtfError
  | notEnoughRoom
  | invalidLead
  | incompleteSequence
  | overlongSequence
  | invalidCodePoint
  | invalidUtf16
  deriving DecidableEq, Repr

def LEAD_SURROGATE_MIN : ℕ := 0xd800
def LEAD_SURROGATE_MAX : ℕ := 0xdbff
def TRAIL_SURROGATE_MIN : ℕ := 0xdc00
def TRAIL_SURROGATE_MAX : ℕ := 0xdfff
def LEAD_OFFSET : ℕ := 0xd7c0
def SURROGATE_OFFSET : ℕ := 0xfca02400
def CODE_POINT_MAX : ℕ := 0x0010ffff

def mask16 (oc : ℕ) : ℕ := 0xffff &&& oc

def isTrail (oc : UInt8) : Bool := oc.toNat >>> 6 = 0x2

def isLeadSurrogate (cp : ℕ) : Bool := LEAD_SURROGATE_MIN ≤ cp && cp ≤ LEAD_SURROGATE_MAX

def isTrailSurrogate (cp : ℕ) : Bool := TRAIL_SURROGATE_MIN ≤ cp && cp ≤ TRAIL_SURROGATE_MAX

def isSurrogate (cp : ℕ) : Bool := LEAD_SURROGATE_MIN ≤ cp && cp ≤ TRAIL_SURROGATE_MAX

def isCodePointValid (cp : ℕ) : Bool := cp ≤ CODE_POINT_MAX && !isSurrogate cp

def sequenceLength (lead : UInt8) : ℕ :=
  if lead.toNat < 0x80 then 1
  else if lead.toNat >>> 5 = 0x6 then 2
  else if lead.toNat >>> 4 = 0xe then 3
  else if lead.toNat >>> 3 = 0x1e then 4
  else 0

def isOverlongSequence (cp length : ℕ) : Bool :=
  if cp < 0x80 then length ≠ 1
  else if cp < 0x800 then length ≠ 2
  else if cp < 0x10000 then length ≠ 3
  else false

/-- The next octet, which has to be a trail octet, and what is left. -/
def increaseSafely : List UInt8 → Except UtfError (UInt8 × List UInt8)
  | [] => .error .notEnoughRoom
  | oc :: rest => if !isTrail oc then .error .incompleteSequence else .ok (oc, rest)

def getSequence1 (lead : UInt8) (rest : List UInt8) : Except UtfError (ℕ × List UInt8) :=
  .ok (lead.toNat, rest)

def getSequence2 (lead : UInt8) (rest : List UInt8) : Except UtfError (ℕ × List UInt8) := do
  let (b, rest) ← increaseSafely rest
  return (((lead.toNat <<< 6) &&& 0x7ff) + (b.toNat &&& 0x3f), rest)

def getSequence3 (lead : UInt8) (rest : List UInt8) : Except UtfError (ℕ × List UInt8) := do
  let (b, rest) ← increaseSafely rest
  let (c, rest) ← increaseSafely rest
  return (((lead.toNat <<< 12) &&& 0xffff) + ((b.toNat <<< 6) &&& 0xfff) + (c.toNat &&& 0x3f),
    rest)

def getSequence4 (lead : UInt8) (rest : List UInt8) : Except UtfError (ℕ × List UInt8) := do
  let (b, rest) ← increaseSafely rest
  let (c, rest) ← increaseSafely rest
  let (d, rest) ← increaseSafely rest
  return (((lead.toNat <<< 18) &&& 0x1fffff) + ((b.toNat <<< 12) &&& 0x3ffff) +
    ((c.toNat <<< 6) &&& 0xfff) + (d.toNat &&& 0x3f), rest)

/-- The sequence of a lead octet, by its length. -/
def getSequence (length : ℕ) (lead : UInt8) (rest : List UInt8) :
    Except UtfError (ℕ × List UInt8) :=
  match length with
  | 1 => getSequence1 lead rest
  | 2 => getSequence2 lead rest
  | 3 => getSequence3 lead rest
  | 4 => getSequence4 lead rest
  | _ => .error .invalidLead

/-- One sequence: its code point, and what is left. -/
def validateNext : List UInt8 → Except UtfError (ℕ × List UInt8)
  | [] => .error .notEnoughRoom
  | lead :: rest =>
      match getSequence (sequenceLength lead) lead rest with
      | .error error => .error error
      | .ok (cp, rest) =>
          if isCodePointValid cp then
            if !isOverlongSequence cp (sequenceLength lead) then .ok (cp, rest)
            else .error .overlongSequence
          else .error .invalidCodePoint

/-- The octets of a code point. -/
def append (cp : ℕ) : Except UtfError (List UInt8) :=
  if !isCodePointValid cp then .error .invalidCodePoint
  else if cp < 0x80 then .ok [UInt8.ofNat cp]
  else if cp < 0x800 then
    .ok [UInt8.ofNat ((cp >>> 6) ||| 0xc0), UInt8.ofNat ((cp &&& 0x3f) ||| 0x80)]
  else if cp < 0x10000 then
    .ok [UInt8.ofNat ((cp >>> 12) ||| 0xe0), UInt8.ofNat (((cp >>> 6) &&& 0x3f) ||| 0x80),
      UInt8.ofNat ((cp &&& 0x3f) ||| 0x80)]
  else
    .ok [UInt8.ofNat ((cp >>> 18) ||| 0xf0), UInt8.ofNat (((cp >>> 12) &&& 0x3f) ||| 0x80),
      UInt8.ofNat (((cp >>> 6) &&& 0x3f) ||| 0x80), UInt8.ofNat ((cp &&& 0x3f) ||| 0x80)]

/-! ## One sequence -/

/-- A sequence by its length, with the value of its code point. -/
inductive Sequence : List UInt8 → ℕ → Prop
  | one (a : UInt8) (ha : a.toNat < 0x80) : Sequence [a] a.toNat
  | two (a b : UInt8) (cp : ℕ) (ha : a.toNat = 0xc0 + cp / 64) (hb : b.toNat = 0x80 + cp % 64)
      (hmin : 0x80 ≤ cp) (hmax : cp < 0x800) : Sequence [a, b] cp
  | three (a b c : UInt8) (cp : ℕ) (ha : a.toNat = 0xe0 + cp / 4096)
      (hb : b.toNat = 0x80 + cp / 64 % 64) (hc : c.toNat = 0x80 + cp % 64)
      (hmin : 0x800 ≤ cp) (hmax : cp < 0x10000) (hsurrogate : cp < 0xd800 ∨ 0xdfff < cp) :
      Sequence [a, b, c] cp
  | four (a b c d : UInt8) (cp : ℕ) (ha : a.toNat = 0xf0 + cp / 262144)
      (hb : b.toNat = 0x80 + cp / 4096 % 64) (hc : c.toNat = 0x80 + cp / 64 % 64)
      (hd : d.toNat = 0x80 + cp % 64) (hmin : 0x10000 ≤ cp) (hmax : cp ≤ 0x10ffff) :
      Sequence [a, b, c, d] cp

theorem isTrail_iff {oc : UInt8} : isTrail oc = true ↔ 0x80 ≤ oc.toNat ∧ oc.toNat < 0xc0 := by
  rw [isTrail, decide_eq_true_eq, Nat.shiftRight_eq_div_pow]
  omega

/-- What goes on after a trail octet. -/
theorem increaseSafely_bind_eq_ok {α : Type} {bs : List UInt8} {r : α}
    {f : UInt8 × List UInt8 → Except UtfError α} :
    (increaseSafely bs >>= f) = .ok r ↔
      ∃ b rest, bs = b :: rest ∧ isTrail b = true ∧ f (b, rest) = .ok r := by
  cases bs with
  | nil => simp [increaseSafely, bind, Except.bind]
  | cons oc bs =>
      by_cases h : isTrail oc = true <;> simp [increaseSafely, bind, Except.bind, h]

/-- The masks of the decoder keep the low bits. -/
theorem and_masks (x : ℕ) :
    x &&& 0x3f = x % 64 ∧ x &&& 0x7ff = x % 2048 ∧ x &&& 0xfff = x % 4096 ∧
      x &&& 0xffff = x % 65536 ∧ x &&& 0x3ffff = x % 262144 ∧ x &&& 0x1fffff = x % 2097152 :=
  ⟨Nat.and_two_pow_sub_one_eq_mod x 6, Nat.and_two_pow_sub_one_eq_mod x 11,
    Nat.and_two_pow_sub_one_eq_mod x 12, Nat.and_two_pow_sub_one_eq_mod x 16,
    Nat.and_two_pow_sub_one_eq_mod x 18, Nat.and_two_pow_sub_one_eq_mod x 21⟩

/-- The marks of the encoder are in bits that are not used otherwise. -/
theorem or_marks (x : ℕ) :
    (x < 64 → x ||| 0x80 = 0x80 + x) ∧ (x < 64 → x ||| 0xc0 = 0xc0 + x) ∧
      (x < 32 → x ||| 0xe0 = 0xe0 + x) ∧ (x < 16 → x ||| 0xf0 = 0xf0 + x) := by
  have hor : ∀ a i, x < 2 ^ i → x ||| a <<< i = a <<< i + x := by
    intro a i hx
    rw [Nat.or_comm, Nat.shiftLeft_add_eq_or_of_lt hx]
  exact ⟨hor 2 6, hor 3 6, hor 7 5, hor 15 4⟩

variable {cp : ℕ} {bs rest : List UInt8}

theorem isCodePointValid_iff :
    isCodePointValid cp = true ↔ cp ≤ 0x10ffff ∧ (cp < 0xd800 ∨ 0xdfff < cp) := by
  have hmax : cp ≤ CODE_POINT_MAX ↔ cp ≤ 0x10ffff := Iff.rfl
  have hlead : LEAD_SURROGATE_MIN ≤ cp ↔ 0xd800 ≤ cp := Iff.rfl
  have htrail : cp ≤ TRAIL_SURROGATE_MAX ↔ cp ≤ 0xdfff := Iff.rfl
  simp only [isCodePointValid, isSurrogate, Bool.and_eq_true, Bool.not_eq_true',
    Bool.and_eq_false_iff, decide_eq_true_eq, decide_eq_false_iff_not, hmax, hlead, htrail, not_le]

theorem Sequence.isCodePointValid (h : Sequence bs cp) : isCodePointValid cp = true := by
  rw [isCodePointValid_iff]
  cases h <;> omega

/-- The octets `append` writes, as sums. -/
theorem append_eq (hvalid : isCodePointValid cp = true) :
    append cp = .ok (
      if cp < 0x80 then [UInt8.ofNat cp]
      else if cp < 0x800 then [UInt8.ofNat (0xc0 + cp / 64), UInt8.ofNat (0x80 + cp % 64)]
      else if cp < 0x10000 then
        [UInt8.ofNat (0xe0 + cp / 4096), UInt8.ofNat (0x80 + cp / 64 % 64),
          UInt8.ofNat (0x80 + cp % 64)]
      else
        [UInt8.ofNat (0xf0 + cp / 262144), UInt8.ofNat (0x80 + cp / 4096 % 64),
          UInt8.ofNat (0x80 + cp / 64 % 64), UInt8.ofNat (0x80 + cp % 64)]) := by
  have hmax := (isCodePointValid_iff.mp hvalid).1
  have hlow : ∀ x, x % 64 ||| 0x80 = 0x80 + x % 64 := fun x =>
    (or_marks (x % 64)).1 (Nat.mod_lt x (by decide))
  simp only [append, hvalid, Bool.not_true, Bool.false_eq_true, if_false,
    Nat.shiftRight_eq_div_pow, (and_masks _).1, hlow]
  split_ifs with h1 h2 h3
  · rfl
  · rw [(or_marks _).2.1 (by omega)]
  · rw [(or_marks _).2.2.1 (by omega)]
  · rw [(or_marks _).2.2.2 (by omega)]

/-- **`append` writes the sequence of a code point.** -/
theorem append_of_sequence (h : Sequence bs cp) : append cp = .ok bs := by
  have hoctet : ∀ {b : UInt8} {n : ℕ}, b.toNat = n → UInt8.ofNat n = b := by
    rintro b _ rfl
    exact UInt8.ofNat_toNat
  rw [append_eq h.isCodePointValid]
  cases h with
  | one a ha => rw [if_pos ha, hoctet rfl]
  | two a b _ ha hb hmin hmax =>
      rw [if_neg (by omega), if_pos hmax, hoctet ha, hoctet hb]
  | three a b c _ ha hb hc hmin hmax hs =>
      rw [if_neg (by omega), if_neg (by omega), if_pos hmax, hoctet ha, hoctet hb, hoctet hc]
  | four a b c d _ ha hb hc hd hmin hmax =>
      rw [if_neg (by omega), if_neg (by omega), if_neg (by omega), hoctet ha, hoctet hb, hoctet hc,
        hoctet hd]

/-- The lead octet tells the length of its sequence. -/
theorem sequenceLength_cases (a : UInt8) :
    (a.toNat < 0x80 ∧ sequenceLength a = 1) ∨
      (0xc0 ≤ a.toNat ∧ a.toNat < 0xe0 ∧ sequenceLength a = 2) ∨
      (0xe0 ≤ a.toNat ∧ a.toNat < 0xf0 ∧ sequenceLength a = 3) ∨
      (0xf0 ≤ a.toNat ∧ a.toNat < 0xf8 ∧ sequenceLength a = 4) ∨
      ((0x80 ≤ a.toNat ∧ a.toNat < 0xc0 ∨ 0xf8 ≤ a.toNat) ∧ sequenceLength a = 0) := by
  simp only [sequenceLength, Nat.shiftRight_eq_div_pow]
  split_ifs <;> omega

theorem validateNext_cons_eq_ok {a : UInt8} {s : List UInt8} :
    validateNext (a :: s) = .ok (cp, rest) ↔
      getSequence (sequenceLength a) a s = .ok (cp, rest) ∧ isCodePointValid cp = true ∧
        isOverlongSequence cp (sequenceLength a) = false := by
  rw [validateNext]
  split
  case h_1 error herror => simp [herror]
  case h_2 cp' rest' hget =>
    rw [hget]
    by_cases hvalid : isCodePointValid cp' = true <;>
      by_cases hlong : isOverlongSequence cp' (sequenceLength a) = true <;>
      simp only [hvalid, hlong] <;> grind

/-- A code point that needs so many octets is not overlong. -/
theorem isOverlongSequence_eq_false_iff {n : ℕ} :
    isOverlongSequence cp n = false ↔ (cp < 0x80 → n = 1) ∧
      (0x80 ≤ cp → cp < 0x800 → n = 2) ∧ (0x800 ≤ cp → cp < 0x10000 → n = 3) := by
  rw [isOverlongSequence]
  split_ifs <;> simp <;> omega

/-- The lead octet of a sequence tells its length. -/
theorem sequenceLength_of_sequence {a : UInt8} (h : Sequence (a :: bs) cp) :
    sequenceLength a = bs.length + 1 := by
  have hcases := sequenceLength_cases a
  cases h <;> simp only [List.length_cons, List.length_nil] <;> omega

theorem isOverlongSequence_of_sequence (h : Sequence bs cp) :
    isOverlongSequence cp bs.length = false := by
  rw [isOverlongSequence_eq_false_iff]
  cases h <;> refine ⟨?_, ?_, ?_⟩ <;> intros <;> first | rfl | omega

/-- The decoder puts the code point together again. -/
theorem getSequence_append {a : UInt8} (h : Sequence (a :: bs) cp) (rest : List UInt8) :
    getSequence (bs.length + 1) a (bs ++ rest) = .ok (cp, rest) := by
  cases h with
  | one a ha => rfl
  | two a b _ ha hb hmin hmax =>
      refine increaseSafely_bind_eq_ok.mpr ⟨b, rest, rfl, isTrail_iff.mpr (by omega), ?_⟩
      simp only [pure, Except.pure, Nat.shiftLeft_eq, and_masks]
      congr 2
      omega
  | three a b c _ ha hb hc hmin hmax hs =>
      refine increaseSafely_bind_eq_ok.mpr ⟨b, c :: rest, rfl, isTrail_iff.mpr (by omega), ?_⟩
      refine increaseSafely_bind_eq_ok.mpr ⟨c, rest, rfl, isTrail_iff.mpr (by omega), ?_⟩
      simp only [pure, Except.pure, Nat.shiftLeft_eq, and_masks]
      congr 2
      omega
  | four a b c d _ ha hb hc hd hmin hmax =>
      refine increaseSafely_bind_eq_ok.mpr
        ⟨b, c :: d :: rest, rfl, isTrail_iff.mpr (by omega), ?_⟩
      refine increaseSafely_bind_eq_ok.mpr ⟨c, d :: rest, rfl, isTrail_iff.mpr (by omega), ?_⟩
      refine increaseSafely_bind_eq_ok.mpr ⟨d, rest, rfl, isTrail_iff.mpr (by omega), ?_⟩
      simp only [pure, Except.pure, Nat.shiftLeft_eq, and_masks]
      congr 2
      omega

theorem Sequence.length_pos (h : Sequence bs cp) : 0 < bs.length := by
  cases h <;> simp

/-- **`validateNext` reads the sequence of a code point.** -/
theorem validateNext_append (h : Sequence bs cp) (rest : List UInt8) :
    validateNext (bs ++ rest) = .ok (cp, rest) := by
  cases bs with
  | nil => cases h
  | cons a bs =>
      rw [List.cons_append, validateNext_cons_eq_ok, sequenceLength_of_sequence h]
      exact ⟨getSequence_append h rest, h.isCodePointValid, isOverlongSequence_of_sequence h⟩

/-- Nothing else is read. -/
theorem sequence_of_validateNext {s : List UInt8} (h : validateNext s = .ok (cp, rest)) :
    ∃ bs, Sequence bs cp ∧ s = bs ++ rest := by
  cases s with
  | nil => cases h
  | cons a s =>
      obtain ⟨hget, hvalid, hlong⟩ := validateNext_cons_eq_ok.mp h
      obtain ⟨hmax, hs⟩ := isCodePointValid_iff.mp hvalid
      rw [isOverlongSequence_eq_false_iff] at hlong
      rcases sequenceLength_cases a with ⟨ha, hlength⟩ | ⟨ha, ha', hlength⟩ | ⟨ha, ha', hlength⟩ |
          ⟨ha, ha', hlength⟩ | ⟨-, hlength⟩ <;> rw [hlength] at hget hlong
      · cases hget
        exact ⟨[a], .one a ha, rfl⟩
      · obtain ⟨b, s, rfl, hb, hget⟩ := increaseSafely_bind_eq_ok.mp hget
        simp only [pure, Except.pure, Nat.shiftLeft_eq, and_masks, Except.ok.injEq,
          Prod.mk.injEq] at hget
        obtain ⟨hcp, rfl⟩ := hget
        rw [isTrail_iff] at hb
        exact ⟨[a, b], .two a b cp (by omega) (by omega) (by omega) (by omega), rfl⟩
      · obtain ⟨b, s, rfl, hb, hget⟩ := increaseSafely_bind_eq_ok.mp hget
        obtain ⟨c, s, rfl, hc, hget⟩ := increaseSafely_bind_eq_ok.mp hget
        simp only [pure, Except.pure, Nat.shiftLeft_eq, and_masks, Except.ok.injEq,
          Prod.mk.injEq] at hget
        obtain ⟨hcp, rfl⟩ := hget
        rw [isTrail_iff] at hb hc
        exact ⟨[a, b, c], .three a b c cp (by omega) (by omega) (by omega) (by omega) (by omega) hs,
          rfl⟩
      · obtain ⟨b, s, rfl, hb, hget⟩ := increaseSafely_bind_eq_ok.mp hget
        obtain ⟨c, s, rfl, hc, hget⟩ := increaseSafely_bind_eq_ok.mp hget
        obtain ⟨d, s, rfl, hd, hget⟩ := increaseSafely_bind_eq_ok.mp hget
        simp only [pure, Except.pure, Nat.shiftLeft_eq, and_masks, Except.ok.injEq,
          Prod.mk.injEq] at hget
        obtain ⟨hcp, rfl⟩ := hget
        rw [isTrail_iff] at hb hc hd
        exact ⟨[a, b, c, d], .four a b c d cp (by omega) (by omega) (by omega) (by omega)
          (by omega) hmax, rfl⟩
      · cases hget

/-! ## Text -/

/-- The loop that reads sequences until the octets are used up.  The first error is thrown. -/
def codePoints (s : List UInt8) : Except UtfError (List ℕ) :=
  match s with
  | [] => .ok []
  | b :: bs =>
      match _hnext : validateNext (b :: bs) with
      | .error error => .error error
      | .ok (cp, rest) => (codePoints rest).map (cp :: ·)
termination_by s.length
decreasing_by
  obtain ⟨octets, hsequence, heq⟩ := sequence_of_validateNext _hnext
  have hpos := hsequence.length_pos
  rw [heq, List.length_append]
  omega

/-- `is_valid`: `find_invalid` gets to the end. -/
def isValid (s : List UInt8) : Bool :=
  match codePoints s with
  | .ok _ => true
  | .error _ => false

/-- The number of code points. -/
def distance (s : List UInt8) : Except UtfError ℕ := (codePoints s).map List.length

/-- The UTF-16 of a code point: a surrogate pair if it does not fit. -/
def units (cp : ℕ) : List ℕ :=
  if cp > 0xffff then
    [((cp >>> 10) + LEAD_OFFSET) % 2 ^ 16, ((cp &&& 0x3ff) + TRAIL_SURROGATE_MIN) % 2 ^ 16]
  else [cp % 2 ^ 16]

def utf8to16 (s : List UInt8) : Except UtfError (List ℕ) :=
  (codePoints s).map fun cps => cps.flatMap units

/-- The code point a unit of UTF-16 begins, with the trail of a surrogate pair taken off. -/
def nextUtf16 (cp : ℕ) (us : List ℕ) : Except UtfError (ℕ × List ℕ) :=
  if isLeadSurrogate cp then
    match us with
    | [] => .error .invalidUtf16
    | trail :: us =>
        if isTrailSurrogate (mask16 trail) then
          .ok ((cp <<< 10 + mask16 trail + SURROGATE_OFFSET) % 2 ^ 32, us)
        else .error .invalidUtf16
  -- A lone trail surrogate
  else if isTrailSurrogate cp then .error .invalidUtf16
  else .ok (cp, us)

theorem length_le_of_nextUtf16 {cp cp' : ℕ} {us rest : List ℕ}
    (h : nextUtf16 cp us = .ok (cp', rest)) : rest.length ≤ us.length := by
  rw [nextUtf16.eq_def] at h
  split at h
  · split at h
    · cases h
    · split at h
      · rw [Except.ok.injEq, Prod.mk.injEq] at h
        rw [← h.2]
        exact Nat.le_succ _
      · cases h
  · split at h
    · cases h
    · rw [Except.ok.injEq, Prod.mk.injEq] at h
      rw [← h.2]

def utf16to8 (us : List ℕ) : Except UtfError (List UInt8) :=
  match us with
  | [] => .ok []
  | unit :: us =>
      match _hnext : nextUtf16 (mask16 unit) us with
      | .error error => .error error
      | .ok (cp, rest) =>
          match append cp with
          | .error error => .error error
          | .ok octets => (utf16to8 rest).map (octets ++ ·)
termination_by us.length
decreasing_by
  have hle := length_le_of_nextUtf16 _hnext
  simp only [List.length_cons]
  omega

/-- Text is a sequence of sequences. -/
inductive Text : List UInt8 → List ℕ → Prop
  | nil : Text [] []
  | cons {bs s : List UInt8} {cp : ℕ} {cps : List ℕ} (hsequence : Sequence bs cp)
      (htext : Text s cps) : Text (bs ++ s) (cp :: cps)

theorem length_le_of_text {t : List UInt8} {cps : List ℕ} (h : Text t cps) :
    cps.length ≤ t.length ∧ t.length ≤ 4 * cps.length := by
  induction h with
  | nil => simp
  | @cons bs s cp cps hsequence htext ih =>
    have hbs : 1 ≤ bs.length ∧ bs.length ≤ 4 := by cases hsequence <;> simp
    rw [List.length_append, List.length_cons]
    omega

theorem codePoints_append (h : Sequence bs cp) (s : List UInt8) :
    codePoints (bs ++ s) = (codePoints s).map (cp :: ·) := by
  have hnext := validateNext_append h s
  cases hbs : bs ++ s with
  | nil =>
      have hpos := h.length_pos
      rw [List.append_eq_nil_iff] at hbs
      rw [hbs.1] at hpos
      cases hpos
  | cons b octets =>
      rw [hbs] at hnext
      rw [codePoints]
      split
      case h_1 error herror =>
        rw [hnext] at herror
        cases herror
      case h_2 cp' rest' hok =>
        rw [hnext] at hok
        cases hok
        rfl

/-- **The loop accepts text, and gives its code points.** -/
theorem codePoints_eq_ok_iff {s : List UInt8} {cps : List ℕ} :
    codePoints s = .ok cps ↔ Text s cps := by
  constructor
  · intro h
    fun_induction codePoints s generalizing cps with
    | case1 =>
        cases h
        exact .nil
    | case2 b bs error herror => cases h
    | case3 b bs cp rest hnext ih =>
        obtain ⟨octets, hsequence, heq⟩ := sequence_of_validateNext hnext
        cases hrest : codePoints rest with
        | error error =>
            rw [hrest] at h
            cases h
        | ok cps' =>
            rw [hrest] at h
            cases h
            rw [heq]
            exact .cons hsequence (ih hrest)
  · intro h
    induction h with
    | nil => rw [codePoints]
    | cons hsequence htext ih =>
        rw [codePoints_append hsequence, ih]
        rfl

theorem isValid_iff {s : List UInt8} : isValid s = true ↔ ∃ cps, Text s cps := by
  rw [isValid]
  cases h : codePoints s with
  | error error =>
      simp only [Bool.false_eq_true, false_iff]
      rintro ⟨cps, htext⟩
      rw [codePoints_eq_ok_iff.mpr htext] at h
      cases h
  | ok cps => simpa using ⟨cps, codePoints_eq_ok_iff.mp h⟩

theorem isLeadSurrogate_iff : isLeadSurrogate cp = true ↔ 0xd800 ≤ cp ∧ cp ≤ 0xdbff := by
  rw [isLeadSurrogate, Bool.and_eq_true, decide_eq_true_eq, decide_eq_true_eq]
  rfl

theorem isTrailSurrogate_iff : isTrailSurrogate cp = true ↔ 0xdc00 ≤ cp ∧ cp ≤ 0xdfff := by
  rw [isTrailSurrogate, Bool.and_eq_true, decide_eq_true_eq, decide_eq_true_eq]
  rfl

theorem mask16_eq (x : ℕ) : mask16 x = x % 2 ^ 16 := by
  rw [mask16, Nat.and_comm]
  exact Nat.and_two_pow_sub_one_eq_mod x 16

/-- A code point that fits into one unit is read back. -/
theorem nextUtf16_of_le (hvalid : isCodePointValid cp = true) (us : List ℕ) :
    nextUtf16 cp us = .ok (cp, us) := by
  obtain ⟨-, hs⟩ := isCodePointValid_iff.mp hvalid
  have hlead : ¬ isLeadSurrogate cp = true := by
    rw [isLeadSurrogate_iff]
    omega
  have htrail : ¬ isTrailSurrogate cp = true := by
    rw [isTrailSurrogate_iff]
    omega
  rw [nextUtf16.eq_def, if_neg hlead, if_neg htrail]

/-- A surrogate pair is read back. -/
theorem nextUtf16_of_gt (hgt : 0xffff < cp) (hmax : cp ≤ 0x10ffff) (us : List ℕ) :
    nextUtf16 ((cp / 1024 + 0xd7c0) % 2 ^ 16) ((cp % 1024 + 0xdc00) % 2 ^ 16 :: us) =
      .ok (cp, us) := by
  have hlead : isLeadSurrogate ((cp / 1024 + 0xd7c0) % 2 ^ 16) = true := by
    rw [isLeadSurrogate_iff]
    omega
  have htrail : isTrailSurrogate (mask16 ((cp % 1024 + 0xdc00) % 2 ^ 16)) = true := by
    rw [isTrailSurrogate_iff, mask16_eq]
    omega
  have hpair : (((cp / 1024 + 0xd7c0) % 2 ^ 16) <<< 10 + mask16 ((cp % 1024 + 0xdc00) % 2 ^ 16) +
      SURROGATE_OFFSET) % 2 ^ 32 = cp := by
    rw [Nat.shiftLeft_eq, SURROGATE_OFFSET, mask16_eq]
    omega
  rw [nextUtf16, if_pos hlead, if_pos htrail, hpair]

/-- A turn of the loop. -/
theorem utf16to8_cons {unit : ℕ} {us rest : List ℕ} (h : Sequence bs cp)
    (hnext : nextUtf16 (mask16 unit) us = .ok (cp, rest)) :
    utf16to8 (unit :: us) = (utf16to8 rest).map (bs ++ ·) := by
  rw [utf16to8]
  split
  case h_1 error herror =>
    rw [hnext] at herror
    cases herror
  case h_2 cp' rest' hok =>
    rw [hnext] at hok
    cases hok
    rw [append_of_sequence h]

/-- **What was written as UTF-16 is read back.** -/
theorem utf16to8_units (h : Sequence bs cp) (us : List ℕ) :
    utf16to8 (units cp ++ us) = (utf16to8 us).map (bs ++ ·) := by
  have hvalid := h.isCodePointValid
  obtain ⟨hmax, -⟩ := isCodePointValid_iff.mp hvalid
  rw [units]
  split_ifs with hgt
  · have hmask : cp &&& 0x3ff = cp % 1024 := Nat.and_two_pow_sub_one_eq_mod cp 10
    have hshift : cp >>> 10 = cp / 1024 := Nat.shiftRight_eq_div_pow cp 10
    apply utf16to8_cons h
    rw [mask16_eq, Nat.mod_mod, hmask, hshift]
    exact nextUtf16_of_gt hgt hmax us
  · apply utf16to8_cons h
    rw [mask16_eq, Nat.mod_mod, Nat.mod_eq_of_lt (by omega)]
    exact nextUtf16_of_le hvalid us

end WarheadDiscord.Utf8
