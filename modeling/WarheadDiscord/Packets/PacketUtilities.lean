import WarheadDiscord.Packets.ByteBuffer

/-!
# Validated strings of packets

`String<N, Validators...>` is read from a packet as text up to a zero, and then checked: the size,
that it is UTF-8 unless `RawBytes` is listed, and what is listed.  A check may return false or
throw, and the checks behind one that returns false are not made.

`operator>>` does not look at the result of the checks.  So a text that fails a check is kept,
unless the check throws.

## Main definitions

* `Validator`, `Validator.validate` — the checks.
* `PacketString.validatorList`, `validateNth` — the list that is checked, and the fold over it.
* `PacketString.extract` — `operator>>`.
-/

namespace WarheadDiscord

open Utf8

/-- A class with a function `Validate`: those of the program, or any other. -/
inductive Validator
  | rawBytes
  | byteSize (maxBytes : ℕ)
  | utf8
  | other (validate : List UInt8 → Except ByteBufferException Bool)

namespace Validator

def validate : Validator → List UInt8 → Except ByteBufferException Bool
  | .rawBytes, _ => .ok true
  | .byteSize maxBytes, value => .ok (value.length ≤ maxBytes)
  | .utf8, value => if !isValid value then .error (.invalidValue "string" value) else .ok true
  | .other validate, value => validate value

def isRawBytes : Validator → Bool
  | .rawBytes => true
  | _ => false

/-- The text passes the check. -/
def Accepts (v : Validator) (value : List UInt8) : Prop := v.validate value = .ok true

theorem accepts_byteSize_iff {maxBytes : ℕ} {value : List UInt8} :
    (byteSize maxBytes).Accepts value ↔ value.length ≤ maxBytes := by
  simp [Accepts, validate]

theorem accepts_utf8_iff {value : List UInt8} : utf8.Accepts value ↔ isValid value = true := by
  rw [Accepts, validate]
  by_cases hvalid : isValid value = true <;> simp [hvalid]

end Validator

namespace PacketString

/-- `ValidatorList` -/
def validatorList (maxBytes : ℕ) (validators : List Validator) : List Validator :=
  if !validators.any Validator.isRawBytes then .byteSize maxBytes :: .utf8 :: validators
  else .byteSize maxBytes :: validators

/-- The fold with `&&`. -/
def validateNth (value : List UInt8) : List Validator → Except ByteBufferException Bool
  | [] => .ok true
  | v :: validators =>
      match v.validate value with
      | .ok true => validateNth value validators
      | result => result

/-- `operator>>`: the exception, if there is one, what is stored, and the buffer behind it. -/
def extract (bigEndian : Bool) (maxBytes : ℕ) (validators : List Validator) (data : ByteBuffer)
    (storage : List UInt8) : Except ByteBufferException Unit × List UInt8 × ByteBuffer :=
  match data.readCString bigEndian false with
  | (.error e, data) => (.error e, storage, data)
  | (.ok value, data) =>
      match validateNth value (validatorList maxBytes validators) with
      | .error e => (.error e, value, data)
      | .ok _ => (.ok (), value, data)

/-! ## The fold -/

section Fold
variable {value : List UInt8} {validators : List Validator}

theorem validateNth_cons_of_accepts {v : Validator} (h : v.Accepts value) :
    validateNth value (v :: validators) = validateNth value validators := by
  rw [Validator.Accepts] at h
  rw [validateNth, h]

theorem validateNth_cons_of_not_accepts {v : Validator} (h : ¬ v.Accepts value) :
    validateNth value (v :: validators) = v.validate value := by
  rw [validateNth]
  split
  · next heq => exact absurd heq h
  · rfl

theorem validateNth_eq_true_iff :
    validateNth value validators = .ok true ↔ ∀ v ∈ validators, v.Accepts value := by
  induction validators with
  | nil => simp [validateNth]
  | cons v validators ih =>
      rw [List.forall_mem_cons]
      by_cases hv : v.Accepts value
      · rw [validateNth_cons_of_accepts hv, ih, and_iff_right hv]
      · rw [validateNth_cons_of_not_accepts hv]
        exact iff_of_false hv fun h => hv h.1

/-- The first check that the text does not pass returns false. -/
def FailsQuietly (value : List UInt8) (validators : List Validator) : Prop :=
  ∃ before v behind, validators = before ++ v :: behind ∧ (∀ u ∈ before, u.Accepts value) ∧
    v.validate value = .ok false

theorem failsQuietly_cons_iff {v : Validator} :
    FailsQuietly value (v :: validators) ↔
      v.validate value = .ok false ∨ v.Accepts value ∧ FailsQuietly value validators := by
  constructor
  · rintro ⟨before, u, behind, hsplit, hbefore, hu⟩
    cases before with
    | nil =>
        cases hsplit
        exact .inl hu
    | cons w before =>
        cases hsplit
        rw [List.forall_mem_cons] at hbefore
        exact .inr ⟨hbefore.1, before, u, behind, rfl, hbefore.2, hu⟩
  · rintro (hv | ⟨hv, before, u, behind, rfl, hbefore, hu⟩)
    · exact ⟨[], v, validators, rfl, by simp, hv⟩
    · exact ⟨v :: before, u, behind, rfl, List.forall_mem_cons.mpr ⟨hv, hbefore⟩, hu⟩

theorem validateNth_eq_false_iff :
    validateNth value validators = .ok false ↔ FailsQuietly value validators := by
  induction validators with
  | nil => simp [validateNth, FailsQuietly]
  | cons v validators ih =>
      rw [failsQuietly_cons_iff]
      by_cases hv : v.Accepts value
      · have hne : v.validate value ≠ .ok false := by
          rw [hv]
          simp
        rw [validateNth_cons_of_accepts hv, ih, or_iff_right hne, and_iff_right hv]
      · rw [validateNth_cons_of_not_accepts hv, or_iff_left fun h => hv h.1]

end Fold

/-! ## What is stored -/

/-- The text up to a zero or the end. -/
def textOf (data : ByteBuffer) : List UInt8 := data.unread.takeWhile (· ≠ 0)

theorem readCStringLoop_eq (bigEndian : Bool) (data : ByteBuffer) (value : List UInt8) :
    ∃ data', ByteBuffer.readCStringLoop bigEndian data value =
      (.ok (value ++ textOf data), data') := by
  induction hunread : data.unread generalizing data value with
  | nil =>
      have hle : ¬ data.rpos < data.size := by
        have := List.drop_eq_nil_iff.mp hunread
        simp only [ByteBuffer.size]
        omega
      refine ⟨data, ?_⟩
      rw [ByteBuffer.readCStringLoop, if_neg hle, textOf, hunread]
      simp
  | cons c rest ih =>
      obtain ⟨hlt, hread⟩ := ByteBuffer.readValue_of_unread_cons bigEndian hunread
      have hrest : (data.skip 1).unread = rest := by
        rw [ByteBuffer.unread_skip, hunread]
        rfl
      rw [ByteBuffer.readCStringLoop, if_pos hlt, textOf, hunread]
      split
      · next heq =>
          rw [hread] at heq
          cases heq
      · next heq =>
          rw [hread] at heq
          cases heq
          by_cases hc : c = 0
          · subst hc
            exact ⟨data.skip 1, by simp⟩
          · have hne : ¬ c.toBitVec = 0 := fun heq => hc (UInt8.toBitVec_inj.mp heq)
            obtain ⟨data', hloop⟩ := ih (data.skip 1) (value ++ [c]) hrest
            refine ⟨data', ?_⟩
            rw [if_neg hne, hloop, textOf, hrest, List.takeWhile_cons_of_pos (by simpa using hc)]
            simp

/-- Reading the text does not throw. -/
theorem readCString_false_eq (bigEndian : Bool) (data : ByteBuffer) :
    ∃ data', data.readCString bigEndian false = (.ok (textOf data), data') := by
  obtain ⟨data', hloop⟩ := readCStringLoop_eq bigEndian data []
  refine ⟨data', ?_⟩
  rw [ByteBuffer.readCString, hloop]
  rfl

/-- The conditions on a stored text are the checks of `ValidatorList`. -/
theorem forall_mem_validatorList_iff {maxBytes : ℕ} {validators : List Validator}
    {value : List UInt8} :
    (∀ v ∈ validatorList maxBytes validators, v.Accepts value) ↔
      value.length ≤ maxBytes ∧ (∀ v ∈ validators, v.Accepts value) ∧
        (validators.any Validator.isRawBytes = false → isValid value = true) := by
  rw [validatorList]
  cases hraw : validators.any Validator.isRawBytes with
  | false =>
      simp only [Bool.not_false, if_true, List.forall_mem_cons, Validator.accepts_byteSize_iff,
        Validator.accepts_utf8_iff]
      tauto
  | true =>
      simp only [Bool.not_true, Bool.false_eq_true, if_false, List.forall_mem_cons,
        Validator.accepts_byteSize_iff]
      simp

/-- **What is stored when `operator>>` returns** has the size, passes all checks that are listed and
is UTF-8, if and only if the first check that the text does not pass throws, where there is one. -/
theorem extract_validated_iff (bigEndian : Bool) (maxBytes : ℕ) (validators : List Validator)
    (data : ByteBuffer) (storage : List UInt8) :
    (∀ stored data', extract bigEndian maxBytes validators data storage = (.ok (), stored, data') →
        stored.length ≤ maxBytes ∧ (∀ v ∈ validators, v.Accepts stored) ∧
          (validators.any Validator.isRawBytes = false → isValid stored = true)) ↔
      ¬ ∃ before v behind, validatorList maxBytes validators = before ++ v :: behind ∧
        (∀ u ∈ before, u.Accepts (textOf data)) ∧ v.validate (textOf data) = .ok false := by
  obtain ⟨data', hread⟩ := readCString_false_eq bigEndian data
  have hextract : extract bigEndian maxBytes validators data storage =
      match validateNth (textOf data) (validatorList maxBytes validators) with
      | .error e => (.error e, textOf data, data')
      | .ok _ => (.ok (), textOf data, data') := by
    rw [extract, hread]
  have hquiet : FailsQuietly (textOf data) (validatorList maxBytes validators) ↔ _ :=
    validateNth_eq_false_iff.symm
  show _ ↔ ¬ FailsQuietly _ _
  rw [hquiet, hextract]
  cases hfold : validateNth (textOf data) (validatorList maxBytes validators) with
  | error e => simp
  | ok passed =>
      cases passed with
      | true =>
          have hall := forall_mem_validatorList_iff.mp (validateNth_eq_true_iff.mp hfold)
          refine iff_of_true ?_ (by simp)
          rintro stored data'' heq
          cases heq
          exact hall
      | false =>
          refine iff_of_false ?_ (by simp)
          intro h
          have hall := forall_mem_validatorList_iff.mpr (h _ _ rfl)
          rw [validateNth_eq_true_iff.mpr hall] at hfold
          cases hfold

/-- A text that is too long is stored. -/
theorem not_extract_validated :
    extract false 3 [] (.ofMessage [0x61, 0x62, 0x63, 0x64, 0]) [] =
        (.ok (), [0x61, 0x62, 0x63, 0x64], ⟨[0x61, 0x62, 0x63, 0x64, 0], 5, 0⟩) ∧
      ¬ [0x61, 0x62, 0x63, 0x64].length ≤ 3 :=
  ⟨by decide +kernel, by decide⟩

end PacketString
end WarheadDiscord
