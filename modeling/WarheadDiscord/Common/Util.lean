import WarheadDiscord.Common.Utf8

/-!
# Case of text

The server changes case in two ways: octet by octet with `toupper`, and character by
character with `Utf8ToUpperOnlyLatin`, which goes through a wide string.  On valid UTF-8
the two are the same function (`utf8ToUpperOnlyLatin_of_isValid`): the octets of a
character beyond ASCII are all above the letters, and so are its units of UTF-16.

`toupper` and `tolower` are the ones of the C locale.  A wide character is a number; only
those of one unit of UTF-16 are ever written to a wide string.

## Main definitions

* `toupper`, `tolower`, `stringEqualI` — octets.
* `wcharToUpper`, `wcharToUpperOnlyLatin` — wide characters.
* `utf8toWStr`, `wStrToUtf8`, `utf8ToUpperOnlyLatin`, `utf8length` — text.
* `tokenize` — the parts of a text between separators.
-/

namespace WarheadDiscord

open Utf8

def toupper (c : UInt8) : UInt8 :=
  if 0x61 ≤ c.toNat ∧ c.toNat ≤ 0x7a then UInt8.ofNat (c.toNat - 0x20) else c

def tolower (c : UInt8) : UInt8 :=
  if 0x41 ≤ c.toNat ∧ c.toNat ≤ 0x5a then UInt8.ofNat (c.toNat + 0x20) else c

/-- The texts have the same length, and their octets agree up to case. -/
def stringEqualI : List UInt8 → List UInt8 → Bool
  | [], [] => true
  | c1 :: a, c2 :: b => tolower c1 = tolower c2 && stringEqualI a b
  | _, _ => false

def wcharToUpper (wchar : ℕ) : ℕ :=
  if 0x61 ≤ wchar ∧ wchar ≤ 0x7a then wchar % 2 ^ 16 - 0x20
  else if wchar = 0x00DF then 0x1E9E
  else if 0x00E0 ≤ wchar ∧ wchar ≤ 0x00F6 then wchar % 2 ^ 16 - 0x20
  else if 0x00F8 ≤ wchar ∧ wchar ≤ 0x00FE then wchar % 2 ^ 16 - 0x20
  else if (0x0101 ≤ wchar ∧ wchar ≤ 0x012F) ∧ wchar % 2 = 1 then wchar % 2 ^ 16 - 0x01
  else if 0x0430 ≤ wchar ∧ wchar ≤ 0x044F then wchar % 2 ^ 16 - 0x20
  else if wchar = 0x0451 then 0x0401
  else wchar

def isBasicLatinCharacter (wchar : ℕ) : Bool :=
  if 0x61 ≤ wchar ∧ wchar ≤ 0x7a then true
  else if 0x41 ≤ wchar ∧ wchar ≤ 0x5a then true
  else false

def wcharToUpperOnlyLatin (wchar : ℕ) : ℕ :=
  if isBasicLatinCharacter wchar then wcharToUpper wchar else wchar

/-- `none` when the source returns false. -/
def utf8toWStr (utf8str : List UInt8) : Option (List ℕ) := (utf8to16 utf8str).toOption

/-- The result, and the text that is written: it is cleared on an error. -/
def wStrToUtf8 (wstr : List ℕ) : Bool × List UInt8 :=
  match utf16to8 wstr with
  | .ok utf8str => (true, utf8str)
  | .error _ => (false, [])

/-- The result, and what the text is changed to. -/
def utf8ToUpperOnlyLatin (utf8String : List UInt8) : Bool × List UInt8 :=
  match utf8toWStr utf8String with
  | none => (false, utf8String)
  | some wstr => wStrToUtf8 (wstr.map wcharToUpperOnlyLatin)

/-- The length, and what the text is changed to: it is cleared on an error. -/
def utf8length (utf8str : List UInt8) : ℕ × List UInt8 :=
  match distance utf8str with
  | .ok length => (length, utf8str)
  | .error _ => (0, [])

/-- The loop of `Tokenize` with the text from `start` on, of which `token` is read already. -/
def tokenizeFrom (sep : UInt8) (keepEmpty : Bool) :
    List UInt8 → List UInt8 → List (List UInt8)
  | token, [] => if keepEmpty || token ≠ [] then [token] else []
  | token, c :: str =>
      if c = sep then
        (if keepEmpty || token ≠ [] then [token] else []) ++ tokenizeFrom sep keepEmpty [] str
      else tokenizeFrom sep keepEmpty (token ++ [c]) str

def tokenize (str : List UInt8) (sep : UInt8) (keepEmpty : Bool) : List (List UInt8) :=
  tokenizeFrom sep keepEmpty [] str

/-! ## Octets -/

theorem toNat_toupper (c : UInt8) : (toupper c).toNat =
    if 0x61 ≤ c.toNat ∧ c.toNat ≤ 0x7a then c.toNat - 0x20 else c.toNat := by
  rw [toupper]
  split_ifs with h
  · rw [UInt8.toNat_ofNat_of_lt']
    have := c.toNat_lt
    show _ < 256
    omega
  · rfl

theorem toNat_tolower (c : UInt8) : (tolower c).toNat =
    if 0x41 ≤ c.toNat ∧ c.toNat ≤ 0x5a then c.toNat + 0x20 else c.toNat := by
  rw [tolower]
  split_ifs with h
  · rw [UInt8.toNat_ofNat_of_lt']
    show _ < 256
    omega
  · rfl

@[simp] theorem toupper_toupper (c : UInt8) : toupper (toupper c) = toupper c := by
  apply UInt8.toNat_inj.mp
  simp only [toNat_toupper]
  split_ifs <;> omega

theorem map_toupper_map_toupper (s : List UInt8) :
    (s.map toupper).map toupper = s.map toupper := by
  rw [List.map_map]
  exact List.map_congr_left fun c _ => toupper_toupper c

theorem toupper_of_ge {c : UInt8} (h : 0x80 ≤ c.toNat) : toupper c = c := by
  rw [toupper, if_neg]
  omega

theorem tolower_eq_tolower_iff {c d : UInt8} :
    tolower c = tolower d ↔ toupper c = toupper d := by
  rw [← UInt8.toNat_inj, ← UInt8.toNat_inj]
  simp only [toNat_toupper, toNat_tolower]
  split_ifs <;> omega

/-- Texts that are equal up to case are those with the same upper case. -/
theorem stringEqualI_iff {a b : List UInt8} :
    stringEqualI a b = true ↔ a.map toupper = b.map toupper := by
  induction a generalizing b with
  | nil => cases b <;> simp [stringEqualI]
  | cons c a ih =>
      cases b with
      | nil => simp [stringEqualI]
      | cons d b => simp [stringEqualI, ih, tolower_eq_tolower_iff]

/-! ## Characters -/

variable {bs s t : List UInt8} {cp : ℕ} {cps : List ℕ}

theorem wcharToUpperOnlyLatin_eq (wchar : ℕ) : wcharToUpperOnlyLatin wchar =
    if 0x61 ≤ wchar ∧ wchar ≤ 0x7a then wchar - 0x20 else wchar := by
  have hlatin : isBasicLatinCharacter wchar = true ↔
      (0x61 ≤ wchar ∧ wchar ≤ 0x7a) ∨ (0x41 ≤ wchar ∧ wchar ≤ 0x5a) := by
    rw [isBasicLatinCharacter]
    split_ifs <;> simp [*]
  simp only [wcharToUpperOnlyLatin, hlatin, wcharToUpper]
  split_ifs <;> omega

/-- A character is one octet of ASCII, or all of its octets are beyond ASCII. -/
theorem Utf8.Sequence.ascii_or (h : Sequence bs cp) :
    (∃ a : UInt8, bs = [a] ∧ a.toNat = cp ∧ cp < 0x80) ∨
      (0x80 ≤ cp ∧ ∀ b ∈ bs, 0x80 ≤ b.toNat) := by
  cases h with
  | one a ha => exact Or.inl ⟨a, rfl, rfl, ha⟩
  | two a b _ ha hb hmin hmax =>
      refine Or.inr ⟨by omega, ?_⟩
      simp only [List.forall_mem_cons]
      exact ⟨by omega, by omega, by simp⟩
  | three a b c _ ha hb hc hmin hmax hs =>
      refine Or.inr ⟨by omega, ?_⟩
      simp only [List.forall_mem_cons]
      exact ⟨by omega, by omega, by omega, by simp⟩
  | four a b c d _ ha hb hc hd hmin hmax =>
      refine Or.inr ⟨by omega, ?_⟩
      simp only [List.forall_mem_cons]
      exact ⟨by omega, by omega, by omega, by omega, by simp⟩

/-- In upper case a sequence is the one of the upper case character. -/
theorem Utf8.Sequence.map_toupper (h : Sequence bs cp) :
    Sequence (bs.map toupper) (wcharToUpperOnlyLatin cp) := by
  rw [wcharToUpperOnlyLatin_eq]
  rcases h.ascii_or with ⟨a, rfl, rfl, ha⟩ | ⟨hcp, hbs⟩
  · rw [← toNat_toupper]
    refine .one _ ?_
    rw [toNat_toupper]
    split_ifs <;> omega
  · have hsame : bs.map toupper = bs := by
      conv_rhs => rw [← List.map_id bs]
      exact List.map_congr_left fun b hb => toupper_of_ge (hbs b hb)
    rw [hsame, if_neg (by omega)]
    exact h

/-- Letters have one unit, and the units of a surrogate pair are no letters. -/
theorem map_wcharToUpperOnlyLatin_units (hvalid : isCodePointValid cp = true) :
    (units cp).map wcharToUpperOnlyLatin = units (wcharToUpperOnlyLatin cp) := by
  obtain ⟨hmax, -⟩ := isCodePointValid_iff.mp hvalid
  have hsame : ∀ wchar, 0x80 ≤ wchar → wcharToUpperOnlyLatin wchar = wchar := by
    intro wchar hge
    rw [wcharToUpperOnlyLatin_eq, if_neg (by omega)]
  by_cases hgt : 0xffff < cp
  · have hmask : cp &&& 0x3ff = cp % 1024 := Nat.and_two_pow_sub_one_eq_mod cp 10
    rw [hsame cp (by omega), units, if_pos hgt, hmask, Nat.shiftRight_eq_div_pow, LEAD_OFFSET,
      TRAIL_SURROGATE_MIN, List.map_cons, List.map_cons, List.map_nil, hsame _ (by omega),
      hsame _ (by omega)]
  · have hle : ¬ 0xffff < wcharToUpperOnlyLatin cp := by
      rw [wcharToUpperOnlyLatin_eq]
      split_ifs <;> omega
    rw [units, if_neg hgt, units, if_neg hle, List.map_cons, List.map_nil,
      Nat.mod_eq_of_lt (by omega), Nat.mod_eq_of_lt (by omega)]

/-- The octets beyond ASCII are not changed, and no other is changed to one of them. -/
theorem eq_of_map_toupper_eq (hge : ∀ b ∈ bs, 0x80 ≤ b.toNat)
    (heq : t.map toupper = bs.map toupper) : t = bs := by
  induction bs generalizing t with
  | nil => simpa using heq
  | cons c bs ih =>
      rw [List.forall_mem_cons] at hge
      cases t with
      | nil => simp at heq
      | cons b t =>
          rw [List.map_cons, List.map_cons, List.cons.injEq] at heq
          have hbc : b = c := by
            have hup := heq.1
            rw [← UInt8.toNat_inj, toNat_toupper, toNat_toupper] at hup
            apply UInt8.toNat_inj.mp
            split_ifs at hup <;> omega
          rw [hbc, ih hge.2 heq.2]

/-- What is equal to a sequence up to case is a sequence. -/
theorem Utf8.Sequence.of_map_toupper_eq (h : Sequence bs cp)
    (heq : t.map toupper = bs.map toupper) : ∃ cp', Sequence t cp' := by
  rcases h.ascii_or with ⟨a, rfl, rfl, ha⟩ | ⟨-, hbs⟩
  · rw [List.map_singleton, List.map_eq_singleton_iff] at heq
    obtain ⟨b, rfl, hb⟩ := heq
    refine ⟨b.toNat, .one b ?_⟩
    rw [← UInt8.toNat_inj, toNat_toupper, toNat_toupper] at hb
    split_ifs at hb <;> omega
  · rw [eq_of_map_toupper_eq hbs heq]
    exact ⟨cp, h⟩

/-! ## Text -/

/-- Text in upper case is text, with the same number of characters. -/
theorem Utf8.Text.map_toupper (h : Text s cps) :
    Text (s.map toupper) (cps.map wcharToUpperOnlyLatin) := by
  induction h with
  | nil => exact .nil
  | cons hsequence htext ih =>
      rw [List.map_append]
      exact .cons hsequence.map_toupper ih

/-- What is equal to text up to case is text. -/
theorem Utf8.Text.of_map_toupper_eq (h : Text s cps) (heq : t.map toupper = s.map toupper) :
    ∃ cps', Text t cps' := by
  induction h generalizing t with
  | nil =>
      rw [List.map_nil, List.map_eq_nil_iff] at heq
      exact ⟨[], heq ▸ .nil⟩
  | cons hsequence htext ih =>
      rw [List.map_append, List.map_eq_append_iff] at heq
      obtain ⟨bs', s', rfl, hbs, hs⟩ := heq
      obtain ⟨cp', hcp⟩ := hsequence.of_map_toupper_eq hbs
      obtain ⟨cps', hcps⟩ := ih hs
      exact ⟨cp' :: cps', .cons hcp hcps⟩

/-- The wide string of text gives its octets back. -/
theorem utf16to8_flatMap_units (h : Text s cps) : utf16to8 (cps.flatMap units) = .ok s := by
  induction h with
  | nil => rw [List.flatMap_nil, utf16to8]
  | cons hsequence htext ih =>
      rw [List.flatMap_cons, utf16to8_units hsequence, ih]
      rfl

theorem map_flatMap_units (h : Text s cps) :
    (cps.flatMap units).map wcharToUpperOnlyLatin =
      (cps.map wcharToUpperOnlyLatin).flatMap units := by
  induction h with
  | nil => rfl
  | cons hsequence htext ih =>
      rw [List.flatMap_cons, List.map_append, ih,
        map_wcharToUpperOnlyLatin_units hsequence.isCodePointValid]
      rfl

/-- **On valid text the two ways to change case are the same.** -/
theorem utf8ToUpperOnlyLatin_of_isValid (h : isValid s = true) :
    utf8ToUpperOnlyLatin s = (true, s.map toupper) := by
  obtain ⟨cps, htext⟩ := isValid_iff.mp h
  have hwide : utf8toWStr s = some (cps.flatMap units) := by
    rw [utf8toWStr, utf8to16, codePoints_eq_ok_iff.mpr htext]
    rfl
  rw [utf8ToUpperOnlyLatin, hwide]
  show wStrToUtf8 _ = _
  rw [map_flatMap_units htext, wStrToUtf8, utf16to8_flatMap_units htext.map_toupper]

/-- Validity does not depend on case. -/
theorem isValid_of_map_toupper_eq (h : isValid s = true) (heq : t.map toupper = s.map toupper) :
    isValid t = true := by
  obtain ⟨cps, htext⟩ := isValid_iff.mp h
  exact isValid_iff.mpr (htext.of_map_toupper_eq heq)

/-- On text that is not valid nothing is changed. -/
theorem utf8ToUpperOnlyLatin_of_not_isValid (h : ¬ isValid s = true) :
    utf8ToUpperOnlyLatin s = (false, s) := by
  have hwide : utf8toWStr s = none := by
    rw [isValid] at h
    rw [utf8toWStr, utf8to16]
    cases hcps : codePoints s with
    | error error => rfl
    | ok cps =>
        rw [hcps] at h
        exact absurd rfl h
  rw [utf8ToUpperOnlyLatin, hwide]

end WarheadDiscord
