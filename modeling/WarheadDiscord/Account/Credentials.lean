import WarheadDiscord.Account.AccountMgr
import WarheadDiscord.Server.AccountInfo

/-!
# A stored key lets its owner in

Registration stores the verifier of a name and a key that went through
`Utf8ToUpperOnlyLatin`.  At login `CheckKey` uses `toupper` as well, on the name before
and on the key after.  On valid text all of these are one function, and it does not see
the case of a letter, so whoever knows the name and the key up to case is let in
(`credentials_round_trip`).

## Main definitions

* `safeAccount`, `safeKey`, `AccountInfo.checkKey` — the login.
-/

namespace WarheadDiscord

open Utf8

/-- `toupper` first. -/
def safeAccount (accountName : List UInt8) : List UInt8 :=
  (utf8ToUpperOnlyLatin (accountName.map toupper)).2

/-- `toupper` last. -/
def safeKey (key : List UInt8) : List UInt8 := (utf8ToUpperOnlyLatin key).2.map toupper

def AccountInfo.checkKey (srp6 : Srp6) (info : AccountInfo) (accountName key : List UInt8) : Bool :=
  srp6.checkLogin (safeAccount accountName) (safeKey key) info.salt info.verifier

/-! ## The two orders -/

variable {s t : List UInt8}

theorem safeAccount_of_isValid (h : isValid s = true) : safeAccount s = s.map toupper := by
  have hupper := isValid_of_map_toupper_eq h (map_toupper_map_toupper s)
  rw [safeAccount, utf8ToUpperOnlyLatin_of_isValid hupper, map_toupper_map_toupper]

theorem safeKey_of_isValid (h : isValid s = true) : safeKey s = s.map toupper := by
  rw [safeKey, utf8ToUpperOnlyLatin_of_isValid h, map_toupper_map_toupper]

/-- Login and registration normalise a name to the same text. -/
theorem safeAccount_eq_storedText (h : isValid s = true) (heq : stringEqualI t s = true) :
    safeAccount t = storedText s := by
  rw [stringEqualI_iff] at heq
  rw [safeAccount_of_isValid (isValid_of_map_toupper_eq h heq), storedText_of_isValid h, heq]

/-- Login and registration normalise a key to the same text. -/
theorem safeKey_eq_storedText (h : isValid s = true) (heq : stringEqualI t s = true) :
    safeKey t = storedText s := by
  rw [stringEqualI_iff] at heq
  rw [safeKey_of_isValid (isValid_of_map_toupper_eq h heq), storedText_of_isValid h, heq]

/-! ## The row -/

section
variable {row : AccountRow} (ban : Option BanRow) (beyond : List UInt8) (now : ℕ)

/-- A blob of the length that is read is read as it was written. -/
theorem getBinary_append (bytes : Vector UInt8 32) (rest : List UInt8) :
    (⟨some (bytes.toList ++ rest)⟩ : RawField).getBinary 32 = bytes.toList := by
  rw [RawField.getBinary, Option.getD_some, List.take_append_of_le_length (by simp),
    List.take_of_length_le (by simp)]

theorem salt_ofRow : (AccountInfo.ofRow row ban beyond now).salt = row.salt.toList := by
  have h := getBinary_append row.salt
  simp only [AccountInfo.ofRow, AccountInfo.new, AccountRow.columns, List.cons_append, fieldsOf]
  simpa using h _

theorem verifier_ofRow : (AccountInfo.ofRow row ban beyond now).verifier = row.verifier.toList := by
  have h := getBinary_append row.verifier
  simp only [AccountInfo.ofRow, AccountInfo.new, AccountRow.columns, List.cons_append, fieldsOf]
  simpa using h _

/-- The login compares with the salt and the verifier of the row. -/
theorem checkKey_ofRow (srp6 : Srp6) {salt verifier : Vector UInt8 32}
    (accountName key : List UInt8) (hsalt : row.salt = salt) (hverifier : row.verifier = verifier)
    (h : verifier = srp6.calculateVerifier (safeAccount accountName) (safeKey key) salt.toList) :
    (AccountInfo.ofRow row ban beyond now).checkKey srp6 accountName key = true := by
  rw [AccountInfo.checkKey, Srp6.checkLogin, salt_ofRow, verifier_ofRow, hsalt, hverifier,
    decide_eq_true_eq, h]

end

/-! ## Credentials -/

/-- The name a key is changed for is stored like the name of the account it belongs to. -/
theorem changeKey_name {accounts : Accounts} {name username : List UInt8}
    {info : DiscordAccountInfo} (hvalid : isValid username = true)
    (hid : accounts.getID (utf8ToUpperOnlyLatin name).2 ≠ 0)
    (hinfo : accounts.getAccountInfo (accounts.getID (utf8ToUpperOnlyLatin name).2) = some info)
    (hname : stringEqualI info.name username = true) :
    (utf8ToUpperOnlyLatin name).2 = storedText username := by
  have hsame := Accounts.name_of_getID hid hinfo
  rw [stringEqualI_iff] at hsame hname
  have hup : (utf8ToUpperOnlyLatin name).2.map toupper = username.map toupper := by
    rw [← hsame, hname]
  by_cases h : isValid name = true
  · rw [utf8ToUpperOnlyLatin_of_isValid h, map_toupper_map_toupper] at hup
    rw [utf8ToUpperOnlyLatin_of_isValid h, storedText_of_isValid hvalid]
    exact hup
  · -- a name that is not valid is left as it is, and cannot be equal to one that is
    rw [utf8ToUpperOnlyLatin_of_not_isValid h] at hup
    exact absurd (isValid_of_map_toupper_eq hvalid hup) h

/-- **Whoever knows a name and its key up to case is let in**, with the salt and the
verifier that were stored when the account was created, and with those that were stored
when its key was changed. -/
theorem credentials_round_trip (srp6 : Srp6) {username key username' key' : List UInt8}
    (husername : isValid username = true) (hkey : isValid key = true)
    (husername' : stringEqualI username' username = true) (hkey' : stringEqualI key' key = true)
    (row : AccountRow) (ban : Option BanRow) (beyond : List UInt8) (now : ℕ) :
    (safeAccount username' = storedText username ∧ safeKey key' = storedText key) ∧
    (∀ accounts salt guildID realmName account,
      createAccount srp6 accounts salt username key guildID realmName = (.ok, some account) →
      row.salt = account.salt → row.verifier = account.verifier →
      (AccountInfo.ofRow row ban beyond now).checkKey srp6 username' key' = true) ∧
    (∀ accounts salt name info logon,
      changeKey srp6 accounts salt name key = (.ok, some logon) →
      accounts.getAccountInfo logon.id = some info → stringEqualI info.name username = true →
      row.salt = logon.salt → row.verifier = logon.verifier →
      (AccountInfo.ofRow row ban beyond now).checkKey srp6 username' key' = true) := by
  have hsafe := safeAccount_eq_storedText husername husername'
  have hsafeKey := safeKey_eq_storedText hkey hkey'
  refine ⟨⟨hsafe, hsafeKey⟩, ?_, ?_⟩
  · intro accounts salt guildID realmName account hcreate hsalt hverifier
    obtain ⟨-, -, rfl, hv⟩ := createAccount_eq_ok hcreate
    apply checkKey_ofRow ban beyond now srp6 username' key' hsalt hverifier
    rw [hsafe, hsafeKey, hv]
  · intro accounts salt name info logon hchange hinfo hname hsalt hverifier
    obtain ⟨hid, hpos, rfl, hv⟩ := changeKey_eq_ok hchange
    rw [hid] at hinfo hpos
    have hstored : (utf8length (utf8ToUpperOnlyLatin key).2).2 = storedText key := by
      have hupper := isValid_of_map_toupper_eq hkey (map_toupper_map_toupper key)
      rw [utf8ToUpperOnlyLatin_of_isValid hkey, utf8length_of_isValid hupper,
        storedText_of_isValid hkey]
    apply checkKey_ofRow ban beyond now srp6 username' key' hsalt hverifier
    rw [hsafe, hsafeKey, hv, changeKey_name husername hpos hinfo hname, hstored]

/-- `Bö😀z` and `kЯ` are registered, `bö😀Z` and `KЯ` are let in, whatever the digests are;
also after the key was set again. -/
theorem credentials_round_trip_beyond_ascii :
    isValid [0x42, 0xc3, 0xb6, 0xf0, 0x9f, 0x98, 0x80, 0x7a] = true ∧
    isValid [0x6b, 0xd0, 0xaf] = true ∧
    ∀ srp6 : Srp6, ∃ account logon,
      createAccount srp6 ⟨[], List.nodup_nil⟩ (Vector.replicate 32 1)
        [0x42, 0xc3, 0xb6, 0xf0, 0x9f, 0x98, 0x80, 0x7a] [0x6b, 0xd0, 0xaf] 7 [] =
          (.ok, some account) ∧
      (AccountInfo.ofRow ⟨1, account.salt, account.verifier, 7, [], [], [], 0⟩ none [] 0).checkKey
        srp6 [0x62, 0xc3, 0xb6, 0xf0, 0x9f, 0x98, 0x80, 0x5a] [0x4b, 0xd0, 0xaf] = true ∧
      changeKey srp6 ⟨[⟨1, 7, account.name, []⟩], List.nodup_singleton 1⟩ (Vector.replicate 32 2)
        [0x42, 0xc3, 0xb6, 0xf0, 0x9f, 0x98, 0x80, 0x7a] [0x6b, 0xd0, 0xaf] = (.ok, some logon) ∧
      (AccountInfo.ofRow ⟨1, logon.salt, logon.verifier, 7, [], [], [], 0⟩ none [] 0).checkKey
        srp6 [0x62, 0xc3, 0xb6, 0xf0, 0x9f, 0x98, 0x80, 0x5a] [0x4b, 0xd0, 0xaf] = true := by
  have husername : isValid [0x42, 0xc3, 0xb6, 0xf0, 0x9f, 0x98, 0x80, 0x7a] = true := by
    decide +kernel
  have hkey : isValid [0x6b, 0xd0, 0xaf] = true := by decide +kernel
  have hlength : utf8length [0x42, 0xc3, 0xb6, 0xf0, 0x9f, 0x98, 0x80, 0x7a] =
      (4, [0x42, 0xc3, 0xb6, 0xf0, 0x9f, 0x98, 0x80, 0x7a]) := by decide +kernel
  have hkeyLength : utf8length [0x6b, 0xd0, 0xaf] = (2, [0x6b, 0xd0, 0xaf]) := by decide +kernel
  have hupper : utf8ToUpperOnlyLatin [0x42, 0xc3, 0xb6, 0xf0, 0x9f, 0x98, 0x80, 0x7a] =
      (true, [0x42, 0xc3, 0xb6, 0xf0, 0x9f, 0x98, 0x80, 0x5a]) := by decide +kernel
  have hkeyUpper : utf8ToUpperOnlyLatin [0x6b, 0xd0, 0xaf] = (true, [0x4b, 0xd0, 0xaf]) := by
    decide +kernel
  have hupperLength : utf8length [0x4b, 0xd0, 0xaf] = (2, [0x4b, 0xd0, 0xaf]) := by
    decide +kernel
  refine ⟨husername, hkey, fun srp6 => ?_⟩
  have husername' : stringEqualI [0x62, 0xc3, 0xb6, 0xf0, 0x9f, 0x98, 0x80, 0x5a]
      [0x42, 0xc3, 0xb6, 0xf0, 0x9f, 0x98, 0x80, 0x7a] = true := by decide
  have hkey' : stringEqualI [0x4b, 0xd0, 0xaf] [0x6b, 0xd0, 0xaf] = true := by decide
  have hcreate : createAccount srp6 ⟨[], List.nodup_nil⟩ (Vector.replicate 32 1)
      [0x42, 0xc3, 0xb6, 0xf0, 0x9f, 0x98, 0x80, 0x7a] [0x6b, 0xd0, 0xaf] 7 [] =
        (.ok, some ⟨[0x42, 0xc3, 0xb6, 0xf0, 0x9f, 0x98, 0x80, 0x5a], Vector.replicate 32 1,
          srp6.calculateVerifier [0x42, 0xc3, 0xb6, 0xf0, 0x9f, 0x98, 0x80, 0x5a]
            [0x4b, 0xd0, 0xaf] (Vector.replicate 32 1).toList, 7,
          "WarheadCore".toUTF8.data.toList⟩) := by
    simp only [createAccount, hlength, hkeyLength, hupper, hkeyUpper]
    rfl
  have hchange : changeKey srp6
      ⟨[⟨1, 7, [0x42, 0xc3, 0xb6, 0xf0, 0x9f, 0x98, 0x80, 0x5a], []⟩], List.nodup_singleton 1⟩
      (Vector.replicate 32 2) [0x42, 0xc3, 0xb6, 0xf0, 0x9f, 0x98, 0x80, 0x7a] [0x6b, 0xd0, 0xaf] =
        (.ok, some ⟨Vector.replicate 32 2,
          srp6.calculateVerifier [0x42, 0xc3, 0xb6, 0xf0, 0x9f, 0x98, 0x80, 0x5a]
            [0x4b, 0xd0, 0xaf] (Vector.replicate 32 2).toList, 1⟩) := by
    simp only [changeKey, hupper, hkeyUpper, hupperLength]
    rfl
  refine ⟨_, _, hcreate, ?_, hchange, ?_⟩
  · exact (credentials_round_trip srp6 husername hkey husername' hkey' _ none [] 0).2.1 _ _ _ _ _
      hcreate rfl rfl
  · exact (credentials_round_trip srp6 husername hkey husername' hkey' _ none [] 0).2.2 _ _ _ _ _
      hchange rfl (by decide) rfl rfl

end WarheadDiscord
