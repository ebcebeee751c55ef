import Mathlib.Data.List.Nodup
import WarheadDiscord.Common.Util

/-!
# Accounts

`AccountMgr` keeps the accounts it knows of in a map, and looks there before it creates an
account or changes a key.  The row of an account is written by a statement that is queued;
a function here returns its result together with the arguments of the statement.

Of the cryptography only `CalculateVerifier` matters.  SHA-1 and the modular
exponentiation are parameters, and so is the salt that is drawn at random.

## Main definitions

* `Srp6` — the verifier of a name and a key.
* `Accounts` — the map, with `getID`, `getAccountInfo` and `addAccountInfo`.
* `createAccount`, `changeKey` — the two functions that store a verifier.
-/

namespace WarheadDiscord

open Utf8

def MAX_ACCOUNT_STR : ℕ := 50
def MAX_PASS_STR : ℕ := 50

inductive AccountResponceResult
  | ok
  | longName
  | longKey
  | nameAlreadyExist
  | nameNotExist
  | dbError
  deriving DecidableEq, Repr

/-! ## The verifier -/

/-- The two functions of the library that is linked: the digest of some bytes, and the
bytes of `g ^ x mod N`. -/
structure Srp6 where
  sha1 : List UInt8 → Vector UInt8 20
  modExp : Vector UInt8 20 → Vector UInt8 32

namespace Srp6

variable (srp6 : Srp6)

/-- `v = g ^ H(s || H(u || ':' || p)) mod N` -/
def calculateVerifier (username password salt : List UInt8) : Vector UInt8 32 :=
  srp6.modExp (srp6.sha1 (salt ++ (srp6.sha1 (username ++ [0x3a] ++ password)).toList))

/-- The salt is random, here it is given. -/
def makeRegistrationData (username password : List UInt8) (salt : Vector UInt8 32) :
    Vector UInt8 32 × Vector UInt8 32 :=
  (salt, srp6.calculateVerifier username password salt.toList)

def checkLogin (username password salt verifier : List UInt8) : Bool :=
  verifier = (srp6.calculateVerifier username password salt).toList

end Srp6

/-! ## The map -/

structure DiscordAccountInfo where
  id : ℕ
  guildID : ℤ
  name : List UInt8
  realmName : List UInt8
  deriving DecidableEq, Repr

/-- `_accounts`: no two have the same id.  The order is the one in which the map is gone
through. -/
structure Accounts where
  infos : List DiscordAccountInfo
  nodup : (infos.map DiscordAccountInfo.id).Nodup

namespace Accounts

variable (accounts : Accounts)

def getAccountInfo (id : ℕ) : Option DiscordAccountInfo :=
  accounts.infos.find? fun info => info.id = id

/-- The id of the first account with the name; 0 if there is none. -/
def getID (accountName : List UInt8) : ℕ :=
  match accounts.infos.find? fun info => stringEqualI info.name accountName with
  | some info => info.id
  | none => 0

theorem notMem_of_getAccountInfo_eq_none {id : ℕ} (h : accounts.getAccountInfo id = none) :
    id ∉ accounts.infos.map DiscordAccountInfo.id := by
  intro hmem
  obtain ⟨info, hinfo, rfl⟩ := List.mem_map.mp hmem
  simpa using List.find?_eq_none.mp h info hinfo

/-- An id that is there is not added again. -/
def addAccountInfo (info : DiscordAccountInfo) : Accounts :=
  match h : accounts.getAccountInfo info.id with
  | some _ => accounts
  | none =>
      { infos := info :: accounts.infos
        nodup := List.nodup_cons.mpr ⟨accounts.notMem_of_getAccountInfo_eq_none h, accounts.nodup⟩ }

variable {accounts}

theorem addAccountInfo_of_some {info other : DiscordAccountInfo}
    (h : accounts.getAccountInfo info.id = some other) :
    accounts.addAccountInfo info = accounts := by
  rw [addAccountInfo]
  split <;> simp_all

theorem infos_addAccountInfo_of_none {info : DiscordAccountInfo}
    (h : accounts.getAccountInfo info.id = none) :
    (accounts.addAccountInfo info).infos = info :: accounts.infos := by
  rw [addAccountInfo]
  split <;> simp_all

theorem mem_of_getAccountInfo {id : ℕ} {info : DiscordAccountInfo}
    (h : accounts.getAccountInfo id = some info) : info ∈ accounts.infos ∧ info.id = id := by
  constructor
  · exact List.mem_of_find?_eq_some h
  · simpa using List.find?_some h

/-- The account that `GetID` finds is the one its id stands for. -/
theorem name_of_getID {name : List UInt8} {info : DiscordAccountInfo}
    (hid : accounts.getID name ≠ 0)
    (hinfo : accounts.getAccountInfo (accounts.getID name) = some info) :
    stringEqualI info.name name = true := by
  rw [getID] at hid hinfo
  split at hinfo
  case h_1 found hfound =>
    obtain ⟨hmem, hsame⟩ := mem_of_getAccountInfo hinfo
    have heq : info = found :=
      List.inj_on_of_nodup_map accounts.nodup hmem (List.mem_of_find?_eq_some hfound) hsame
    have hname := List.find?_some hfound
    rw [heq]
    exact hname
  case h_2 hnone =>
    rw [hnone] at hid
    exact absurd rfl hid

theorem exists_of_getID_ne_zero {name : List UInt8} (hid : accounts.getID name ≠ 0) :
    ∃ info ∈ accounts.infos, stringEqualI info.name name = true := by
  rw [getID] at hid
  split at hid
  case h_1 found hfound =>
    have hname := List.find?_some hfound
    exact ⟨found, List.mem_of_find?_eq_some hfound, hname⟩
  case h_2 hnone => exact absurd rfl hid

/-- `GetID` finds nothing only if no account has the name, ids being positive. -/
theorem not_stringEqualI_of_getID_eq_zero {name : List UInt8} {info : DiscordAccountInfo}
    (hpos : ∀ info ∈ accounts.infos, info.id ≠ 0) (hid : accounts.getID name = 0)
    (hinfo : info ∈ accounts.infos) : ¬ stringEqualI info.name name = true := by
  rw [getID] at hid
  split at hid
  case h_1 found hfound => exact absurd hid (hpos found (List.mem_of_find?_eq_some hfound))
  case h_2 hnone => exact List.find?_eq_none.mp hnone info hinfo

end Accounts

/-! ## Creating an account and changing its key -/

/-- The arguments of `DISCORD_INS_ACCOUNT`. -/
structure InsAccount where
  name : List UInt8
  salt : Vector UInt8 32
  verifier : Vector UInt8 32
  guildID : ℤ
  realmName : List UInt8
  deriving DecidableEq, Repr

/-- The arguments of `DISCORD_UPD_LOGON`. -/
structure UpdLogon where
  salt : Vector UInt8 32
  verifier : Vector UInt8 32
  id : ℕ
  deriving DecidableEq, Repr

/-- The result, and the account that is inserted. -/
def createAccount (srp6 : Srp6) (accounts : Accounts) (salt : Vector UInt8 32)
    (username key : List UInt8) (guildID : ℤ) (realmName : List UInt8) :
    AccountResponceResult × Option InsAccount :=
  if (utf8length username).1 > MAX_ACCOUNT_STR then (.longName, none)
  else if (utf8length key).1 > MAX_PASS_STR then (.longKey, none)
  else
    -- `utf8length` has cleared what is not valid
    let username := (utf8ToUpperOnlyLatin (utf8length username).2).2
    let key := (utf8ToUpperOnlyLatin (utf8length key).2).2
    if accounts.getID username ≠ 0 then (.nameAlreadyExist, none)
    else
      let realmName := if realmName.isEmpty then "WarheadCore".toUTF8.data.toList else realmName
      let (salt, verifier) := srp6.makeRegistrationData username key salt
      (.ok, some ⟨username, salt, verifier, guildID, realmName⟩)

/-- What a name or a key is stored as. -/
def storedText (s : List UInt8) : List UInt8 := (utf8ToUpperOnlyLatin (utf8length s).2).2

/-- The result, and the verifier that is written. -/
def changeKey (srp6 : Srp6) (accounts : Accounts) (salt : Vector UInt8 32)
    (name newPassword : List UInt8) : AccountResponceResult × Option UpdLogon :=
  let safeUser := (utf8ToUpperOnlyLatin name).2
  let newPassword := (utf8ToUpperOnlyLatin newPassword).2
  let accountID := accounts.getID safeUser
  if accountID = 0 then (.nameNotExist, none)
  else if (utf8length newPassword).1 > MAX_PASS_STR then (.longKey, none)
  else
    let (salt, verifier) := srp6.makeRegistrationData safeUser (utf8length newPassword).2 salt
    (.ok, some ⟨salt, verifier, accountID⟩)

theorem utf8length_of_isValid {s : List UInt8} (h : isValid s = true) : (utf8length s).2 = s := by
  obtain ⟨cps, htext⟩ := isValid_iff.mp h
  rw [utf8length, distance, codePoints_eq_ok_iff.mpr htext]
  rfl

theorem utf8length_of_not_isValid {s : List UInt8} (h : ¬ isValid s = true) :
    (utf8length s).2 = [] := by
  rw [isValid] at h
  rw [utf8length, distance]
  cases hcps : codePoints s with
  | error error => rfl
  | ok cps =>
      rw [hcps] at h
      exact absurd rfl h

theorem storedText_of_isValid {s : List UInt8} (h : isValid s = true) :
    storedText s = s.map toupper := by
  rw [storedText, utf8length_of_isValid h, utf8ToUpperOnlyLatin_of_isValid h]

/-- Texts that are equal up to case are stored as the same text, also when they are not
valid. -/
theorem storedText_congr {s t : List UInt8} (h : stringEqualI s t = true) :
    storedText s = storedText t := by
  rw [stringEqualI_iff] at h
  by_cases hs : isValid s = true
  · have ht := isValid_of_map_toupper_eq hs h.symm
    rw [storedText_of_isValid hs, storedText_of_isValid ht, h]
  · have ht : ¬ isValid t = true := fun ht => hs (isValid_of_map_toupper_eq ht h)
    rw [storedText, storedText, utf8length_of_not_isValid hs, utf8length_of_not_isValid ht]

section
variable {srp6 : Srp6} {accounts : Accounts} {salt : Vector UInt8 32}
  {username key name : List UInt8} {guildID : ℤ} {realmName : List UInt8}

/-- An account is created when neither text is too long and the name is not known. -/
theorem createAccount_eq_ok {account : InsAccount}
    (h : createAccount srp6 accounts salt username key guildID realmName = (.ok, some account)) :
    ((utf8length username).1 ≤ MAX_ACCOUNT_STR ∧ (utf8length key).1 ≤ MAX_PASS_STR ∧
      accounts.getID account.name = 0) ∧
    account.name = storedText username ∧ account.salt = salt ∧
      account.verifier =
        srp6.calculateVerifier (storedText username) (storedText key) salt.toList := by
  simp only [createAccount] at h
  split at h
  · cases h
  case isFalse hname =>
    split at h
    · cases h
    case isFalse hkey =>
      split at h
      · cases h
      case isFalse hid =>
        cases h
        exact ⟨⟨not_lt.mp hname, not_lt.mp hkey, not_not.mp hid⟩, rfl, rfl, rfl⟩

theorem createAccount_of_getID_eq_zero (hname : (utf8length username).1 ≤ MAX_ACCOUNT_STR)
    (hkey : (utf8length key).1 ≤ MAX_PASS_STR) (hid : accounts.getID (storedText username) = 0) :
    ∃ account, createAccount srp6 accounts salt username key guildID realmName =
      (.ok, some account) := by
  refine ⟨⟨storedText username, salt,
    srp6.calculateVerifier (storedText username) (storedText key) salt.toList, guildID,
    if realmName.isEmpty then "WarheadCore".toUTF8.data.toList else realmName⟩, ?_⟩
  rw [createAccount, if_neg (not_lt.mpr hname), if_neg (not_lt.mpr hkey)]
  exact if_neg (not_not.mpr hid)

/-- A key is changed when the name is known and the key is not too long. -/
theorem changeKey_eq_ok {logon : UpdLogon}
    (h : changeKey srp6 accounts salt name key = (.ok, some logon)) :
    logon.id = accounts.getID (utf8ToUpperOnlyLatin name).2 ∧ logon.id ≠ 0 ∧ logon.salt = salt ∧
      logon.verifier = srp6.calculateVerifier (utf8ToUpperOnlyLatin name).2
        (utf8length (utf8ToUpperOnlyLatin key).2).2 salt.toList := by
  simp only [changeKey] at h
  split at h
  · cases h
  case isFalse hid =>
    split at h
    · cases h
    · cases h
      exact ⟨rfl, hid, rfl, rfl⟩

end

end WarheadDiscord
