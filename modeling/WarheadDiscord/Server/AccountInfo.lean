import WarheadDiscord.Database.Field

/-!
# The two ban checks of a connecting client

An IP ban is judged in SQL: `DISCORD_SEL_IP_INFO` computes two flags for each row
of `ip_banned` and `CheckIpCallback` goes through them.  An account ban is judged in
the constructor of `AccountInfo`, from the two dates that
`DISCORD_SEL_ACCOUNT_INFO_BY_NAME` joins to the account.

The constructor reads the dates with `Get<Seconds>(false)`, eight bytes from columns
of four.  `bandate` and `unbandate` are the last two columns of the row, so the first
date gets `unbandate` as its upper half and the second one whatever lies behind the
row buffer.  `banDate_ofRow` and `unBanDate_ofRow` are the values the constructor
sees; `accountVerdict_eq_ipVerdict_iff` says for which dates the two checks agree.

## Main definitions

* `BanRow` — the dates of a ban.
* `selIpInfo`, `checkIpCallback` — the IP path.
* `AccountInfo`, `handleAuthSessionCallback` — the account path up to the guild check.
* `DatesAgree` — the dates on which the account path does what the IP path does.
-/

namespace WarheadDiscord

open Bytes

inductive DiscordAuthResponseCodes
  | ok
  | failed
  | incorrectKey
  | unknownAccount
  | bannedAccount
  | bannedIP
  | bannedPermanentlyAccount
  | bannedPermanentlyIP
  | serverOffline
  | botNotFound
  | channelsNotFound
  | channelsIncorrect
  deriving DecidableEq, Repr

/-- The dates of a row of `account_banned` or `ip_banned`. -/
structure BanRow where
  bandate : UInt32
  unbandate : UInt32
  le : bandate ≤ unbandate

/-- What both paths are meant to decide: a ban without an end, or one that has not
ended. -/
def BanRow.Applies (now : ℕ) (row : BanRow) : Prop :=
  row.unbandate = row.bandate ∨ now < row.unbandate.toNat

/-! ## The IP path -/

/-- The two columns `DISCORD_SEL_IP_INFO` computes, with `UNIX_TIMESTAMP()` at
`now`. -/
def selIpInfo (now : ℕ) (row : BanRow) : Bool × Bool :=
  (now < row.unbandate.toNat || row.unbandate == row.bandate, row.unbandate == row.bandate)

/-- The loop over the rows: the code sent to the client, or none when reading
starts. -/
def checkIpCallback : List (Bool × Bool) → Option DiscordAuthResponseCodes
  | [] => none
  | (isBanned, isPermanentlyBanned) :: rows =>
      if isPermanentlyBanned then some .bannedPermanentlyIP
      else if isBanned then some .bannedIP
      else checkIpCallback rows

/-! ## The account path -/

/-- The row of `account`, as far as `DISCORD_SEL_ACCOUNT_INFO_BY_NAME` selects it. -/
structure AccountRow where
  id : UInt32
  salt : Vector UInt8 32
  verifier : Vector UInt8 32
  guildID : UInt64
  realmName : List UInt8
  lastIP : List UInt8
  coreName : List UInt8
  moduleVersion : UInt32
  deriving DecidableEq, Repr

/-- The bound columns of the account; texts and blobs have room for a terminator. -/
def AccountRow.columns (row : AccountRow) : List Column :=
  [⟨toLE 4 row.id.toNat, false⟩, ⟨row.salt.toList ++ [0], false⟩,
   ⟨row.verifier.toList ++ [0], false⟩, ⟨toLE 8 row.guildID.toNat, false⟩,
   ⟨row.realmName ++ [0], false⟩, ⟨row.lastIP ++ [0], false⟩, ⟨row.coreName ++ [0], false⟩,
   ⟨toLE 4 row.moduleVersion.toNat, false⟩]

/-- The date columns of the joined row; both are NULL when no ban is active. -/
def banColumns : Option BanRow → List Column
  | none => [⟨List.replicate 4 0, true⟩, ⟨List.replicate 4 0, true⟩]
  | some ban => [⟨toLE 4 ban.bandate.toNat, false⟩, ⟨toLE 4 ban.unbandate.toNat, false⟩]

/-- The members of `AccountInfo` that the login uses. -/
structure AccountInfo where
  id : ℕ
  salt : List UInt8
  verifier : List UInt8
  guildID : ℕ
  banDate : ℤ
  unBanDate : ℤ
  isBanned : Bool
  isPermanentlyBanned : Bool
  deriving DecidableEq, Repr

namespace AccountInfo

/-- The constructor. -/
def new (fields : List RawField) (now : ℕ) : AccountInfo :=
  let field (i : ℕ) : RawField := fields.getD i ⟨none⟩
  let banDate := if (field 8).isNull then 0 else (field 8).getSeconds false
  let unBanDate := if (field 9).isNull then 0 else (field 9).getSeconds false
  { id := (field 0).getData 4
    salt := (field 1).getBinary 32
    verifier := (field 2).getBinary 32
    guildID := (field 3).getData 8
    banDate := banDate
    unBanDate := unBanDate
    isBanned := unBanDate > 0 && unBanDate < now
    isPermanentlyBanned := banDate > 0 && banDate == unBanDate }

theorem isBanned_new (fields : List RawField) (now : ℕ) :
    (new fields now).isBanned =
      (decide ((new fields now).unBanDate > 0) && decide ((new fields now).unBanDate < now)) := rfl

theorem isPermanentlyBanned_new (fields : List RawField) (now : ℕ) :
    (new fields now).isPermanentlyBanned =
      (decide ((new fields now).banDate > 0) &&
        (new fields now).banDate == (new fields now).unBanDate) := rfl

/-- The constructor on the row of an account joined with a ban; `beyond` is the memory
behind the row buffer. -/
def ofRow (row : AccountRow) (ban : Option BanRow) (beyond : List UInt8) (now : ℕ) :
    AccountInfo :=
  new (fieldsOf (row.columns ++ banColumns ban) beyond) now

end AccountInfo

/-- How `HandleAuthSessionCallback` goes on. -/
inductive AuthOutcome
  /-- `SendAuthResponseError` and `DelayedCloseSocket`; a ban is remembered with its
  duration and date. -/
  | reject (code : DiscordAuthResponseCodes) (remembered : Option (ℤ × ℤ))
  | checkBotInGuild (account : AccountInfo)
  deriving DecidableEq, Repr

/-- `HandleAuthSessionCallback` up to the guild check. -/
def handleAuthSessionCallback (checkKey : AccountInfo → Bool) (isClosed : Bool) (now : ℕ) :
    Option AccountInfo → AuthOutcome
  | none => .reject .unknownAccount none
  | some account =>
      if account.isPermanentlyBanned then
        .reject .bannedPermanentlyAccount (some (0, account.banDate))
      else if account.isBanned then
        .reject .bannedAccount (some (account.unBanDate - now, account.banDate))
      else if isClosed then .reject .serverOffline none
      else if !checkKey account then .reject .incorrectKey none
      else .checkBotInGuild account

/-- The client is told that its account is banned. -/
def AuthOutcome.rejectsAsBanned : AuthOutcome → Bool
  | .reject .bannedPermanentlyAccount _ => true
  | .reject .bannedAccount _ => true
  | _ => false

/-! ## What the two paths decide -/

/-- The IP path decides what it is meant to decide. -/
theorem checkIpCallback_ne_none_iff (now : ℕ) (row : BanRow) :
    checkIpCallback [selIpInfo now row] ≠ none ↔ row.Applies now := by
  simp only [checkIpCallback, selIpInfo, BanRow.Applies]
  by_cases hp : row.unbandate = row.bandate
  · simp [hp]
  · by_cases hb : now < row.unbandate.toNat <;> simp [hp, hb]

/-- Only the two flags of `AccountInfo` make the callback reject a client as
banned. -/
theorem rejectsAsBanned_handleAuthSessionCallback (checkKey : AccountInfo → Bool)
    (isClosed : Bool) (now : ℕ) (account : AccountInfo) :
    (handleAuthSessionCallback checkKey isClosed now (some account)).rejectsAsBanned =
      (account.isPermanentlyBanned || account.isBanned) := by
  simp only [handleAuthSessionCallback]
  cases account.isPermanentlyBanned <;> cases account.isBanned <;> cases isClosed <;>
    cases checkKey account <;> rfl

section
variable (row : AccountRow) (ban : BanRow) (beyond : List UInt8) (now : ℕ)

theorem ofLE_toLE_toNat (v : UInt32) : ofLE (toLE 4 v.toNat) = v.toNat := by
  rw [ofLE_toLE]
  exact Nat.mod_eq_of_lt v.toNat_lt

/-- `unbandate` is the upper half of what is read as `bandate`. -/
theorem banDate_ofRow : (AccountInfo.ofRow row (some ban) beyond now).banDate =
    toInt64 (ban.bandate.toNat + 2 ^ 32 * ban.unbandate.toNat) := by
  have h := getData_of_short_column beyond (length_toLE 4 ban.bandate.toNat)
    (length_toLE 4 ban.unbandate.toNat)
  rw [ofLE_toLE_toNat, ofLE_toLE_toNat] at h
  rw [← h]
  simp [AccountInfo.ofRow, AccountInfo.new, AccountRow.columns, banColumns, fieldsOf,
    RawField.isNull, RawField.getSeconds]

/-- The memory behind the row buffer is the upper half of what is read as
`unbandate`. -/
theorem unBanDate_ofRow (hb : beyond.length = 4) :
    (AccountInfo.ofRow row (some ban) beyond now).unBanDate =
      toInt64 (ban.unbandate.toNat + 2 ^ 32 * ofLE beyond) := by
  have h := getData_of_short_column [] (length_toLE 4 ban.unbandate.toNat) hb
  rw [ofLE_toLE_toNat, List.append_nil] at h
  rw [← h]
  simp [AccountInfo.ofRow, AccountInfo.new, AccountRow.columns, banColumns, fieldsOf,
    RawField.isNull, RawField.getSeconds]

end

/-- The dates on which the account path agrees with the IP path, `beyond` being the
four bytes behind the row buffer: no active ban; a ban without an end whose date is
repeated behind the buffer, or whose widened end lies in the past; a ban that has
ended and whose widened end does not lie in the past. -/
def DatesAgree (now : ℕ) (beyond : UInt32) : Option BanRow → Prop
  | none => True
  | some ban =>
      let b := ban.bandate.toNat
      let u := ban.unbandate.toNat
      let wide := u + 2 ^ 32 * beyond.toNat
      (b = u ∧ (u = beyond.toNat ∧ 0 < u ∧ u < 2 ^ 31 ∨
        0 < wide ∧ wide < 2 ^ 63 ∧ wide < now)) ∨
      (b < u ∧ u ≤ now ∧ (now ≤ wide ∨ 2 ^ 63 ≤ wide))

section
variable (row : AccountRow) (beyond : UInt32) (now : ℕ)

/-- The permanent flag, in terms of the dates in the database. -/
theorem isPermanentlyBanned_ofRow (ban : BanRow) :
    (AccountInfo.ofRow row (some ban) (toLE 4 beyond.toNat) now).isPermanentlyBanned = true ↔
      ban.bandate.toNat = ban.unbandate.toNat ∧ ban.unbandate.toNat = beyond.toNat ∧
        0 < ban.unbandate.toNat ∧ ban.unbandate.toNat < 2 ^ 31 := by
  have hflag := AccountInfo.isPermanentlyBanned_new
    (fieldsOf (row.columns ++ banColumns (some ban)) (toLE 4 beyond.toNat)) now
  rw [← AccountInfo.ofRow] at hflag
  have hb := ban.bandate.toNat_lt
  have hu := ban.unbandate.toNat_lt
  have hj := beyond.toNat_lt
  rw [hflag, banDate_ofRow, unBanDate_ofRow _ _ _ _ (length_toLE _ _), ofLE_toLE_toNat]
  simp only [Bool.and_eq_true, decide_eq_true_eq, beq_iff_eq]
  simp only [toInt64]
  split <;> split <;> omega

/-- The flag of a ban that is seen to have ended. -/
theorem isBanned_ofRow (ban : BanRow) :
    (AccountInfo.ofRow row (some ban) (toLE 4 beyond.toNat) now).isBanned = true ↔
      0 < ban.unbandate.toNat + 2 ^ 32 * beyond.toNat ∧
        ban.unbandate.toNat + 2 ^ 32 * beyond.toNat < 2 ^ 63 ∧
        ban.unbandate.toNat + 2 ^ 32 * beyond.toNat < now := by
  have hflag := AccountInfo.isBanned_new
    (fieldsOf (row.columns ++ banColumns (some ban)) (toLE 4 beyond.toNat)) now
  rw [← AccountInfo.ofRow] at hflag
  have hu := ban.unbandate.toNat_lt
  have hj := beyond.toNat_lt
  rw [hflag, unBanDate_ofRow _ _ _ _ (length_toLE _ _), ofLE_toLE_toNat]
  simp only [Bool.and_eq_true, decide_eq_true_eq]
  simp only [toInt64]
  split <;> omega

end

/-- **The account path rejects a client as banned exactly when a ban applies, and so
gives the verdict of the IP path, exactly on the dates of `DatesAgree`.** -/
theorem accountVerdict_eq_ipVerdict_iff (checkKey : AccountInfo → Bool) (isClosed : Bool)
    (row : AccountRow) (ban : Option BanRow) (beyond : UInt32) (now : ℕ) :
    let rejected := (handleAuthSessionCallback checkKey isClosed now
      (some (AccountInfo.ofRow row ban (toLE 4 beyond.toNat) now))).rejectsAsBanned
    ((rejected = true ↔ ∃ b ∈ ban, b.Applies now) ∧
      (rejected = true ↔ ∃ b ∈ ban, checkIpCallback [selIpInfo now b] ≠ none)) ↔
      DatesAgree now beyond ban := by
  intro rejected
  have hip : (∃ b ∈ ban, checkIpCallback [selIpInfo now b] ≠ none) ↔ ∃ b ∈ ban, b.Applies now := by
    simp only [checkIpCallback_ne_none_iff]
  rw [hip, and_self]
  have hrej : rejected = ((AccountInfo.ofRow row ban (toLE 4 beyond.toNat) now).isPermanentlyBanned ||
      (AccountInfo.ofRow row ban (toLE 4 beyond.toNat) now).isBanned) :=
    rejectsAsBanned_handleAuthSessionCallback checkKey isClosed now _
  rw [hrej]
  cases ban with
  | none =>
      have hperm : (AccountInfo.ofRow row none (toLE 4 beyond.toNat) now).isPermanentlyBanned = false := rfl
      have hban : (AccountInfo.ofRow row none (toLE 4 beyond.toNat) now).isBanned = false := rfl
      simp [hperm, hban, DatesAgree]
  | some ban =>
      have hle : ban.bandate.toNat ≤ ban.unbandate.toNat := UInt32.le_iff_toNat_le.mp ban.le
      have happlies : (∃ b ∈ some ban, b.Applies now) ↔
          ban.unbandate.toNat = ban.bandate.toNat ∨ now < ban.unbandate.toNat := by
        simp [BanRow.Applies, ← UInt32.toNat_inj]
      rw [Bool.or_eq_true, isPermanentlyBanned_ofRow, isBanned_ofRow, happlies]
      simp only [DatesAgree]
      omega

/-- An account. -/
def sampleAccount : AccountRow :=
  ⟨1, .replicate 32 1, .replicate 32 2, 7, [0x57], [0x31], [0x57], 100000⟩

/-- A ban that ends in the future, with nothing behind the row buffer: the client is
not rejected as banned. -/
theorem accountVerdict_ne_ipVerdict_running_ban :
    ∃ ban : BanRow, ban.Applies 1750000000 ∧
      checkIpCallback [selIpInfo 1750000000 ban] = some .bannedIP ∧
      handleAuthSessionCallback (fun _ => true) false 1750000000
        (some (AccountInfo.ofRow sampleAccount (some ban) [0, 0, 0, 0] 1750000000)) =
        .checkBotInGuild
          (AccountInfo.ofRow sampleAccount (some ban) [0, 0, 0, 0] 1750000000) :=
  ⟨⟨1700000000, 1800000000, by decide⟩, .inr (by decide), by decide, by decide⟩

end WarheadDiscord
