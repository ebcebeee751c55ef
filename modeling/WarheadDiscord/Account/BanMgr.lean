import Mathlib.Data.List.Induction
import Mathlib.Data.List.Infix
import Mathlib.Logic.Function.Basic
import WarheadDiscord.Account.AccountMgr

/-!
# The cache of bans

`BanMgr` remembers the bans it has issued, by the name of the account or by the address, and
refuses a ban while one is in force.  A ban has the date of its beginning and the date of its
end.  The constructor of `BanInfo` replaces a date of zero by the time of the game for the
beginning, but computes the end from the zero.

The cache is asked for the name as it was typed, while `AccountMgr::GetID` does not care for
upper and lower case.

Statements are given to the database in the order of the history `executed`; sessions that
are kicked are in the history `kicked`.  Log messages are left out.

`answers_iff` says when the cache answers as it should over all sequences of calls, and
`sameBan_iff` for which spellings of a name it finds the ban of an account.

## Main definitions

* `BanInfo`, `BanMgr`, `banAccount`, `banIp`, `deleteAccount`, `deleteIp` — the code.
* `BanMgr.Call`, `BanRun` — the calls, and a sequence of them with the bans that were issued.
* `BanRun.Answers` — what is promised of a call.
-/

namespace WarheadDiscord

inductive BanResponceCode
  | ok
  | error
  | notFound
  | exist
  deriving DecidableEq, Repr

structure BanInfo where
  duration : ℤ
  banDate : ℤ
  unabanDate : ℤ
  deriving DecidableEq, Repr

namespace BanInfo

/-- The constructor, with the time of the game. -/
def new (gameTime duration banDate : ℤ) : BanInfo :=
  ⟨duration, if banDate = 0 then gameTime else banDate, banDate + duration⟩

def isPermanently (ban : BanInfo) : Bool :=
  ban.duration = 0 || ban.banDate = ban.unabanDate

/-- The test of `BanAccount` and `BanIp`. -/
def inForce (gameTime : ℤ) (ban : BanInfo) : Bool :=
  ban.isPermanently || ban.unabanDate > gameTime

end BanInfo

/-- The statements of `BanMgr`, with their parameters. -/
inductive BanStatement
  | insAccountBan (accountID : ℕ) (duration : ℤ) (bannedBy : String) (reason : List UInt8)
  | insIpBan (ip : List UInt8) (duration : ℤ) (bannedBy : String) (reason : List UInt8)
  | delBanAccount (accountID : ℕ)
  | delBanIp (ip : List UInt8)
  deriving DecidableEq, Repr

/-- The sessions that are kicked, if there are any. -/
inductive Kick
  | account (accountID : ℕ)
  | ip (remoteAddress : List UInt8)
  deriving DecidableEq, Repr

structure BanMgr where
  storeAccount : List UInt8 → Option BanInfo
  storeIp : List UInt8 → Option BanInfo
  executed : List BanStatement
  kicked : List Kick

namespace BanMgr

def empty : BanMgr := ⟨fun _ => none, fun _ => none, [], []⟩

def execute (m : BanMgr) (stmt : BanStatement) : BanMgr :=
  { m with executed := m.executed ++ [stmt] }

def kick (m : BanMgr) (sessions : Kick) : BanMgr := { m with kicked := m.kicked ++ [sessions] }

def getBanInfoAccount (m : BanMgr) (accountName : List UInt8) : Option BanInfo :=
  m.storeAccount accountName

def getBanInfoIp (m : BanMgr) (ip : List UInt8) : Option BanInfo := m.storeIp ip

def addAccount (m : BanMgr) (accountName : List UInt8) (banType : BanInfo) : BanMgr :=
  { m with storeAccount := Function.update m.storeAccount accountName (some banType) }

def addIp (m : BanMgr) (ip : List UInt8) (banType : BanInfo) : BanMgr :=
  { m with storeIp := Function.update m.storeIp ip (some banType) }

def deleteAccount (accounts : Accounts) (m : BanMgr) (accountName : List UInt8) : BanMgr :=
  match m.getBanInfoAccount accountName with
  | none => m
  | some _ =>
      let accountID := accounts.getID accountName
      if accountID = 0 then m
      else
        { m.execute (.delBanAccount accountID) with
          storeAccount := Function.update m.storeAccount accountName none }

def deleteIp (m : BanMgr) (ip : List UInt8) : BanMgr :=
  match m.getBanInfoIp ip with
  | none => m
  | some _ =>
      { m.execute (.delBanIp ip) with storeIp := Function.update m.storeIp ip none }

def banAccount (accounts : Accounts) (gameTime : ℤ) (m : BanMgr) (accountName : List UInt8)
    (duration : ℤ) (reason : List UInt8) : BanResponceCode × BanMgr :=
  if accountName = [] then (.error, m)
  else
    let accountID := accounts.getID accountName
    if accountID = 0 then (.notFound, m)
    else if (m.getBanInfoAccount accountName).any (BanInfo.inForce gameTime) then (.exist, m)
    else
      let m := m.deleteAccount accounts accountName
      let m := m.execute (.insAccountBan accountID duration "Console" reason)
      let m := m.kick (.account accountID)
      (.ok, m.addAccount accountName (.new gameTime duration 0))

def banIp (gameTime : ℤ) (m : BanMgr) (ip : List UInt8) (duration : ℤ) (reason : List UInt8) :
    BanResponceCode × BanMgr :=
  if ip = [] then (.error, m)
  else if (m.getBanInfoIp ip).any (BanInfo.inForce gameTime) then (.exist, m)
  else
    let m := m.deleteIp ip
    let m := m.execute (.insIpBan ip duration "Console" reason)
    let m := m.kick (.ip ip)
    (.ok, m.addIp ip (.new gameTime duration 0))

/-- The calls, each with the accounts and the time it finds. -/
inductive Call
  | banAccount (accounts : Accounts) (gameTime : ℤ) (accountName : List UInt8) (duration : ℤ)
      (reason : List UInt8)
  | banIp (gameTime : ℤ) (ip : List UInt8) (duration : ℤ) (reason : List UInt8)
  | deleteAccount (accounts : Accounts) (accountName : List UInt8)
  | deleteIp (ip : List UInt8)

def call (m : BanMgr) : Call → Option BanResponceCode × BanMgr
  | .banAccount accounts gameTime accountName duration reason =>
      (m.banAccount accounts gameTime accountName duration reason).map some id
  | .banIp gameTime ip duration reason => (m.banIp gameTime ip duration reason).map some id
  | .deleteAccount accounts accountName => (none, m.deleteAccount accounts accountName)
  | .deleteIp ip => (none, m.deleteIp ip)

end BanMgr

/-! ## The bans that were issued -/

/-- What is banned. -/
inductive BanKey
  | account (accountName : List UInt8)
  | ip (address : List UInt8)
  deriving DecidableEq, Repr

def BanKey.text : BanKey → List UInt8
  | .account accountName => accountName
  | .ip address => address

/-- The ban in the cache. -/
def BanMgr.find (m : BanMgr) : BanKey → Option BanInfo
  | .account accountName => m.getBanInfoAccount accountName
  | .ip address => m.getBanInfoIp address

namespace BanMgr.Call

/-- The key, the time and the duration of a call for a ban, if the account exists. -/
def ban : Call → Option (BanKey × ℤ × ℤ)
  | .banAccount accounts gameTime accountName duration _ =>
      if accounts.getID accountName = 0 then none
      else some (.account accountName, gameTime, duration)
  | .banIp gameTime ip duration _ => some (.ip ip, gameTime, duration)
  | _ => none

/-- The key that a call deletes, if the account exists. -/
def deleted : Call → Option BanKey
  | .deleteAccount accounts accountName =>
      if accounts.getID accountName = 0 then none else some (.account accountName)
  | .deleteIp ip => some (.ip ip)
  | _ => none

end BanMgr.Call

/-- The manager after some calls, and for each key the time and the duration of the ban that
was issued last and not deleted since. -/
structure BanRun where
  m : BanMgr
  issued : BanKey → Option (ℤ × ℤ)

namespace BanRun

def empty : BanRun := ⟨.empty, fun _ => none⟩

def call (r : BanRun) (c : BanMgr.Call) : BanRun where
  m := (r.m.call c).2
  issued :=
    match c.ban, c.deleted with
    | some (key, gameTime, duration), _ =>
        if (r.m.call c).1 = some .ok then
          Function.update r.issued key (some (gameTime, duration))
        else r.issued
    | none, some key => Function.update r.issued key none
    | none, none => r.issued

/-- A sequence of calls. -/
def run (calls : List BanMgr.Call) : BanRun := calls.foldl call empty

/-- A ban was issued for the key, and it has no end or ends later. -/
def Banned (r : BanRun) (key : BanKey) (gameTime : ℤ) : Prop :=
  ∃ t d, r.issued key = some (t, d) ∧ (d = 0 ∨ gameTime < t + d)

/-- What is promised of a call for a ban: `Exist` is answered exactly while a ban is in force,
and then nothing changes; after `Ok` the cache has the ban with the date of its end. -/
def Answers (r : BanRun) (c : BanMgr.Call) : Prop :=
  ∀ key gameTime duration, c.ban = some (key, gameTime, duration) →
    ((r.m.call c).1 = some .exist ↔ r.Banned key gameTime) ∧
    ((r.m.call c).1 = some .exist → (r.m.call c).2 = r.m) ∧
    ((r.m.call c).1 = some .ok → ∃ ban, (r.m.call c).2.find key = some ban ∧
      ban.unabanDate = gameTime + duration)

/-- A call that is to issue a ban is made at the time zero. -/
def AtZero (r : BanRun) (c : BanMgr.Call) : Prop :=
  ∀ key gameTime duration, c.ban = some (key, gameTime, duration) → key.text ≠ [] →
    ¬r.Banned key gameTime → gameTime = 0

end BanRun

/-! ## The calls one by one -/

namespace BanMgr
variable {m : BanMgr} {c : Call} {key : BanKey} {gameTime duration : ℤ}

theorem find_deleteAccount {accounts : Accounts} {accountName : List UInt8}
    (hid : accounts.getID accountName ≠ 0) :
    (m.deleteAccount accounts accountName).find =
      Function.update m.find (.account accountName) none := by
  funext key
  rw [deleteAccount]
  cases hban : m.getBanInfoAccount accountName with
  | none =>
      by_cases hkey : key = .account accountName
      · subst hkey
        simpa [find] using hban
      · rw [Function.update_of_ne hkey]
  | some ban =>
      dsimp only
      rw [if_neg hid]
      cases key with
      | account name =>
          simp [find, getBanInfoAccount, Function.update_apply]
      | ip address => simp [find, getBanInfoIp, execute]

theorem find_deleteIp {ip : List UInt8} :
    (m.deleteIp ip).find = Function.update m.find (.ip ip) none := by
  funext key
  rw [deleteIp]
  cases hban : m.getBanInfoIp ip with
  | none =>
      by_cases hkey : key = .ip ip
      · subst hkey
        simpa [find] using hban
      · rw [Function.update_of_ne hkey]
  | some ban =>
      cases key with
      | account name => simp [find, getBanInfoAccount, execute]
      | ip address => simp [find, getBanInfoIp, Function.update_apply]

theorem find_addAccount {accountName : List UInt8} {ban : BanInfo} :
    (m.addAccount accountName ban).find =
      Function.update m.find (.account accountName) (some ban) := by
  funext key
  cases key with
  | account name => simp [find, getBanInfoAccount, addAccount, Function.update_apply]
  | ip address => simp [find, getBanInfoIp, addAccount]

theorem find_addIp {address : List UInt8} {ban : BanInfo} :
    (m.addIp address ban).find = Function.update m.find (.ip address) (some ban) := by
  funext key
  cases key with
  | account name => simp [find, getBanInfoAccount, addIp]
  | ip address' => simp [find, getBanInfoIp, addIp, Function.update_apply]

@[simp] theorem find_execute (stmt : BanStatement) : (m.execute stmt).find = m.find := by
  funext key
  cases key <;> rfl

@[simp] theorem find_kick (sessions : Kick) : (m.kick sessions).find = m.find := by
  funext key
  cases key <;> rfl

/-- **A call for a ban**: it is refused, or the ban is issued and the cache has it. -/
theorem call_of_ban (hban : c.ban = some (key, gameTime, duration)) :
    (key.text = [] ∧ m.call c = (some .error, m)) ∨
    (key.text ≠ [] ∧ (m.find key).any (BanInfo.inForce gameTime) = true ∧
      m.call c = (some .exist, m)) ∨
    (key.text ≠ [] ∧ (m.find key).any (BanInfo.inForce gameTime) = false ∧
      (m.call c).1 = some .ok ∧
      (m.call c).2.find = Function.update m.find key (some (.new gameTime duration 0))) := by
  cases c with
  | banAccount accounts t name d reason =>
      simp only [Call.ban, Option.ite_none_left_eq_some, Option.some.injEq, Prod.mk.injEq] at hban
      obtain ⟨hid, rfl, rfl, rfl⟩ := hban
      by_cases hname : name = []
      · exact .inl ⟨hname, by simp [call, banAccount, hname]⟩
      · cases hforce : (m.find (.account name)).any (BanInfo.inForce t) with
        | true =>
            refine .inr (.inl ⟨hname, rfl, ?_⟩)
            simp only [find] at hforce
            simp [call, banAccount, hname, hid, hforce]
        | false =>
            refine .inr (.inr ⟨hname, rfl, ?_⟩)
            simp only [find] at hforce
            simp only [call, banAccount, if_neg hname, if_neg hid, hforce, Bool.false_eq_true,
              if_false, Prod.map, id]
            refine ⟨trivial, ?_⟩
            rw [find_addAccount, find_kick, find_execute, find_deleteAccount hid,
              Function.update_idem]
  | banIp t address d reason =>
      simp only [Call.ban, Option.some.injEq, Prod.mk.injEq] at hban
      obtain ⟨rfl, rfl, rfl⟩ := hban
      by_cases haddress : address = []
      · exact .inl ⟨haddress, by simp [call, banIp, haddress]⟩
      · cases hforce : (m.find (.ip address)).any (BanInfo.inForce t) with
        | true =>
            refine .inr (.inl ⟨haddress, rfl, ?_⟩)
            simp only [find] at hforce
            simp [call, banIp, haddress, hforce]
        | false =>
            refine .inr (.inr ⟨haddress, rfl, ?_⟩)
            simp only [find] at hforce
            simp only [call, banIp, if_neg haddress, hforce, Bool.false_eq_true, if_false,
              Prod.map, id]
            refine ⟨trivial, ?_⟩
            rw [find_addIp, find_kick, find_execute, find_deleteIp, Function.update_idem]
  | deleteAccount => cases hban
  | deleteIp => cases hban

theorem find_of_deleted (hdeleted : c.deleted = some key) :
    c.ban = none ∧ (m.call c).2.find = Function.update m.find key none := by
  cases c with
  | banAccount => cases hdeleted
  | banIp => cases hdeleted
  | deleteAccount accounts name =>
      simp only [Call.deleted, Option.ite_none_left_eq_some, Option.some.injEq] at hdeleted
      obtain ⟨hid, rfl⟩ := hdeleted
      exact ⟨rfl, find_deleteAccount hid⟩
  | deleteIp address =>
      cases hdeleted
      exact ⟨rfl, find_deleteIp⟩

/-- A call for an account that does not exist changes nothing. -/
theorem call_of_none (hban : c.ban = none) (hdeleted : c.deleted = none) :
    (m.call c).2 = m := by
  cases c with
  | banAccount accounts t name d reason =>
      have hid : accounts.getID name = 0 := by
        by_contra hid
        simp [Call.ban, hid] at hban
      simp only [call, banAccount, hid, if_true]
      split <;> rfl
  | banIp => cases hban
  | deleteAccount accounts name =>
      have hid : accounts.getID name = 0 := by
        by_contra hid
        simp [Call.deleted, hid] at hdeleted
      simp only [call, deleteAccount, hid, if_true]
      split <;> rfl
  | deleteIp => cases hdeleted

end BanMgr

/-! ## Sequences of calls -/

namespace BanRun
variable {r : BanRun} {c : BanMgr.Call} {key : BanKey} {gameTime : ℤ}

theorem run_concat (calls : List BanMgr.Call) (c : BanMgr.Call) :
    run (calls ++ [c]) = (run calls).call c := by
  rw [run, List.foldl_append]
  rfl

/-- The cache has the bans that were issued, all of them at the time zero. -/
structure Kept (r : BanRun) : Prop where
  find : ∀ key, r.m.find key = (r.issued key).map fun x => ⟨x.2, 0, x.2⟩
  zero : ∀ key t d, r.issued key = some (t, d) → t = 0 ∧ key.text ≠ []

theorem kept_empty : empty.Kept where
  find := by
    intro key
    cases key <;> rfl
  zero := nofun

theorem Kept.inForce_iff (h : r.Kept) :
    (r.m.find key).any (BanInfo.inForce gameTime) = true ↔ r.Banned key gameTime := by
  rw [h.find, Banned]
  cases hissued : r.issued key with
  | none => simp
  | some x =>
      obtain ⟨hzero, -⟩ := h.zero key x.1 x.2 hissued
      simp only [Option.map_some, Option.any_some, BanInfo.inForce, BanInfo.isPermanently,
        Bool.or_eq_true, decide_eq_true_eq, gt_iff_lt, Option.some.injEq]
      constructor
      · intro hforce
        exact ⟨x.1, x.2, rfl, by omega⟩
      · rintro ⟨t, d, rfl, hforce⟩
        omega

theorem Kept.answers (h : r.Kept) (hc : r.AtZero c) : r.Answers c := by
  intro key gameTime duration hban
  rcases BanMgr.call_of_ban (m := r.m) hban with ⟨hempty, hcall⟩ | ⟨-, hforce, hcall⟩ |
    ⟨htext, hforce, hok, hfind⟩
  · -- no ban was issued for the empty text
    have hnot : ¬r.Banned key gameTime := by
      rintro ⟨t, d, hissued, -⟩
      exact (h.zero key t d hissued).2 hempty
    simp [hcall, hnot]
  · have hbanned := h.inForce_iff.mp hforce
    simp [hcall, hbanned]
  · have hnot : ¬r.Banned key gameTime := by
      rw [← h.inForce_iff, hforce]
      exact Bool.false_ne_true
    have hzero := hc key gameTime duration hban htext hnot
    rw [hok]
    refine ⟨by simp [hnot], nofun, fun _ => ⟨.new gameTime duration 0, ?_, ?_⟩⟩
    · rw [hfind, Function.update_self]
    · rw [hzero]
      rfl

/-- One key gets a ban that was issued at the time zero, or loses its ban. -/
theorem Kept.update (h : r.Kept) {r' : BanRun} {ban : Option (ℤ × ℤ)}
    (hissued : r'.issued = Function.update r.issued key ban)
    (hfind : r'.m.find = Function.update r.m.find key (ban.map fun x => ⟨x.2, 0, x.2⟩))
    (hzero : ∀ t d, ban = some (t, d) → t = 0 ∧ key.text ≠ []) : r'.Kept := by
  constructor
  · intro key'
    rw [hfind, hissued]
    by_cases hkey : key' = key
    · subst hkey
      rw [Function.update_self, Function.update_self]
    · rw [Function.update_of_ne hkey, Function.update_of_ne hkey]
      exact h.find key'
  · intro key' t d hkey'
    rw [hissued] at hkey'
    by_cases hkey : key' = key
    · subst hkey
      rw [Function.update_self] at hkey'
      exact hzero t d hkey'
    · rw [Function.update_of_ne hkey] at hkey'
      exact h.zero key' t d hkey'

theorem issued_call_of_ban {duration : ℤ} (hban : c.ban = some (key, gameTime, duration)) :
    (r.call c).issued =
      if (r.m.call c).1 = some .ok then Function.update r.issued key (some (gameTime, duration))
      else r.issued := by
  simp only [BanRun.call, hban]

/-- A ban that is refused changes nothing. -/
theorem call_of_refused {duration : ℤ} {code : BanResponceCode}
    (hban : c.ban = some (key, gameTime, duration)) (hcall : r.m.call c = (some code, r.m))
    (hcode : code ≠ .ok) : r.call c = r := by
  simp only [BanRun.call, hban, hcall, Option.some.injEq, hcode, if_false]

theorem Kept.call (h : r.Kept) (hc : r.AtZero c) : (r.call c).Kept := by
  cases hban : c.ban with
  | some x =>
      obtain ⟨key, gameTime, duration⟩ := x
      rcases BanMgr.call_of_ban (m := r.m) hban with ⟨-, hcall⟩ | ⟨-, -, hcall⟩ |
        ⟨htext, hforce, hok, hfind⟩
      · rw [call_of_refused hban hcall nofun]
        exact h
      · rw [call_of_refused hban hcall nofun]
        exact h
      · have hnot : ¬r.Banned key gameTime := by
          rw [← h.inForce_iff, hforce]
          exact Bool.false_ne_true
        obtain rfl := hc key gameTime duration hban htext hnot
        have hissued := issued_call_of_ban (r := r) hban
        have hnew : BanInfo.new 0 duration 0 = ⟨duration, 0, duration⟩ := by simp [BanInfo.new]
        rw [if_pos hok] at hissued
        rw [hnew] at hfind
        refine h.update hissued hfind ?_
        intro t d hsome
        cases hsome
        exact ⟨rfl, htext⟩
  | none =>
      cases hdeleted : c.deleted with
      | some key =>
          have hissued : (r.call c).issued = Function.update r.issued key none := by
            simp only [BanRun.call, hban, hdeleted]
          exact h.update hissued (BanMgr.find_of_deleted (m := r.m) hdeleted).2 nofun
      | none =>
          have hr : r.call c = r := by
            simp only [BanRun.call, hban, hdeleted, BanMgr.call_of_none hban hdeleted]
          rw [hr]
          exact h

/-- One call that is answered as it should. -/
theorem Answers.atZero (h : r.Answers c) : r.AtZero c := by
  intro key gameTime duration hban htext hnot
  obtain ⟨hexist, -, hdate⟩ := h key gameTime duration hban
  rcases BanMgr.call_of_ban (m := r.m) hban with ⟨hempty, -⟩ | ⟨-, -, hcall⟩ | ⟨-, -, hok, hfind⟩
  · exact absurd hempty htext
  · exact absurd (hexist.mp (by rw [hcall])) hnot
  · obtain ⟨ban, hban', hunaban⟩ := hdate hok
    rw [hfind, Function.update_self, Option.some.injEq] at hban'
    rw [← hban'] at hunaban
    simp only [BanInfo.new] at hunaban
    omega

/-- **The cache answers as it should** in a sequence of calls if and only if every ban in it
is issued at the time zero. -/
theorem answers_iff (calls : List BanMgr.Call) :
    (∀ before c, before ++ [c] <+: calls → (run before).Answers c) ↔
      ∀ before c, before ++ [c] <+: calls → (run before).AtZero c := by
  constructor
  · intro h before c hbefore
    exact (h before c hbefore).atZero
  · intro h
    have hkept : ∀ before, before <+: calls → (run before).Kept := by
      intro before hbefore
      induction before using List.reverseRecOn with
      | nil => exact kept_empty
      | append_singleton before c ih =>
          rw [run_concat]
          exact (ih ((List.prefix_append _ _).trans hbefore)).call (h before c hbefore)
    intro before c hbefore
    exact (hkept before ((List.prefix_append _ _).trans hbefore)).answers (h before c hbefore)

/-- An address is banned for an hour, and a second later again. -/
def bannedAgain : List BanMgr.Call :=
  [.banIp 1700000000 [0x31] 3600 [], .banIp 1700000001 [0x31] 3600 []]

/-- The second ban is issued although the first one is in force. -/
theorem not_answers_bannedAgain :
    ¬∀ before c, before ++ [c] <+: bannedAgain → (run before).Answers c := by
  intro h
  have hanswers := h [.banIp 1700000000 [0x31] 3600 []] _ List.prefix_rfl (.ip [0x31])
    1700000001 3600 rfl
  have hcode : ((run [.banIp 1700000000 [0x31] 3600 []]).m.call
      (.banIp 1700000001 [0x31] 3600 [])).1 = some .ok := by
    decide
  have hexist := hanswers.1.mpr ⟨1700000000, 3600, rfl, .inr (by decide)⟩
  rw [hcode] at hexist
  cases hexist

end BanRun

/-! ## Spellings of a name -/

namespace BanMgr
variable {accounts : Accounts} {m : BanMgr} {n₁ n₂ reason : List UInt8} {gameTime duration : ℤ}

/-- A ban that was issued: the account exists, and the cache has the ban under the name. -/
theorem find_of_ok (hok : (m.banAccount accounts gameTime n₁ duration reason).1 = .ok) :
    n₁ ≠ [] ∧ accounts.getID n₁ ≠ 0 ∧
      (m.banAccount accounts gameTime n₁ duration reason).2.find =
        Function.update m.find (.account n₁) (some (.new gameTime duration 0)) := by
  have hid : accounts.getID n₁ ≠ 0 := by
    intro hid
    simp only [banAccount, hid, if_true] at hok
    split at hok <;> cases hok
  have hban : (Call.banAccount accounts gameTime n₁ duration reason).ban =
      some (.account n₁, gameTime, duration) := if_neg hid
  have hcode : (m.call (.banAccount accounts gameTime n₁ duration reason)).1 = some .ok :=
    congrArg some hok
  rcases call_of_ban (m := m) hban with ⟨-, hcall⟩ | ⟨-, -, hcall⟩ | ⟨hname, -, -, hfind⟩
  · rw [hcall] at hcode
    cases hcode
  · rw [hcall] at hcode
    cases hcode
  · exact ⟨hname, hid, hfind⟩

/-- **A ban is found under the name it was issued for, and under no other spelling of it.** -/
theorem sameBan_iff (accounts : Accounts) (m : BanMgr) (gameTime : ℤ)
    (n₁ n₂ reason : List UInt8) (hsame : accounts.getID n₁ = accounts.getID n₂)
    (hok : (m.banAccount accounts gameTime n₁ 0 reason).1 = .ok) :
    ((∀ gameTime' duration reason',
        ((m.banAccount accounts gameTime n₁ 0 reason).2.banAccount accounts gameTime' n₂ duration
          reason').1 = .exist) ∧
      (m.banAccount accounts gameTime n₁ 0 reason).2.getBanInfoAccount n₂ =
        some (.new gameTime 0 0) ∧
      (∀ n ∈ [n₁, n₂], (((m.banAccount accounts gameTime n₁ 0 reason).2.deleteAccount accounts
        n₂).getBanInfoAccount n) = none) ∧
      ((m.banAccount accounts gameTime n₁ 0 reason).2.deleteAccount accounts n₂).executed =
        (m.banAccount accounts gameTime n₁ 0 reason).2.executed ++
          [.delBanAccount (accounts.getID n₁)]) ↔
      n₁ = n₂ := by
  obtain ⟨hname, hid, hfind⟩ := find_of_ok hok
  generalize (m.banAccount accounts gameTime n₁ 0 reason).2 = m' at hfind ⊢
  have hcached : m'.getBanInfoAccount n₁ = some (.new gameTime 0 0) := by
    have hself := congrFun hfind (.account n₁)
    rwa [Function.update_self] at hself
  have hdeleted (n : List UInt8) : (m'.deleteAccount accounts n₂).getBanInfoAccount n =
      Function.update m'.find (.account n₂) none (.account n) :=
    congrFun (find_deleteAccount (hsame ▸ hid)) (.account n)
  constructor
  · rintro ⟨-, -, hgone, -⟩
    -- what is deleted under another spelling leaves the ban where it is
    by_contra hne
    have hleft := hgone n₁ (by simp)
    rw [hdeleted, Function.update_of_ne (by simpa using hne)] at hleft
    cases hcached.symm.trans hleft
  · rintro rfl
    refine ⟨?_, hcached, ?_, ?_⟩
    · intro gameTime' duration reason'
      simp [banAccount, hname, hid, hcached, BanInfo.inForce, BanInfo.isPermanently, BanInfo.new]
    · intro n hn
      have hn : n = n₁ := by simpa using hn
      rw [hdeleted, hn, Function.update_self]
    · simp only [deleteAccount, hcached, if_neg hid, execute]

/-- One account, with a name in upper case. -/
def oneAccount : Accounts := ⟨[⟨1, 0, [0x42, 0x4f, 0x42], []⟩], by decide⟩

theorem sameBan_iff_oneAccount :
    ((empty.banAccount oneAccount 1700000000 [0x42, 0x4f, 0x42] 0 []).2.banAccount oneAccount
      1700000001 [0x42, 0x4f, 0x42] 5 []).1 = .exist :=
  ((sameBan_iff oneAccount empty 1700000000 [0x42, 0x4f, 0x42] [0x42, 0x4f, 0x42] [] rfl
    (by decide)).mpr rfl).1 1700000001 5 []

/-- The account is banned as `BOB`, and it can be banned once more as `bob`. -/
theorem not_sameBan_lowercase :
    oneAccount.getID [0x42, 0x4f, 0x42] = oneAccount.getID [0x62, 0x6f, 0x62] ∧
      (empty.banAccount oneAccount 1700000000 [0x42, 0x4f, 0x42] 0 []).1 = .ok ∧
      ((empty.banAccount oneAccount 1700000000 [0x42, 0x4f, 0x42] 0 []).2.banAccount oneAccount
        1700000001 [0x62, 0x6f, 0x62] 5 []).1 ≠ .exist := by
  decide

end BanMgr
end WarheadDiscord
