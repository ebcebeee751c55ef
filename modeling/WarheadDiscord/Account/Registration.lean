import WarheadDiscord.Account.AccountMgr
import WarheadDiscord.Lib.Machine

/-!
# Accounts with one name

`CreateAccount` asks the map whether a name is taken.  The map gets the name only when a
callback is invoked, which waits for a query that asks the database for the id of the row
the call inserts.  Nothing else keeps two rows of one name apart: the table has no unique
key on the name, and several workers execute what is queued.

A call, the execution of its two statements and its callback are separate steps here, and
come in any order that each call allows.  A call that was accepted is remembered, with how
far its statements are.  What the query compares names with is the collation of the table;
it is a parameter.

The names stay unique if a name is not asked for again until the call that created it has
put it into the map (`names_unique`).

## Main definitions

* `Call`, `Row`, `State` — the calls, the table and the map.
* `next` — the steps.
* `NamesUnique` — one call and one row for each name.
* `NameSettled` — no call with this name is on its way, or was lost.
-/

namespace WarheadDiscord.Registration

open Machine

/-- The query of a call, and its callback. -/
inductive Callback
  | queued
  /-- The query found this id; 0 if it found none. -/
  | ready (accountID : ℕ)
  /-- The account is in the map. -/
  | added
  /-- The callback was invoked, and the account was not put into the map. -/
  | lost
  deriving DecidableEq, Repr

/-- A call that returned `Ok`. -/
structure Call where
  username : List UInt8
  account : InsAccount
  inserted : Bool
  callback : Callback
  deriving DecidableEq, Repr

/-- A row of the table `account`. -/
structure Row where
  id : ℕ
  account : InsAccount
  deriving DecidableEq, Repr

structure State where
  accounts : Accounts
  table : List Row
  /-- `AUTO_INCREMENT` -/
  nextID : ℕ
  calls : List Call

inductive Label
  | createAccount (salt : Vector UInt8 32) (username key : List UInt8) (guildID : ℤ)
      (realmName : List UInt8)
  /-- A worker executes the insert of a call. -/
  | executeInsert (call : ℕ) (succeeds : Bool)
  /-- A worker executes the query of a call. -/
  | executeSelect (call accountID : ℕ)
  /-- `Update` invokes the callback of a call. -/
  | invokeCallback (call : ℕ)

/-- What the map gets for a row, or for a call with the id that was found. -/
def accountInfo (accountID : ℕ) (account : InsAccount) : DiscordAccountInfo :=
  ⟨accountID, account.guildID, account.name, account.realmName⟩

/-- `Initialize` -/
def initializeAccounts (table : List Row) : Accounts :=
  table.foldl (fun accounts row => accounts.addAccountInfo (accountInfo row.id row.account))
    ⟨[], List.nodup_nil⟩

def next (srp6 : Srp6) (sameName : List UInt8 → List UInt8 → Bool) (s : State) :
    Label → Option State
  | .createAccount salt username key guildID realmName =>
      match createAccount srp6 s.accounts salt username key guildID realmName with
      | (.ok, some account) =>
          some { s with calls := s.calls ++ [⟨username, account, false, .queued⟩] }
      | _ => some s
  | .executeInsert i succeeds =>
      match s.calls[i]? with
      | none => none
      | some call =>
          if call.inserted then none
          else some
            { s with
              calls := s.calls.set i { call with inserted := true }
              table := if succeeds then s.table ++ [⟨s.nextID, call.account⟩] else s.table
              nextID := s.nextID + 1 }
  | .executeSelect i accountID =>
      match s.calls[i]? with
      | none => none
      | some call =>
          -- A query that finds no row, or fails, has no result
          if call.callback = .queued ∧ (accountID = 0 ∨ ∃ row ∈ s.table,
              row.id = accountID ∧ sameName row.account.name call.account.name) then
            some { s with calls := s.calls.set i { call with callback := .ready accountID } }
          else none
  | .invokeCallback i =>
      match s.calls[i]? with
      | none => none
      | some call =>
          match call.callback with
          | .ready accountID =>
              if accountID = 0 then
                some { s with calls := s.calls.set i { call with callback := .lost } }
              else
                -- `AddAccountInfo` refuses an id that is in the map
                let known := (s.accounts.getAccountInfo accountID).isSome
                some
                  { s with
                    accounts := s.accounts.addAccountInfo (accountInfo accountID call.account)
                    calls := s.calls.set i
                      { call with callback := if known then .lost else .added } }
          | _ => none

/-- The server has started, with names that are unique. -/
structure Loaded (s : State) : Prop where
  accounts : s.accounts = initializeAccounts s.table
  calls : s.calls = []
  ids : (s.table.map Row.id).Nodup
  pos : ∀ row ∈ s.table, 0 < row.id ∧ row.id < s.nextID
  names : s.table.Pairwise fun row row' => ¬ stringEqualI row.account.name row'.account.name = true

/-- Of the calls with one name at most one returned `Ok`, and at most one row has it. -/
structure NamesUnique (s : State) : Prop where
  calls : s.calls.Pairwise fun call call' => ¬ stringEqualI call.username call'.username = true
  rows : s.table.Pairwise fun row row' => ¬ stringEqualI row.account.name row'.account.name = true

/-- When a name is asked for that is not too long, with a key that is not too long, every
earlier call with this name has put it into the map. -/
def NameSettled (s : State) : Label → Prop
  | .createAccount _ username key _ _ =>
      (utf8length username).1 ≤ MAX_ACCOUNT_STR → (utf8length key).1 ≤ MAX_PASS_STR →
        ∀ call ∈ s.calls, stringEqualI call.account.name (storedText username) = true →
          call.callback = .added
  | _ => True

/-! ## The invariant -/

/-- Names are compared in upper case. -/
def Call.folded (call : Call) : List UInt8 := call.account.name.map toupper

def Row.folded (row : Row) : List UInt8 := row.account.name.map toupper

structure Inv (s : State) : Prop where
  pos : ∀ info ∈ s.accounts.infos, info.id ≠ 0
  stored : ∀ call ∈ s.calls, call.account.name = storedText call.username
  added : ∀ call ∈ s.calls, call.callback = .added →
    ∃ info ∈ s.accounts.infos, info.name = call.account.name
  calls : (s.calls.map Call.folded).Nodup
  rows : (s.table.map Row.folded).Nodup
  /-- A row is in the map, or comes from a call. -/
  known : ∀ row ∈ s.table, (∃ info ∈ s.accounts.infos, info.name.map toupper = row.folded) ∨
    ∃ call ∈ s.calls, call.folded = row.folded
  /-- No row has the name of a call that has inserted none. -/
  fresh : ∀ call ∈ s.calls, call.inserted = false → ∀ row ∈ s.table, row.folded ≠ call.folded

section
variable {α κ : Type} {f : α → κ} {l : List α} {i : ℕ} {a b c : α}

theorem map_set_of_eq (hb : l[i]? = some b) (heq : f a = f b) : (l.set i a).map f = l.map f := by
  apply List.ext_getElem?
  intro j
  rw [List.getElem?_map, List.getElem?_map, List.getElem?_set]
  split_ifs with hij hi
  · rw [← hij, hb, Option.map_some, Option.map_some, heq]
  · rw [← hij, List.getElem?_eq_none (not_lt.mp hi)]
  · rfl

/-- A new key at the end of a list with different keys. -/
theorem nodup_map_concat (hn : (l.map f).Nodup) (ha : ∀ b ∈ l, f b ≠ f a) :
    ((l ++ [a]).map f).Nodup := by
  rw [List.map_append, List.nodup_append]
  refine ⟨hn, List.nodup_singleton _, ?_⟩
  intro k hk k' hk'
  obtain ⟨b, hb, rfl⟩ := List.mem_map.mp hk
  rw [List.map_singleton, List.mem_singleton] at hk'
  rw [hk']
  exact ha b hb

/-- What is left of a list with different keys when one element is replaced. -/
theorem mem_set_of_nodup (hn : (l.map f).Nodup) (hb : l[i]? = some b) (hc : c ∈ l.set i a) :
    c = a ∨ c ∈ l ∧ f c ≠ f b := by
  obtain ⟨j, hj⟩ := List.mem_iff_getElem?.mp hc
  rw [List.getElem?_set] at hj
  split_ifs at hj with hij hi
  · exact Or.inl (Option.some.inj hj).symm
  · refine Or.inr ⟨List.mem_of_getElem? hj, ?_⟩
    intro heq
    have hlt := (List.getElem?_eq_some_iff.mp hb).1
    apply hij
    apply (List.getElem?_inj (by simpa using hlt) hn).mp
    rw [List.getElem?_map, List.getElem?_map, hb, hj, Option.map_some, Option.map_some, heq]

end

variable {s t : State} {srp6 : Srp6} {sameName : List UInt8 → List UInt8 → Bool} {l : Label}

/-- Rows with different ids are all put into the map. -/
theorem infos_foldl_addAccountInfo {table : List Row} {accounts : Accounts}
    (hids : (table.map Row.id).Nodup)
    (hnew : ∀ row ∈ table, accounts.getAccountInfo row.id = none) :
    (table.foldl (fun accounts row => accounts.addAccountInfo (accountInfo row.id row.account))
      accounts).infos =
      (table.map fun row => accountInfo row.id row.account).reverse ++ accounts.infos := by
  induction table generalizing accounts with
  | nil => rfl
  | cons row table ih =>
      rw [List.map_cons, List.nodup_cons] at hids
      rw [List.forall_mem_cons] at hnew
      have hinfos : (accounts.addAccountInfo (accountInfo row.id row.account)).infos =
          accountInfo row.id row.account :: accounts.infos :=
        Accounts.infos_addAccountInfo_of_none hnew.1
      rw [List.foldl_cons, ih hids.2, hinfos, List.map_cons, List.reverse_cons, List.append_assoc]
      · rfl
      · intro row' hrow'
        have hne : row.id ≠ row'.id := fun heq => hids.1 (heq ▸ List.mem_map_of_mem hrow')
        rw [Accounts.getAccountInfo, hinfos, List.find?_cons_of_neg]
        · exact hnew.2 row' hrow'
        · rw [decide_eq_true_eq]
          exact hne

theorem Loaded.inv (h : Loaded s) : Inv s := by
  have hinfos : s.accounts.infos =
      (s.table.map fun row => accountInfo row.id row.account).reverse := by
    rw [h.accounts, initializeAccounts, infos_foldl_addAccountInfo h.ids fun _ _ => rfl,
      List.append_nil]
  have hmem : ∀ info, info ∈ s.accounts.infos ↔
      ∃ row ∈ s.table, accountInfo row.id row.account = info := by
    intro info
    rw [hinfos, List.mem_reverse, List.mem_map]
  refine ⟨?_, ?_, ?_, ?_, ?_, ?_, ?_⟩
  · intro info hinfo
    obtain ⟨row, hrow, rfl⟩ := (hmem info).mp hinfo
    exact Nat.ne_of_gt (h.pos row hrow).1
  · simp [h.calls]
  · simp [h.calls]
  · simp [h.calls]
  · rw [List.Nodup, List.pairwise_map]
    refine h.names.imp ?_
    intro row row' hne heq
    exact hne (stringEqualI_iff.mpr heq)
  · intro row hrow
    exact Or.inl ⟨accountInfo row.id row.account, (hmem _).mpr ⟨row, hrow, rfl⟩, rfl⟩
  · simp [h.calls]

theorem Inv.namesUnique (h : Inv s) : NamesUnique s := by
  constructor
  · have hcalls := h.calls
    rw [List.Nodup, List.pairwise_map] at hcalls
    refine hcalls.imp_of_mem ?_
    intro call call' hcall hcall' hne heq
    apply hne
    rw [Call.folded, Call.folded, h.stored call hcall, h.stored call' hcall', storedText_congr heq]
  · have hrows := h.rows
    rw [List.Nodup, List.pairwise_map] at hrows
    refine hrows.imp ?_
    intro row row' hne heq
    exact hne (stringEqualI_iff.mp heq)

/-! ## One lemma for each kind of step -/

/-- A name that is not in the map, and that no call is on its way with, is new. -/
theorem Inv.createAccount {username : List UInt8} {account : InsAccount} (h : Inv s)
    (hid : s.accounts.getID account.name = 0) (hstored : account.name = storedText username)
    (hsettled : ∀ call ∈ s.calls, stringEqualI call.account.name account.name = true →
      call.callback = .added) :
    Inv { s with calls := s.calls ++ [⟨username, account, false, .queued⟩] } := by
  have hmap : ∀ info ∈ s.accounts.infos, info.name.map toupper ≠ account.name.map toupper := by
    intro info hinfo heq
    exact Accounts.not_stringEqualI_of_getID_eq_zero h.pos hid hinfo (stringEqualI_iff.mpr heq)
  have hcalls : ∀ call ∈ s.calls, call.folded ≠ account.name.map toupper := by
    intro call hcall heq
    have hadded := hsettled call hcall (stringEqualI_iff.mpr heq)
    obtain ⟨info, hinfo, hname⟩ := h.added call hcall hadded
    apply hmap info hinfo
    rw [hname]
    exact heq
  refine { h with stored := ?_, added := ?_, calls := ?_, known := ?_, fresh := ?_ }
  · rw [List.forall_mem_append, List.forall_mem_singleton]
    exact ⟨h.stored, hstored⟩
  · rw [List.forall_mem_append, List.forall_mem_singleton]
    exact ⟨h.added, nofun⟩
  · exact nodup_map_concat h.calls hcalls
  · intro row hrow
    refine (h.known row hrow).imp_right ?_
    rintro ⟨call, hcall, heq⟩
    exact ⟨call, List.mem_append_left _ hcall, heq⟩
  · intro call hcall hinserted row hrow
    rw [List.mem_append, List.mem_singleton] at hcall
    rcases hcall with hcall | rfl
    · exact h.fresh call hcall hinserted row hrow
    · rcases h.known row hrow with ⟨info, hinfo, heq⟩ | ⟨call, hcall, heq⟩
      · rw [← heq]
        exact hmap info hinfo
      · rw [← heq]
        exact hcalls call hcall

/-- A call whose statements go on keeps its name. -/
theorem Inv.setCall {i : ℕ} {call : Call} (call' : Call) (h : Inv s)
    (hcall : s.calls[i]? = some call)
    (husername : call'.username = call.username) (haccount : call'.account = call.account)
    (hinserted : call.inserted = true → call'.inserted = true)
    (hadded : call'.callback = .added → ∃ info ∈ s.accounts.infos, info.name = call'.account.name) :
    Inv { s with calls := s.calls.set i call' } := by
  have hmem : call ∈ s.calls := List.mem_of_getElem? hcall
  have hfolded : call'.folded = call.folded := by rw [Call.folded, Call.folded, haccount]
  have hset : ∀ {other}, other ∈ s.calls.set i call' → other = call' ∨ other ∈ s.calls := by
    intro other hother
    exact (List.mem_or_eq_of_mem_set hother).symm
  refine { h with stored := ?_, added := ?_, calls := ?_, known := ?_, fresh := ?_ }
  · intro other hother
    rcases hset hother with rfl | hother
    · rw [husername, haccount]
      exact h.stored call hmem
    · exact h.stored other hother
  · intro other hother hcallback
    rcases hset hother with rfl | hother
    · exact hadded hcallback
    · exact h.added other hother hcallback
  · rw [map_set_of_eq hcall hfolded]
    exact h.calls
  · intro row hrow
    refine (h.known row hrow).imp_right ?_
    rintro ⟨other, hother, heq⟩
    have hname : other.folded ∈ (s.calls.set i call').map Call.folded := by
      rw [map_set_of_eq hcall hfolded]
      exact List.mem_map_of_mem hother
    obtain ⟨other', hother', heq'⟩ := List.mem_map.mp hname
    exact ⟨other', hother', heq'.trans heq⟩
  · intro other hother hfalse row hrow
    rcases hset hother with rfl | hother
    · rw [hfolded]
      refine h.fresh call hmem ?_ row hrow
      by_contra hne
      rw [hinserted (by simpa using hne)] at hfalse
      cases hfalse
    · exact h.fresh other hother hfalse row hrow

/-- The row of a call is the only one with its name. -/
theorem Inv.insertRow {i : ℕ} {call : Call} (id : ℕ) (h : Inv s) (hcall : s.calls[i]? = some call)
    (hinserted : call.inserted = false) :
    Inv { s with
      calls := s.calls.set i { call with inserted := true }
      table := s.table ++ [⟨id, call.account⟩] } := by
  have hmem : call ∈ s.calls := List.mem_of_getElem? hcall
  have hset := Inv.setCall { call with inserted := true } h hcall rfl rfl (fun _ => rfl)
    (h.added call hmem)
  refine { hset with rows := ?_, known := ?_, fresh := ?_ }
  · exact nodup_map_concat h.rows (h.fresh call hmem hinserted)
  · rw [List.forall_mem_append, List.forall_mem_singleton]
    refine ⟨hset.known, Or.inr ⟨{ call with inserted := true }, ?_, rfl⟩⟩
    exact List.mem_set (List.getElem?_eq_some_iff.mp hcall).1 _
  · intro other hother hfalse row hrow
    rw [List.mem_append, List.mem_singleton] at hrow
    rcases hrow with hrow | rfl
    · exact hset.fresh other hother hfalse row hrow
    · rcases mem_set_of_nodup h.calls hcall hother with rfl | ⟨-, hne⟩
      · cases hfalse
      · exact hne.symm

/-- The map has one more name. -/
theorem Inv.addAccountInfo (info : DiscordAccountInfo) (h : Inv s) (hpos : info.id ≠ 0)
    (hnew : s.accounts.getAccountInfo info.id = none) :
    Inv { s with accounts := s.accounts.addAccountInfo info } := by
  have hinfos := Accounts.infos_addAccountInfo_of_none hnew
  refine { h with pos := ?_, added := ?_, known := ?_ }
  · rw [hinfos, List.forall_mem_cons]
    exact ⟨hpos, h.pos⟩
  · intro call hcall hadded
    obtain ⟨other, hother, hname⟩ := h.added call hcall hadded
    exact ⟨other, hinfos ▸ List.mem_cons_of_mem _ hother, hname⟩
  · intro row hrow
    refine (h.known row hrow).imp_left ?_
    rintro ⟨other, hother, hname⟩
    exact ⟨other, hinfos ▸ List.mem_cons_of_mem _ hother, hname⟩

/-! ## Runs -/

/-- What a step can do. -/
inductive Stepped (srp6 : Srp6) (s : State) : Label → State → Prop
  /-- The call returned something else than `Ok`. -/
  | refused (salt : Vector UInt8 32) (username key : List UInt8) (guildID : ℤ)
      (realmName : List UInt8) :
      Stepped srp6 s (.createAccount salt username key guildID realmName) s
  | accepted (salt : Vector UInt8 32) (username key : List UInt8) (guildID : ℤ)
      (realmName : List UInt8) (account : InsAccount)
      (hok : createAccount srp6 s.accounts salt username key guildID realmName =
        (.ok, some account)) :
      Stepped srp6 s (.createAccount salt username key guildID realmName)
        { s with calls := s.calls ++ [⟨username, account, false, .queued⟩] }
  | insertFailed (i : ℕ) (call : Call) (hcall : s.calls[i]? = some call) :
      Stepped srp6 s (.executeInsert i false) { s with
        calls := s.calls.set i { call with inserted := true }
        nextID := s.nextID + 1 }
  | inserted (i : ℕ) (call : Call) (hcall : s.calls[i]? = some call)
      (hinserted : call.inserted = false) :
      Stepped srp6 s (.executeInsert i true) { s with
        calls := s.calls.set i { call with inserted := true }
        table := s.table ++ [⟨s.nextID, call.account⟩]
        nextID := s.nextID + 1 }
  | selected (i accountID : ℕ) (call : Call) (hcall : s.calls[i]? = some call)
      (hqueued : call.callback ≠ .added) :
      Stepped srp6 s (.executeSelect i accountID)
        { s with calls := s.calls.set i { call with callback := .ready accountID } }
  | lost (i : ℕ) (call : Call) (hcall : s.calls[i]? = some call)
      (hready : call.callback ≠ .added) :
      Stepped srp6 s (.invokeCallback i)
        { s with calls := s.calls.set i { call with callback := .lost } }
  | added (i accountID : ℕ) (call : Call) (hcall : s.calls[i]? = some call) (hpos : accountID ≠ 0)
      (hnew : s.accounts.getAccountInfo accountID = none) :
      Stepped srp6 s (.invokeCallback i) { s with
        accounts := s.accounts.addAccountInfo (accountInfo accountID call.account)
        calls := s.calls.set i { call with callback := .added } }

theorem stepped_of_next (h : next srp6 sameName s l = some t) : Stepped srp6 s l t := by
  cases l with
  | createAccount salt username key guildID realmName =>
      simp only [next] at h
      split at h
      case h_1 account haccount =>
        cases h
        exact .accepted salt username key guildID realmName account haccount
      case h_2 =>
        cases h
        exact .refused salt username key guildID realmName
  | executeInsert i succeeds =>
      simp only [next] at h
      split at h
      · cases h
      case h_2 call hcall =>
        split_ifs at h with hinserted hsucceeds
        · cases h
          rw [hsucceeds]
          exact .inserted i call hcall (by simpa using hinserted)
        · cases h
          rw [Bool.eq_false_of_not_eq_true hsucceeds]
          exact .insertFailed i call hcall
  | executeSelect i accountID =>
      simp only [next] at h
      split at h
      · cases h
      case h_2 call hcall =>
        split_ifs at h with hquery
        cases h
        exact .selected i accountID call hcall (by simp [hquery.1])
  | invokeCallback i =>
      simp only [next] at h
      split at h
      · cases h
      case h_2 call hcall =>
        split at h
        case h_1 accountID hready =>
          have hne : call.callback ≠ .added := by simp [hready]
          split_ifs at h with hzero hknown
          · cases h
            exact .lost i call hcall hne
          · obtain ⟨info, hinfo⟩ := Option.isSome_iff_exists.mp hknown
            rw [Accounts.addAccountInfo_of_some hinfo] at h
            cases h
            exact .lost i call hcall hne
          · cases h
            exact .added i accountID call hcall hzero (by simpa using hknown)
        · cases h

/-- **A step keeps the invariant** if the name it asks for is settled. -/
theorem Inv.step (h : Inv s) (hsettled : NameSettled s l) (hstep : Stepped srp6 s l t) :
    Inv t := by
  cases hstep with
  | refused => exact h
  | accepted salt username key guildID realmName account hok =>
      obtain ⟨⟨hname, hkey, hid⟩, hstored, -, -⟩ := createAccount_eq_ok hok
      refine h.createAccount hid hstored ?_
      rw [hstored]
      exact hsettled hname hkey
  | insertFailed i call hcall =>
      have hset := Inv.setCall { call with inserted := true } h hcall rfl rfl (fun _ => rfl)
        (h.added call (List.mem_of_getElem? hcall))
      exact { hset with }
  | inserted i call hcall hinserted =>
      have hrow := Inv.insertRow s.nextID h hcall hinserted
      exact { hrow with }
  | selected i accountID call hcall =>
      exact Inv.setCall { call with callback := .ready accountID } h hcall rfl rfl id nofun
  | lost i call hcall => exact Inv.setCall { call with callback := .lost } h hcall rfl rfl id nofun
  | added i accountID call hcall hpos hnew =>
      have hmap := Inv.addAccountInfo (accountInfo accountID call.account) h hpos hnew
      refine Inv.setCall { call with callback := .added } hmap hcall rfl rfl id (fun _ => ?_)
      refine ⟨accountInfo accountID call.account, ?_, rfl⟩
      rw [Accounts.infos_addAccountInfo_of_none hnew]
      exact List.mem_cons_self

/-- A name in the map is not the name of a call that has not put it there. -/
def Mapped (s : State) : Prop :=
  ∀ info ∈ s.accounts.infos, ∀ call ∈ s.calls, info.name.map toupper = call.folded →
    call.callback = .added

theorem Mapped.step (hm : Mapped s) (h : Inv s) (hstep : Stepped srp6 s l t) : Mapped t := by
  -- the map stays, and a call goes on that has not put its name there
  have hset : ∀ {i : ℕ} {call : Call} (call' : Call), s.calls[i]? = some call →
      call'.account = call.account → (call.callback = .added → call'.callback = .added) →
      ∀ info ∈ s.accounts.infos, ∀ other ∈ s.calls.set i call',
        info.name.map toupper = other.folded → other.callback = .added := by
    intro i call call' hcall haccount hkeep info hinfo other hother heq
    rcases List.mem_or_eq_of_mem_set hother with hother | rfl
    · exact hm info hinfo other hother heq
    · apply hkeep
      apply hm info hinfo call (List.mem_of_getElem? hcall)
      rw [heq, Call.folded, Call.folded, haccount]
  cases hstep with
  | refused => exact hm
  | accepted salt username key guildID realmName account hok =>
      intro info hinfo other hother heq
      rw [List.mem_append, List.mem_singleton] at hother
      rcases hother with hother | rfl
      · exact hm info hinfo other hother heq
      · obtain ⟨⟨-, -, hid⟩, -⟩ := createAccount_eq_ok hok
        exact absurd (stringEqualI_iff.mpr heq)
          (Accounts.not_stringEqualI_of_getID_eq_zero h.pos hid hinfo)
  | insertFailed i call hcall => exact hset _ hcall rfl id
  | inserted i call hcall => exact hset _ hcall rfl id
  | selected i accountID call hcall hqueued =>
      exact hset _ hcall rfl fun hadded => absurd hadded hqueued
  | lost i call hcall hready => exact hset _ hcall rfl fun hadded => absurd hadded hready
  | added i accountID call hcall hpos hnew =>
      intro info hinfo other hother heq
      rcases mem_set_of_nodup h.calls hcall hother with rfl | ⟨hother, hne⟩
      · rfl
      · rw [Accounts.infos_addAccountInfo_of_none hnew, List.mem_cons] at hinfo
        rcases hinfo with rfl | hinfo
        · exact absurd heq.symm hne
        · exact hm info hinfo other hother heq

/-- The name that is asked for is valid UTF-8. -/
def ValidUsername : Label → Prop
  | .createAccount _ username _ _ _ => Utf8.isValid username = true
  | _ => True

/-- A name that is not settled is given away twice. -/
theorem exists_next_of_not_nameSettled (hm : Mapped s) (h : Inv s)
    (hcalls : ∀ call ∈ s.calls, Utf8.isValid call.username = true) (hvalid : ValidUsername l)
    (hsettled : ¬ NameSettled s l) :
    ∃ t, next srp6 sameName s l = some t ∧ ¬ NamesUnique t := by
  cases l with
  | createAccount salt username key guildID realmName =>
      simp only [NameSettled, not_forall] at hsettled
      obtain ⟨hname, hkey, call, hcall, heq, hadded⟩ := hsettled
      have hid : s.accounts.getID (storedText username) = 0 := by
        by_contra hne
        obtain ⟨info, hinfo, hsame⟩ := Accounts.exists_of_getID_ne_zero hne
        rw [stringEqualI_iff] at hsame heq
        exact hadded (hm info hinfo call hcall (hsame.trans heq.symm))
      obtain ⟨account, hok⟩ : ∃ account, createAccount srp6 s.accounts salt username key guildID
          realmName = (.ok, some account) := createAccount_of_getID_eq_zero hname hkey hid
      refine ⟨{ s with calls := s.calls ++ [⟨username, account, false, .queued⟩] }, ?_, ?_⟩
      · simp only [next, hok]
      intro hunique
      refine (List.pairwise_append.mp hunique.calls).2.2 call hcall _ List.mem_cons_self ?_
      have hstored := h.stored call hcall
      rw [storedText_of_isValid (hcalls call hcall)] at hstored
      rw [hstored, storedText_of_isValid hvalid] at heq
      rw [stringEqualI_iff, map_toupper_map_toupper, map_toupper_map_toupper] at heq
      exact stringEqualI_iff.mpr heq
  | executeInsert i succeeds => exact absurd trivial hsettled
  | executeSelect i accountID => exact absurd trivial hsettled
  | invokeCallback i => exact absurd trivial hsettled

/-- The names of the calls are those that were asked for. -/
theorem forall_isValid_step (hcalls : ∀ call ∈ s.calls, Utf8.isValid call.username = true)
    (hvalid : ValidUsername l) (hstep : Stepped srp6 s l t) :
    ∀ call ∈ t.calls, Utf8.isValid call.username = true := by
  have hset : ∀ {i : ℕ} {call : Call} (call' : Call), s.calls[i]? = some call →
      call'.username = call.username →
      ∀ other ∈ s.calls.set i call', Utf8.isValid other.username = true := by
    intro i call call' hcall heq other hother
    rcases List.mem_or_eq_of_mem_set hother with hother | rfl
    · exact hcalls other hother
    · rw [heq]
      exact hcalls call (List.mem_of_getElem? hcall)
  cases hstep with
  | refused => exact hcalls
  | accepted =>
      rw [List.forall_mem_append, List.forall_mem_singleton]
      exact ⟨hcalls, hvalid⟩
  | insertFailed i call hcall => exact hset _ hcall rfl
  | inserted i call hcall => exact hset _ hcall rfl
  | selected i accountID call hcall => exact hset _ hcall rfl
  | lost i call hcall => exact hset _ hcall rfl
  | added i accountID call hcall => exact hset _ hcall rfl

/-- **Names stay unique** in a run in which every name that is asked for is settled; and if
the names are valid text, in no other. -/
theorem names_unique (srp6 : Srp6) (sameName : List UInt8 → List UInt8 → Bool) {s : State}
    (hloaded : Loaded s) (ls : List Label) :
    (Along (next srp6 sameName) NameSettled s ls →
      ∀ t, run (next srp6 sameName) s ls = some t → NamesUnique t) ∧
    ((∀ l ∈ ls, ValidUsername l) →
      (∀ pre t, pre <+: ls → run (next srp6 sameName) s pre = some t → NamesUnique t) →
      Along (next srp6 sameName) NameSettled s ls) := by
  constructor
  · intro hsettled t hrun
    have hinv : Inv t := run_induction_of
      (fun _ _ _ h hQ hnext => h.step hQ (stepped_of_next hnext)) hsettled hloaded.inv hrun
    exact hinv.namesUnique
  · intro hvalid hunique
    have hinv := hloaded.inv
    have hm : Mapped s := by simp [Mapped, hloaded.calls]
    have hcalls : ∀ call ∈ s.calls, Utf8.isValid call.username = true := by simp [hloaded.calls]
    clear hloaded
    induction ls generalizing s with
    | nil => trivial
    | cons l ls ih =>
        rw [List.forall_mem_cons] at hvalid
        have hsettled : NameSettled s l := by
          by_contra hne
          obtain ⟨t, hnext, hnot⟩ := exists_next_of_not_nameSettled hm hinv hcalls hvalid.1 hne
          refine hnot (hunique [l] t (by simp) ?_)
          rw [run_cons, hnext]
          rfl
        refine ⟨hsettled, fun t hnext => ?_⟩
        have hstep := stepped_of_next hnext
        refine ih hvalid.2 ?_ (hinv.step hsettled hstep) (hm.step hinv hstep)
          (forall_isValid_step hcalls hvalid.1 hstep)
        intro pre u hpre hrun
        refine hunique (l :: pre) u (List.cons_prefix_cons.mpr ⟨rfl, hpre⟩) ?_
        rw [run_cons, hnext]
        exact hrun

/-- A server without accounts. -/
def emptyServer : State := ⟨⟨[], List.nodup_nil⟩, [], 1, []⟩

theorem loaded_emptyServer : Loaded emptyServer where
  accounts := rfl
  calls := rfl
  ids := List.nodup_nil
  pos := by simp [emptyServer]
  names := List.Pairwise.nil

/-- The account of `bob`, or `BOB`, with the key `k`. -/
def bobsAccount (srp6 : Srp6) (salt : Vector UInt8 32) (guildID : ℤ) : InsAccount :=
  ⟨[0x42, 0x4f, 0x42], salt, srp6.calculateVerifier [0x42, 0x4f, 0x42] [0x4b] salt.toList, guildID,
    "WarheadCore".toUTF8.data.toList⟩

theorem createAccount_bob (srp6 : Srp6) (accounts : Accounts) (salt : Vector UInt8 32)
    {username : List UInt8} (guildID : ℤ)
    (husername : username = [0x62, 0x6f, 0x62] ∨ username = [0x42, 0x4f, 0x42]) :
    createAccount srp6 accounts salt username [0x6b] guildID [] =
      if accounts.getID [0x42, 0x4f, 0x42] ≠ 0 then (.nameAlreadyExist, none)
      else (.ok, some (bobsAccount srp6 salt guildID)) := by
  have hlength : utf8length username = (3, username) := by
    rcases husername with rfl | rfl <;> decide +kernel
  have hkeyLength : utf8length [0x6b] = (1, [0x6b]) := by decide +kernel
  have hupper : utf8ToUpperOnlyLatin username = (true, [0x42, 0x4f, 0x42]) := by
    rcases husername with rfl | rfl <;> decide +kernel
  have hkeyUpper : utf8ToUpperOnlyLatin [0x6b] = (true, [0x4b]) := by decide +kernel
  simp only [createAccount, hlength, hkeyLength, hupper, hkeyUpper]
  rfl

/-- The server with the call of `bob`, and his row if it has been inserted. -/
def bobsServer (srp6 : Srp6) (accounts : Accounts) (inserted : Bool) (callback : Callback) :
    State :=
  { accounts := accounts
    table := if inserted then [⟨1, bobsAccount srp6 (Vector.replicate 32 1) 7⟩] else []
    nextID := if inserted then 2 else 1
    calls :=
      [⟨[0x62, 0x6f, 0x62], bobsAccount srp6 (Vector.replicate 32 1) 7, inserted, callback⟩] }

/-- The map with `bob`. -/
def bobsAccounts (srp6 : Srp6) : Accounts :=
  emptyServer.accounts.addAccountInfo
    (accountInfo 1 (bobsAccount srp6 (Vector.replicate 32 1) 7))

/-- When the callback of `bob` has been invoked, `BOB` is refused. -/
theorem names_unique_bob : Loaded emptyServer ∧ ∀ srp6 : Srp6, ∃ t,
    run (next srp6 stringEqualI) emptyServer
      [.createAccount (Vector.replicate 32 1) [0x62, 0x6f, 0x62] [0x6b] 7 [],
        .executeInsert 0 true, .executeSelect 0 1, .invokeCallback 0,
        .createAccount (Vector.replicate 32 2) [0x42, 0x4f, 0x42] [0x6b] 8 []] = some t ∧
      NamesUnique t ∧ t.calls.length = 1 ∧ t.table.length = 1 := by
  refine ⟨loaded_emptyServer, fun srp6 => ?_⟩
  have h1 : next srp6 stringEqualI emptyServer
      (.createAccount (Vector.replicate 32 1) [0x62, 0x6f, 0x62] [0x6b] 7 []) =
        some (bobsServer srp6 emptyServer.accounts false .queued) := by
    simp only [next, createAccount_bob srp6 _ _ 7 (Or.inl rfl)]
    rfl
  have h2 : next srp6 stringEqualI (bobsServer srp6 emptyServer.accounts false .queued)
      (.executeInsert 0 true) = some (bobsServer srp6 emptyServer.accounts true .queued) := rfl
  have h3 : next srp6 stringEqualI (bobsServer srp6 emptyServer.accounts true .queued)
      (.executeSelect 0 1) = some (bobsServer srp6 emptyServer.accounts true (.ready 1)) := by
    simp only [next, bobsServer, List.getElem?_cons_zero]
    rw [if_pos ⟨trivial, Or.inr ⟨_, List.mem_cons_self, rfl, rfl⟩⟩]
    rfl
  have h4 : next srp6 stringEqualI (bobsServer srp6 emptyServer.accounts true (.ready 1))
      (.invokeCallback 0) = some (bobsServer srp6 (bobsAccounts srp6) true .added) := rfl
  have h5 : next srp6 stringEqualI (bobsServer srp6 (bobsAccounts srp6) true .added)
      (.createAccount (Vector.replicate 32 2) [0x42, 0x4f, 0x42] [0x6b] 8 []) =
        some (bobsServer srp6 (bobsAccounts srp6) true .added) := by
    simp only [next, createAccount_bob srp6 _ _ 8 (Or.inr rfl)]
    rfl
  have hrun : run (next srp6 stringEqualI) emptyServer
      [.createAccount (Vector.replicate 32 1) [0x62, 0x6f, 0x62] [0x6b] 7 [],
        .executeInsert 0 true, .executeSelect 0 1, .invokeCallback 0,
        .createAccount (Vector.replicate 32 2) [0x42, 0x4f, 0x42] [0x6b] 8 []] =
      some (bobsServer srp6 (bobsAccounts srp6) true .added) := by
    simp only [run_cons, h1, h2, h3, h4, h5, Option.bind_some, run_nil]
  refine ⟨_, hrun, (names_unique srp6 stringEqualI loaded_emptyServer _).1 ?_ _ hrun, rfl, rfl⟩
  refine along_cons ?_ h1 (along_cons trivial h2 (along_cons trivial h3 (along_cons trivial h4
    (along_cons ?_ h5 trivial))))
  · intro _ _ call hcall
    cases hcall
  · intro _ _ call hcall _
    rw [List.mem_singleton.mp hcall]

/-- When it has not been invoked, both get an account. -/
theorem bob_created_twice : Loaded emptyServer ∧ ∀ srp6 : Srp6, ∃ t,
    run (next srp6 stringEqualI) emptyServer
      [.createAccount (Vector.replicate 32 1) [0x62, 0x6f, 0x62] [0x6b] 7 [],
        .createAccount (Vector.replicate 32 2) [0x42, 0x4f, 0x42] [0x6b] 8 [],
        .executeInsert 0 true, .executeInsert 1 true] = some t ∧
      (¬ t.calls.Pairwise fun call call' => ¬ stringEqualI call.username call'.username = true) ∧
      ¬ t.table.Pairwise fun row row' =>
        ¬ stringEqualI row.account.name row'.account.name = true := by
  refine ⟨loaded_emptyServer, fun srp6 => ?_⟩
  refine ⟨{ emptyServer with
    table := [⟨1, bobsAccount srp6 (Vector.replicate 32 1) 7⟩,
      ⟨2, bobsAccount srp6 (Vector.replicate 32 2) 8⟩]
    nextID := 3
    calls := [⟨[0x62, 0x6f, 0x62], bobsAccount srp6 (Vector.replicate 32 1) 7, true, .queued⟩,
      ⟨[0x42, 0x4f, 0x42], bobsAccount srp6 (Vector.replicate 32 2) 8, true, .queued⟩] },
    ?_, ?_, ?_⟩
  · simp only [run_cons, next, createAccount_bob srp6 _ _ 7 (Or.inl rfl),
      createAccount_bob srp6 _ _ 8 (Or.inr rfl)]
    rfl
  · simp only [List.pairwise_pair]
    decide
  · simp only [List.pairwise_pair]
    exact fun h => h rfl

end WarheadDiscord.Registration
