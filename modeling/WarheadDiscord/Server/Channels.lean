import WarheadDiscord.Server.DiscordSocket

/-!
# The channels of a guild

`DiscordBot::CheckChannels` looks for the text channels it writes to, in the category that
is meant for them, and creates what is missing.  The result is handed to the callback of
the login, which refuses an empty list and a list of the wrong length.

The list is a `std::array`, and so neither empty nor of the wrong length.  It is not
initialised either: an entry that nobody writes holds whatever was there before, and is
taken for a channel that exists unless it happens to be zero.  `session_channels_valid_iff`
says when the session that is created nevertheless has the channels it needs.

Identifiers are the `int64` they are stored as.  The requests are the parameter
`GuildRequests`; a request that fails throws, and the exception ends the step it was made
for.  Log messages are left out, and so is the branch for a type without a name: each type
has one.

## Main definitions

* `DiscordChannelType`, `getChannelName`, `getDiscordChannelType` — the channels and their
  names.
* `GuildRequests` — what the guild answers.
* `checkChannels` — the check; `CheckedChannels` — its result.
* `channelOutcome` — what the login makes of it.
-/

namespace WarheadDiscord

/-- `DEFAULT_CATEGORY_NAME`. -/
def DEFAULT_CATEGORY_NAME : String := "core-logs"

/-- The channels; `MaxType` is the number of them. -/
inductive DiscordChannelType
  | serverStatus
  | commands
  | chatSay
  | chatChannel
  | loginPlayer
  | loginGM
  | loginAdmin
  deriving DecidableEq, Repr

namespace DiscordChannelType

/-- The types in the order of their values. -/
def all : List DiscordChannelType :=
  [.serverStatus, .commands, .chatSay, .chatChannel, .loginPlayer, .loginGM, .loginAdmin]

def index : DiscordChannelType → Fin DEFAULT_CHANNELS_COUNT
  | .serverStatus => ⟨0, by decide⟩
  | .commands => ⟨1, by decide⟩
  | .chatSay => ⟨2, by decide⟩
  | .chatChannel => ⟨3, by decide⟩
  | .loginPlayer => ⟨4, by decide⟩
  | .loginGM => ⟨5, by decide⟩
  | .loginAdmin => ⟨6, by decide⟩

end DiscordChannelType

def getChannelName : DiscordChannelType → String
  | .serverStatus => "server-status"
  | .commands => "commands"
  | .chatSay => "chat-say"
  | .chatChannel => "chat-channel"
  | .loginPlayer => "login-player"
  | .loginGM => "login-gm"
  | .loginAdmin => "login-admin"

/-- `none` is `MaxType`. -/
def getDiscordChannelType (channelName : String) : Option DiscordChannelType :=
  if channelName = "server-status" then some .serverStatus
  else if channelName = "commands" then some .commands
  else if channelName = "chat-say" then some .chatSay
  else if channelName = "chat-channel" then some .chatChannel
  else if channelName = "login-player" then some .loginPlayer
  else if channelName = "login-gm" then some .loginGM
  else if channelName = "login-admin" then some .loginAdmin
  else none

/-- What `is_category` and `is_text_channel` tell apart. -/
inductive ChannelKind
  | text
  | category
  | other
  deriving DecidableEq, Repr

/-- The part of a `dpp::channel` that is looked at. -/
structure Channel where
  name : String
  kind : ChannelKind
  parentId : ℤ
  deriving DecidableEq, Repr

/-- A `dpp::channel_map`, in the order of its iteration. -/
abbrev ChannelMap := List (ℤ × Channel)

/-- An entry for each type. -/
abbrev DiscordChannelsList := Vector ℤ DEFAULT_CHANNELS_COUNT

namespace DiscordChannelsList

/-- The entry of a type. -/
def entry (channelList : DiscordChannelsList) (type : DiscordChannelType) : ℤ :=
  channelList[type.index]

/-- Write the entry of a type. -/
def store (channelList : DiscordChannelsList) (type : DiscordChannelType) (channelID : ℤ) :
    DiscordChannelsList :=
  channelList.set type.index channelID

theorem entry_store (channelList : DiscordChannelsList) (type type' : DiscordChannelType)
    (channelID : ℤ) :
    (channelList.store type channelID).entry type' =
      if type = type' then channelID else channelList.entry type' := by
  have hindex : (type.index : ℕ) = type'.index ↔ type = type' := by
    cases type <;> cases type' <;> decide
  simp only [entry, store, Fin.getElem_fin, Vector.getElem_set, hindex]

end DiscordChannelsList

/-- What the guild answers to the requests; `none` is a `rest_exception`.  No identifier is
zero. -/
structure GuildRequests where
  /-- `channels_get_sync`. -/
  channelsGet : Option ChannelMap
  /-- The `n`-th `channel_create_sync` for a category. -/
  categoryCreate : ℕ → Option ℤ
  /-- `channel_create_sync` for a text channel with this name and parent. -/
  channelCreate : String → ℤ → Option ℤ
  channelsGet_ne_zero : ∀ channels ∈ channelsGet, ∀ c ∈ channels, c.1 ≠ 0
  categoryCreate_ne_zero : ∀ n, ∀ id ∈ categoryCreate n, id ≠ 0
  channelCreate_ne_zero : ∀ name parent, ∀ id ∈ channelCreate name parent, id ≠ 0

/-- The result of the check, with the category that was used, or zero, and the channels that
are known to exist. -/
structure CheckedChannels where
  channelsList : DiscordChannelsList
  category : ℤ
  guild : ChannelMap

/-- The first category of the right name, or zero. -/
def getCategory (channels : ChannelMap) : ℤ :=
  match channels.find? fun c => c.2.kind = .category ∧ c.2.name = DEFAULT_CATEGORY_NAME with
  | some c => c.1
  | none => 0

namespace GuildRequests

/-- The `n`-th attempt to create the category: its identifier, or zero, and what exists now. -/
def createCategory (q : GuildRequests) (n : ℕ) : ℤ × ChannelMap :=
  match q.categoryCreate n with
  | some id => (id, [(id, ⟨DEFAULT_CATEGORY_NAME, .category, 0⟩)])
  | none => (0, [])

/-- Take the category from the guild or create it.  In a guild without channels it is created
first, and once more if that fails. -/
def findCategory (q : GuildRequests) (channels : ChannelMap) : ℤ × ChannelMap :=
  let found := if channels.isEmpty then q.createCategory 0 else (0, [])
  let found := if found.1 = 0 then (getCategory channels, []) else found
  if found.1 = 0 then q.createCategory (if channels.isEmpty then 1 else 0) else found

/-- Take a channel of the guild over into the list. -/
def takeChannel (findCategoryID : ℤ) (channelList : DiscordChannelsList) (c : ℤ × Channel) :
    DiscordChannelsList :=
  if c.2.kind ≠ .text ∨ c.2.parentId ≠ findCategoryID then channelList
  else
    match getDiscordChannelType c.2.name with
    | none => channelList
    | some type => channelList.store type c.1

def getTextChannels (channels : ChannelMap) (findCategoryID : ℤ)
    (channelList : DiscordChannelsList) : DiscordChannelsList :=
  channels.foldl (takeChannel findCategoryID) channelList

/-- Create the channel of a type whose entry is zero.  A failure is passed over. -/
def createMissing (q : GuildRequests) (findCategoryID : ℤ) (r : DiscordChannelsList × ChannelMap)
    (type : DiscordChannelType) : DiscordChannelsList × ChannelMap :=
  if r.1.entry type = 0 then
    match q.channelCreate (getChannelName type) findCategoryID with
    | some id =>
        (r.1.store type id, r.2 ++ [(id, ⟨getChannelName type, .text, findCategoryID⟩)])
    | none => r
  else r

def createTextChannel (q : GuildRequests) (channelList : DiscordChannelsList)
    (findCategoryID : ℤ) : DiscordChannelsList × ChannelMap :=
  DiscordChannelType.all.foldl (q.createMissing findCategoryID) (channelList, [])

/-- The check, with what the uninitialised list holds. -/
def checkChannels (q : GuildRequests) (initial : DiscordChannelsList) : CheckedChannels :=
  match q.channelsGet with
  | none => ⟨initial, 0, []⟩
  | some channels =>
      let found := q.findCategory channels
      if found.1 = 0 then ⟨initial, 0, channels⟩
      else
        let created := q.createTextChannel (getTextChannels channels found.1 initial) found.1
        ⟨created.1, found.1, channels ++ found.2 ++ created.2⟩

end GuildRequests

/-- What the callback of the login does with the list. -/
inductive ChannelOutcome
  | reject (code : DiscordAuthResponseCodes)
  | newSession (channelList : DiscordChannelsList)

def channelOutcome (channelList : DiscordChannelsList) : ChannelOutcome :=
  if channelList.size = 0 then .reject .channelsNotFound
  else if channelList.size ≠ DEFAULT_CHANNELS_COUNT then .reject .channelsIncorrect
  else .newSession channelList

/-- `channelCallback` goes by `channelOutcome`. -/
theorem channelCallback_eq (s : DiscordSocket) (i : ℕ) (c : Chain)
    (channelList : DiscordChannelsList) :
    s.channelCallback i c channelList =
      match channelOutcome channelList with
      | .reject code => (s.dropChain i).reject code
      | .newSession _ => s.setStage i c .setAuthed := by
  rfl

/-! ## The two loops -/

theorem getDiscordChannelType_eq_some_iff {name : String} {type : DiscordChannelType} :
    getDiscordChannelType name = some type ↔ name = getChannelName type := by
  constructor
  · intro h
    unfold getDiscordChannelType at h
    split_ifs at h <;> cases h <;> assumption
  · rintro rfl
    cases type <;> rfl

/-- A text channel with the name of a type, in a category. -/
structure Channel.IsFor (c : Channel) (type : DiscordChannelType) (category : ℤ) : Prop where
  kind : c.kind = .text
  name : c.name = getChannelName type
  parentId : c.parentId = category

/-- A category of the right name. -/
structure Channel.IsCategory (c : Channel) : Prop where
  kind : c.kind = .category
  name : c.name = DEFAULT_CATEGORY_NAME

namespace GuildRequests
variable {q : GuildRequests} {category : ℤ} {type : DiscordChannelType}
  {channels : ChannelMap} {channelList : DiscordChannelsList}

theorem entry_takeChannel_of_isFor {c : ℤ × Channel} (h : c.2.IsFor type category) :
    (takeChannel category channelList c).entry type = c.1 := by
  have htype := getDiscordChannelType_eq_some_iff.mpr h.name
  simp [takeChannel, h.kind, h.parentId, htype, DiscordChannelsList.entry_store]

theorem entry_takeChannel_of_not_isFor {c : ℤ × Channel} (h : ¬ c.2.IsFor type category) :
    (takeChannel category channelList c).entry type = channelList.entry type := by
  rw [takeChannel]
  split_ifs with hother
  · rfl
  · split
    case h_1 => rfl
    case h_2 type' htype =>
      rw [not_or, not_not, not_not] at hother
      rw [getDiscordChannelType_eq_some_iff] at htype
      have hne : type' ≠ type := by
        rintro rfl
        exact h ⟨hother.1, htype, hother.2⟩
      rw [DiscordChannelsList.entry_store, if_neg hne]

/-- The entry of a type is one of its channels in the category, or as before if there is
none. -/
theorem entry_getTextChannels (channels : ChannelMap) (category : ℤ)
    (channelList : DiscordChannelsList) (type : DiscordChannelType) :
    (∃ c ∈ channels, c.2.IsFor type category ∧
        (getTextChannels channels category channelList).entry type = c.1) ∨
      (∀ c ∈ channels, ¬ c.2.IsFor type category) ∧
        (getTextChannels channels category channelList).entry type = channelList.entry type := by
  unfold getTextChannels
  induction channels generalizing channelList with
  | nil => simp
  | cons c channels ih =>
      rw [List.foldl_cons]
      rcases ih (takeChannel category channelList c) with ⟨d, hd, hfor, hentry⟩ | ⟨hnone, hentry⟩
      · exact .inl ⟨d, List.mem_cons_of_mem _ hd, hfor, hentry⟩
      · by_cases hfor : c.2.IsFor type category
        · exact .inl ⟨c, List.mem_cons_self, hfor, hentry.trans (entry_takeChannel_of_isFor hfor)⟩
        · refine .inr ⟨?_, hentry.trans (entry_takeChannel_of_not_isFor hfor)⟩
          intro d hd
          rcases List.mem_cons.mp hd with rfl | hd
          · exact hfor
          · exact hnone d hd

/-- The channel of a type is missing, and this is the one that is created for it. -/
def Creates (q : GuildRequests) (category : ℤ) (channelList : DiscordChannelsList)
    (type : DiscordChannelType) (id : ℤ) : Prop :=
  channelList.entry type = 0 ∧ q.channelCreate (getChannelName type) category = some id

theorem createMissing_of_creates {r : DiscordChannelsList × ChannelMap} {id : ℤ}
    (h : q.Creates category r.1 type id) :
    q.createMissing category r type =
      (r.1.store type id, r.2 ++ [(id, ⟨getChannelName type, .text, category⟩)]) := by
  rw [createMissing, if_pos h.1, h.2]

theorem createMissing_of_not_creates {r : DiscordChannelsList × ChannelMap}
    (h : ∀ id, ¬ q.Creates category r.1 type id) : q.createMissing category r type = r := by
  rw [createMissing]
  split_ifs with hzero
  · cases hcreate : q.channelCreate (getChannelName type) category with
    | none => rfl
    | some id => exact absurd ⟨hzero, hcreate⟩ (h id)
  · rfl

/-- Only the entry of the type is written. -/
theorem entry_createMissing_of_ne {r : DiscordChannelsList × ChannelMap}
    {type' : DiscordChannelType} (hne : type ≠ type') :
    (q.createMissing category r type).1.entry type' = r.1.entry type' := by
  by_cases h : ∃ id, q.Creates category r.1 type id
  · obtain ⟨id, hid⟩ := h
    rw [createMissing_of_creates hid, DiscordChannelsList.entry_store, if_neg hne]
  · rw [createMissing_of_not_creates (not_exists.mp h)]

/-- What the loop makes of the entry of a type it comes to. -/
theorem entry_foldl_createMissing {types : List DiscordChannelType} (hnodup : types.Nodup)
    (r : DiscordChannelsList × ChannelMap) (type : DiscordChannelType) :
    (type ∈ types ∧ q.Creates category r.1 type
        ((types.foldl (q.createMissing category) r).1.entry type)) ∨
      (type ∈ types → ∀ id, ¬ q.Creates category r.1 type id) ∧
        (types.foldl (q.createMissing category) r).1.entry type = r.1.entry type := by
  induction types generalizing r with
  | nil => simp
  | cons t types ih =>
      rw [List.nodup_cons] at hnodup
      rw [List.foldl_cons]
      by_cases ht : t = type
      · subst ht
        -- the rest of the loop does not come to this type again
        have hrest : (types.foldl (q.createMissing category) (q.createMissing category r t)).1.entry
            t = (q.createMissing category r t).1.entry t := by
          rcases ih hnodup.2 (q.createMissing category r t) with ⟨hmem, -⟩ | ⟨-, hsame⟩
          · exact absurd hmem hnodup.1
          · exact hsame
        rw [hrest]
        by_cases h : ∃ id, q.Creates category r.1 t id
        · obtain ⟨id, hid⟩ := h
          left
          rw [createMissing_of_creates hid, DiscordChannelsList.entry_store, if_pos rfl]
          exact ⟨List.mem_cons_self, hid⟩
        · right
          rw [createMissing_of_not_creates (not_exists.mp h)]
          exact ⟨fun _ => not_exists.mp h, rfl⟩
      · have hentry : (q.createMissing category r t).1.entry type = r.1.entry type :=
          entry_createMissing_of_ne ht
        have hstep := ih hnodup.2 (q.createMissing category r t)
        simp only [Creates, hentry] at hstep
        simpa [Creates, List.mem_cons, Ne.symm ht] using hstep

/-- What exists after the loop. -/
theorem mem_foldl_createMissing {types : List DiscordChannelType} (hnodup : types.Nodup)
    (r : DiscordChannelsList × ChannelMap) (c : ℤ × Channel) :
    c ∈ (types.foldl (q.createMissing category) r).2 ↔
      c ∈ r.2 ∨ ∃ type ∈ types, q.Creates category r.1 type c.1 ∧
        c.2 = ⟨getChannelName type, .text, category⟩ := by
  induction types generalizing r with
  | nil => simp
  | cons t types ih =>
      rw [List.nodup_cons] at hnodup
      have hsame : ∀ type ∈ types, (q.Creates category (q.createMissing category r t).1 type c.1 ↔
          q.Creates category r.1 type c.1) := by
        intro type htype
        rw [Creates, entry_createMissing_of_ne (ne_of_mem_of_not_mem htype hnodup.1).symm, Creates]
      have hstep : c ∈ (q.createMissing category r t).2 ↔ c ∈ r.2 ∨
          q.Creates category r.1 t c.1 ∧ c.2 = ⟨getChannelName t, .text, category⟩ := by
        by_cases h : ∃ id, q.Creates category r.1 t id
        · obtain ⟨id, hid⟩ := h
          have hid' : q.Creates category r.1 t c.1 ↔ c.1 = id := by
            constructor
            · intro hc
              exact Option.some.inj (hc.2.symm.trans hid.2)
            · rintro rfl
              exact hid
          rw [createMissing_of_creates hid, List.mem_append, List.mem_singleton, hid', Prod.ext_iff]
        · rw [createMissing_of_not_creates (not_exists.mp h)]
          simp [not_exists.mp h]
      rw [List.foldl_cons, ih hnodup.2, hstep, List.exists_mem_cons_iff, or_assoc]
      refine or_congr_right (or_congr_right ?_)
      constructor
      · rintro ⟨type, htype, hcreates, hc⟩
        exact ⟨type, htype, (hsame type htype).mp hcreates, hc⟩
      · rintro ⟨type, htype, hcreates, hc⟩
        exact ⟨type, htype, (hsame type htype).mpr hcreates, hc⟩

theorem entry_createTextChannel (q : GuildRequests) (channelList : DiscordChannelsList)
    (category : ℤ) (type : DiscordChannelType) :
    q.Creates category channelList type
        ((q.createTextChannel channelList category).1.entry type) ∨
      (∀ id, ¬ q.Creates category channelList type id) ∧
        (q.createTextChannel channelList category).1.entry type = channelList.entry type := by
  have hall : type ∈ DiscordChannelType.all := by cases type <;> decide
  have hnodup : DiscordChannelType.all.Nodup := by decide
  exact (entry_foldl_createMissing hnodup (channelList, []) type).imp And.right
    fun h => ⟨h.1 hall, h.2⟩

theorem mem_createTextChannel {c : ℤ × Channel} :
    c ∈ (q.createTextChannel channelList category).2 ↔
      ∃ type, q.Creates category channelList type c.1 ∧
        c.2 = ⟨getChannelName type, .text, category⟩ := by
  have hall : ∀ type, type ∈ DiscordChannelType.all := by
    intro type
    cases type <;> decide
  rw [createTextChannel, mem_foldl_createMissing (by decide)]
  simp [hall]

/-! ## The category -/

theorem getCategory_cases (hids : ∀ c ∈ channels, c.1 ≠ 0) :
    (getCategory channels = 0 ∧ ∀ c ∈ channels, ¬ c.2.IsCategory) ∨
      (getCategory channels ≠ 0 ∧ ∃ c ∈ channels, c.2.IsCategory ∧ c.1 = getCategory channels) := by
  rw [getCategory]
  cases hfind : channels.find? fun c =>
      c.2.kind = .category ∧ c.2.name = DEFAULT_CATEGORY_NAME with
  | none =>
      refine .inl ⟨rfl, ?_⟩
      intro c hc hcategory
      have hnone := List.find?_eq_none.mp hfind c hc
      simp [hcategory.kind, hcategory.name] at hnone
  | some c =>
      have hmem := List.mem_of_find?_eq_some hfind
      have hc := List.find?_some hfind
      rw [decide_eq_true_eq] at hc
      exact .inr ⟨hids c hmem, c, hmem, ⟨hc.1, hc.2⟩, rfl⟩

/-- The category is there, or can be created. -/
def HasCategory (q : GuildRequests) (channels : ChannelMap) : Prop :=
  (∃ c ∈ channels, c.2.IsCategory) ∨ (q.categoryCreate 0).isSome ∨
    channels = [] ∧ (q.categoryCreate 1).isSome

theorem createCategory_cases (q : GuildRequests) (n : ℕ) :
    (q.createCategory n = (0, []) ∧ q.categoryCreate n = none) ∨
      ∃ id, id ≠ 0 ∧ q.categoryCreate n = some id ∧
        q.createCategory n = (id, [(id, ⟨DEFAULT_CATEGORY_NAME, .category, 0⟩)]) := by
  rw [createCategory]
  cases hcreate : q.categoryCreate n with
  | none => exact .inl ⟨rfl, rfl⟩
  | some id => exact .inr ⟨id, q.categoryCreate_ne_zero n id hcreate, rfl, rfl⟩

/-- The category that is used: there is none, or it exists now. -/
theorem findCategory_cases (hids : ∀ c ∈ channels, c.1 ≠ 0) :
    ((q.findCategory channels).1 = 0 ∧ ¬ q.HasCategory channels) ∨
      ((q.findCategory channels).1 ≠ 0 ∧ q.HasCategory channels ∧
        (∃ c ∈ channels ++ (q.findCategory channels).2, c.2.IsCategory ∧
          c.1 = (q.findCategory channels).1) ∧
        ∀ c ∈ (q.findCategory channels).2, c.2.IsCategory) := by
  -- a category that was just created
  have hcreated : ∀ n id, id ≠ 0 → q.categoryCreate n = some id →
      q.findCategory channels = q.createCategory n →
      q.createCategory n = (id, [(id, ⟨DEFAULT_CATEGORY_NAME, .category, 0⟩)]) →
      q.HasCategory channels →
      (q.findCategory channels).1 ≠ 0 ∧ q.HasCategory channels ∧
        (∃ c ∈ channels ++ (q.findCategory channels).2, c.2.IsCategory ∧
          c.1 = (q.findCategory channels).1) ∧
        ∀ c ∈ (q.findCategory channels).2, c.2.IsCategory := by
    intro n id hid hcreate hfound heq hhas
    rw [hfound, heq]
    refine ⟨hid, hhas, ⟨_, List.mem_append_right _ List.mem_cons_self, ⟨rfl, rfl⟩, rfl⟩, ?_⟩
    intro c hc
    rw [List.mem_singleton.mp hc]
    exact ⟨rfl, rfl⟩
  cases channels with
  | nil =>
      have hget : getCategory [] = 0 := rfl
      rcases q.createCategory_cases 0 with ⟨hfirst, hnone⟩ | ⟨id, hid, hsome, heq⟩
      · have hfound : q.findCategory [] = q.createCategory 1 := by
          simp [findCategory, hfirst, hget]
        rcases q.createCategory_cases 1 with ⟨hsecond, hnone'⟩ | ⟨id, hid, hsome, heq⟩
        · left
          rw [hfound, hsecond]
          exact ⟨rfl, by simp [HasCategory, hnone, hnone']⟩
        · exact .inr (hcreated 1 id hid hsome hfound heq (by simp [HasCategory, hsome]))
      · have hfound : q.findCategory [] = q.createCategory 0 := by
          simp [findCategory, heq, hid]
        exact .inr (hcreated 0 id hid hsome hfound heq (by simp [HasCategory, hsome]))
  | cons c channels =>
      rcases getCategory_cases hids with ⟨hget, hnone⟩ | ⟨hget, d, hd, hcategory, hid⟩
      · have hfound : q.findCategory (c :: channels) = q.createCategory 0 := by
          simp [findCategory, hget]
        rcases q.createCategory_cases 0 with ⟨hfirst, hnone'⟩ | ⟨id, hid, hsome, heq⟩
        · left
          rw [hfound, hfirst]
          refine ⟨rfl, ?_⟩
          rintro (⟨d, hd, hcategory⟩ | hsome | ⟨hnil, -⟩)
          · exact hnone d hd hcategory
          · simp [hnone'] at hsome
          · cases hnil
        · exact .inr (hcreated 0 id hid hsome hfound heq (by simp [HasCategory, hsome]))
      · have hfound : q.findCategory (c :: channels) = (getCategory (c :: channels), []) := by
          simp [findCategory, hget]
        right
        rw [hfound]
        refine ⟨hget, .inl ⟨d, hd, hcategory⟩, ⟨d, ?_, hcategory, hid⟩, by simp⟩
        exact List.mem_append_left _ hd

end GuildRequests

/-! ## The session -/

/-- Every entry is a channel of its type, in the category. -/
structure CheckedChannels.Valid (r : CheckedChannels) : Prop where
  category : ∃ c ∈ r.guild, c.2.IsCategory ∧ c.1 = r.category
  channels : ∀ type, ∃ c ∈ r.guild, c.2.IsFor type r.category ∧ c.1 = r.channelsList.entry type

/-- A session is constructed only with valid channels, and otherwise the client is told. -/
def CheckedChannels.SessionOnlyIfValid (r : CheckedChannels) : Prop :=
  match channelOutcome r.channelsList with
  | .newSession _ => r.Valid
  | .reject code => code = .channelsNotFound ∨ code = .channelsIncorrect

namespace GuildRequests
variable {q : GuildRequests} {channels : ChannelMap} {initial : DiscordChannelsList}

/-- The guild can be asked, it has the category or the category can be created, and each type
has a channel in it, or its entry happened to be zero and its channel can be created. -/
def ChannelsAvailable (q : GuildRequests) (initial : DiscordChannelsList) : Prop :=
  ∃ channels, q.channelsGet = some channels ∧ q.HasCategory channels ∧
    ∀ type, (∃ c ∈ channels, c.2.IsFor type (q.findCategory channels).1) ∨
      ∃ id, q.Creates (q.findCategory channels).1 initial type id

/-- Both loops together: the entry of a type is a channel of this type exactly if there is one
or one is created. -/
theorem entry_valid_iff {category : ℤ} {others : ChannelMap} (hids : ∀ c ∈ channels, c.1 ≠ 0)
    (hothers : ∀ c ∈ others, c.2.IsCategory) (type : DiscordChannelType) :
    (∃ c ∈ channels ++ others ++
        (q.createTextChannel (getTextChannels channels category initial) category).2,
      c.2.IsFor type category ∧ c.1 =
        (q.createTextChannel (getTextChannels channels category initial) category).1.entry type) ↔
      (∃ c ∈ channels, c.2.IsFor type category) ∨ ∃ id, q.Creates category initial type id := by
  have htaken := entry_getTextChannels channels category initial type
  constructor
  · rintro ⟨c, hc, hfor, -⟩
    rw [List.mem_append, List.mem_append, mem_createTextChannel] at hc
    rcases hc with (hc | hc) | ⟨type', hcreates, hc⟩
    · exact .inl ⟨c, hc, hfor⟩
    · have hkind := (hothers c hc).kind
      rw [hfor.kind] at hkind
      cases hkind
    · have hname : getChannelName type' = getChannelName type := by rw [← hfor.name, hc]
      have htype : type' = type := by
        rw [← Option.some.injEq, ← getDiscordChannelType_eq_some_iff.mpr hname]
        exact (getDiscordChannelType_eq_some_iff.mpr rfl).symm
      subst htype
      rcases htaken with ⟨d, hd, hfor', -⟩ | ⟨-, hentry⟩
      · exact .inl ⟨d, hd, hfor'⟩
      · exact .inr ⟨c.1, hentry ▸ hcreates.1, hcreates.2⟩
  · intro havailable
    have hcreated := entry_createTextChannel q (getTextChannels channels category initial) category
      type
    rcases htaken with ⟨d, hd, hfor, hentry⟩ | ⟨hnone, hentry⟩
    · -- an entry that was found is not zero, so nothing is created for it
      refine ⟨d, by simp [hd], hfor, ?_⟩
      rcases hcreated with hcreates | ⟨-, hsame⟩
      · exact absurd (hentry.symm.trans hcreates.1) (hids d hd)
      · rw [hsame, hentry]
    · obtain ⟨id, hzero, hcreate⟩ := havailable.resolve_left fun ⟨c, hc, hfor⟩ => hnone c hc hfor
      rw [← hentry] at hzero
      rcases hcreated with hcreates | ⟨hnot, -⟩
      · exact ⟨(_, _), List.mem_append_right _ (mem_createTextChannel.mpr ⟨type, hcreates, rfl⟩),
          ⟨rfl, rfl, rfl⟩, rfl⟩
      · exact absurd ⟨hzero, hcreate⟩ (hnot id)

theorem valid_checkChannels_iff :
    (q.checkChannels initial).Valid ↔ q.ChannelsAvailable initial := by
  cases hget : q.channelsGet with
  | none =>
      have hchecked : q.checkChannels initial = ⟨initial, 0, []⟩ := by rw [checkChannels, hget]
      rw [hchecked]
      constructor
      · rintro ⟨⟨c, hc, -⟩, -⟩
        cases hc
      · rintro ⟨channels, hsome, -⟩
        rw [hget] at hsome
        cases hsome
  | some channels =>
      have hids := q.channelsGet_ne_zero channels hget
      have havailable : q.ChannelsAvailable initial ↔ q.HasCategory channels ∧
          ∀ type, (∃ c ∈ channels, c.2.IsFor type (q.findCategory channels).1) ∨
            ∃ id, q.Creates (q.findCategory channels).1 initial type id := by
        simp [ChannelsAvailable, hget]
      rw [havailable]
      rcases findCategory_cases (q := q) hids with ⟨hzero, hnone⟩ | ⟨hne, hhas, hcategory, hothers⟩
      · have hchecked : q.checkChannels initial = ⟨initial, 0, channels⟩ := by
          simp [checkChannels, hget, hzero]
        rw [hchecked]
        constructor
        · rintro ⟨⟨c, hc, -, hid⟩, -⟩
          exact absurd hid (hids c hc)
        · rintro ⟨hhas, -⟩
          exact absurd hhas hnone
      · have hchecked : q.checkChannels initial =
            ⟨(q.createTextChannel (getTextChannels channels (q.findCategory channels).1 initial)
                (q.findCategory channels).1).1, (q.findCategory channels).1,
              channels ++ (q.findCategory channels).2 ++
                (q.createTextChannel (getTextChannels channels (q.findCategory channels).1 initial)
                  (q.findCategory channels).1).2⟩ := by
          simp [checkChannels, hget, hne]
        rw [hchecked]
        constructor
        · intro hvalid
          refine ⟨hhas, ?_⟩
          intro type
          have hentry := hvalid.channels type
          dsimp only at hentry
          exact (entry_valid_iff hids hothers type).mp hentry
        · rintro ⟨-, htypes⟩
          refine ⟨?_, ?_⟩
          · obtain ⟨c, hc, hfound⟩ := hcategory
            exact ⟨c, List.mem_append_left _ hc, hfound⟩
          · intro type
            dsimp only
            exact (entry_valid_iff hids hothers type).mpr (htypes type)

/-- **A session is constructed only with valid channels exactly if they are available.** -/
theorem session_channels_valid_iff (q : GuildRequests) (initial : DiscordChannelsList) :
    (q.checkChannels initial).SessionOnlyIfValid ↔ q.ChannelsAvailable initial := by
  have houtcome : channelOutcome (q.checkChannels initial).channelsList =
      .newSession (q.checkChannels initial).channelsList := by
    simp [channelOutcome, DEFAULT_CHANNELS_COUNT]
  rw [CheckedChannels.SessionOnlyIfValid, houtcome]
  exact valid_checkChannels_iff

/-- A guild that cannot be asked. -/
def failing : GuildRequests where
  channelsGet := none
  categoryCreate _ := none
  channelCreate _ _ := none
  channelsGet_ne_zero := by simp
  categoryCreate_ne_zero := by simp
  channelCreate_ne_zero := by simp

/-- The request fails, and the session gets a list that nobody has written. -/
theorem session_without_channels :
    channelOutcome (failing.checkChannels (Vector.replicate 7 0)).channelsList =
        .newSession (Vector.replicate 7 0) ∧
      ¬ (failing.checkChannels (Vector.replicate 7 0)).SessionOnlyIfValid := by
  refine ⟨rfl, ?_⟩
  rintro ⟨⟨c, hc, -⟩, -⟩
  cases hc

end GuildRequests
end WarheadDiscord
