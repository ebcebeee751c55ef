import WarheadDiscord.Common.Config
import WarheadDiscord.Lib.Machine
import WarheadDiscord.Logging.Channel

/-!
# Which messages are logged

A logger is found by the longest part of a filter, up to one of its dots, that a logger is
registered under; the logger `root` takes the rest.  In front of the search `ShouldLog` compares the
level with `highestLogLevel`, which is set together with the loggers and raised with their levels,
but never lowered with them.  It is at least the level of every logger (`Log.Bounded`), and so it
does not change the answer (`shouldLog_iff`).

What is thrown, other than an `Exception`, is caught by nobody: `none` is the end of the program.

## Main definitions

* `Log` — the object.
* `ConsoleChannel.new`, `FileChannel.new`, `Log.createChannelsFromConfig`,
  `Log.createLoggerFromConfig`, `Log.loadFromConfig`, `Log.usingDefaultLogs`, `Log.setLoggerLevel` —
  what changes it.
* `Log.getLoggerByType`, `Log.shouldLog` — the search.
* `IsDottedPrefix`, `Log.IsSelected` — the logger that is meant.
-/

namespace WarheadDiscord.Logging

/-! ## Channels -/

namespace ConsoleChannel

def colorNames : List (List UInt8) :=
  [ascii "default", ascii "black", ascii "red", ascii "green", ascii "brown", ascii "blue",
    ascii "magenta", ascii "cyan", ascii "gray", ascii "darkGray", ascii "lightRed",
    ascii "lightGreen", ascii "yellow", ascii "lightBlue", ascii "lightMagenta",
    ascii "lightCyan", ascii "white"]

/-- `SetColors`; the colors themselves are left out. -/
def setColors (colors : List UInt8) : Except (List UInt8) Unit := do
  let colorTokens := tokenize colors 0x20 true
  if colorTokens.length ≠ 7 then
    throw (ascii "WindowsConsoleChannel::SetColors: Invalid colors size. Size " ++
      decimalText colorTokens.length ++ ascii ". Colors '" ++ colors ++ ascii "'")
  if colorTokens.any fun color => !colorNames.any (stringEqualI color) then
    throw (ascii "Invalid color value")

/-- The constructor with the options of the configuration. -/
def new (name : List UInt8) (level : LogLevel) (pattern : List UInt8)
    (options : List (List UInt8)) : Except (List UInt8) Channel := do
  let channel ← Channel.new .console name level pattern
  if 4 < options.length then
    throw (ascii "Incorrect options count (" ++ decimalText options.length ++ ascii ")")
  match options[3]? with
  | some colors => setColors colors
  | none => pure ()
  return channel

/-- The constructor with the colors. -/
def newWithColors (name : List UInt8) (level : LogLevel) (pattern colors : List UInt8) :
    Except (List UInt8) Channel := do
  let channel ← Channel.new .console name level pattern
  if colors ≠ [] then setColors colors
  return channel

end ConsoleChannel

namespace FileChannel

/-- An option that is true or false, if it is there. -/
def checkOption (what : String) : Option (List UInt8) → Except (List UInt8) Unit
  | none => .ok ()
  | some value =>
      if (stringTo .bool value).isSome then .ok ()
      else .error (ascii "Incorrect option for " ++ ascii what ++ ascii " '" ++ value ++ ascii "'")

/-- The constructor. -/
def new (name : List UInt8) (level : LogLevel) (pattern : List UInt8)
    (options : List (List UInt8)) : Except (List UInt8) Channel := do
  let channel ← Channel.new .file name level pattern
  if options.length < 4 then
    throw (ascii "Incorrect options count (" ++ decimalText options.length ++ ascii ")")
  checkOption "open mode" options[4]?
  checkOption "flush" options[5]?
  checkOption "add timestamp" options[6]?
  return channel

end FileChannel

/-- The functions of `_channelsCreateFunction`. -/
def channelCreateFn (type : ℤ) : Option (List UInt8 → LogLevel → List UInt8 →
    List (List UInt8) → Except (List UInt8) Channel) :=
  if type = 1 then some ConsoleChannel.new
  else if type = 2 then some FileChannel.new
  else none

/-! ## The object -/

/-- The channels of a logger are known by their names. -/
structure Logger where
  name : List UInt8
  level : LogLevel
  channels : List (List UInt8) := []
  deriving DecidableEq, Repr

/-- `emplace` of a map. -/
def emplace {α : Type} (map : List UInt8 → Option α) (key : List UInt8) (value : α) :
    List UInt8 → Option α :=
  if (map key).isSome then map else Function.update map key (some value)

/-- The object is static, so that `highestLogLevel` is zero at first. -/
structure Log where
  loggers : List UInt8 → Option Logger := fun _ => none
  channels : List UInt8 → Option Channel := fun _ => none
  highestLogLevel : LogLevel := .disabled
  logsDir : List UInt8 := []
  isUseDefaultLogs : Bool := false

/-- `static_cast` of a number below `MAX_LOG_LEVEL`. -/
def LogLevel.ofNumber : ℕ → LogLevel
  | 0 => .disabled
  | 1 => .fatal
  | 2 => .critical
  | 3 => .error
  | 4 => .warning
  | 5 => .info
  | 6 => .debug
  | 7 => .trace
  | _ => .max

/-- The level in an option. -/
def readLogLevel (token : List UInt8) : Option LogLevel :=
  match stringTo .uint8 token with
  | some level => if 8 ≤ level then none else some (.ofNumber level.toNat)
  | none => none

def loggerRoot : List UInt8 := ascii "root"

/-- What is left after the last dot is dropped with what is behind it. -/
def parentLogger (type : List UInt8) : List UInt8 :=
  if 0x2e ∈ type then (type.reverse.dropWhile (· ≠ 0x2e)).tail.reverse else loggerRoot

/-- The last dot. -/
theorem exists_eq_parentLogger {type : List UInt8} (h : 0x2e ∈ type) :
    ∃ component, 0x2e ∉ component ∧ type = parentLogger type ++ 0x2e :: component := by
  obtain ⟨component, rest, hsplit, hcomponent⟩ :=
    List.eq_append_cons_of_mem (List.mem_reverse.mpr h)
  have htype : type = rest.reverse ++ 0x2e :: component.reverse := by
    rw [← List.reverse_reverse type, hsplit]
    simp
  have hparent : parentLogger type = rest.reverse := by
    have hne : ∀ c ∈ component, decide (c ≠ 0x2e) = true := by
      intro c hc
      rw [decide_eq_true_iff]
      rintro rfl
      exact hcomponent hc
    rw [parentLogger, if_pos h, hsplit, List.dropWhile_append_of_pos hne,
      List.dropWhile_cons_of_neg (by decide), List.tail_cons]
  refine ⟨component.reverse, ?_, ?_⟩
  · rw [List.mem_reverse]
    exact hcomponent
  · rw [hparent]
    exact htype

theorem length_parentLogger_lt {type : List UInt8} (h : 0x2e ∈ type) :
    (parentLogger type).length < type.length := by
  obtain ⟨component, -, heq⟩ := exists_eq_parentLogger h
  have hlength := congrArg List.length heq
  rw [List.length_append, List.length_cons] at hlength
  omega

namespace Log

def hasLogger (log : Log) (type : List UInt8) : Option Logger := log.loggers type

def hasChannel (log : Log) (name : List UInt8) : Option Channel := log.channels name

/-- Every step is to a shorter name, or to `root`, where the recursion ends. -/
def getLoggerByType (log : Log) (type : List UInt8) : Option Logger :=
  match log.hasLogger type with
  | some logger => some logger
  | none => if _h : type = loggerRoot then none else getLoggerByType log (parentLogger type)
termination_by if type = loggerRoot then 0 else type.length + 1
decreasing_by
  rw [if_neg _h]
  split_ifs with hparent
  · exact Nat.succ_pos _
  · by_cases hdot : 0x2e ∈ type
    · exact Nat.succ_lt_succ (length_parentLogger_lt hdot)
    · exact absurd (if_neg hdot) hparent

def shouldLog (log : Log) (filter : List UInt8) (level : LogLevel) : Bool :=
  if log.highestLogLevel < level then false
  else
    match log.getLoggerByType filter with
    | none => false
    | some logger => logger.level ≠ .disabled && level ≤ logger.level

/-- What changes the level changes `highestLogLevel` before. -/
def raiseHighest (log : Log) (level : LogLevel) : Log :=
  if log.highestLogLevel < level then { log with highestLogLevel := level } else log

def clear (log : Log) : Log := { log with loggers := fun _ => none, channels := fun _ => none }

def createLoggerFromConfig (options : Options) (log : Log) (configLoggerName : List UInt8) :
    Option Log :=
  if configLoggerName = [] then some log
  else if (log.hasLogger configLoggerName).isSome then some log
  -- `substr` throws
  else if configLoggerName.length < 7 then none
  else
    let loggerName := configLoggerName.drop 7
    let option := (options.lookup configLoggerName).getD []
    if option = [] then some log
    else
      match tokenize option 0x2c true with
      | [levelToken, channelNames] =>
          match readLogLevel levelToken with
          | none => some log
          | some level =>
              let log := log.raiseHighest level
              let channels := (tokenize channelNames 0x20 false).filter fun channelName =>
                (log.hasChannel channelName).isSome
              some { log with
                loggers := emplace log.loggers loggerName ⟨loggerName, level, channels⟩ }
      | _ => some log

def createChannelsFromConfig (options : Options) (log : Log) (logChannelName : List UInt8) :
    Option Log :=
  if logChannelName = [] then some log
  else if (log.hasChannel logChannelName).isSome then some log
  -- `substr` throws
  else if logChannelName.length < 11 then none
  else
    let channelName := logChannelName.drop 11
    let tokens := tokenize ((options.lookup logChannelName).getD []) 0x2c true
    match tokens with
    | typeToken :: levelToken :: pattern :: _ =>
        if 7 < tokens.length then some log
        else
          match (stringTo .int8 typeToken).bind channelCreateFn, readLogLevel levelToken with
          | some create, some level =>
              if pattern = [] then some log
              else
                match create logChannelName level pattern tokens with
                | .ok channel =>
                    some { log with channels := emplace log.channels channelName channel }
                | .error _ => some log
          | _, _ => some log
    | _ => some log

/-- `GetKeysByString`, in the order of the options. -/
def getKeysByString (options : Options) (name : List UInt8) : List (List UInt8) :=
  (options.map Prod.fst).filter fun optionName => name.isPrefixOf optionName

def readChannelsFromConfig (options : Options) (log : Log) : Option Log :=
  (getKeysByString options (ascii "LogChannel.")).foldlM (createChannelsFromConfig options) log

def readLoggersFromConfig (options : Options) (log : Log) : Option Log :=
  (getKeysByString options (ascii "Logger.")).foldlM (createLoggerFromConfig options) log

end Log

/-- `CorrectDirPath` -/
def correctDirPath (path : List UInt8) : List UInt8 :=
  let path := path.map fun c => if c = 0x5c then 0x2f else c
  if path = [] ∨ path.getLast? = some 0x2f then path else path ++ [0x2f]

/-- The configuration and the file system. -/
structure LogEnvironment where
  options : Options
  /-- There is a directory under the path, or it is created.  If not, an assertion fails or the file
  system throws. -/
  hasDirectory : List UInt8 → Bool

def LogEnvironment.createDirIfNeed (env : LogEnvironment) (path : List UInt8) : Bool :=
  path = [] || env.hasDirectory path

namespace Log

def loadFromConfig (env : LogEnvironment) (log : Log) : Option Log :=
  let logsDir := correctDirPath ((env.options.lookup (ascii "LogsDir")).getD [])
  let log := { log with highestLogLevel := .fatal, logsDir }
  if env.createDirIfNeed logsDir then
    (readChannelsFromConfig env.options log.clear).bind (readLoggersFromConfig env.options)
  else none

/-- `Initialize` -/
def initializeLogs (env : LogEnvironment) (log : Log) : Option Log :=
  if log.isUseDefaultLogs then some log else log.loadFromConfig env

def usingDefaultLogs (log : Log) (value : Bool) : Log :=
  let log := { log with isUseDefaultLogs := value }
  if value then
    let log := { log.clear with highestLogLevel := .debug }
    match ConsoleChannel.newWithColors (ascii "Console") log.highestLogLevel
        (ascii "[%H:%M:%S] %t") (ascii "lightRed lightRed red brown cyan lightMagenta green") with
    | .ok consoleChannel =>
        { log with
          channels := emplace log.channels (ascii "Console") consoleChannel
          loggers := emplace log.loggers loggerRoot
            ⟨loggerRoot, log.highestLogLevel, [ascii "Console"]⟩ }
    | .error _ => log
  else log

def setLoggerLevel (log : Log) (name : List UInt8) (level : LogLevel) : Log :=
  if .max ≤ level then log
  else
    let log := log.raiseHighest level
    match log.hasLogger name with
    | some logger =>
        { log with loggers := Function.update log.loggers name (some { logger with level }) }
    | none => log

def setChannelLevel (log : Log) (name : List UInt8) (level : LogLevel) : Log :=
  if .max ≤ level then log
  else
    match log.hasChannel name with
    | some channel =>
        { log with channels := Function.update log.channels name (some { channel with level }) }
    | none => log

end Log

/-- The functions that change the loggers, with what they find. -/
inductive LogCall
  | initializeLogs (env : LogEnvironment)
  | loadFromConfig (env : LogEnvironment)
  | createLoggerFromConfig (env : LogEnvironment) (configLoggerName : List UInt8)
  | setLoggerLevel (name : List UInt8) (level : LogLevel)
  | setChannelLevel (name : List UInt8) (level : LogLevel)
  | usingDefaultLogs (value : Bool)

def Log.call (log : Log) : LogCall → Option Log
  | .initializeLogs env => log.initializeLogs env
  | .loadFromConfig env => log.loadFromConfig env
  | .createLoggerFromConfig env configLoggerName =>
      log.createLoggerFromConfig env.options configLoggerName
  | .setLoggerLevel name level => some (log.setLoggerLevel name level)
  | .setChannelLevel name level => some (log.setChannelLevel name level)
  | .usingDefaultLogs value => some (log.usingDefaultLogs value)

/-! ## The logger that is meant -/

/-- The filter itself, or what is left after some components are dropped with their dots. -/
def IsDottedPrefix (pre filter : List UInt8) : Prop :=
  pre = filter ∨ ∃ rest, filter = pre ++ 0x2e :: rest

/-- The logger is registered under the longest dotted prefix of the filter that one is registered
under; if there is none, under `root`. -/
def Log.IsSelected (log : Log) (filter : List UInt8) (logger : Logger) : Prop :=
  (∃ pre, IsDottedPrefix pre filter ∧ log.hasLogger pre = some logger ∧
      ∀ pre', IsDottedPrefix pre' filter → (log.hasLogger pre').isSome →
        pre'.length ≤ pre.length) ∨
    (∀ pre, IsDottedPrefix pre filter → log.hasLogger pre = none) ∧
      log.hasLogger loggerRoot = some logger

section Prefix
variable {pre filter : List UInt8}

theorem IsDottedPrefix.length_le (h : IsDottedPrefix pre filter) : pre.length ≤ filter.length := by
  rcases h with rfl | ⟨rest, rfl⟩
  · exact Nat.le_refl _
  · rw [List.length_append]
    exact Nat.le_add_right _ _

theorem IsDottedPrefix.eq_of_length_le (h : IsDottedPrefix pre filter)
    (hle : filter.length ≤ pre.length) : pre = filter := by
  rcases h with rfl | ⟨rest, rfl⟩
  · rfl
  · rw [List.length_append, List.length_cons] at hle
    omega

theorem isDottedPrefix_of_not_mem (hdot : 0x2e ∉ filter) :
    IsDottedPrefix pre filter ↔ pre = filter := by
  constructor
  · rintro (rfl | ⟨rest, rfl⟩)
    · rfl
    · exact absurd (List.mem_append_right _ List.mem_cons_self) hdot
  · exact .inl

/-- **The dotted prefixes of a filter with a dot are the filter and those of its parent.** -/
theorem isDottedPrefix_of_mem (hdot : 0x2e ∈ filter) :
    IsDottedPrefix pre filter ↔ pre = filter ∨ IsDottedPrefix pre (parentLogger filter) := by
  obtain ⟨component, hcomponent, heq⟩ := exists_eq_parentLogger hdot
  generalize parentLogger filter = parent at heq ⊢
  subst heq
  constructor
  · rintro (rfl | ⟨rest, hrest⟩)
    · exact .inl rfl
    · refine .inr ?_
      rcases List.append_eq_append_iff.mp hrest with ⟨c, rfl, hc⟩ | ⟨c, rfl, hc⟩
      · cases c with
        | nil => exact .inl (List.append_nil _)
        | cons a c =>
            -- the last dot would not be the last
            simp only [List.cons_append, List.cons.injEq] at hc
            rw [hc.2] at hcomponent
            exact absurd (List.mem_append_right _ List.mem_cons_self) hcomponent
      · cases c with
        | nil => exact .inl (List.append_nil _).symm
        | cons a c =>
            simp only [List.cons_append, List.cons.injEq] at hc
            exact .inr ⟨c, by rw [hc.1]⟩
  · rintro (rfl | rfl | ⟨rest, rfl⟩)
    · exact .inl rfl
    · exact .inr ⟨component, rfl⟩
    · exact .inr ⟨rest ++ 0x2e :: component, by simp⟩

end Prefix

/-! ## The search -/

section Search
variable {log : Log} {type : List UInt8} {logger : Logger}

theorem Log.getLoggerByType_of_some (h : log.hasLogger type = some logger) :
    log.getLoggerByType type = some logger := by
  rw [getLoggerByType, h]

theorem Log.getLoggerByType_root : log.getLoggerByType loggerRoot = log.hasLogger loggerRoot := by
  rw [getLoggerByType]
  cases log.hasLogger loggerRoot with
  | none => rfl
  | some logger => rfl

theorem Log.getLoggerByType_of_none (h : log.hasLogger type = none) (hroot : type ≠ loggerRoot) :
    log.getLoggerByType type = log.getLoggerByType (parentLogger type) := by
  rw [getLoggerByType, h]
  exact dif_neg hroot

/-- A logger of the filter itself is the one. -/
theorem Log.isSelected_of_some (h : log.hasLogger type = some logger) {logger' : Logger} :
    log.IsSelected type logger' ↔ logger = logger' := by
  constructor
  · rintro (⟨pre, hpre, hlogger, hlongest⟩ | ⟨hnone, -⟩)
    · obtain rfl := hpre.eq_of_length_le (hlongest type (.inl rfl) (by rw [h]; rfl))
      rw [h] at hlogger
      exact Option.some.inj hlogger
    · rw [hnone type (.inl rfl)] at h
      cases h
  · rintro rfl
    exact .inl ⟨type, .inl rfl, h, fun pre' hpre' _ => hpre'.length_le⟩

theorem Log.IsSelected.exists_hasLogger (h : log.IsSelected type logger) :
    ∃ pre, log.hasLogger pre = some logger := by
  rcases h with ⟨pre, -, hlogger, -⟩ | ⟨-, hlogger⟩
  · exact ⟨pre, hlogger⟩
  · exact ⟨loggerRoot, hlogger⟩

/-- Without one and without a dot, it is that of `root`. -/
theorem Log.isSelected_of_not_mem (h : log.hasLogger type = none) (hdot : 0x2e ∉ type) :
    log.IsSelected type logger ↔ log.hasLogger loggerRoot = some logger := by
  constructor
  · rintro (⟨pre, hpre, hlogger, -⟩ | ⟨-, hroot⟩)
    · rw [(isDottedPrefix_of_not_mem hdot).mp hpre, h] at hlogger
      cases hlogger
    · exact hroot
  · intro hroot
    refine .inr ⟨?_, hroot⟩
    intro pre hpre
    rw [(isDottedPrefix_of_not_mem hdot).mp hpre, h]

/-- Without one and with a dot, it is that of the parent. -/
theorem Log.isSelected_of_mem (h : log.hasLogger type = none) (hdot : 0x2e ∈ type) :
    log.IsSelected type logger ↔ log.IsSelected (parentLogger type) logger := by
  have hdotted (pre : List UInt8) (hsome : (log.hasLogger pre).isSome) :
      IsDottedPrefix pre type ↔ IsDottedPrefix pre (parentLogger type) := by
    rw [isDottedPrefix_of_mem hdot, or_iff_right_iff_imp]
    rintro rfl
    rw [h] at hsome
    cases hsome
  have hnone : (∀ pre, IsDottedPrefix pre type → log.hasLogger pre = none) ↔
      ∀ pre, IsDottedPrefix pre (parentLogger type) → log.hasLogger pre = none := by
    constructor
    · intro hall pre hpre
      exact hall pre ((isDottedPrefix_of_mem hdot).mpr (.inr hpre))
    · intro hall pre hpre
      rcases (isDottedPrefix_of_mem hdot).mp hpre with rfl | hpre
      · exact h
      · exact hall pre hpre
  rw [IsSelected, IsSelected, hnone]
  refine or_congr_left (exists_congr fun pre => ?_)
  constructor
  · rintro ⟨hpre, hlogger, hlongest⟩
    refine ⟨(hdotted pre (by rw [hlogger]; rfl)).mp hpre, hlogger, ?_⟩
    intro pre' hpre' hsome
    exact hlongest pre' ((hdotted pre' hsome).mpr hpre') hsome
  · rintro ⟨hpre, hlogger, hlongest⟩
    refine ⟨(hdotted pre (by rw [hlogger]; rfl)).mpr hpre, hlogger, ?_⟩
    intro pre' hpre' hsome
    exact hlongest pre' ((hdotted pre' hsome).mp hpre') hsome

/-- **The search finds the logger that is meant.** -/
theorem Log.getLoggerByType_eq_some_iff :
    log.getLoggerByType type = some logger ↔ log.IsSelected type logger := by
  induction hlength : type.length using Nat.strong_induction_on generalizing type with
  | _ n ih =>
    cases h : log.hasLogger type with
    | some logger' =>
        rw [getLoggerByType_of_some h, isSelected_of_some h, Option.some.injEq]
    | none =>
        by_cases hdot : 0x2e ∈ type
        · have hroot : type ≠ loggerRoot := by
            rintro rfl
            exact absurd hdot (by decide)
          have hlt := length_parentLogger_lt hdot
          rw [getLoggerByType_of_none h hroot, isSelected_of_mem h hdot]
          exact ih _ (by omega) rfl
        · rw [isSelected_of_not_mem h hdot, ← getLoggerByType_root]
          by_cases hroot : type = loggerRoot
          · rw [hroot]
          · rw [getLoggerByType_of_none h hroot, parentLogger, if_neg hdot]

end Search

/-! ## The highest level -/

/-- No logger has a higher level. -/
def Log.Bounded (log : Log) : Prop :=
  ∀ type logger, log.hasLogger type = some logger → logger.level ≤ log.highestLogLevel

section Bounded
variable {log log' : Log}

theorem Log.Bounded.raiseHighest (h : log.Bounded) (level : LogLevel) :
    (log.raiseHighest level).Bounded ∧ level ≤ (log.raiseHighest level).highestLogLevel := by
  rw [Log.raiseHighest]
  split_ifs with hlt
  · refine ⟨?_, le_refl _⟩
    intro type logger hlogger
    exact (h type logger hlogger).trans (le_of_lt hlt)
  · exact ⟨h, not_lt.mp hlt⟩

theorem Log.bounded_of_empty (h : ∀ type, log.hasLogger type = none) : log.Bounded := by
  intro type logger hlogger
  rw [h type] at hlogger
  cases hlogger

theorem Log.Bounded.update (h : log.Bounded) {logger : Logger}
    (hlevel : logger.level ≤ log.highestLogLevel) (name : List UInt8)
    (channels : List UInt8 → Option Channel) :
    Log.Bounded { log with
      loggers := Function.update log.loggers name (some logger)
      channels := channels } := by
  intro type logger' hlogger
  change Function.update log.loggers name (some logger) type = some logger' at hlogger
  by_cases htype : type = name
  · subst htype
    rw [Function.update_self] at hlogger
    cases hlogger
    exact hlevel
  · rw [Function.update_of_ne htype] at hlogger
    exact h type logger' hlogger

theorem Log.Bounded.emplace (h : log.Bounded) {logger : Logger}
    (hlevel : logger.level ≤ log.highestLogLevel) (name : List UInt8)
    (channels : List UInt8 → Option Channel) :
    Log.Bounded { log with
      loggers := emplace log.loggers name logger
      channels := channels } := by
  rw [Logging.emplace]
  split_ifs
  · exact h
  · exact h.update hlevel name channels

/-- What `CreateLoggerFromConfig` can do. -/
theorem Log.createLoggerFromConfig_cases {options : Options} {name : List UInt8}
    (hcall : log.createLoggerFromConfig options name = some log') :
    log' = log ∨ ∃ loggerName logger, log' = { log.raiseHighest logger.level with
      loggers := emplace (log.raiseHighest logger.level).loggers loggerName logger } := by
  rw [createLoggerFromConfig] at hcall
  dsimp only at hcall
  split_ifs at hcall
  · exact .inl (Option.some.inj hcall).symm
  · exact .inl (Option.some.inj hcall).symm
  · exact .inl (Option.some.inj hcall).symm
  · split at hcall
    · next levelToken channelNames _ =>
        cases hlevel : readLogLevel levelToken with
        | none =>
            rw [hlevel] at hcall
            exact .inl (Option.some.inj hcall).symm
        | some level =>
            rw [hlevel] at hcall
            exact .inr ⟨name.drop 7, ⟨name.drop 7, level, _⟩, (Option.some.inj hcall).symm⟩
    · exact .inl (Option.some.inj hcall).symm

theorem Log.Bounded.createLoggerFromConfig (h : log.Bounded) {options : Options}
    {name : List UInt8} (hcall : log.createLoggerFromConfig options name = some log') :
    log'.Bounded := by
  rcases createLoggerFromConfig_cases hcall with rfl | ⟨loggerName, logger, rfl⟩
  · exact h
  · obtain ⟨hraised, hlevel⟩ := h.raiseHighest logger.level
    exact hraised.emplace hlevel loggerName _

/-- `CreateChannelsFromConfig` changes the channels only. -/
theorem Log.createChannelsFromConfig_cases {options : Options} {name : List UInt8}
    (hcall : log.createChannelsFromConfig options name = some log') :
    ∃ channels, log' = { log with channels := channels } := by
  have hsame (heq : some log = some log') : ∃ channels, log' = { log with channels := channels } :=
    ⟨log.channels, (Option.some.inj heq).symm⟩
  rw [createChannelsFromConfig] at hcall
  dsimp only at hcall
  split_ifs at hcall
  · exact hsame hcall
  · exact hsame hcall
  · split at hcall
    · exact hsame hcall
    · exact hsame hcall
  · split at hcall
    · split at hcall
      · split_ifs at hcall
        · exact hsame hcall
        · split at hcall
          · exact ⟨_, (Option.some.inj hcall).symm⟩
          · exact hsame hcall
      · exact hsame hcall
    · exact hsame hcall

/-- What each call of a loop keeps, the loop keeps. -/
theorem Log.foldlM_induction {P : Log → Prop} {f : Log → List UInt8 → Option Log}
    (hstep : ∀ log name log', P log → f log name = some log' → P log') {names : List (List UInt8)}
    (h : P log) (hloop : names.foldlM f log = some log') : P log' := by
  induction names generalizing log with
  | nil =>
      cases hloop
      exact h
  | cons name names ih =>
      rw [List.foldlM_cons] at hloop
      obtain ⟨t, ht, hloop⟩ := Option.bind_eq_some_iff.mp hloop
      exact ih (hstep log name t h ht) hloop

theorem Log.bounded_loadFromConfig {env : LogEnvironment}
    (hcall : log.loadFromConfig env = some log') : log'.Bounded := by
  rw [loadFromConfig] at hcall
  split_ifs at hcall
  obtain ⟨read, hchannels, hloggers⟩ := Option.bind_eq_some_iff.mp hcall
  have hcleared : read.Bounded := by
    refine foldlM_induction (fun log name log' h hcreate => ?_) ?_ hchannels
    · obtain ⟨channels, rfl⟩ := createChannelsFromConfig_cases hcreate
      exact h
    · exact bounded_of_empty fun _ => rfl
  exact foldlM_induction (fun log name log' h hcreate => h.createLoggerFromConfig hcreate)
    hcleared hloggers

theorem Log.bounded_usingDefaultLogs (h : log.Bounded) (value : Bool) :
    (log.usingDefaultLogs value).Bounded := by
  cases value with
  | false => exact h
  | true =>
      have hcleared : Bounded { log.clear with
          isUseDefaultLogs := true
          highestLogLevel := .debug } := bounded_of_empty fun _ => rfl
      rw [usingDefaultLogs]
      dsimp only
      rw [if_pos rfl]
      split
      · exact hcleared.emplace (le_refl _) _ _
      · exact hcleared

theorem Log.Bounded.setLoggerLevel (h : log.Bounded) (name : List UInt8) (level : LogLevel) :
    (log.setLoggerLevel name level).Bounded := by
  rw [Log.setLoggerLevel]
  split_ifs
  · exact h
  · obtain ⟨hraised, hlevel⟩ := h.raiseHighest level
    dsimp only
    split
    · exact hraised.update hlevel name _
    · exact hraised

theorem Log.Bounded.setChannelLevel (h : log.Bounded) (name : List UInt8) (level : LogLevel) :
    (log.setChannelLevel name level).Bounded := by
  rw [Log.setChannelLevel]
  split_ifs
  · exact h
  · split
    · exact h
    · exact h

/-- **Every call keeps the highest level above the loggers.** -/
theorem Log.Bounded.call {c : LogCall} (h : log.Bounded) (hcall : log.call c = some log') :
    log'.Bounded := by
  cases c with
  | initializeLogs env =>
      rw [Log.call, initializeLogs] at hcall
      split_ifs at hcall
      · cases hcall
        exact h
      · exact bounded_loadFromConfig hcall
  | loadFromConfig env => exact bounded_loadFromConfig hcall
  | createLoggerFromConfig env name => exact h.createLoggerFromConfig hcall
  | setLoggerLevel name level =>
      cases hcall
      exact h.setLoggerLevel name level
  | setChannelLevel name level =>
      cases hcall
      exact h.setChannelLevel name level
  | usingDefaultLogs value =>
      cases hcall
      exact bounded_usingDefaultLogs h value

/-- The highest level does not change the answer. -/
theorem Log.Bounded.shouldLog_eq (h : log.Bounded) (filter : List UInt8) (level : LogLevel) :
    log.shouldLog filter level = (log.getLoggerByType filter).any fun logger =>
      logger.level ≠ .disabled && level ≤ logger.level := by
  rw [shouldLog]
  split_ifs with hhigh
  · cases hlogger : log.getLoggerByType filter with
    | none => rfl
    | some logger =>
        have hlow : logger.level < level := by
          obtain ⟨type, htype⟩ := (getLoggerByType_eq_some_iff.mp hlogger).exists_hasLogger
          exact (h type logger htype).trans_lt hhigh
        simp [hlow]
  · cases log.getLoggerByType filter with
    | none => rfl
    | some logger => rfl

end Bounded

/-- **A message is logged exactly if the logger that is meant exists and is not disabled and has a
level that is high enough**, after any calls; the highest level does not change the answer. -/
theorem shouldLog_iff {calls : List LogCall} {log : Log}
    (hrun : Machine.run Log.call {} calls = some log) (filter : List UInt8) (level : LogLevel) :
    (log.shouldLog filter level = true ↔
        ∃ logger, log.IsSelected filter logger ∧ logger.level ≠ .disabled ∧
          level ≤ logger.level) ∧
      log.shouldLog filter level = (log.getLoggerByType filter).any fun logger =>
        logger.level ≠ .disabled && level ≤ logger.level := by
  have hbounded : log.Bounded := by
    refine Machine.run_induction (fun log c log' h hcall => Log.Bounded.call h hcall) ?_ hrun
    exact Log.bounded_of_empty fun _ => rfl
  have hanswer := hbounded.shouldLog_eq filter level
  refine ⟨?_, hanswer⟩
  rw [hanswer]
  simp only [← Log.getLoggerByType_eq_some_iff]
  simp [Option.any_eq_true]

/-- Two loggers are read, and one of them gets another level. -/
def serverCalls : List LogCall :=
  [.loadFromConfig
    { options := [(ascii "LogChannel.Console", ascii "1,5,%t"),
        (ascii "Logger.root", ascii "5,Console"), (ascii "Logger.server", ascii "3,Console")]
      hasDirectory := fun _ => true },
    .setLoggerLevel (ascii "server") .trace]

theorem shouldLog_serverCalls :
    ∃ log, Machine.run Log.call {} serverCalls = some log ∧
      log.shouldLog (ascii "server.loading") .debug = true ∧
      ∃ logger, log.IsSelected (ascii "server.loading") logger ∧ logger.level ≠ .disabled ∧
        .debug ≤ logger.level := by
  have hlogged : (Machine.run Log.call {} serverCalls).map
      (fun log => log.shouldLog (ascii "server.loading") .debug) = some true := by
    decide +kernel
  obtain ⟨log, hrun, htrue⟩ := Option.map_eq_some_iff.mp hlogged
  exact ⟨log, hrun, htrue, (shouldLog_iff hrun (ascii "server.loading") .debug).1.mp htrue⟩

end WarheadDiscord.Logging
