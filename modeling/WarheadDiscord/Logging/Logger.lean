import Mathlib.Order.Basic
import WarheadDiscord.Logging.FileChannel

/-!
# Writing a message to the channels of a logger

`Logger::Write` calls `Write` of one channel after the other.  What a channel throws leaves the
loop, and is caught in `Log::Write` if it is an `Exception` of the program: the message does not
reach the channels behind.

What `Write` of a channel does is part of the channel here: it depends on the state that the channel
is in, on the clock and on the file system.  A channel is called once at most for each time that it
is in the list.

## Main definitions

* `Sink` — a channel as the logger knows it; `FileChannel.sink`, `consoleSink`.
* `Logger.write`, `Log.write` — the functions, with the calls that they make.
* `admitted` — the channels that the message is for.
-/

namespace WarheadDiscord.Logging

/-- A channel with what its `Write` throws. -/
structure Sink where
  level : LogLevel
  write : FileWrite → Option Thrown

/-- A file channel in the state that it is in. -/
def FileChannel.sink (specs : List UInt8 → List UInt8 → Option (List UInt8 × ℕ)) (maxSize : ℕ)
    (fc : FileChannel) : Sink where
  level := fc.level
  write w :=
    match (fc.write specs maxSize w).1 with
    | .ok _ => none
    | .error e => some e

/-- When a message is written to the console, only `Format` can throw. -/
def consoleSink (maxSize : ℕ) (channel : Channel) : Sink where
  level := channel.level
  write w :=
    match channel.tryFormat maxSize w.message w.message.text with
    | .ok _ => none
    | .error _ => some .lengthError

/-- The positions of the channels whose `Write` was called, and what leaves the function. -/
structure Written where
  calls : List ℕ
  thrown : Option Thrown
  deriving DecidableEq, Repr

/-- The loop of `Logger::Write`, from a position on. -/
def writeFrom (w : FileWrite) : ℕ → List Sink → Written
  | _, [] => ⟨[], none⟩
  | i, channel :: channels =>
      if channel.level < w.message.level then writeFrom w (i + 1) channels
      else
        match channel.write w with
        | some e => ⟨[i], some e⟩
        | none => { writeFrom w (i + 1) channels with
            calls := i :: (writeFrom w (i + 1) channels).calls }

def Logger.write (logger : Logger) (channels : List Sink) (w : FileWrite) : Written :=
  if logger.level < w.message.level then ⟨[], none⟩ else writeFrom w 0 channels

/-- `channels` are the channels of each logger. -/
def Log.write (log : Log) (channels : Logger → List Sink) (w : FileWrite) : Written :=
  match log.getLoggerByType w.message.source with
  | none => ⟨[], none⟩
  | some logger =>
      match (logger.write (channels logger) w).thrown with
      | some (.exception _) => { logger.write (channels logger) w with thrown := none }
      | _ => logger.write (channels logger) w

/-! ## The channels that the message is for -/

/-- The level of the channel admits the message. -/
def Sink.Admits (channel : Sink) (w : FileWrite) : Prop := w.message.level ≤ channel.level

instance (channel : Sink) (w : FileWrite) : Decidable (channel.Admits w) :=
  inferInstanceAs (Decidable (_ ≤ _))

/-- Their positions, in order, when the first one is `i`. -/
def admitted (w : FileWrite) (i : ℕ) (channels : List Sink) : List ℕ :=
  ((channels.zipIdx i).filter fun channel => channel.1.Admits w).map Prod.snd

section
variable {w : FileWrite} {i : ℕ} {channel : Sink} {channels : List Sink}

theorem admitted_cons_of_admits (h : channel.Admits w) (i : ℕ) (channels : List Sink) :
    admitted w i (channel :: channels) = i :: admitted w (i + 1) channels := by
  simp [admitted, h]

theorem admitted_cons_of_not_admits (h : ¬ channel.Admits w) (i : ℕ) (channels : List Sink) :
    admitted w i (channel :: channels) = admitted w (i + 1) channels := by
  simp [admitted, h]

theorem admitted_eq_nil_iff : admitted w i channels = [] ↔ ∀ c ∈ channels, ¬ c.Admits w := by
  induction channels generalizing i with
  | nil => simp [admitted]
  | cons c channels ih =>
      rw [List.forall_mem_cons]
      by_cases hc : c.Admits w
      · simp [admitted_cons_of_admits hc, hc]
      · rw [admitted_cons_of_not_admits hc, ih, and_iff_right hc]

/-- The loop calls all of them if none throws that has another one behind it. -/
theorem calls_writeFrom_iff : (writeFrom w i channels).calls = admitted w i channels ↔
    channels.Pairwise fun a b => a.Admits w → b.Admits w → a.write w = none := by
  induction channels generalizing i with
  | nil => simp [writeFrom, admitted]
  | cons channel channels ih =>
      rw [List.pairwise_cons, writeFrom]
      by_cases hadmits : channel.Admits w
      · rw [if_neg (not_lt_of_ge hadmits), admitted_cons_of_admits hadmits]
        cases hwrite : channel.write w with
        | none => simp [ih]
        | some e =>
            -- the message must be for no channel behind it
            have hnone : [i] = i :: admitted w (i + 1) channels ↔
                ∀ c ∈ channels, ¬ c.Admits w := by
              rw [← admitted_eq_nil_iff (i := i + 1), List.cons.injEq, eq_comm (a := [])]
              exact and_iff_right rfl
            show [i] = _ ↔ _
            rw [hnone]
            constructor
            · intro hbehind
              refine ⟨fun c hc _ h => absurd h (hbehind c hc), ?_⟩
              exact List.pairwise_of_forall_mem_list fun a ha b _ h => absurd h (hbehind a ha)
            · rintro ⟨hbehind, -⟩ c hc h
              cases hbehind c hc hadmits h
      · rw [if_pos (lt_of_not_ge hadmits), admitted_cons_of_not_admits hadmits, ih]
        exact (and_iff_right fun c _ h => absurd h hadmits).symm

end

/-! ## The result -/

/-- What is caught does not change the calls. -/
theorem Log.calls_write {log : Log} {logger : Logger} {w : FileWrite}
    (channels : Logger → List Sink)
    (hlogger : log.getLoggerByType w.message.source = some logger) :
    (log.write channels w).calls = (logger.write (channels logger) w).calls := by
  rw [Log.write, hlogger]
  simp only
  split <;> rfl

/-- **The channels that a message reaches**: all that it is for, each once and in order, if and only
if no channel throws that has another one behind it that the message is for. -/
theorem calls_write_eq_admitted_iff {log : Log} {logger : Logger} {w : FileWrite}
    (channels : Logger → List Sink)
    (hlogger : log.getLoggerByType w.message.source = some logger)
    (hlevel : w.message.level ≤ logger.level) :
    (log.write channels w).calls = admitted w 0 (channels logger) ↔
      (channels logger).Pairwise fun a b => a.Admits w → b.Admits w → a.write w = none := by
  rw [Log.calls_write channels hlogger, Logger.write, if_neg (not_lt_of_ge hlevel)]
  exact calls_writeFrom_iff

/-- A logger for everything. -/
def rootLogger : Logger := { name := loggerRoot, level := .debug }

def rootLog : Log := { loggers := fun type => if type = loggerRoot then some rootLogger else none }

/-- The `max_size` of a `std::string`. -/
def stringSize : ℕ := 2 ^ 63 - 2

/-- The console. -/
def console : Sink := consoleSink stringSize FileChannel.gmChannel.toChannel

/-- A message without an option. -/
def startedMessage : FileWrite := FileChannel.gmCommand []

def gmSink : Sink := FileChannel.gmChannel.sink (fun _ _ => none) stringSize

theorem getLoggerByType_rootLog :
    rootLog.getLoggerByType startedMessage.message.source = some rootLogger := by
  decide +kernel

/-- The console in front of a file for each option. -/
theorem calls_write_consoleFirst :
    (rootLog.write (fun _ => [console, gmSink]) startedMessage).calls = [0, 1] :=
  (calls_write_eq_admitted_iff _ getLoggerByType_rootLog (by decide)).mpr
    (by decide +kernel)

/-- Behind it the console is not reached by a message without an option. -/
theorem not_calls_write_eq_admitted :
    rootLog.getLoggerByType startedMessage.message.source = some rootLogger ∧
      startedMessage.message.level ≤ rootLogger.level ∧
      (rootLog.write (fun _ => [gmSink, console]) startedMessage).calls ≠
        admitted startedMessage 0 [gmSink, console] :=
  ⟨getLoggerByType_rootLog, by decide, by decide +kernel⟩

end WarheadDiscord.Logging
