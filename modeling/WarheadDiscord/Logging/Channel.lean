import Mathlib.Order.Basic
import WarheadDiscord.Common.StringConvert

/-!
# Channels and their patterns

A channel writes each message in the form of its pattern.  `ParsePattern` cuts the pattern into
actions: some literal text and the key that follows it, with a number or a text if there are
brackets.  `Format` goes through the actions and appends the text and what the key stands for.
The number may be any `size_t`, and a source that is padded to it may be longer than a
`std::string` can be: then `append` throws, and the message has no text.

The broken-down time of a message is that of `localtime`, which depends on the time zone; it is part
of the message here.  What `fmt` makes of it is what its documentation says for the specifiers, in
the classic locale.

## Main definitions

* `LogLevel`, `LogMessage` — the data.
* `PatternAction`, `parsePattern` — the pattern of a channel.
* `Channel.setPattern`, `Channel.tryFormat` — the functions of a channel.
* `Channel.format` — the text that `Format` makes, if there is room for it.
-/

namespace WarheadDiscord.Logging

inductive LogLevel
  | disabled
  | fatal
  | critical
  | error
  | warning
  | info
  | debug
  | trace
  | max
  deriving DecidableEq, Repr

namespace LogLevel

/-- The number of an enumerator. -/
def toNat : LogLevel → ℕ
  | .disabled => 0
  | .fatal => 1
  | .critical => 2
  | .error => 3
  | .warning => 4
  | .info => 5
  | .debug => 6
  | .trace => 7
  | .max => 8

theorem toNat_injective : Function.Injective toNat := by
  intro a b h
  cases a <;> cases b <;> first | rfl | cases h

instance : LinearOrder LogLevel := LinearOrder.lift' toNat toNat_injective

/-- `GetLogLevelName` -/
def name : LogLevel → List UInt8
  | .disabled => ascii "Disabled"
  | .fatal => ascii "Fatal"
  | .critical => ascii "Critical"
  | .error => ascii "Error"
  | .warning => ascii "Warning"
  | .info => ascii "Info"
  | .debug => ascii "Debug"
  | .trace => ascii "Trace"
  | .max => ascii "Max"

end LogLevel

/-! ## Messages -/

/-- `std::tm`.  Months and weekdays count from zero, the year is the full one. -/
structure Tm where
  sec : Fin 61
  min : Fin 60
  hour : Fin 24
  mday : Fin 32
  mon : Fin 12
  year : ℤ
  wday : Fin 7
  deriving DecidableEq, Repr

structure LogMessage where
  source : List UInt8
  text : List UInt8
  level : LogLevel
  /-- In nanoseconds since the epoch. -/
  time : ℤ
  /-- `localtime` of the time. -/
  localTime : Tm
  file : List UInt8 := []
  line : ℕ := 0
  deriving DecidableEq, Repr

/-- Two digits of a number below a hundred. -/
def twoDigits (n : ℕ) : List UInt8 := [UInt8.ofNat (0x30 + n / 10), UInt8.ofNat (0x30 + n % 10)]

namespace Tm

/-- The time with these numbers, each reduced to its range. -/
def ofNumbers (sec min hour mday mon : ℕ) (year : ℤ) (wday : ℕ) : Tm where
  sec := ⟨sec % 61, Nat.mod_lt sec (by decide)⟩
  min := ⟨min % 60, Nat.mod_lt min (by decide)⟩
  hour := ⟨hour % 24, Nat.mod_lt hour (by decide)⟩
  mday := ⟨mday % 32, Nat.mod_lt mday (by decide)⟩
  mon := ⟨mon % 12, Nat.mod_lt mon (by decide)⟩
  year := year
  wday := ⟨wday % 7, Nat.mod_lt wday (by decide)⟩

def weekday (t : Tm) : List UInt8 :=
  ([ascii "Sunday", ascii "Monday", ascii "Tuesday", ascii "Wednesday", ascii "Thursday",
    ascii "Friday", ascii "Saturday"] : List (List UInt8)).getD t.wday []

def month (t : Tm) : List UInt8 :=
  ([ascii "January", ascii "February", ascii "March", ascii "April", ascii "May", ascii "June",
    ascii "July", ascii "August", ascii "September", ascii "October", ascii "November",
    ascii "December"] : List (List UInt8)).getD t.mon []

/-- The hour of the half day, from 1 to 12. -/
def hour12 (t : Tm) : ℕ := if t.hour % 12 = 0 then 12 else t.hour % 12

def amPm (t : Tm) : List UInt8 := if t.hour < 12 then ascii "AM" else ascii "PM"

/-- At least four characters. -/
def yearText (t : Tm) : List UInt8 :=
  let digits := decimalDigits t.year.natAbs
  if t.year < 0 then 0x2d :: (List.replicate (3 - digits.length) 0x30 ++ digits)
  else List.replicate (4 - digits.length) 0x30 ++ digits

end Tm

namespace LogMessage

/-- `duration_cast` to seconds truncates. -/
def epochTime (msg : LogMessage) : ℤ := msg.time.tdiv 1000000000

/-- `std::filesystem::path::filename` -/
def filename (msg : LogMessage) : List UInt8 := (msg.file.reverse.takeWhile (· ≠ 0x2f)).reverse

end LogMessage

/-! ## Patterns -/

structure PatternAction where
  key : UInt8 := 0
  length : ℕ := 0
  property : List UInt8 := []
  prepend : List UInt8 := []
  deriving DecidableEq, Repr

/-- The text up to a closing bracket or the end, and the text after it. -/
def bracketed (it : List UInt8) : List UInt8 × List UInt8 :=
  (it.takeWhile (· ≠ 0x5d), (it.dropWhile (· ≠ 0x5d)).tail)

/-- The action of a key, and the text after it. -/
def parseKey (key : UInt8) (it : List UInt8) :
    Except (List UInt8) (PatternAction × List UInt8) :=
  if key = 0x5b then .ok ({ key := 0x78, property := (bracketed it).1 }, (bracketed it).2)
  else if it.head? = some 0x5b then
    let number := (bracketed it.tail).1
    match stringTo .uint64 number with
    | none => .error (ascii "ParsePattern: Error at conver lenght from " ++ number)
    | some length => .ok ({ key, length := length.toNat }, (bracketed it.tail).2)
  else .ok ({ key }, it)

theorem length_bracketed_le (it : List UInt8) : (bracketed it).2.length ≤ it.length := by
  have hdrop := (List.dropWhile_sublist (fun c => decide (c ≠ 0x5d)) (l := it)).length_le
  rw [bracketed, List.length_tail]
  omega

theorem length_parseKey_le {key : UInt8} {it rest : List UInt8} {act : PatternAction}
    (h : parseKey key it = .ok (act, rest)) : rest.length ≤ it.length := by
  rw [parseKey] at h
  split_ifs at h with hbracket hhead
  · cases h
    exact length_bracketed_le it
  · cases hnumber : stringTo .uint64 (bracketed it.tail).1 with
    | none => simp [hnumber] at h
    | some length =>
        simp only [hnumber, Except.ok.injEq, Prod.mk.injEq] at h
        have hle := length_bracketed_le it.tail
        rw [← h.2]
        rw [List.length_tail] at hle
        omega
  · cases h
    exact Nat.le_refl _

/-- The loop of `ParsePattern`, with the text in front of the next action. -/
def parseActions (prepend : List UInt8) :
    List UInt8 → Except (List UInt8) (List PatternAction)
  | [] => .ok (if prepend = [] then [] else [{ prepend }])
  | c :: it =>
      if c ≠ 0x25 then parseActions (prepend ++ [c]) it
      else
        match it with
        | [] => parseActions prepend []
        | key :: it =>
            match h : parseKey key it with
            | .error e => .error e
            | .ok (act, rest) =>
                have := length_parseKey_le h
                (parseActions [] rest).map ({ act with prepend } :: ·)
termination_by it => it.length

def parsePattern (pattern : List UInt8) : Except (List UInt8) (List PatternAction) :=
  if pattern = [] then .error (ascii "Pattern is empty")
  else
    match parseActions [] pattern with
    | .error e => .error e
    | .ok [] => .error (ascii "ParsePattern: Error at parse pattern '" ++ pattern ++ ascii "'")
    | .ok actions => .ok actions

/-! ## The channel -/

inductive ChannelType
  | console
  | file
  | db
  | discord
  deriving DecidableEq, Repr

structure Channel where
  type : ChannelType
  name : List UInt8
  level : LogLevel
  pattern : List UInt8
  patternActions : List PatternAction
  deriving DecidableEq, Repr

namespace Channel

/-- The constructor. -/
def new (type : ChannelType) (name : List UInt8) (level : LogLevel) (pattern : List UInt8) :
    Except (List UInt8) Channel := do
  let patternActions ← parsePattern pattern
  return { type, name, level, pattern, patternActions }

def setPattern (channel : Channel) (pattern : List UInt8) : Except (List UInt8) Channel := do
  if pattern = [] then throw (ascii "Pattern is empty")
  let patternActions ← parsePattern pattern
  return { channel with pattern, patternActions }

end Channel

namespace PatternAction

/-- The cases of `Format`. -/
def expand (msg : LogMessage) (pa : PatternAction) : List UInt8 :=
  match Char.ofUInt8 pa.key with
  | 's' => msg.source
  | 't' => msg.text
  | 'l' => decimalText msg.level.toNat
  | 'p' => msg.level.name
  | 'q' => msg.level.name.take 1
  | 'U' => msg.file
  | 'O' => msg.filename
  | 'u' => decimalText msg.line
  | 'w' => msg.localTime.weekday.take 3
  | 'W' => msg.localTime.weekday
  | 'b' => msg.localTime.month.take 3
  | 'B' => msg.localTime.month
  | 'd' => twoDigits msg.localTime.mday
  | 'm' => twoDigits (msg.localTime.mon + 1)
  | 'n' => twoDigits (msg.localTime.mon + 1)
  | 'y' => twoDigits (msg.localTime.year.natAbs % 100)
  | 'Y' => msg.localTime.yearText
  | 'h' => twoDigits msg.localTime.hour
  | 'H' => twoDigits msg.localTime.hour12
  | 'A' => msg.localTime.amPm
  | 'M' => twoDigits msg.localTime.min
  | 'S' => twoDigits msg.localTime.sec
  | 'E' => decimalText msg.epochTime
  | 'v' =>
      if msg.source.length < pa.length then
        msg.source ++ List.replicate (pa.length - msg.source.length) 0x20
      else if pa.length ≠ 0 ∧ pa.length < msg.source.length then
        msg.source.drop (msg.source.length - pa.length)
      else msg.source
  | _ => []

end PatternAction

/-- What the loop of `Format` appends. -/
def formatActions (msg : LogMessage) (actions : List PatternAction) : List UInt8 :=
  actions.flatMap fun pa => pa.prepend ++ pa.expand msg

/-- The text that `Format` changes a text to, if a `std::string` has room for it. -/
def Channel.format (channel : Channel) (msg : LogMessage) (text : List UInt8) : List UInt8 :=
  if channel.patternActions = [] then text else formatActions msg channel.patternActions

/-! ## Texts that are too long -/

/-- `std::length_error` -/
structure LengthError where
  deriving DecidableEq, Repr

section
variable (maxSize : ℕ)

/-- `std::string::append`, where `max_size()` is what the library has it to be. -/
def append (text more : List UInt8) : Except LengthError (List UInt8) :=
  if text.length + more.length ≤ maxSize then .ok (text ++ more) else .error {}

/-- `append` of some copies of an octet. -/
def appendCopies (text : List UInt8) (count : ℕ) (c : UInt8) : Except LengthError (List UInt8) :=
  if text.length + count ≤ maxSize then .ok (text ++ List.replicate count c) else .error {}

/-- What `Format` does for an action.  A source is appended before the blanks that pad it. -/
def PatternAction.appendTo (msg : LogMessage) (text : List UInt8) (pa : PatternAction) :
    Except LengthError (List UInt8) := do
  let text ← append maxSize text pa.prepend
  if Char.ofUInt8 pa.key = 'v' ∧ msg.source.length < pa.length then
    let text ← append maxSize text msg.source
    appendCopies maxSize text (pa.length - msg.source.length) 0x20
  else append maxSize text (pa.expand msg)

/-- `Format` -/
def Channel.tryFormat (channel : Channel) (msg : LogMessage) (text : List UInt8) :
    Except LengthError (List UInt8) :=
  if channel.patternActions = [] then .ok text
  else channel.patternActions.foldlM (PatternAction.appendTo maxSize msg) []

end

section
variable {maxSize : ℕ} {msg : LogMessage} {pa : PatternAction} {text : List UInt8}

theorem append_append (text a b : List UInt8) :
    (append maxSize text a >>= fun text => append maxSize text b) =
      append maxSize text (a ++ b) := by
  simp only [append, List.length_append, ← Nat.add_assoc, ← List.append_assoc]
  split_ifs with ha hab hab
  · show append maxSize (text ++ a) b = _
    rw [append, if_pos (by rw [List.length_append]; exact hab)]
  · show append maxSize (text ++ a) b = _
    rw [append, if_neg (by rw [List.length_append]; exact hab)]
  · omega
  · rfl

theorem appendCopies_eq (text : List UInt8) (count : ℕ) (c : UInt8) :
    appendCopies maxSize text count c = append maxSize text (List.replicate count c) := by
  simp [appendCopies, append]

theorem PatternAction.appendTo_eq (msg : LogMessage) (text : List UInt8) (pa : PatternAction) :
    pa.appendTo maxSize msg text = append maxSize text (pa.prepend ++ pa.expand msg) := by
  rw [appendTo, ← append_append]
  refine bind_congr fun text => ?_
  split_ifs with hpad
  · have hexpand : pa.expand msg =
        msg.source ++ List.replicate (pa.length - msg.source.length) 0x20 := by
      rw [expand, hpad.1]
      exact if_pos hpad.2
    simp only [appendCopies_eq, append_append, hexpand]
  · rfl

theorem foldlM_appendTo (msg : LogMessage) (actions : List PatternAction) (text : List UInt8)
    (htext : text.length ≤ maxSize) :
    actions.foldlM (PatternAction.appendTo maxSize msg) text =
      append maxSize text (formatActions msg actions) := by
  induction actions generalizing text with
  | nil =>
      simp only [formatActions, append, List.flatMap_nil, List.length_nil, List.append_nil,
        Nat.add_zero, if_pos htext]
      rfl
  | cons pa actions ih =>
      have hsplit : formatActions msg (pa :: actions) =
          (pa.prepend ++ pa.expand msg) ++ formatActions msg actions := rfl
      rw [List.foldlM_cons, PatternAction.appendTo_eq, hsplit,
        ← append_append text (pa.prepend ++ pa.expand msg)]
      by_cases hroom : text.length + (pa.prepend ++ pa.expand msg).length ≤ maxSize
      · rw [append, if_pos hroom]
        exact ih _ (by rw [List.length_append]; exact hroom)
      · rw [append, if_neg hroom]
        rfl

/-- **`Format` has a text for the message exactly if a `std::string` has room for it.** -/
theorem Channel.tryFormat_eq {channel : Channel} (h : channel.patternActions ≠ [])
    (msg : LogMessage) (text : List UInt8) :
    channel.tryFormat maxSize msg text =
      if (channel.format msg text).length ≤ maxSize then .ok (channel.format msg text)
      else .error {} := by
  rw [tryFormat, if_neg h, foldlM_appendTo _ _ _ (Nat.zero_le _), append, format, if_neg h,
    List.length_nil, Nat.zero_add, List.nil_append]

end

end WarheadDiscord.Logging
