import WarheadDiscord.Common.Config
import WarheadDiscord.Common.StringConvert
import WarheadDiscord.Lib.MixedRadix

/-!
# Durations as text

`ToTimeString` splits a duration into years of 365 days, days, hours, minutes, seconds,
milliseconds and microseconds, and writes the units that are not zero, at most `outCount` of
them.  The two text formats name each unit.  The numeric format writes only the numbers, with
colons between them, and leaves out the zeros too, so that the place of a number does not
say which unit it counts.

`readUnits` reads the units of a text back, and `total` adds them up.  From a text of the
first two formats the units come back as they were written, and so the duration.  From a
numeric text only the numbers come back.

## Main definitions

* `TimeUnit`, `unitCount` — the units, and how many of each a duration has.
* `addOut`, `addOutNumerlic`, `toTimeString` — the code.
* `readUnits`, `total` — what a text says.
* `truncated` — a duration cut off behind its first non-zero units.
-/

namespace WarheadDiscord.Time

open MixedRadix

/-- `TimeFormat` -/
inductive TimeFormat
  | fullText
  | shortText
  | numeric
  deriving DecidableEq, Repr

namespace TimeDiff

def MILLISECONDS : ℕ := 1000
def SECONDS : ℕ := 1000 * MILLISECONDS
def MINUTES : ℕ := 60 * SECONDS
def HOURS : ℕ := 60 * MINUTES
def DAYS : ℕ := 24 * HOURS
def YEARS : ℕ := 365 * DAYS

end TimeDiff

open TimeDiff

/-- The units of a duration. -/
inductive TimeUnit
  | years
  | days
  | hours
  | minutes
  | secs
  | millisecs
  | microsecs
  deriving DecidableEq, Repr

namespace TimeUnit

/-- In the order they are written. -/
def all : List TimeUnit := [.years, .days, .hours, .minutes, .secs, .millisecs, .microsecs]

/-- The length of the unit in microseconds. -/
def weight : TimeUnit → ℕ
  | .years => YEARS
  | .days => DAYS
  | .hours => HOURS
  | .minutes => MINUTES
  | .secs => SECONDS
  | .millisecs => MILLISECONDS
  | .microsecs => 1

def shortText : TimeUnit → Text
  | .years => ascii "y "
  | .days => ascii "d "
  | .hours => ascii "h "
  | .minutes => ascii "m "
  | .secs => ascii "s "
  | .millisecs => ascii "ms "
  | .microsecs => ascii "us "

def fullText1 : TimeUnit → Text
  | .years => ascii " Year "
  | .days => ascii " Day "
  | .hours => ascii " Hour "
  | .minutes => ascii " Minute "
  | .secs => ascii " Second "
  | .millisecs => ascii " Millisecond "
  | .microsecs => ascii " Microsecond "

def fullText : TimeUnit → Text
  | .years => ascii " Years "
  | .days => ascii " Days "
  | .hours => ascii " Hours "
  | .minutes => ascii " Minutes "
  | .secs => ascii " Seconds "
  | .millisecs => ascii " Milliseconds "
  | .microsecs => ascii " Microseconds "

end TimeUnit

/-- A signed number converted to `uint64`. -/
def toUInt64 (v : ℤ) : ℕ := (v % 2 ^ 64).toNat

/-- How many of a unit there are.  `TimeDiff` is unsigned, so only the microseconds are a
remainder of the signed count. -/
def unitCount (durationTime : ℤ) : TimeUnit → ℕ
  | .microsecs => toUInt64 (durationTime.tmod 1000)
  | .millisecs => toUInt64 durationTime / MILLISECONDS % 1000
  | .secs => toUInt64 durationTime / SECONDS % 60
  | .minutes => toUInt64 durationTime / MINUTES % 60
  | .hours => toUInt64 durationTime / HOURS % 24
  | .days => toUInt64 durationTime / DAYS % 365
  | .years => toUInt64 durationTime / YEARS

/-- The variables of `ToTimeString`. -/
structure TimeOut where
  out : Text := []
  count : ℕ := 0
  isFirst : Bool := false

/-- `{:02}` -/
def twoDigits (n : ℕ) : Text :=
  List.replicate (2 - (decimalDigits n).length) 0x30 ++ decimalDigits n

/-- `AddOutNumerlic` -/
def addOutNumerlic (outCount : ℕ) (s : TimeOut) (time : ℕ) : TimeOut :=
  if s.count ≥ outCount then s
  else if !s.isFirst then
    { isFirst := true
      out := s.out ++ (decimalDigits time ++ [0x3a])
      count := s.count + 1 }
  else { s with out := s.out ++ (twoDigits time ++ [0x3a]), count := s.count + 1 }

/-- `AddOut` -/
def addOut (timeFormat : TimeFormat) (outCount : ℕ) (s : TimeOut) (timeCount : ℕ)
    (shortText fullText1 fullText : Text) : TimeOut :=
  if s.count ≥ outCount then s
  else
    let unit := match timeFormat with
      | .shortText => shortText
      | .fullText => if timeCount = 1 then fullText1 else fullText
      | .numeric => ascii "<Unknown time format>"
    { s with out := s.out ++ (decimalDigits timeCount ++ unit), count := s.count + 1 }

/-- `TrimRightInPlace` -/
def trimRightInPlace (str : Text) : Text := (str.reverse.dropWhile isspace).reverse

/-- `Time::ToTimeString`.  `AddOut` takes its number as a `uint32`. -/
def toTimeString (durationTime : ℤ) (outCount : ℕ) (timeFormat : TimeFormat) : Text :=
  if timeFormat = .numeric then
    (TimeUnit.all.foldl (fun s u =>
      if unitCount durationTime u ≠ 0 then addOutNumerlic outCount s (unitCount durationTime u)
      else s) {}).out.dropLast
  else
    trimRightInPlace (TimeUnit.all.foldl (fun s u =>
      if unitCount durationTime u ≠ 0 then
        addOut timeFormat outCount s (unitCount durationTime u % 2 ^ 32) u.shortText u.fullText1
          u.fullText
      else s) {}).out

/-! ## What a text says -/

namespace TimeUnit

def symbol : TimeUnit → Text
  | .years => ascii "y"
  | .days => ascii "d"
  | .hours => ascii "h"
  | .minutes => ascii "m"
  | .secs => ascii "s"
  | .millisecs => ascii "ms"
  | .microsecs => ascii "us"

def singular : TimeUnit → Text
  | .years => ascii "Year"
  | .days => ascii "Day"
  | .hours => ascii "Hour"
  | .minutes => ascii "Minute"
  | .secs => ascii "Second"
  | .millisecs => ascii "Millisecond"
  | .microsecs => ascii "Microsecond"

def plural (u : TimeUnit) : Text := u.singular ++ ascii "s"

end TimeUnit

/-- A number and the symbol of its unit. -/
def readShort (word : Text) : Option (TimeUnit × ℕ) :=
  (readNumber (word.takeWhile isDigit)).bind fun n =>
    (TimeUnit.all.find? fun u => u.symbol = word.dropWhile isDigit).map fun u => (u, n)

/-- Numbers and the names of their units in turn. -/
def readFull : List Text → Option (List (TimeUnit × ℕ))
  | [] => some []
  | number :: name :: words =>
      (readNumber number).bind fun n =>
        (TimeUnit.all.find? fun u => name = u.singular ∨ name = u.plural).bind fun u =>
          (readFull words).map fun es => (u, n) :: es
  | [_] => none

/-- The units a text names, with their numbers. -/
def readUnits (timeFormat : TimeFormat) (text : Text) : Option (List (TimeUnit × ℕ)) :=
  if text = [] then some []
  else
    match timeFormat with
    | .shortText => (text.splitOn 0x20).mapM readShort
    | .fullText => readFull (text.splitOn 0x20)
    | .numeric => none

/-- The numbers of a numeric text. -/
def readNumbers (text : Text) : Option (List ℕ) :=
  if text = [] then some [] else (text.splitOn 0x3a).mapM readNumber

/-- The duration units add up to. -/
def total (es : List (TimeUnit × ℕ)) : ℕ := (es.map fun e => e.2 * e.1.weight).sum

/-- The digits of a duration in its units. -/
def unitDigits (d : ℕ) : List ℕ := digits (TimeUnit.all.map TimeUnit.weight) d

/-- The duration without what comes behind its first `n` non-zero units. -/
def truncated (d n : ℕ) : ℕ := value (TimeUnit.all.map TimeUnit.weight) (keepFirst n (unitDigits d))

/-! ## The units of a duration -/

/-- The units that are not zero. -/
def entries (durationTime : ℤ) : List (TimeUnit × ℕ) :=
  (TimeUnit.all.map fun u => (u, unitCount durationTime u)).filter fun e => e.2 ≠ 0

theorem toUInt64_natCast {d : ℕ} (h : d < 2 ^ 63) : toUInt64 d = d := by
  rw [toUInt64]
  omega

/-- The source computes each unit on its own; they are the digits of the duration. -/
theorem map_unitCount {d : ℕ} (h : d < 2 ^ 63) : TimeUnit.all.map (unitCount d) = unitDigits d := by
  have hmicro : toUInt64 ((d : ℤ).tmod 1000) = d % 1000 := by
    rw [toUInt64, Int.tmod_eq_emod_of_nonneg (by omega)]
    omega
  simp only [TimeUnit.all, List.map_cons, List.map_nil, unitCount, toUInt64_natCast h, hmicro,
    unitDigits, digits, TimeUnit.weight, YEARS, DAYS, HOURS, MINUTES, SECONDS, MILLISECONDS,
    List.cons.injEq, and_true, true_and, Nat.div_one, Nat.reduceMul]
  omega

theorem entries_eq {d : ℕ} (h : d < 2 ^ 63) :
    entries d = (TimeUnit.all.zip (unitDigits d)).filter fun e => e.2 ≠ 0 := by
  rw [← map_unitCount h]
  rfl

theorem total_filter_zip (us : List TimeUnit) (cs : List ℕ) :
    total ((us.zip cs).filter fun e => e.2 ≠ 0) = value (us.map TimeUnit.weight) cs := by
  induction us generalizing cs with
  | nil => rfl
  | cons u us ih =>
      cases cs with
      | nil => rfl
      | cons c cs =>
          have hrest := ih cs
          simp only [total] at hrest
          cases c with
          | zero => simpa [total, value] using hrest
          | succ c => simpa [total, value] using hrest

/-- **The units of a duration add up to it.** -/
theorem total_entries {d : ℕ} (h : d < 2 ^ 63) : total (entries d) = d := by
  rw [entries_eq h, total_filter_zip]
  exact value_digits rfl d

theorem truncated_le (d n : ℕ) : truncated d n ≤ d :=
  le_trans (value_le_value (forall₂_keepFirst n _) _) (value_digits_le _ d)

/-- The units of a truncated duration are the first units of the duration. -/
theorem entries_truncated {d : ℕ} (h : d < 2 ^ 63) (n : ℕ) :
    entries (truncated d n) = (entries d).take n := by
  have hpos : ∀ w ∈ TimeUnit.all.map TimeUnit.weight, 0 < w := by decide
  have hdigits : unitDigits (truncated d n) = keepFirst n (unitDigits d) :=
    digits_value hpos (forall₂_keepFirst n (unitDigits d))
  rw [entries_eq (lt_of_le_of_lt (truncated_le d n) h), entries_eq h, hdigits, take_filter_zip]

theorem length_entries_le (durationTime : ℤ) : (entries durationTime).length ≤ 7 :=
  List.length_filter_le _ _

theorem unitCount_lt {d : ℕ} (h : d < 2 ^ 63) (u : TimeUnit) : unitCount d u < 2 ^ 32 := by
  have hmem : unitCount d u ∈ unitDigits d := by
    rw [← map_unitCount h]
    exact List.mem_map_of_mem (by cases u <;> decide)
  revert hmem
  generalize unitCount d u = c
  simp only [unitDigits, TimeUnit.all, List.map_cons, List.map_nil, digits, TimeUnit.weight, YEARS,
    DAYS, HOURS, MINUTES, SECONDS, MILLISECONDS, Nat.reduceMul, List.mem_cons, List.not_mem_nil,
    or_false]
  omega

/-! ## Words and what is between them -/

section Words
variable {ws : List Text} {x : UInt8}

theorem intercalate_concat (x : UInt8) (ws : List Text) (w : Text) :
    [x].intercalate (ws ++ [w]) = ws.flatMap (· ++ [x]) ++ w := by
  induction ws with
  | nil => simp
  | cons v ws ih =>
      obtain ⟨w', ws', hws⟩ := List.exists_cons_of_ne_nil (show ws ++ [w] ≠ [] by simp)
      rw [List.cons_append, hws, List.intercalate_cons_cons, ← hws, ih, List.flatMap_cons]
      simp

/-- `Delete last (:)` -/
theorem dropLast_flatMap (x : UInt8) (ws : List Text) :
    (ws.flatMap (· ++ [x])).dropLast = [x].intercalate ws := by
  rcases List.eq_nil_or_concat' ws with rfl | ⟨ws, w, rfl⟩
  · rfl
  · rw [intercalate_concat, List.flatMap_append, List.flatMap_singleton, ← List.append_assoc,
      List.dropLast_concat]

theorem trimRightInPlace_flatMap (hws : ∀ w ∈ ws, w ≠ [] ∧ ∀ c ∈ w, isspace c = false) :
    trimRightInPlace (ws.flatMap (· ++ [0x20])) = [0x20].intercalate ws := by
  rcases List.eq_nil_or_concat' ws with rfl | ⟨ws, w, rfl⟩
  · rfl
  · obtain ⟨hne, hletters⟩ := hws w (by simp)
    obtain ⟨v, c, rfl⟩ := (List.eq_nil_or_concat' w).resolve_left hne
    have hc : isspace c = false := hletters c (by simp)
    have hblank : isspace 0x20 = true := rfl
    rw [intercalate_concat, List.flatMap_append, List.flatMap_singleton, ← List.append_assoc,
      trimRightInPlace, List.reverse_append, List.reverse_singleton, List.singleton_append,
      List.dropWhile_cons_of_pos hblank, ← List.append_assoc, List.reverse_append,
      List.reverse_singleton, List.singleton_append,
      List.dropWhile_cons_of_neg (by simp [hc]), List.reverse_cons, List.reverse_reverse]

/-- Words that are not empty do not vanish. -/
theorem intercalate_eq_nil (hws : ∀ w ∈ ws, w ≠ []) (h : [x].intercalate ws = []) : ws = [] := by
  rcases List.eq_nil_or_concat' ws with rfl | ⟨ws, w, rfl⟩
  · rfl
  · rw [intercalate_concat, List.append_eq_nil_iff] at h
    exact absurd h.2 (hws w (by simp))

end Words

/-! ## The text formats -/

section TextFormats
variable {timeFormat : TimeFormat} {es : List (TimeUnit × ℕ)}

/-- The words written for a unit. -/
def words (timeFormat : TimeFormat) (e : TimeUnit × ℕ) : List Text :=
  match timeFormat with
  | .shortText => [decimalDigits e.2 ++ e.1.symbol]
  | .fullText => [decimalDigits e.2, if e.2 = 1 then e.1.singular else e.1.plural]
  | .numeric => []

theorem shortText_eq (u : TimeUnit) : u.shortText = u.symbol ++ [0x20] := by cases u <;> rfl

theorem fullText1_eq (u : TimeUnit) : u.fullText1 = 0x20 :: (u.singular ++ [0x20]) := by
  cases u <;> rfl

theorem fullText_eq (u : TimeUnit) : u.fullText = 0x20 :: (u.plural ++ [0x20]) := by
  cases u <;> rfl

/-- What `AddOut` appends. -/
theorem flatMap_words (hformat : timeFormat ≠ .numeric) (u : TimeUnit) (n : ℕ) :
    (words timeFormat (u, n)).flatMap (· ++ [0x20]) =
      decimalDigits n ++ match timeFormat with
        | .shortText => u.shortText
        | .fullText => if n = 1 then u.fullText1 else u.fullText
        | .numeric => ascii "<Unknown time format>" := by
  cases timeFormat with
  | numeric => exact absurd rfl hformat
  | shortText => simp [words, shortText_eq]
  | fullText =>
      by_cases h1 : n = 1
      · simp [words, h1, fullText1_eq]
      · simp [words, h1, fullText_eq]

theorem foldl_addOut (hformat : timeFormat ≠ .numeric) (outCount : ℕ)
    (hes : ∀ e ∈ es, e.2 < 2 ^ 32) (s : TimeOut) :
    (es.foldl (fun s e => addOut timeFormat outCount s (e.2 % 2 ^ 32) e.1.shortText
        e.1.fullText1 e.1.fullText) s).out =
      s.out ++ ((es.take (outCount - s.count)).flatMap (words timeFormat)).flatMap
        (· ++ [0x20]) := by
  induction es generalizing s with
  | nil => simp
  | cons e es ih =>
      obtain ⟨u, n⟩ := e
      have hn : n % 2 ^ 32 = n := Nat.mod_eq_of_lt (hes (u, n) List.mem_cons_self)
      rw [List.foldl_cons, ih fun e he => hes e (List.mem_cons_of_mem _ he)]
      by_cases hfull : s.count ≥ outCount
      · simp only [addOut, hfull, if_true, Nat.sub_eq_zero_of_le hfull, List.take_zero]
      · have hleft : outCount - s.count = (outCount - (s.count + 1)) + 1 := by omega
        rw [hleft, List.take_succ_cons, List.flatMap_cons, List.flatMap_append,
          flatMap_words hformat, ← List.append_assoc]
        simp only [addOut, hfull, if_false, hn]

theorem isspace_of_isDigit {c : UInt8} (h : isDigit c = true) : isspace c = false := by
  simp only [isDigit, Bool.and_eq_true, decide_eq_true_eq] at h
  simp only [isspace, Bool.or_eq_false_iff, Bool.and_eq_false_iff, decide_eq_false_iff_not,
    UInt8.le_iff_toNat_le, ← UInt8.toNat_inj, UInt8.reduceToNat]
  omega

/-- A word is not empty and has no blank in it. -/
def IsWord (w : Text) : Prop := w ≠ [] ∧ ∀ c ∈ w, isspace c = false

theorem isWord_of_all {w : Text} (hne : w ≠ []) (hall : w.all (fun c => !isspace c) = true) :
    IsWord w :=
  ⟨hne, fun c hc => by simpa using List.all_eq_true.mp hall c hc⟩

theorem isWord_decimalDigits (n : ℕ) : IsWord (decimalDigits n) :=
  ⟨decimalDigits_ne_nil n, fun _ hc => isspace_of_isDigit (isDigit_of_mem_decimalDigits hc)⟩

theorem IsWord.append {v w : Text} (hv : IsWord v) (hw : IsWord w) : IsWord (v ++ w) := by
  refine ⟨by simp [hv.1], ?_⟩
  intro c hc
  rcases List.mem_append.mp hc with h | h
  · exact hv.2 c h
  · exact hw.2 c h

theorem isWord_words (e : TimeUnit × ℕ) : ∀ w ∈ words timeFormat e, IsWord w := by
  obtain ⟨u, n⟩ := e
  have hsymbol : IsWord u.symbol := isWord_of_all (by cases u <;> decide) (by cases u <;> rfl)
  have hsingular : IsWord u.singular := isWord_of_all (by cases u <;> decide) (by cases u <;> rfl)
  have hplural : IsWord u.plural := hsingular.append (isWord_of_all (by decide) rfl)
  have hdigits := isWord_decimalDigits n
  cases timeFormat with
  | shortText => simpa [words] using hdigits.append hsymbol
  | fullText =>
      by_cases h1 : n = 1
      · simpa [words, h1] using ⟨isWord_decimalDigits 1, hsingular⟩
      · simpa [words, h1] using ⟨hdigits, hplural⟩
  | numeric => simp [words]

variable (timeFormat) in
theorem isWord_flatMap_words (es : List (TimeUnit × ℕ)) :
    ∀ w ∈ es.flatMap (words timeFormat), IsWord w := by
  intro w hw
  obtain ⟨e, -, he⟩ := List.mem_flatMap.mp hw
  exact isWord_words e w he

/-- **The text is the words of the first units.** -/
theorem toTimeString_text (hformat : timeFormat ≠ .numeric) {d : ℕ} (h : d < 2 ^ 63)
    (outCount : ℕ) : toTimeString d outCount timeFormat =
      [0x20].intercalate (((entries d).take outCount).flatMap (words timeFormat)) := by
  have hes : ∀ e ∈ entries d, e.2 < 2 ^ 32 := by
    intro e he
    obtain ⟨u, -, rfl⟩ := List.mem_map.mp (List.mem_of_mem_filter he)
    exact unitCount_lt h u
  have hfold := foldl_addOut hformat outCount hes {}
  rw [entries, List.foldl_filter, List.foldl_map] at hfold
  simp only [decide_eq_true_eq] at hfold
  rw [toTimeString, if_neg hformat, hfold, ← entries, Nat.sub_zero, List.nil_append,
    trimRightInPlace_flatMap (isWord_flatMap_words timeFormat _)]

/-! ## Reading the text formats -/

theorem readShort_word (u : TimeUnit) (n : ℕ) :
    readShort (decimalDigits n ++ u.symbol) = some (u, n) := by
  have hdigits : ∀ c ∈ decimalDigits n, isDigit c = true :=
    fun c hc => isDigit_of_mem_decimalDigits hc
  have htake : u.symbol.takeWhile isDigit = [] := by cases u <;> rfl
  have hdrop : u.symbol.dropWhile isDigit = u.symbol := by cases u <;> rfl
  have hfind : (TimeUnit.all.find? fun v => v.symbol = u.symbol) = some u := by
    cases u <;> decide
  rw [readShort, List.takeWhile_append_of_pos hdigits, List.dropWhile_append_of_pos hdigits, htake,
    hdrop, List.append_nil, readNumber_decimalDigits, Option.bind_some, hfind]
  rfl

theorem mapM_readShort (es : List (TimeUnit × ℕ)) :
    (es.flatMap (words .shortText)).mapM readShort = some es := by
  induction es with
  | nil => rfl
  | cons e es ih =>
      rw [List.flatMap_cons, words, List.singleton_append, List.mapM_cons, readShort_word, ih]
      rfl

theorem readFull_words (es : List (TimeUnit × ℕ)) :
    readFull (es.flatMap (words .fullText)) = some es := by
  induction es with
  | nil => rfl
  | cons e es ih =>
      obtain ⟨u, n⟩ := e
      have hfind (v : TimeUnit) (name : Text) (hname : name = v.singular ∨ name = v.plural) :
          (TimeUnit.all.find? fun u => name = u.singular ∨ name = u.plural) = some v := by
        rcases hname with rfl | rfl <;> cases v <;> decide
      have hname : (if n = 1 then u.singular else u.plural) = u.singular ∨
          (if n = 1 then u.singular else u.plural) = u.plural := by
        split
        · exact .inl rfl
        · exact .inr rfl
      rw [List.flatMap_cons, words, List.cons_append, List.singleton_append, readFull,
        readNumber_decimalDigits, Option.bind_some, hfind u _ hname, Option.bind_some, ih]
      rfl

/-- **The units are read back from the text.** -/
theorem readUnits_toTimeString (hformat : timeFormat ≠ .numeric) {d : ℕ} (h : d < 2 ^ 63)
    (outCount : ℕ) : readUnits timeFormat (toTimeString d outCount timeFormat) =
      some ((entries d).take outCount) := by
  rw [toTimeString_text hformat h]
  generalize (entries d).take outCount = es
  have hwords := isWord_flatMap_words timeFormat es
  by_cases hnil : es = []
  · rw [hnil]
    rfl
  · have hsome : es.flatMap (words timeFormat) ≠ [] := by
      obtain ⟨e, es, rfl⟩ := List.exists_cons_of_ne_nil hnil
      cases timeFormat with
      | numeric => exact absurd rfl hformat
      | shortText => simp [words]
      | fullText => simp [words]
    have htext : [0x20].intercalate (es.flatMap (words timeFormat)) ≠ [] :=
      fun htext => hsome (intercalate_eq_nil (fun w hw => (hwords w hw).1) htext)
    have hblank : ∀ w ∈ es.flatMap (words timeFormat), (0x20 : UInt8) ∉ w :=
      fun w hw hmem => Bool.noConfusion ((hwords w hw).2 0x20 hmem)
    simp only [readUnits, if_neg htext, List.splitOn_intercalate 0x20 hblank hsome]
    cases timeFormat with
    | numeric => exact absurd rfl hformat
    | shortText => exact mapM_readShort es
    | fullText => exact readFull_words es

end TextFormats

/-! ## The numeric format -/

/-- The first number as it is, the others with two digits at least. -/
def numericWords : List ℕ → List Text
  | [] => []
  | time :: times => decimalDigits time :: times.map twoDigits

theorem foldl_addOutNumerlic_isFirst (outCount : ℕ) (times : List ℕ) (s : TimeOut)
    (hfirst : s.isFirst = true) :
    (times.foldl (addOutNumerlic outCount) s).out =
      s.out ++ ((times.take (outCount - s.count)).map twoDigits).flatMap (· ++ [0x3a]) := by
  induction times generalizing s with
  | nil => simp
  | cons time times ih =>
      by_cases hfull : s.count ≥ outCount
      · have hstep : addOutNumerlic outCount s time = s := if_pos hfull
        rw [List.foldl_cons, hstep, ih s hfirst, Nat.sub_eq_zero_of_le hfull, List.take_zero,
          List.take_zero]
      · have hleft : outCount - s.count = (outCount - (s.count + 1)) + 1 := by omega
        have hstep : addOutNumerlic outCount s time =
            { s with out := s.out ++ (twoDigits time ++ [0x3a]), count := s.count + 1 } := by
          simp only [addOutNumerlic, hfull, hfirst, if_false, Bool.not_true, Bool.false_eq_true]
        have hrest := ih { s with out := s.out ++ (twoDigits time ++ [0x3a]), count := s.count + 1 }
          hfirst
        rw [List.foldl_cons, hstep, hrest, hleft, List.take_succ_cons, List.map_cons,
          List.flatMap_cons]
        simp only [List.append_assoc]

theorem foldl_addOutNumerlic (outCount : ℕ) (times : List ℕ) :
    (times.foldl (addOutNumerlic outCount) {}).out =
      (numericWords (times.take outCount)).flatMap (· ++ [0x3a]) := by
  cases times with
  | nil => simp [numericWords]
  | cons time times =>
      cases outCount with
      | zero =>
          have hstay (times : List ℕ) : times.foldl (addOutNumerlic 0) {} = {} := by
            induction times with
            | nil => rfl
            | cons time times ih => exact ih
          rw [hstay]
          rfl
      | succ outCount =>
          have hstep : addOutNumerlic (outCount + 1) {} time =
              { isFirst := true, out := decimalDigits time ++ [0x3a], count := 1 } := rfl
          rw [List.foldl_cons, hstep, foldl_addOutNumerlic_isFirst _ _ _ rfl,
            List.take_succ_cons, numericWords, List.flatMap_cons, Nat.add_sub_cancel]

/-- **A numeric text is the numbers of the first units.** -/
theorem toTimeString_numeric (durationTime : ℤ) (outCount : ℕ) :
    toTimeString durationTime outCount .numeric =
      [0x3a].intercalate (numericWords (((entries durationTime).map Prod.snd).take outCount)) := by
  have hfold := foldl_addOutNumerlic outCount ((entries durationTime).map Prod.snd)
  rw [List.foldl_map, entries, List.foldl_filter, List.foldl_map] at hfold
  simp only [decide_eq_true_eq] at hfold
  rw [toTimeString, if_pos rfl, hfold, ← entries, dropLast_flatMap]

theorem readDigits_replicate (k : ℕ) (str : Text) :
    readDigits 0 (List.replicate k 0x30 ++ str) = readDigits 0 str := by
  induction k with
  | zero => rfl
  | succ k ih => exact ih

theorem readNumber_twoDigits (n : ℕ) : readNumber (twoDigits n) = some n := by
  have hne : twoDigits n ≠ [] := by simp [twoDigits, decimalDigits_ne_nil]
  have hread := readNumber_decimalDigits n
  rw [readNumber, if_neg (decimalDigits_ne_nil n)] at hread
  rw [readNumber, if_neg hne, twoDigits, readDigits_replicate, hread]

theorem mapM_readNumber (times : List ℕ) : (numericWords times).mapM readNumber = some times := by
  have hrest (times : List ℕ) : (times.map twoDigits).mapM readNumber = some times := by
    induction times with
    | nil => rfl
    | cons time times ih =>
        rw [List.map_cons, List.mapM_cons, readNumber_twoDigits, ih]
        rfl
  cases times with
  | nil => rfl
  | cons time times =>
      rw [numericWords, List.mapM_cons, readNumber_decimalDigits, hrest]
      rfl

theorem numericWords_letters (times : List ℕ) :
    ∀ w ∈ numericWords times, w ≠ [] ∧ (0x3a : UInt8) ∉ w := by
  have hcolon (n : ℕ) : (0x3a : UInt8) ∉ decimalDigits n :=
    fun hmem => Bool.noConfusion (isDigit_of_mem_decimalDigits hmem)
  cases times with
  | nil => simp [numericWords]
  | cons time times =>
      intro w hw
      rcases List.mem_cons.mp hw with rfl | hw
      · exact ⟨decimalDigits_ne_nil time, hcolon time⟩
      · obtain ⟨n, -, rfl⟩ := List.mem_map.mp hw
        simp [twoDigits, decimalDigits_ne_nil, hcolon]

/-- The numbers are read back from a numeric text. -/
theorem readNumbers_toTimeString (durationTime : ℤ) (outCount : ℕ) :
    readNumbers (toTimeString durationTime outCount .numeric) =
      some (((entries durationTime).map Prod.snd).take outCount) := by
  rw [toTimeString_numeric]
  generalize ((entries durationTime).map Prod.snd).take outCount = times
  have hwords := numericWords_letters times
  by_cases hnil : numericWords times = []
  · have hread := mapM_readNumber times
    rw [hnil] at hread ⊢
    exact hread
  · have htext : [0x3a].intercalate (numericWords times) ≠ [] :=
      fun htext => hnil (intercalate_eq_nil (fun w hw => (hwords w hw).1) htext)
    rw [readNumbers, if_neg htext, List.splitOn_intercalate 0x3a (fun w hw => (hwords w hw).2) hnil,
      mapM_readNumber]

/-! ## Which durations the texts tell apart -/

/-- The digits of a duration that are not zero. -/
def nonZeroDigits (d : ℕ) : List ℕ := (unitDigits d).filter (· ≠ 0)

theorem map_snd_entries {d : ℕ} (h : d < 2 ^ 63) : (entries d).map Prod.snd = nonZeroDigits d := by
  rw [nonZeroDigits, ← map_unitCount h, entries, List.filter_map, List.filter_map, List.map_map]
  rfl

theorem take_entries {durationTime : ℤ} {outCount : ℕ} (h : 7 ≤ outCount) :
    (entries durationTime).take outCount = entries durationTime :=
  List.take_of_length_le (le_trans (length_entries_le durationTime) h)

/-- **Which durations a format tells apart.**  The text formats give different texts to
different durations, the units they print add up to the duration, and fewer units are those of
the truncated duration.  The numeric format tells two durations apart exactly when the numbers
of their non-zero units differ. -/
theorem toTimeString_determines_iff (timeFormat : TimeFormat) (d d' outCount : ℕ)
    (hd : d < 2 ^ 63) (hd' : d' < 2 ^ 63) (hne : d ≠ d') (hcount : 7 ≤ outCount) :
    (toTimeString d outCount timeFormat ≠ toTimeString d' outCount timeFormat ∧
      (timeFormat ≠ .numeric →
        (readUnits timeFormat (toTimeString d outCount timeFormat)).map total = some d ∧
        ∀ n, toTimeString d n timeFormat = toTimeString (truncated d n) outCount timeFormat)) ↔
      timeFormat ≠ .numeric ∨ nonZeroDigits d ≠ nonZeroDigits d' := by
  by_cases hformat : timeFormat = .numeric
  · subst hformat
    have hread := readNumbers_toTimeString d outCount
    have hread' := readNumbers_toTimeString d' outCount
    rw [← List.map_take, take_entries hcount, map_snd_entries hd] at hread
    rw [← List.map_take, take_entries hcount, map_snd_entries hd'] at hread'
    constructor
    · intro ⟨htexts, _⟩
      refine .inr fun hdigits => htexts ?_
      rw [toTimeString_numeric, toTimeString_numeric, map_snd_entries hd, map_snd_entries hd',
        hdigits]
    · intro hdigits
      refine ⟨fun htexts => ?_, fun hformat => absurd rfl hformat⟩
      rw [htexts, hread', Option.some.injEq] at hread
      exact hdigits.resolve_left (fun hformat => hformat rfl) hread.symm
  · have hread := readUnits_toTimeString hformat hd outCount
    have hread' := readUnits_toTimeString hformat hd' outCount
    rw [take_entries hcount] at hread hread'
    refine iff_of_true ⟨fun htexts => ?_, fun _ => ⟨?_, fun n => ?_⟩⟩ (.inl hformat)
    · rw [htexts, hread', Option.some.injEq] at hread
      exact hne (by rw [← total_entries hd, ← total_entries hd', hread])
    · rw [hread, Option.map_some, total_entries hd]
    · rw [toTimeString_text hformat hd,
        toTimeString_text hformat (lt_of_le_of_lt (truncated_le d n) hd), take_entries hcount,
        entries_truncated hd]

/-- Two hours and a second are told from two hours and a millisecond. -/
theorem toTimeString_determines_hours :
    toTimeString 7201000000 7 .fullText ≠ toTimeString 7200001000 7 .fullText ∧
    (readUnits .fullText (toTimeString 7201000000 7 .fullText)).map total = some 7201000000 ∧
    toTimeString 7201000000 1 .fullText = toTimeString 7200000000 7 .fullText := by
  have hall := (toTimeString_determines_iff .fullText 7201000000 7200001000 7 (by decide)
    (by decide) (by decide) le_rfl).mpr (.inl (by decide))
  have htruncated : truncated 7201000000 1 = 7200000000 := by decide
  have hone := (hall.2 (by decide)).2 1
  rw [htruncated] at hone
  exact ⟨hall.1, (hall.2 (by decide)).1, hone⟩

/-- An hour and a minute are both written `1`. -/
theorem not_toTimeString_determines :
    ¬ ∀ (timeFormat : TimeFormat) (d d' outCount : ℕ), d < 2 ^ 63 → d' < 2 ^ 63 → d ≠ d' →
      7 ≤ outCount → toTimeString d outCount timeFormat ≠ toTimeString d' outCount timeFormat := by
  intro h
  exact h .numeric HOURS MINUTES 7 (by decide) (by decide) (by decide) le_rfl (by decide +kernel)

end WarheadDiscord.Time
