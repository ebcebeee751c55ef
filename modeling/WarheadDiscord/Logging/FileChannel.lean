import WarheadDiscord.Common.Format
import WarheadDiscord.Logging.Log

/-!
# Files of messages

A file channel whose file name has a field writes each message into the file that the option of the
message names.  `Write` formats the file name with the option and keeps the result as the file name,
and so it does with the time stamp.  The next message is formatted with a file name that may have no
field left.

The clock and the file system are part of a call: the local time, the files that can be opened,
and whether the stream is good after it was written to.  What a format specification does is a
parameter, as it is for `Fmt.format`, and so is the length of the longest `std::string`.

## Main definitions

* `FileChannel`, `FileChannel.create` — the channel and its constructor.
* `FileChannel.write`, `openFile`, `closeFile` — the functions.
* `FileChannel.ownName` — the file that a message belongs to.
-/

namespace WarheadDiscord.Logging

/-- An exception of the program, or one of the library. -/
inductive Thrown
  | exception (message : List UInt8)
  | formatError
  | lengthError
  deriving DecidableEq, Repr

/-- The stream is there after the first attempt to open it, whether or not that succeeded. -/
structure FileChannel extends Channel where
  logsDir : List UInt8
  fileName : List UInt8
  /-- The path of the stream, and whether it is open. -/
  logFile : Option (List UInt8 × Bool) := none
  isDynamicFileName : Bool := false
  isFlush : Bool := true
  isOpenModeAppend : Bool := true
  isAddTimestamp : Bool := false
  deriving DecidableEq, Repr

/-- A message with its option, and what the call finds. -/
structure FileWrite where
  message : LogMessage
  option : List UInt8
  now : Tm
  opens : List UInt8 → Bool := fun _ => true
  isGood : Bool := true

namespace FileChannel

/-- An option that is true or false, or the value that the channel has without it. -/
def readOption (what : String) (value : Bool) : Option (List UInt8) → Except (List UInt8) Bool
  | none => .ok value
  | some text =>
      match stringTo .bool text with
      | some v => .ok (v ≠ 0)
      | none =>
          .error (ascii "Incorrect option for " ++ ascii what ++ ascii " '" ++ text ++ ascii "'")

/-- The constructor with all that it sets. -/
def create (logsDir name : List UInt8) (level : LogLevel) (pattern : List UInt8)
    (options : List (List UInt8)) : Except (List UInt8) FileChannel := do
  let channel ← Channel.new .file name level pattern
  match options[3]? with
  | none => throw (ascii "Incorrect options count (" ++ decimalText options.length ++ ascii ")")
  | some fileName =>
      let isOpenModeAppend ← readOption "open mode" true options[4]?
      let isFlush ← readOption "flush" true options[5]?
      let isAddTimestamp ← readOption "add timestamp" false options[6]?
      return { channel with
        logsDir, fileName, isFlush, isOpenModeAppend, isAddTimestamp
        isDynamicFileName := decide ([0x7b, 0x7d] <:+: fileName) }

/-- `TimeToTimestampStr` with the format of `OpenFile`, and the underscore in front of it. -/
def timeStamp (now : Tm) : List UInt8 :=
  0x5f :: decimalText now.year ++ 0x2d :: twoDigits (now.mon + 1) ++ 0x2d :: twoDigits now.mday ++
    0x5f :: twoDigits now.hour ++ 0x5f :: twoDigits now.min ++ 0x5f :: twoDigits now.sec

/-- A text in front of the last dot, or at the end. -/
def insertAtDot (text fileName : List UInt8) : List UInt8 :=
  if 0x2e ∈ fileName then
    (fileName.reverse.dropWhile (· ≠ 0x2e)).tail.reverse ++ text ++
      0x2e :: (fileName.reverse.takeWhile (· ≠ 0x2e)).reverse
  else fileName ++ text

/-- The file name with a time stamp, if the channel has them. -/
def stamped (fc : FileChannel) (now : Tm) (fileName : List UInt8) : List UInt8 :=
  if fc.isAddTimestamp then insertAtDot (timeStamp now) fileName else fileName

/-- The path of the open stream, if it is open, and what the channel is changed to. -/
def openFile (fc : FileChannel) (w : FileWrite) : Option (List UInt8) × FileChannel :=
  match fc.logFile with
  | some (path, isOpen) => (if isOpen then some path else none, fc)
  | none =>
      let fileName := fc.stamped w.now fc.fileName
      let path := fc.logsDir ++ fileName
      (if w.opens path then some path else none,
        { fc with fileName, logFile := some (path, w.opens path) })

/-- The channel with another file name. -/
def named (fc : FileChannel) (fileName : List UInt8) : FileChannel := { fc with fileName }

def closeFile (fc : FileChannel) : FileChannel := { fc with logFile := none }

def emptyOption (fileName : List UInt8) : Thrown :=
  .exception (ascii "Empty option for dynamic file '" ++ fileName ++ ascii "'")

def cannotOpen (fileName : List UInt8) : Thrown :=
  .exception (ascii "Cannot open file '" ++ fileName ++ ascii "'")

def incorrectWrite (fileName : List UInt8) : Thrown :=
  .exception (ascii "Incorrect write to file '" ++ fileName ++ ascii "'")

/-- What is to be written of a message: both ways to end a line write the same. -/
def line (fc : FileChannel) (w : FileWrite) : List UInt8 :=
  fc.format w.message w.message.text ++ [0x0a]

section
variable (specs : List UInt8 → List UInt8 → Option (List UInt8 × ℕ)) (maxSize : ℕ)

/-- The path and the text that are in the file after the call, if the stream takes the text, and
what the channel is changed to.  With a dynamic file name nothing asks whether the stream is good,
and a message that it does not take is lost without an exception. -/
def write (fc : FileChannel) (w : FileWrite) :
    Except Thrown (Option (List UInt8 × List UInt8)) × FileChannel :=
  if fc.isDynamicFileName ∧ w.option = [] then (.error (emptyOption fc.fileName), fc)
  else
    match fc.tryFormat maxSize w.message w.message.text with
    | .error _ => (.error .lengthError, fc)
    | .ok text =>
        if fc.isDynamicFileName then
          match Fmt.format specs w.option fc.fileName with
          | none => (.error .formatError, fc)
          | some fileName =>
              match (fc.named fileName).openFile w with
              | (none, fc) => (.error (cannotOpen fc.fileName), fc)
              | (some path, fc) =>
                  (.ok (if w.isGood then some (path, text ++ [0x0a]) else none), fc.closeFile)
        else
          match fc.openFile w with
          | (none, fc) => (.error (cannotOpen fc.fileName), fc)
          | (some path, fc) =>
              if w.isGood then (.ok (some (path, text ++ [0x0a])), fc)
              else (.error (incorrectWrite fc.fileName), fc)

/-- The calls one after the other. -/
def writeAll (fc : FileChannel) :
    List FileWrite → List (Except Thrown (Option (List UInt8 × List UInt8)))
  | [] => []
  | w :: ws => (fc.write specs maxSize w).1 :: writeAll (fc.write specs maxSize w).2 ws

end

/-! ## The file that is meant -/

/-- The text with every `{}` replaced. -/
def fillIn (option : List UInt8) : List UInt8 → List UInt8
  | 0x7b :: 0x7d :: rest => option ++ fillIn option rest
  | c :: rest => c :: fillIn option rest
  | [] => []

/-- The name that the message has by the configured one. -/
def ownName (fc : FileChannel) (w : FileWrite) : List UInt8 :=
  fc.stamped w.now (fillIn w.option fc.fileName)

/-! ## The constructor -/

section Create
variable {logsDir name pattern : List UInt8} {level : LogLevel} {options : List (List UInt8)}
  {fc : FileChannel}

/-- An option is read if and only if `new` accepts it. -/
theorem map_readOption (what : String) (value : Bool) (text : Option (List UInt8)) :
    (readOption what value text).map (fun _ => ()) = checkOption what text := by
  cases text with
  | none => rfl
  | some text =>
      rw [readOption, checkOption]
      cases stringTo .bool text <;> rfl

/-- The channel without its file is the one of `new`. -/
theorem map_toChannel_create :
    (create logsDir name level pattern options).map FileChannel.toChannel =
      FileChannel.new name level pattern options := by
  rw [create, FileChannel.new, ← map_readOption "open mode" true,
    ← map_readOption "flush" true, ← map_readOption "add timestamp" false]
  cases Channel.new .file name level pattern with
  | error e => rfl
  | ok channel =>
      cases hname : options[3]? with
      | none =>
          have hlength := List.getElem?_eq_none_iff.mp hname
          simp only [Nat.lt_succ_of_le hlength, if_true]
          rfl
      | some fileName =>
          obtain ⟨hlength, -⟩ := List.getElem?_eq_some_iff.mp hname
          simp only [Nat.not_lt.mpr hlength, if_false]
          cases readOption "open mode" true options[4]? with
          | error e => rfl
          | ok isOpenModeAppend =>
              cases readOption "flush" true options[5]? with
              | error e => rfl
              | ok isFlush => cases readOption "add timestamp" false options[6]? <;> rfl

theorem patternActions_new {type : ChannelType} {channel : Channel}
    (h : Channel.new type name level pattern = .ok channel) : channel.patternActions ≠ [] := by
  rw [Channel.new] at h
  cases hparse : parsePattern pattern with
  | error e =>
      rw [hparse] at h
      cases h
  | ok actions =>
      rw [hparse] at h
      cases h
      rintro rfl
      rw [parsePattern] at hparse
      split_ifs at hparse
      split at hparse
      · cases hparse
      · cases hparse
      · next hne _ => exact hne (Except.ok.inj hparse)

/-- A new channel has actions and no stream, and its file name is dynamic if it has a field. -/
theorem create_spec (h : create logsDir name level pattern options = .ok fc) :
    fc.logFile = none ∧ fc.patternActions ≠ [] ∧
      fc.isDynamicFileName = decide ([0x7b, 0x7d] <:+: fc.fileName) := by
  rw [create] at h
  cases hchannel : Channel.new .file name level pattern with
  | error e =>
      rw [hchannel] at h
      cases h
  | ok channel =>
      have hactions := patternActions_new hchannel
      rw [hchannel] at h
      cases hname : options[3]? with
      | none =>
          rw [hname] at h
          cases h
      | some fileName =>
          rw [hname] at h
          simp only [bind, Except.bind] at h
          split at h
          · cases h
          · split at h
            · cases h
            · split at h
              · cases h
              · cases h
                exact ⟨rfl, hactions, rfl⟩

end Create

/-! ## Time stamps -/

section Stamp
variable {text a b : List UInt8}

theorem dot_not_mem_decimalText (v : ℤ) : 0x2e ∉ decimalText v := by
  have hdigits : 0x2e ∉ decimalDigits v.natAbs := by
    intro hmem
    exact absurd (isDigit_of_mem_decimalDigits hmem) (by decide)
  rw [decimalText]
  split_ifs
  · rw [List.mem_cons, not_or]
    exact ⟨by decide, hdigits⟩
  · exact hdigits

theorem dot_not_mem_twoDigits {n : ℕ} (h : n < 100) : 0x2e ∉ twoDigits n := by
  have hne : ∀ d < 10, (0x2e : UInt8) ≠ UInt8.ofNat (0x30 + d) := by decide
  rw [twoDigits, List.mem_cons, List.mem_singleton, not_or]
  exact ⟨hne (n / 10) (by omega), hne (n % 10) (by omega)⟩

theorem dot_not_mem_timeStamp (now : Tm) : 0x2e ∉ timeStamp now := by
  have hmon := dot_not_mem_twoDigits (n := now.mon + 1) (by omega)
  have hmday := dot_not_mem_twoDigits (n := now.mday) (by omega)
  have hhour := dot_not_mem_twoDigits (n := now.hour) (by omega)
  have hmin := dot_not_mem_twoDigits (n := now.min) (by omega)
  have hsec := dot_not_mem_twoDigits (n := now.sec) (by omega)
  simp [timeStamp, dot_not_mem_decimalText, hmon, hmday, hhour, hmin, hsec]

/-- The two parts of a file name at its last dot. -/
theorem exists_eq_insertAtDot (text : List UInt8) (h : 0x2e ∈ a) :
    ∃ stem ext, 0x2e ∉ ext ∧ a = stem ++ 0x2e :: ext ∧
      insertAtDot text a = stem ++ text ++ 0x2e :: ext := by
  obtain ⟨ext, stem, hsplit, hext⟩ := List.eq_append_cons_of_mem (List.mem_reverse.mpr h)
  have hne : ∀ c ∈ ext, decide (c ≠ 0x2e) = true := by
    intro c hc
    rw [decide_eq_true_iff]
    rintro rfl
    exact hext hc
  refine ⟨stem.reverse, ext.reverse, ?_, ?_, ?_⟩
  · rw [List.mem_reverse]
    exact hext
  · rw [← List.reverse_reverse a, hsplit]
    simp
  · rw [insertAtDot, if_pos h, hsplit, List.dropWhile_append_of_pos hne,
      List.dropWhile_cons_of_neg (by decide), List.tail_cons, List.takeWhile_append_of_pos hne,
      List.takeWhile_cons_of_neg (by decide), List.append_nil]

/-- The last dot splits a text in one way. -/
theorem append_dot_inj {stem stem' ext ext' : List UInt8} (hext : 0x2e ∉ ext) (hext' : 0x2e ∉ ext')
    (h : stem ++ 0x2e :: ext = stem' ++ 0x2e :: ext') : stem = stem' ∧ ext = ext' := by
  rcases List.append_eq_append_iff.mp h with ⟨more, hstem, hrest⟩ | ⟨more, hstem, hrest⟩
  · cases more with
    | nil => exact ⟨by simp [hstem], (List.cons.inj hrest).2⟩
    | cons c more =>
        refine absurd ?_ hext
        rw [(List.cons.inj hrest).2]
        simp
  · cases more with
    | nil => exact ⟨by simp [hstem], (List.cons.inj hrest).2.symm⟩
    | cons c more =>
        refine absurd ?_ hext'
        rw [(List.cons.inj hrest).2]
        simp

/-- The dot in front of which the text is inserted is the last one afterwards too. -/
theorem insertAtDot_injective (htext : 0x2e ∉ text) (h : insertAtDot text a = insertAtDot text b) :
    a = b := by
  have hmem : ∀ {c : List UInt8}, 0x2e ∈ insertAtDot text c → 0x2e ∈ c := by
    intro c hc
    by_contra hnot
    rw [insertAtDot, if_neg hnot, List.mem_append] at hc
    exact hc.elim hnot htext
  by_cases ha : 0x2e ∈ a
  · obtain ⟨stem, ext, hext, rfl, hinsert⟩ := exists_eq_insertAtDot text ha
    have hb : 0x2e ∈ b := by
      apply hmem
      rw [← h, hinsert]
      simp
    obtain ⟨stem', ext', hext', rfl, hinsert'⟩ := exists_eq_insertAtDot text hb
    rw [hinsert, hinsert'] at h
    obtain ⟨hstem, rfl⟩ := append_dot_inj hext hext' h
    rw [List.append_cancel_right hstem]
  · have hb : 0x2e ∉ b := by
      intro hb
      obtain ⟨stem', ext', -, -, hinsert'⟩ := exists_eq_insertAtDot text hb
      refine ha (hmem ?_)
      rw [h, hinsert']
      simp
    rw [insertAtDot, if_neg ha, insertAtDot, if_neg hb] at h
    exact List.append_cancel_right h

theorem stamped_inj (fc : FileChannel) (now : Tm) :
    fc.stamped now a = fc.stamped now b ↔ a = b := by
  rw [stamped, stamped]
  split_ifs
  · exact ⟨insertAtDot_injective (dot_not_mem_timeStamp now), fun h => by rw [h]⟩
  · exact Iff.rfl

end Stamp

/-! ## A call -/

section Write
variable {specs : List UInt8 → List UInt8 → Option (List UInt8 × ℕ)} {maxSize : ℕ}
  {fc : FileChannel} {w : FileWrite}

/-- A `std::string` has room for the text of the message. -/
def HasRoom (maxSize : ℕ) (fc : FileChannel) (w : FileWrite) : Prop :=
  (fc.format w.message w.message.text).length ≤ maxSize

variable (fc) in
theorem write_of_dynamic (hdynamic : fc.isDynamicFileName = true)
    (hactions : fc.patternActions ≠ []) (hoption : w.option ≠ []) (hroom : fc.HasRoom maxSize w) :
    fc.write specs maxSize w =
      match Fmt.format specs w.option fc.fileName with
      | none => (.error .formatError, fc)
      | some fileName =>
          match (fc.named fileName).openFile w with
          | (none, fc) => (.error (cannotOpen fc.fileName), fc)
          | (some path, fc') =>
              (.ok (if w.isGood then some (path, fc.line w) else none), fc'.closeFile) := by
  have htext : fc.tryFormat maxSize w.message w.message.text =
      .ok (fc.format w.message w.message.text) :=
    (Channel.tryFormat_eq hactions _ _).trans (if_pos hroom)
  rw [write, if_neg (by simp [hoption]), htext]
  simp only [hdynamic, if_true]
  rfl

/-- Without room for its text, a message is not written. -/
theorem write_of_not_hasRoom (hactions : fc.patternActions ≠ []) (hoption : w.option ≠ [])
    (hroom : ¬fc.HasRoom maxSize w) : fc.write specs maxSize w = (.error .lengthError, fc) := by
  have htext : fc.tryFormat maxSize w.message w.message.text = .error {} :=
    (Channel.tryFormat_eq hactions _ _).trans (if_neg hroom)
  rw [write, if_neg (by simp [hoption]), htext]

/-- A call of a channel that has no stream, when its file name can be formatted. -/
theorem write_named (hdynamic : fc.isDynamicFileName = true) (hclosed : fc.logFile = none)
    (hactions : fc.patternActions ≠ []) (hoption : w.option ≠ []) (hroom : fc.HasRoom maxSize w)
    {name fileName : List UInt8} (hformat : Fmt.format specs w.option name = some fileName) :
    (fc.named name).write specs maxSize w =
      if w.opens (fc.logsDir ++ fc.stamped w.now fileName) then
        (.ok (if w.isGood then some (fc.logsDir ++ fc.stamped w.now fileName, fc.line w) else none),
          fc.named (fc.stamped w.now fileName))
      else
        (.error (cannotOpen (fc.stamped w.now fileName)),
          { fc with
            fileName := fc.stamped w.now fileName
            logFile := some (fc.logsDir ++ fc.stamped w.now fileName, false) }) := by
  have hopen : (fc.named fileName).openFile w =
      (if w.opens (fc.logsDir ++ fc.stamped w.now fileName) then
        some (fc.logsDir ++ fc.stamped w.now fileName) else none,
      { fc with
        fileName := fc.stamped w.now fileName
        logFile := some (fc.logsDir ++ fc.stamped w.now fileName,
          w.opens (fc.logsDir ++ fc.stamped w.now fileName)) }) := by
    rw [openFile, show (fc.named fileName).logFile = none from hclosed]
    rfl
  have hname : (fc.named name).named fileName = fc.named fileName := rfl
  rw [write_of_dynamic (fc.named name) hdynamic hactions hoption hroom,
    show (fc.named name).fileName = name from rfl, hformat]
  simp only [hname, hopen]
  by_cases hopens : w.opens (fc.logsDir ++ fc.stamped w.now fileName) = true
  · simp only [hopens, if_true, closeFile, named, hclosed]
    rfl
  · rw [if_neg hopens, if_neg hopens]
    rw [Bool.not_eq_true] at hopens
    rw [hopens]

/-- The file name gives, with the option of the message, what the configured one gives, the file
can be opened and takes the text, and there is room for the text. -/
structure GivesOwn (specs : List UInt8 → List UInt8 → Option (List UInt8 × ℕ)) (maxSize : ℕ)
    (fc : FileChannel) (name : List UInt8) (w : FileWrite) : Prop where
  format : Fmt.format specs w.option name = some (fillIn w.option fc.fileName)
  opens : w.opens (fc.logsDir ++ fc.ownName w) = true
  isGood : w.isGood = true
  room : fc.HasRoom maxSize w

/-- **A call writes to the file of the message** if the file name, whatever it has become, gives
with the option what the configured one gives, and the text can be made and written. -/
theorem write_named_fst_iff (hdynamic : fc.isDynamicFileName = true) (hclosed : fc.logFile = none)
    (hactions : fc.patternActions ≠ []) (hoption : w.option ≠ []) (name : List UInt8) :
    ((fc.named name).write specs maxSize w).1 =
        .ok (some (fc.logsDir ++ fc.ownName w, fc.line w)) ↔
      fc.GivesOwn specs maxSize name w := by
  by_cases hroom : fc.HasRoom maxSize w
  · cases hformat : Fmt.format specs w.option name with
    | none =>
        rw [write_of_dynamic (fc.named name) hdynamic hactions hoption hroom,
          show (fc.named name).fileName = name from rfl, hformat]
        simp only [reduceCtorEq, false_iff]
        intro hgives
        have := hgives.format
        rw [hformat] at this
        cases this
    | some fileName =>
        rw [write_named hdynamic hclosed hactions hoption hroom hformat]
        constructor
        · intro heq
          split_ifs at heq with hopens hgood
          · have hpath := congrArg Prod.fst (Option.some.inj (Except.ok.inj heq))
            have hname : fileName = fillIn w.option fc.fileName := by
              rw [← stamped_inj fc w.now]
              exact List.append_cancel_left hpath
            subst hname
            exact ⟨hformat, hopens, hgood, hroom⟩
          · cases Except.ok.inj heq
        · intro hgives
          have hname : fileName = fillIn w.option fc.fileName := by
            have := hgives.format
            rw [hformat] at this
            exact Option.some.inj this
          subst hname
          have hopens := hgives.opens
          rw [ownName] at hopens ⊢
          rw [if_pos hopens, if_pos hgives.isGood]
  · have hwrite : (fc.named name).write specs maxSize w = (.error .lengthError, fc.named name) :=
      write_of_not_hasRoom hactions hoption hroom
    rw [hwrite]
    simp only [reduceCtorEq, false_iff]
    exact fun hgives => hroom hgives.room

/-- Then the channel has the file name of the message. -/
theorem write_named_snd (hdynamic : fc.isDynamicFileName = true) (hclosed : fc.logFile = none)
    (hactions : fc.patternActions ≠ []) (hoption : w.option ≠ []) {name : List UInt8}
    (hgives : fc.GivesOwn specs maxSize name w) :
    ((fc.named name).write specs maxSize w).2 = fc.named (fc.ownName w) := by
  have hopens := hgives.opens
  rw [ownName] at hopens
  rw [write_named hdynamic hclosed hactions hoption hgives.room hgives.format, if_pos hopens]
  rfl

variable (specs maxSize) in
theorem writeAll_named_iff (hdynamic : fc.isDynamicFileName = true) (hclosed : fc.logFile = none)
    (hactions : fc.patternActions ≠ []) {ws : List FileWrite} (hoption : ∀ w ∈ ws, w.option ≠ [])
    (name : List UInt8) :
    (fc.named name).writeAll specs maxSize ws =
        ws.map (fun w => .ok (some (fc.logsDir ++ fc.ownName w, fc.line w))) ↔
      ∀ p ∈ (name :: ws.map fc.ownName).zip ws, fc.GivesOwn specs maxSize p.1 p.2 := by
  induction ws generalizing name with
  | nil => simp [writeAll]
  | cons w ws ih =>
      rw [List.forall_mem_cons] at hoption
      rw [writeAll, List.map_cons, List.cons.injEq,
        write_named_fst_iff hdynamic hclosed hactions hoption.1, List.map_cons,
        List.zip_cons_cons, List.forall_mem_cons]
      refine and_congr_right ?_
      intro hgives
      rw [write_named_snd hdynamic hclosed hactions hoption.1 hgives]
      exact ih hoption.2 (fc.ownName w)

end Write

/-! ## The result -/

/-- **Every message is written to its own file** if and only if the configured file name with the
first option, and the file name of every message with the option of the next one, give what the
configured file name gives with that option (and the files can be opened and take the text, for
which a `std::string` has room). -/
theorem writeAll_eq_ownFiles_iff {specs : List UInt8 → List UInt8 → Option (List UInt8 × ℕ)}
    {maxSize : ℕ} {logsDir name pattern : List UInt8} {level : LogLevel}
    {options : List (List UInt8)} {fc : FileChannel}
    (hcreate : create logsDir name level pattern options = .ok fc)
    (hdynamic : [0x7b, 0x7d] <:+: fc.fileName) {ws : List FileWrite}
    (hoption : ∀ w ∈ ws, w.option ≠ []) :
    fc.writeAll specs maxSize ws =
        ws.map (fun w => .ok (some (fc.logsDir ++ fc.ownName w, fc.line w))) ↔
      ∀ p ∈ (fc.fileName :: ws.map fc.ownName).zip ws, fc.GivesOwn specs maxSize p.1 p.2 := by
  obtain ⟨hclosed, hactions, hisDynamic⟩ := create_spec hcreate
  rw [decide_eq_true hdynamic] at hisDynamic
  exact writeAll_named_iff specs maxSize hisDynamic hclosed hactions hoption fc.fileName

section Plain
variable {specs : List UInt8 → List UInt8 → Option (List UInt8 × ℕ)} {maxSize : ℕ}
  {fc : FileChannel} {before behind : List UInt8}

/-- Nothing in the surroundings of a call keeps its message from being written. -/
structure CanWrite (maxSize : ℕ) (fc : FileChannel) (w : FileWrite) : Prop where
  opens : ∀ path, w.opens path = true
  isGood : w.isGood = true
  room : fc.HasRoom maxSize w

theorem fillIn_of_isPlain (option : List UInt8) {text : List UInt8} (h : Fmt.IsPlain text) :
    fillIn option text = text := by
  induction text with
  | nil => rfl
  | cons c text ih =>
      rw [Fmt.IsPlain, List.mem_cons, List.mem_cons, not_or, not_or] at h
      rw [fillIn, ih ⟨h.1.2, h.2.2⟩]
      rintro rest rfl -
      exact h.1.1 rfl

/-- A file name with one field. -/
theorem fillIn_field (option : List UInt8) (hbefore : Fmt.IsPlain before)
    (hbehind : Fmt.IsPlain behind) :
    fillIn option (before ++ 0x7b :: 0x7d :: behind) = before ++ (option ++ behind) := by
  induction before with
  | nil => rw [List.nil_append, fillIn, fillIn_of_isPlain option hbehind, List.nil_append]
  | cons c before ih =>
      rw [Fmt.IsPlain, List.mem_cons, List.mem_cons, not_or, not_or] at hbefore
      rw [List.cons_append, fillIn, ih ⟨hbefore.1.2, hbefore.2.2⟩, List.cons_append]
      rintro rest rfl -
      exact hbefore.1.1 rfl

/-- After the first message the file name has no field, and stays as it is. -/
theorem givesOwn_ownName_iff (hbefore : Fmt.IsPlain before) (hbehind : Fmt.IsPlain behind)
    (hname : fc.fileName = before ++ 0x7b :: 0x7d :: behind) (hstamp : fc.isAddTimestamp = false)
    {w w' : FileWrite} (hw : Fmt.IsPlain w.option) (hcan : fc.CanWrite maxSize w') :
    fc.GivesOwn specs maxSize (fc.ownName w) w' ↔ w.option = w'.option := by
  have hown : fc.ownName w = before ++ (w.option ++ behind) := by
    rw [ownName, stamped, hstamp, hname, fillIn_field _ hbefore hbehind]
    rfl
  have hplain : Fmt.IsPlain (before ++ (w.option ++ behind)) := by
    simp [Fmt.IsPlain, List.mem_append, hbefore.1, hbefore.2, hw.1, hw.2, hbehind.1, hbehind.2]
  have hformat : Fmt.format specs w'.option (fc.ownName w) =
      some (fillIn w'.option fc.fileName) ↔ w.option = w'.option := by
    rw [hown, Fmt.format_of_isPlain hplain, hname, fillIn_field _ hbefore hbehind,
      Option.some.injEq, List.append_cancel_left_eq, List.append_cancel_right_eq]
  exact ⟨fun hgives => hformat.mp hgives.format,
    fun heq => ⟨hformat.mpr heq, hcan.opens _, hcan.isGood, hcan.room⟩⟩

theorem forall_givesOwn_iff (hbefore : Fmt.IsPlain before) (hbehind : Fmt.IsPlain behind)
    (hname : fc.fileName = before ++ 0x7b :: 0x7d :: behind) (hstamp : fc.isAddTimestamp = false)
    {w : FileWrite} (hw : Fmt.IsPlain w.option) {ws : List FileWrite}
    (hplain : ∀ w ∈ ws, Fmt.IsPlain w.option) (hcan : ∀ w ∈ ws, fc.CanWrite maxSize w) :
    (∀ p ∈ (fc.ownName w :: ws.map fc.ownName).zip ws, fc.GivesOwn specs maxSize p.1 p.2) ↔
      ∀ w' ∈ ws, w.option = w'.option := by
  induction ws generalizing w with
  | nil => simp
  | cons w' ws ih =>
      rw [List.forall_mem_cons] at hplain hcan
      rw [List.map_cons, List.zip_cons_cons, List.forall_mem_cons, List.forall_mem_cons,
        ih hplain.1 hplain.2 hcan.2,
        givesOwn_ownName_iff hbefore hbehind hname hstamp hw hcan.1]
      refine and_congr_right ?_
      intro heq
      rw [heq]

/-- **Without time stamps and braces** only the messages with the option of the first one are
written to their own file. -/
theorem writeAll_eq_ownFiles_iff_same (hdynamic : fc.isDynamicFileName = true)
    (hclosed : fc.logFile = none) (hactions : fc.patternActions ≠ [])
    (hbefore : Fmt.IsPlain before) (hbehind : Fmt.IsPlain behind)
    (hname : fc.fileName = before ++ 0x7b :: 0x7d :: behind) (hstamp : fc.isAddTimestamp = false)
    {w : FileWrite} {ws : List FileWrite} (hoption : ∀ w' ∈ w :: ws, w'.option ≠ [])
    (hplain : ∀ w' ∈ w :: ws, Fmt.IsPlain w'.option)
    (hcan : ∀ w' ∈ w :: ws, fc.CanWrite maxSize w') :
    fc.writeAll specs maxSize (w :: ws) =
        (w :: ws).map (fun w => .ok (some (fc.logsDir ++ fc.ownName w, fc.line w))) ↔
      ∀ w' ∈ ws, w.option = w'.option := by
  rw [List.forall_mem_cons] at hplain hcan
  have hfirst : fc.GivesOwn specs maxSize fc.fileName w := by
    refine ⟨?_, hcan.1.opens _, hcan.1.isGood, hcan.1.room⟩
    rw [hname, Fmt.format_field hbefore hbehind, fillIn_field _ hbefore hbehind]
  have hall := writeAll_named_iff specs maxSize hdynamic hclosed hactions hoption fc.fileName
  rw [List.zip_cons_cons, List.forall_mem_cons, and_iff_right hfirst,
    List.map_cons (f := ownName fc),
    forall_givesOwn_iff hbefore hbehind hname hstamp hplain.1 hplain.2 hcan.2] at hall
  exact hall

end Plain

/-- The options of a channel for the commands of accounts. -/
def gmOptions : List (List UInt8) := [ascii "2", ascii "5", ascii "%t", ascii "gm_{}.log"]

def gmChannel : FileChannel where
  type := .file
  name := ascii "GM"
  level := .info
  pattern := ascii "%t"
  patternActions := [{ key := 0x74 }]
  logsDir := ascii "logs/"
  fileName := ascii "gm_{}.log"
  isDynamicFileName := true

/-- The command of an account. -/
def gmCommand (account : List UInt8) : FileWrite where
  message := {
    source := ascii "commands.gm"
    text := ascii "ban"
    level := .info
    time := 0
    localTime := Tm.ofNumbers 0 0 0 1 0 1970 4 }
  option := account
  now := Tm.ofNumbers 0 0 0 1 0 1970 4

theorem create_gmChannel :
    create (ascii "logs/") (ascii "GM") .info (ascii "%t") gmOptions = .ok gmChannel := by
  decide +kernel

theorem writeAll_sameAccount :
    gmChannel.writeAll (fun _ _ => none) (2 ^ 63 - 2)
        [gmCommand (ascii "7"), gmCommand (ascii "7")] =
      [.ok (some (ascii "logs/gm_7.log", ascii "ban\n")),
        .ok (some (ascii "logs/gm_7.log", ascii "ban\n"))] := by
  refine (writeAll_eq_ownFiles_iff create_gmChannel (by decide +kernel) (by decide +kernel)).mpr ?_
  simp only [List.map_cons, List.zip_cons_cons, List.forall_mem_cons]
  refine ⟨⟨by decide +kernel, rfl, rfl, ?_⟩, ⟨by decide +kernel, rfl, rfl, ?_⟩, by simp⟩
  · rw [HasRoom]
    decide +kernel
  · rw [HasRoom]
    decide +kernel

/-- The second account is written to the file of the first. -/
theorem not_writeAll_eq_ownFiles :
    create (ascii "logs/") (ascii "GM") .info (ascii "%t") gmOptions = .ok gmChannel ∧
      gmChannel.writeAll (fun _ _ => none) (2 ^ 63 - 2)
          [gmCommand (ascii "7"), gmCommand (ascii "8")] ≠
        [gmCommand (ascii "7"), gmCommand (ascii "8")].map fun w =>
          .ok (some (gmChannel.logsDir ++ gmChannel.ownName w, gmChannel.line w)) :=
  ⟨create_gmChannel, by decide +kernel⟩

end FileChannel
end WarheadDiscord.Logging
