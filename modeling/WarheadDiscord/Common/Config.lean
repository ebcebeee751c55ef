import Mathlib.Data.List.Infix
import Mathlib.Data.List.Nodup
import Mathlib.Data.List.TakeWhile
import Mathlib.Tactic.Common
import WarheadDiscord.Common.StringConvert

/-!
# Configuration files

`LoadAppConfigs` loads the `.conf.dist` file, and then the `.conf` file over it.  A file is
read line by line; of two options with the same name in one file the first one counts.  The
second file replaces options of the first one.  It does not add options, apart from those of
the logging system.

Text is a list of octets, and white space is that of the C locale.  A file that can be opened
can be read to its end.  The message for an option that occurs twice passes the path of the
file to `fmt::print` as the format, which may throw if there are braces in it.

## Main definitions

* `parseLine`, `parseFile`, `addKey`, `loadFile` — the code.
* `loadInitial`, `loadAdditionalFile`, `loadAppConfigs` — `ConfigMgr`.
* `optionOf`, `firstValue`, `layeredValue` — the value that an option is meant to have.
-/

namespace WarheadDiscord

/-- Octets. -/
abbrev Text := List UInt8

/-- `std::isspace` of the C locale. -/
def isspace (c : UInt8) : Bool := c = 0x20 || (0x09 ≤ c && c ≤ 0x0d)

/-- `Warhead::String::Trim` -/
def trim (s : Text) : Text := ((s.dropWhile isspace).reverse.dropWhile isspace).reverse

/-- The lines that `std::getline` reads one after the other. -/
def getlines : Text → List Text
  | [] => [[]]
  | c :: text =>
      -- '\n'
      if c = 0x0a then [] :: getlines text
      else
        match getlines text with
        | [] => [[c]]
        | line :: lines => (c :: line) :: lines

/-- `IsLoggingSystemOptions`; both texts are searched for. -/
def isLoggingSystemOptions (optionName : Text) : Bool :=
  decide (ascii "LogChannel." <:+: optionName) || decide (ascii "Logger." <:+: optionName)

/-- A map from the names of options to their values. -/
abbrev Options := List (Text × Text)

def addKey (isOptional isReload : Bool) (options : Options) : Text × Text → Options
  | (optionName, optionKey) =>
      if isOptional && (options.lookup optionName).isNone && !isLoggingSystemOptions optionName &&
          !isReload then
        options
      else options.filter (fun o => o.1 ≠ optionName) ++ [(optionName, optionKey)]

/-- A line of a file up to the point where it is added; `none` if the line is skipped. -/
def parseLine (line : Text) : Option (Text × Text) :=
  match trim line with
  | [] => none
  | c :: rest =>
      -- '#' and '['
      if c = 0x23 || c = 0x5b then none
      else
        let line :=
          match (c :: rest).findIdx? (· = 0x23) with
          | some found => (c :: rest).take found
          | none => c :: rest
        -- '='
        match line.findIdx? (· = 0x3d) with
        | none => none
        | some equalPos =>
            if equalPos = line.length then none
            else
              -- '"'
              some (trim (line.take equalPos),
                (trim (line.drop (equalPos + 1))).filter (· ≠ 0x22))

inductive ConfigException
  | failedOpen (file : Text)
  | emptyFile (file : Text)
  /-- A `format_error` of fmt. -/
  | format (file : Text)
  deriving DecidableEq, Repr

/-- What the files are, and what the libraries do. -/
structure ConfigEnvironment where
  /-- The text of a file that can be opened. -/
  files : Text → Option Text
  /-- fmt takes the text for a format, with the arguments of the message. -/
  formats : Text → Bool
  /-- The order in which an unordered map is iterated. -/
  order : Options → Options
  formats_of_noBraces : ∀ file, 0x7b ∉ file → 0x7d ∉ file → formats file = true
  order_perm : ∀ options, (order options).Perm options

/-- The loop over the lines: the options of the file, and how many there are.  The counter is a
`uint32` that is only compared with zero; the map does not hold as many options as make it zero
again. -/
def parseLines (env : ConfigEnvironment) (file : Text) :
    List Text → Options → ℕ → Except ConfigException (Options × ℕ)
  | [], fileConfigs, count => .ok (fileConfigs, count)
  | line :: lines, fileConfigs, count =>
      match parseLine line with
      | none => parseLines env file lines fileConfigs count
      | some (entry, value) =>
          if (fileConfigs.lookup entry).isSome then
            if env.formats file then parseLines env file lines fileConfigs count
            else .error (.format file)
          else parseLines env file lines (fileConfigs ++ [(entry, value)]) (count + 1)

def parseFile (env : ConfigEnvironment) (file : Text) (isOptional isReload : Bool)
    (options : Options) : Except ConfigException (Bool × Options) :=
  match env.files file with
  | none => if isOptional then .ok (false, options) else .error (.failedOpen file)
  | some text =>
      match parseLines env file (getlines text) [] 0 with
      | .error e => .error e
      | .ok (fileConfigs, count) =>
          if count = 0 then
            if isOptional then .ok (false, options) else .error (.emptyFile file)
          else .ok (true, (env.order fileConfigs).foldl (addKey isOptional isReload) options)

/-- `LoadFile`, which catches all exceptions. -/
def loadFile (env : ConfigEnvironment) (file : Text) (isOptional isReload : Bool)
    (options : Options) : Bool × Options :=
  match parseFile env file isOptional isReload options with
  | .ok r => r
  | .error _ => (false, options)

structure ConfigMgr where
  filename : Text
  configOptions : Options
  usingDistConfig : Bool
  deriving DecidableEq, Repr

namespace ConfigMgr

def loadInitial (env : ConfigEnvironment) (file : Text) (isReload : Bool) (m : ConfigMgr) :
    Bool × ConfigMgr :=
  match loadFile env file false isReload [] with
  | (loaded, options) => (loaded, { m with configOptions := options })

def loadAdditionalFile (env : ConfigEnvironment) (file : Text) (isOptional isReload : Bool)
    (m : ConfigMgr) : Bool × ConfigMgr :=
  match loadFile env file isOptional isReload m.configOptions with
  | (loaded, options) => (loaded, { m with configOptions := options })

def loadAppConfigs (env : ConfigEnvironment) (initFileName : Text) (m : ConfigMgr) :
    Bool × ConfigMgr :=
  -- load the init config file .conf.dist
  match loadInitial env (initFileName ++ ascii ".dist") false
      { m with filename := initFileName } with
  | (false, m) => (false, m)
  | (true, m) =>
      -- load the .conf file
      match loadAdditionalFile env initFileName true false m with
      | (true, m) => (true, m)
      | (false, m) => (true, { m with usingDistConfig := true })

end ConfigMgr

/-! ## The value of an option -/

/-- An occurrence of an option: the trimmed line does not start with `#` or `[`, is cut at the
first `#`, and is split at the first `=`. -/
def optionOf (line : Text) : Option (Text × Text) :=
  if (trim line).head? = some 0x23 ∨ (trim line).head? = some 0x5b ∨
      0x3d ∉ (trim line).takeWhile (· ≠ 0x23) then
    none
  else
    some (trim (((trim line).takeWhile (· ≠ 0x23)).takeWhile (· ≠ 0x3d)),
      (trim (((trim line).takeWhile (· ≠ 0x23)).dropWhile (· ≠ 0x3d)).tail).filter (· ≠ 0x22))

/-- All occurrences in a file. -/
def occurrences (text : Text) : List (Text × Text) := (getlines text).filterMap optionOf

/-- The value of the first occurrence. -/
def firstValue (text : Text) (name : Text) : Option Text := (occurrences text).lookup name

/-- The value of an option, from the text of the `.conf.dist` file and, if there is one, the
text of the `.conf` file. -/
def layeredValue (dist : Text) (conf : Option Text) (name : Text) : Option Text :=
  match conf.bind fun text => firstValue text name with
  | some value =>
      if (firstValue dist name).isSome ∨ isLoggingSystemOptions name then some value
      else firstValue dist name
  | none => firstValue dist name

/-! ## Lines -/

/-- The position of the first octet with a property is the length of what is in front of
it. -/
theorem findIdx?_eq (p : UInt8 → Bool) (line : Text) :
    line.findIdx? p = if line.any p then some (line.takeWhile fun c => !p c).length else none := by
  induction line with
  | nil => rfl
  | cons c line ih =>
      cases hp : p c with
      | true => simp [List.findIdx?_cons, hp]
      | false => simp [List.findIdx?_cons, hp, ih]

theorem take_length_takeWhile (p : UInt8 → Bool) (line : Text) :
    line.take (line.takeWhile p).length = line.takeWhile p :=
  (List.prefix_iff_eq_take.mp (List.takeWhile_prefix p)).symm

theorem drop_length_takeWhile (p : UInt8 → Bool) (line : Text) :
    line.drop (line.takeWhile p).length = line.dropWhile p := by
  have hdrop : (line.takeWhile p ++ line.dropWhile p).drop (line.takeWhile p).length =
      line.dropWhile p := List.drop_left
  rw [List.takeWhile_append_dropWhile] at hdrop
  exact hdrop

theorem take_findIdx? (p : UInt8 → Bool) (line : Text) :
    (match line.findIdx? p with
      | some found => line.take found
      | none => line) = line.takeWhile fun c => !p c := by
  rw [findIdx?_eq]
  cases hany : line.any p with
  | true =>
      rw [if_pos rfl]
      exact take_length_takeWhile _ _
  | false =>
      rw [if_neg Bool.false_ne_true]
      refine (List.takeWhile_eq_self_iff.mpr fun c hc => ?_).symm
      simpa using List.any_eq_false.mp hany c hc

theorem not_decide_eq (a : UInt8) : (fun c => !decide (c = a)) = fun c => decide (c ≠ a) := by
  funext c
  simp

theorem parseLine_eq (line : Text) : parseLine line = optionOf line := by
  rw [parseLine, optionOf]
  cases trim line with
  | nil => simp
  | cons c rest =>
      simp only [List.head?_cons, Option.some.injEq, take_findIdx?, not_decide_eq]
      by_cases hcomment : c = 0x23 ∨ c = 0x5b
      · have hor : c = 0x23 ∨ c = 0x5b ∨ 0x3d ∉ (c :: rest).takeWhile (· ≠ 0x23) := by tauto
        rw [if_pos (by simpa using hcomment), if_pos hor]
      · rw [if_neg (by simpa using hcomment)]
        -- the line up to its comment
        generalize (c :: rest).takeWhile (· ≠ 0x23) = cut
        rw [findIdx?_eq, not_decide_eq]
        by_cases hequal : (0x3d : UInt8) ∈ cut
        · have hany : cut.any (· = 0x3d) = true := by simpa using hequal
          have hlength : (cut.takeWhile (· ≠ 0x3d)).length ≠ cut.length := by
            intro heq
            have hself := (List.takeWhile_prefix _).eq_of_length heq
            have hne := List.takeWhile_eq_self_iff.mp hself 0x3d hequal
            simp at hne
          have hnot : ¬(c = 0x23 ∨ c = 0x5b ∨ (0x3d : UInt8) ∉ cut) := by tauto
          simp only [hany, if_true]
          rw [if_neg hlength, if_neg hnot, take_length_takeWhile, ← List.drop_drop,
            drop_length_takeWhile, List.drop_one]
        · have hany : cut.any (· = 0x3d) = false :=
            Bool.eq_false_iff.mpr fun h => hequal (by simpa using h)
          simp [hany, hequal]

/-! ## Maps -/

/-- The names of the options. -/
def names (options : Options) : List Text := options.map Prod.fst

theorem isSome_lookup {options : Options} {name : Text} :
    (options.lookup name).isSome ↔ name ∈ names options := by
  simp [names]

theorem lookup_eq_none {options : Options} {name : Text} :
    options.lookup name = none ↔ name ∉ names options := by
  rw [← isSome_lookup, Option.not_isSome_iff_eq_none]

theorem lookup_eq_some {options : Options} (hnodup : (names options).Nodup) {name value : Text} :
    options.lookup name = some value ↔ (name, value) ∈ options := by
  induction options with
  | nil => simp
  | cons o options ih =>
      obtain ⟨name', value'⟩ := o
      obtain ⟨hnot, hnodup⟩ := List.nodup_cons.mp hnodup
      rw [List.lookup_cons, List.mem_cons]
      by_cases heq : name = name'
      · subst heq
        have hmem : (name, value) ∉ options := fun hmem =>
          hnot (List.mem_map.mpr ⟨_, hmem, rfl⟩)
        simp [hmem, eq_comm]
      · simp [heq, ih hnodup, beq_false_of_ne heq]

/-- The order of the options does not matter. -/
theorem lookup_perm {options options' : Options} (hperm : options.Perm options')
    (hnodup : (names options').Nodup) (name : Text) :
    options.lookup name = options'.lookup name := by
  have hnodup' : (names options).Nodup := (hperm.map Prod.fst).nodup_iff.mpr hnodup
  ext value
  rw [lookup_eq_some hnodup', lookup_eq_some hnodup, hperm.mem_iff]

/-! ## Files -/

/-- The loop over the lines of a file whose path can be printed: of each name, the first
occurrence is taken. -/
theorem parseLines_eq {env : ConfigEnvironment} {file : Text} (hfile : env.formats file = true)
    (lines : List Text) {fileConfigs : Options} (hnodup : (names fileConfigs).Nodup) :
    ∃ options, parseLines env file lines fileConfigs fileConfigs.length =
        .ok (options, options.length) ∧ (names options).Nodup ∧
      ∀ name, options.lookup name =
        (fileConfigs.lookup name).or ((lines.filterMap optionOf).lookup name) := by
  induction lines generalizing fileConfigs with
  | nil => exact ⟨fileConfigs, rfl, hnodup, fun name => by simp⟩
  | cons line lines ih =>
      rw [parseLines, parseLine_eq]
      cases hoption : optionOf line with
      | none =>
          rw [List.filterMap_cons_none hoption]
          exact ih hnodup
      | some o =>
          obtain ⟨entry, value⟩ := o
          rw [List.filterMap_cons_some hoption]
          dsimp only
          by_cases hmem : entry ∈ names fileConfigs
          · -- a name that occurred before
            rw [if_pos (isSome_lookup.mpr hmem), if_pos hfile]
            obtain ⟨options, hparse, hnodup', hlookup⟩ := ih hnodup
            refine ⟨options, hparse, hnodup', fun name => ?_⟩
            rw [hlookup, List.lookup_cons]
            by_cases heq : name = entry
            · subst heq
              obtain ⟨value', hvalue'⟩ := Option.isSome_iff_exists.mp (isSome_lookup.mpr hmem)
              simp [hvalue']
            · simp [beq_false_of_ne heq]
          · rw [if_neg (fun h => hmem (isSome_lookup.mp h))]
            have hnodup' : (names (fileConfigs ++ [(entry, value)])).Nodup := by
              rw [names, List.map_append, List.map_singleton, ← List.concat_eq_append]
              exact hnodup.concat hmem
            obtain ⟨options, hparse, hnodup'', hlookup⟩ := ih hnodup'
            rw [List.length_append, List.length_singleton] at hparse
            refine ⟨options, hparse, hnodup'', fun name => ?_⟩
            rw [hlookup, List.lookup_append, Option.or_assoc, List.lookup_singleton,
              List.lookup_cons]
            cases name == entry <;> simp

theorem lookup_erase (options : Options) (entry name : Text) :
    (options.filter fun o => o.1 ≠ entry).lookup name =
      if name = entry then none else options.lookup name := by
  induction options with
  | nil => simp
  | cons o options ih =>
      obtain ⟨name', value'⟩ := o
      by_cases hentry : name' = entry
      · subst hentry
        rw [List.filter_cons_of_neg (by simp), ih, List.lookup_cons]
        by_cases heq : name = name'
        · simp [heq]
        · simp [heq, beq_false_of_ne heq]
      · rw [List.filter_cons_of_pos (by simpa using hentry), List.lookup_cons, List.lookup_cons, ih]
        by_cases heq : name = name'
        · subst heq
          simp [hentry]
        · simp [beq_false_of_ne heq]

/-- `AddKey` skips the option. -/
def Skips (isOptional isReload : Bool) (options : Options) (name : Text) : Prop :=
  isOptional = true ∧ name ∉ names options ∧ isLoggingSystemOptions name = false ∧ isReload = false

instance (isOptional isReload : Bool) (options : Options) (name : Text) :
    Decidable (Skips isOptional isReload options name) :=
  inferInstanceAs (Decidable (_ ∧ _))

theorem lookup_addKey (isOptional isReload : Bool) (options : Options) (entry value name : Text) :
    (addKey isOptional isReload options (entry, value)).lookup name =
      if name = entry ∧ ¬Skips isOptional isReload options name then some value
      else options.lookup name := by
  have hskips : (isOptional && (options.lookup entry).isNone && !isLoggingSystemOptions entry &&
      !isReload) = true ↔ Skips isOptional isReload options entry := by
    simp [Skips, ← lookup_eq_none, and_assoc]
  rw [addKey]
  by_cases hskip : Skips isOptional isReload options entry
  · have hnot : ¬(name = entry ∧ ¬Skips isOptional isReload options name) := by
      rintro ⟨rfl, h⟩
      exact h hskip
    rw [if_pos (hskips.mpr hskip), if_neg hnot]
  · rw [if_neg (fun h => hskip (hskips.mp h)), List.lookup_append, lookup_erase,
      List.lookup_singleton]
    by_cases heq : name = entry
    · subst heq
      simp [hskip]
    · simp [heq, beq_false_of_ne heq]

theorem skips_congr {isOptional isReload : Bool} {options options' : Options} {name : Text}
    (h : options.lookup name = options'.lookup name) :
    Skips isOptional isReload options name ↔ Skips isOptional isReload options' name := by
  rw [Skips, Skips, ← lookup_eq_none, ← lookup_eq_none, h]

/-- Adding all options of a file: each of them is added or skipped by itself. -/
theorem lookup_addKeys (isOptional isReload : Bool) {fileConfigs : Options}
    (hnodup : (names fileConfigs).Nodup) (options : Options) (name : Text) :
    (fileConfigs.foldl (addKey isOptional isReload) options).lookup name =
      if Skips isOptional isReload options name then none
      else (fileConfigs.lookup name).or (options.lookup name) := by
  induction fileConfigs generalizing options with
  | nil =>
      rw [List.foldl_nil, List.lookup_nil, Option.none_or]
      split
      · rename_i hskip
        exact lookup_eq_none.mpr hskip.2.1
      · rfl
  | cons o fileConfigs ih =>
      obtain ⟨entry, value⟩ := o
      obtain ⟨hnot, hnodup⟩ := List.nodup_cons.mp hnodup
      have hadd := lookup_addKey isOptional isReload options entry value name
      rw [List.foldl_cons, ih hnodup]
      by_cases heq : name = entry
      · subst heq
        have hrest : fileConfigs.lookup name = none := lookup_eq_none.mpr hnot
        by_cases hskip : Skips isOptional isReload options name
        · rw [if_neg (fun h => h.2 hskip)] at hadd
          rw [if_pos ((skips_congr hadd).mpr hskip), if_pos hskip]
        · rw [if_pos ⟨rfl, hskip⟩] at hadd
          have hskip' : ¬Skips isOptional isReload
              (addKey isOptional isReload options (name, value)) name := by
            intro h
            exact h.2.1 (isSome_lookup.mp (by rw [hadd]; rfl))
          rw [if_neg hskip', if_neg hskip, hrest, hadd, List.lookup_cons_self]
          rfl
      · rw [if_neg (fun h => heq h.1)] at hadd
        simp only [skips_congr hadd, hadd, List.lookup_cons, beq_false_of_ne heq]

theorem occurrences_eq_nil_iff {text : Text} :
    occurrences text = [] ↔ ∀ name, firstValue text name = none := by
  constructor
  · intro h name
    rw [firstValue, h, List.lookup_nil]
  · intro h
    cases hoccurrences : occurrences text with
    | nil => rfl
    | cons o rest =>
        have hfirst := h o.1
        rw [firstValue, hoccurrences, List.lookup_cons_self] at hfirst
        cases hfirst

theorem parseLines_text {env : ConfigEnvironment} {file : Text} (hfile : env.formats file = true)
    (text : Text) :
    ∃ fileConfigs, parseLines env file (getlines text) [] 0 =
        .ok (fileConfigs, fileConfigs.length) ∧ (names fileConfigs).Nodup ∧
      ∀ name, fileConfigs.lookup name = firstValue text name := by
  have hnil : (names []).Nodup := List.nodup_nil
  obtain ⟨fileConfigs, hparse, hnodup, hlookup⟩ := parseLines_eq hfile (getlines text) hnil
  refine ⟨fileConfigs, hparse, hnodup, fun name => ?_⟩
  rw [hlookup, List.lookup_nil, Option.none_or]
  rfl

theorem length_eq_zero_iff {fileConfigs : Options} {text : Text}
    (h : ∀ name, fileConfigs.lookup name = firstValue text name) :
    fileConfigs.length = 0 ↔ occurrences text = [] := by
  rw [List.length_eq_zero_iff, occurrences_eq_nil_iff]
  constructor
  · rintro rfl name
    rw [← h, List.lookup_nil]
  · intro hnone
    refine List.eq_nil_iff_forall_not_mem.mpr fun o ho => ?_
    have hlookup := (h o.1).trans (hnone o.1)
    exact lookup_eq_none.mp hlookup (List.mem_map_of_mem ho)

/-- **A file with an option is loaded**, and each of its options is added or skipped. -/
theorem loadFile_some {env : ConfigEnvironment} {file text : Text}
    (hfile : env.formats file = true) (htext : env.files file = some text)
    (hoccurrences : occurrences text ≠ []) (isOptional isReload : Bool) (options : Options) :
    ∃ options', loadFile env file isOptional isReload options = (true, options') ∧
      ∀ name, options'.lookup name =
        if Skips isOptional isReload options name then none
        else (firstValue text name).or (options.lookup name) := by
  obtain ⟨fileConfigs, hparse, hnodup, hlookup⟩ := parseLines_text hfile text
  have hcount : fileConfigs.length ≠ 0 := fun h => hoccurrences ((length_eq_zero_iff hlookup).mp h)
  have hperm := env.order_perm fileConfigs
  have hnodup' : (names (env.order fileConfigs)).Nodup :=
    (hperm.map Prod.fst).nodup_iff.mpr hnodup
  have hload : loadFile env file isOptional isReload options =
      (true, (env.order fileConfigs).foldl (addKey isOptional isReload) options) := by
    simp only [loadFile, parseFile, htext, hparse, if_neg hcount]
  refine ⟨_, hload, fun name => ?_⟩
  rw [lookup_addKeys isOptional isReload hnodup', lookup_perm hperm hnodup, hlookup]

/-- An optional file that cannot be opened, or has no option, changes nothing. -/
theorem loadFile_optional {env : ConfigEnvironment} {file : Text}
    (hfile : env.formats file = true)
    (hoccurrences : ∀ text, env.files file = some text → occurrences text = [])
    (isReload : Bool) (options : Options) :
    loadFile env file true isReload options = (false, options) := by
  cases htext : env.files file with
  | none => simp [loadFile, parseFile, htext]
  | some text =>
      obtain ⟨fileConfigs, hparse, -, hlookup⟩ := parseLines_text hfile text
      have hcount := (length_eq_zero_iff hlookup).mpr (hoccurrences text htext)
      simp [loadFile, parseFile, htext, hparse, hcount]

/-- Without an option in the `.conf` file, the value is that of the `.conf.dist` file. -/
theorem layeredValue_of_empty {dist : Text} {conf : Option Text}
    (hempty : ∀ text, conf = some text → occurrences text = []) (name : Text) :
    layeredValue dist conf name = firstValue dist name := by
  have hnone : (conf.bind fun text => firstValue text name) = none := by
    rw [Option.bind_eq_none_iff]
    intro text htext
    exact occurrences_eq_nil_iff.mp (hempty text htext) name
  rw [layeredValue, hnone]

/-- The `.conf` file over the options of the `.conf.dist` file. -/
theorem layeredValue_some {options : Options} {dist conf name : Text}
    (hfirst : options.lookup name = firstValue dist name) :
    layeredValue dist (some conf) name =
      if Skips true false options name then none
      else (firstValue conf name).or (options.lookup name) := by
  have hskips : Skips true false options name ↔
      ¬((firstValue dist name).isSome ∨ isLoggingSystemOptions name = true) := by
    rw [Skips, ← isSome_lookup, hfirst]
    simp
  rw [layeredValue, Option.bind_some, hfirst]
  by_cases hskip : Skips true false options name
  · have hnone : firstValue dist name = none := by
      rw [← hfirst]
      exact lookup_eq_none.mpr hskip.2.1
    rw [if_pos hskip]
    cases firstValue conf name with
    | none => exact hnone
    | some value =>
        dsimp only
        rw [if_neg (hskips.mp hskip), hnone]
  · rw [if_neg hskip]
    cases firstValue conf name with
    | none => rfl
    | some value =>
        dsimp only
        rw [if_pos (not_not.mp fun h => hskip (hskips.mpr h)), Option.some_or]

namespace ConfigMgr

/-- **Layered configuration**: the options after `LoadAppConfigs`, for every text of the
`.conf.dist` file that has an option, and every text of the `.conf` file, if there is one. -/
theorem loadAppConfigs_spec (env : ConfigEnvironment) (initFileName dist : Text) (m : ConfigMgr)
    (hbraces : 0x7b ∉ initFileName ∧ 0x7d ∉ initFileName)
    (hdist : env.files (initFileName ++ ascii ".dist") = some dist)
    (hoption : occurrences dist ≠ []) :
    ∃ m', loadAppConfigs env initFileName m = (true, m') ∧
      (∀ name, m'.configOptions.lookup name =
        layeredValue dist (env.files initFileName) name) ∧
      ((∀ conf, env.files initFileName = some conf → occurrences conf = []) →
        m'.configOptions =
          (loadInitial env (initFileName ++ ascii ".dist") false m).2.configOptions) := by
  have hdistBraces : env.formats (initFileName ++ ascii ".dist") = true := by
    refine env.formats_of_noBraces _ ?_ ?_
    · rw [List.mem_append, not_or]
      exact ⟨hbraces.1, by decide⟩
    · rw [List.mem_append, not_or]
      exact ⟨hbraces.2, by decide⟩
  have hconfBraces := env.formats_of_noBraces initFileName hbraces.1 hbraces.2
  obtain ⟨options, hload, hlookup⟩ := loadFile_some hdistBraces hdist hoption false false []
  have hfirst : ∀ name, options.lookup name = firstValue dist name := by
    intro name
    rw [hlookup, if_neg (fun h => Bool.false_ne_true h.1), List.lookup_nil, Option.or_none]
  by_cases hempty : ∀ conf, env.files initFileName = some conf → occurrences conf = []
  · have hconf := loadFile_optional hconfBraces hempty false options
    refine ⟨⟨initFileName, options, true⟩, ?_, ?_, fun _ => ?_⟩
    · simp only [loadAppConfigs, loadInitial, hload, loadAdditionalFile, hconf]
    · intro name
      rw [layeredValue_of_empty hempty]
      exact hfirst name
    · simp only [loadInitial, hload]
  · push Not at hempty
    obtain ⟨conf, htext, hoccurrences⟩ := hempty
    obtain ⟨options', hconf, hlookup'⟩ :=
      loadFile_some hconfBraces htext hoccurrences true false options
    refine ⟨⟨initFileName, options', m.usingDistConfig⟩, ?_, ?_, fun h => ?_⟩
    · simp only [loadAppConfigs, loadInitial, hload, loadAdditionalFile, hconf]
    · intro name
      rw [htext, layeredValue_some (hfirst name)]
      exact hlookup' name
    · exact absurd (h conf htext) hoccurrences

/-- The text of a `.conf.dist` file with three options, one of them twice. -/
def distText : Text := ascii "[s]\n A = 1 # one\nB=\"x y\"\nA = 2\n\tC =\n"

/-- The `.conf` file replaces an option, and has an unknown one and one of the logging
system. -/
def twoFiles : ConfigEnvironment where
  files := fun file =>
    if file = ascii "w.conf.dist" then some distText
    else if file = ascii "w.conf" then some (ascii "B = b\nB = c\nD = 4\nLogger.root=5\n")
    else none
  formats := fun _ => true
  order := fun options => options
  formats_of_noBraces := fun _ _ _ => rfl
  order_perm := fun options => .refl options

theorem loadAppConfigs_spec_twoFiles :
    ∃ m, loadAppConfigs twoFiles (ascii "w.conf") ⟨[], [], false⟩ = (true, m) ∧
      m.configOptions = [(ascii "A", ascii "1"), (ascii "C", []), (ascii "B", ascii "b"),
        (ascii "Logger.root", ascii "5")] ∧
      ∀ name, m.configOptions.lookup name =
        layeredValue distText (twoFiles.files (ascii "w.conf")) name := by
  have hrun : (loadAppConfigs twoFiles (ascii "w.conf") ⟨[], [], false⟩).2.configOptions =
      [(ascii "A", ascii "1"), (ascii "C", []), (ascii "B", ascii "b"),
        (ascii "Logger.root", ascii "5")] := by
    decide +kernel
  obtain ⟨m, hload, hlookup, -⟩ := loadAppConfigs_spec twoFiles (ascii "w.conf") distText
    ⟨[], [], false⟩ (by decide) (by decide +kernel) (by decide +kernel)
  rw [hload] at hrun
  exact ⟨m, hload, hrun, hlookup⟩

end ConfigMgr
end WarheadDiscord
