import WarheadDiscord.Common.Config

/-!
# The two configuration layers

`ConfigMgr` holds the texts of the configuration files and converts one when an option is
asked for; where there is none, or a bad one, it answers the default of the call.
`DiscordConfig` keeps texts of its own.  The first call for a name puts one there: the
configured text, or else the default of that call, written out.  Each call converts what is
kept.  Where that fails it reports that the default of the call is used, and answers a
constant of the type.

So the two layers differ where a configured value is bad, and where an earlier call for the
name had another default or another type (`getOption_agrees_iff`).

How a `float` is written and read is left to the libraries, of which only one thing is used:
what fmt writes is read back.

## Main definitions

* `FloatText`, `OptionType`, `OptionType.Value` — the types of options.
* `ConfigMgr.getOption` — the lower layer.
* `DiscordConfig`, `addOption`, `getOption` — the upper layer.
* `Agrees` — when both answer the same.
-/

namespace WarheadDiscord

/-- How floating point numbers are written by fmt and read by `StringTo`. -/
structure FloatText where
  Value : Type
  /-- `1.0f` -/
  one : Value
  /-- `fmt::format("{}", value)`, the shortest text that is read as the value. -/
  format : Value → Text
  /-- `StringTo<float>` -/
  stringTo : Text → Option Value
  stringTo_format : ∀ v, stringTo (format v) = some v

/-- The types `GetOption` is instantiated for. -/
inductive OptionType
  | integral (T : IntegralType)
  | float
  | string
  deriving DecidableEq, Repr

/-- The values of a type. -/
abbrev OptionType.Value (F : FloatText) : OptionType → Type
  | .integral T => { v : ℤ // T.Represents v }
  | .float => F.Value
  | .string => Text

theorem represents_of_stringTo {T : IntegralType} {str : Text} {v : ℤ}
    (h : stringTo T str = some v) : T.Represents v := by
  rw [stringTo] at h
  split at h
  · rename_i hT
    subst hT
    rw [boolFromString] at h
    split_ifs at h
    · cases h
      decide
    · cases h
      decide
  · rw [fromChars, Option.filter_eq_some_iff] at h
    exact of_decide_eq_true h.2

/-- The two texts of a `bool`. -/
theorem stringTo_bool_ite {no yes : Text} (hno : stringTo .bool no = some 0)
    (hyes : stringTo .bool yes = some 1) {v : ℤ} (hv : IntegralType.bool.Represents v) :
    stringTo .bool (if v = 0 then no else yes) = some v := by
  obtain ⟨hlo, hhi⟩ : 0 ≤ v ∧ v ≤ 1 := hv
  obtain rfl | rfl : v = 0 ∨ v = 1 := by omega
  · exact hno
  · exact hyes

section Types
variable (F : FloatText)

/-- `StringTo<T>`; a `std::string` is taken as it is. -/
def stringToValue : (T : OptionType) → Text → Option (T.Value F)
  | .integral T, str =>
      (stringTo T str).pmap (fun v h => ⟨v, h⟩) fun _ h => represents_of_stringTo h
  | .float, str => F.stringTo str
  | .string, str => some str

/-- `StringFormat("{}", value)` -/
def formatValue : (T : OptionType) → T.Value F → Text
  | .integral T, v =>
      if T = .bool then if v.1 = 0 then ascii "false" else ascii "true" else decimalText v.1
  | .float, v => F.format v
  | .string, v => v

/-- `GetDefaultValue<T>` -/
def getDefaultValue : (T : OptionType) → T.Value F
  | .integral T => ⟨0, T.represents_zero⟩
  | .float => F.one
  | .string => []

/-- `GetDefaultValueString` -/
def getDefaultValueString (T : OptionType) (value : Option (T.Value F)) : Text :=
  match value with
  | none => formatValue F T (getDefaultValue F T)
  | some value => formatValue F T value

theorem stringToValue_integral {T : IntegralType} {str : Text} {v : ℤ}
    (h : stringTo T str = some v) (hv : T.Represents v) :
    stringToValue F (.integral T) str = some ⟨v, hv⟩ := by
  simp only [stringToValue, h]
  rfl

/-- **A default is read back from its text.** -/
theorem stringToValue_formatValue (T : OptionType) (value : T.Value F) :
    stringToValue F T (formatValue F T value) = some value := by
  cases T with
  | integral T =>
      obtain ⟨v, hv⟩ := value
      have hread : stringTo T (formatValue F (.integral T) ⟨v, hv⟩) = some v := by
        by_cases hT : T = .bool
        · subst hT
          exact stringTo_bool_ite (by decide +kernel) (by decide +kernel) hv
        · simp only [formatValue, if_neg hT]
          exact stringTo_decimalText hv
      exact stringToValue_integral F hread hv
  | float => exact F.stringTo_format value
  | string => rfl

end Types

/-! ## `ConfigMgr` -/

namespace ConfigMgr
variable (F : FloatText)

/-- `GetValueDefault` and its specialization for `std::string`. -/
def getValueDefault (options : Options) (T : OptionType) (name : Text) (value : T.Value F) :
    T.Value F :=
  match options.lookup name with
  | none => value
  | some text =>
      match stringToValue F T text with
      | none => value
      | some result => result

/-- The value of a `bool` as `ToString` writes it. -/
def boolToString (v : ℤ) : Text := if v = 0 then ascii "0" else ascii "1"

/-- `GetOption`.  The specialization for `bool` reads the text that is configured, or the text
of the default. -/
def getOption (options : Options) (T : OptionType) (name : Text) (value : T.Value F) : T.Value F :=
  match T, value with
  | .integral .bool, value =>
      match stringToValue F (.integral .bool)
          (getValueDefault F options .string name (boolToString value.1)) with
      | none => value
      | some result => result
  | T, value => getValueDefault F options T name value

/-- **What is configured, if it reads as a value of the type; otherwise the default.** -/
theorem getOption_eq (options : Options) (T : OptionType) (name : Text) (value : T.Value F) :
    getOption F options T name value =
      ((options.lookup name).bind (stringToValue F T)).getD value := by
  have hgeneral : getValueDefault F options T name value =
      ((options.lookup name).bind (stringToValue F T)).getD value := by
    rw [getValueDefault]
    cases options.lookup name with
    | none => rfl
    | some text =>
        cases hread : stringToValue F T text with
        | none => simp [hread]
        | some result => simp [hread]
  cases T with
  | integral T =>
      cases T with
      | bool =>
          obtain ⟨v, hv⟩ := value
          have hdefault : stringToValue F (.integral .bool) (boolToString v) = some ⟨v, hv⟩ :=
            stringToValue_integral F
              (stringTo_bool_ite (by decide +kernel) (by decide +kernel) hv) hv
          simp only [getOption, getValueDefault]
          cases options.lookup name with
          | none =>
              simp only [hdefault]
              rfl
          | some text =>
              have hstring : stringToValue F .string text = some text := rfl
              simp only [hstring, Option.bind_some]
              cases stringToValue F (.integral .bool) text <;> rfl
      | _ => exact hgeneral
  | float => exact hgeneral
  | string => exact hgeneral

end ConfigMgr

/-! ## `DiscordConfig` -/

/-- The upper layer: the texts it keeps. -/
structure DiscordConfig where
  configOptions : Options := []
  deriving DecidableEq, Repr

namespace DiscordConfig
section Code
variable (F : FloatText) (options : Options)

/-- `AddOption` -/
def addOption (c : DiscordConfig) (T : OptionType) (optionName : Text)
    (value : Option (T.Value F)) : DiscordConfig where
  configOptions := c.configOptions.filter (fun o => o.1 ≠ optionName) ++
    [(optionName,
      ConfigMgr.getOption F options .string optionName (getDefaultValueString F T value))]

/-- The answer of a call, and what it logs. -/
structure Answer (T : OptionType) where
  value : T.Value F
  message : Option Text := none

/-- `GetOption` -/
def getOption (c : DiscordConfig) (T : OptionType) (optionName : Text)
    (value : Option (T.Value F)) : Answer F T × DiscordConfig :=
  let c :=
    if (c.configOptions.lookup optionName).isNone then
      c.addOption F options T optionName value
    else c
  let defStr := getDefaultValueString F T value
  match c.configOptions.lookup optionName with
  | none =>
      ({ value := getDefaultValue F T
         message := some (ascii "> DiscordConfig: option (" ++ optionName ++
          ascii ") is not exists. Returned (" ++ defStr ++ ascii ")") }, c)
  | some text =>
      match stringToValue F T text with
      | none =>
          ({ value := getDefaultValue F T
             message := some (ascii "> DiscordConfig: Bad value defined for '" ++ optionName ++
              ascii "', use '" ++ defStr ++ ascii "' instead") }, c)
      | some result => ({ value := result }, c)

/-- A call of `GetOption`. -/
structure Call where
  T : OptionType
  optionName : Text
  value : Option (T.Value F)

/-- The state after some calls. -/
def afterCalls (c : DiscordConfig) (calls : List (Call F)) : DiscordConfig :=
  calls.foldl (fun c call => (c.getOption F options call.T call.optionName call.value).2) c

/-- The text that a call keeps if it is the first one for its name. -/
def Call.text {F : FloatText} (call : Call F) (options : Options) : Text :=
  (options.lookup call.optionName).getD (getDefaultValueString F call.T call.value)

end Code

variable {F : FloatText} (options : Options)

theorem lookup_addOption (c : DiscordConfig) (call : Call F) (name : Text) :
    (c.addOption F options call.T call.optionName call.value).configOptions.lookup name =
      if name = call.optionName then some (call.text options) else c.configOptions.lookup name := by
  have htext : ConfigMgr.getOption F options .string call.optionName
      (getDefaultValueString F call.T call.value) = call.text options := by
    rw [ConfigMgr.getOption_eq, Call.text]
    cases options.lookup call.optionName <;> rfl
  rw [addOption, htext, List.lookup_append, lookup_erase, List.lookup_singleton]
  by_cases heq : name = call.optionName
  · simp [heq]
  · simp [heq, beq_false_of_ne heq]

theorem getOption_snd (c : DiscordConfig) (call : Call F) :
    (c.getOption F options call.T call.optionName call.value).2 =
      if (c.configOptions.lookup call.optionName).isNone then
        c.addOption F options call.T call.optionName call.value
      else c := by
  simp only [getOption]
  split
  · rfl
  · split <;> rfl

/-- A call keeps its text for its name, unless there is one already. -/
theorem lookup_getOption (c : DiscordConfig) (call : Call F) (name : Text) :
    (c.getOption F options call.T call.optionName call.value).2.configOptions.lookup name =
      (c.configOptions.lookup name).or
        (if name = call.optionName then some (call.text options) else none) := by
  rw [getOption_snd]
  by_cases heq : name = call.optionName
  · subst heq
    cases hkept : c.configOptions.lookup call.optionName with
    | none => simp [lookup_addOption]
    | some text => simp [hkept]
  · split
    · simp [lookup_addOption, heq]
    · simp

/-- What a call answers: its own text, or the one that is kept, converted. -/
theorem value_getOption (c : DiscordConfig) (call : Call F) :
    (c.getOption F options call.T call.optionName call.value).1.value =
      (stringToValue F call.T
        ((c.configOptions.lookup call.optionName).getD (call.text options))).getD
          (getDefaultValue F call.T) := by
  have hlookup := lookup_getOption options c call call.optionName
  rw [getOption_snd, if_pos rfl] at hlookup
  simp only [getOption, hlookup]
  cases c.configOptions.lookup call.optionName with
  | none =>
      simp only [Option.none_or, Option.getD_none]
      cases stringToValue F call.T (call.text options) <;> rfl
  | some text =>
      simp only [Option.some_or, Option.getD_some]
      cases stringToValue F call.T text <;> rfl

/-- **What is kept for a name comes from the first call for it.** -/
theorem lookup_afterCalls (c : DiscordConfig) (calls : List (Call F)) (name : Text) :
    (c.afterCalls F options calls).configOptions.lookup name =
      (c.configOptions.lookup name).or
        ((calls.find? fun call => call.optionName = name).map fun call => call.text options) := by
  induction calls generalizing c with
  | nil => simp [afterCalls]
  | cons call calls ih =>
      have hrest := ih (c.getOption F options call.T call.optionName call.value).2
      rw [afterCalls, List.foldl_cons]
      rw [afterCalls] at hrest
      rw [hrest, lookup_getOption, Option.or_assoc]
      by_cases heq : call.optionName = name
      · simp [heq]
      · have hne : name ≠ call.optionName := fun h => heq h.symm
        simp [heq, hne]

theorem optionName_of_find? {calls : List (Call F)} {first : Call F} {name : Text}
    (h : calls.find? (fun call => call.optionName = name) = some first) :
    first.optionName = name := by
  simpa using List.find?_some h

/-! ## When the layers agree -/

/-- A configured value reads as one of the type, or the default is the constant of the type.
Without one, the default of the first call for the name reads as the default of this call, or
reads as no value at all and the default is the constant. -/
def Agrees (options : Options) (calls : List (Call F)) (T : OptionType) (name : Text)
    (value : T.Value F) : Prop :=
  match options.lookup name with
  | some text => (stringToValue F T text).isSome ∨ value = getDefaultValue F T
  | none =>
      match calls.find? fun call => call.optionName = name with
      | none => True
      | some first =>
          let text := getDefaultValueString F first.T first.value
          stringToValue F T text = some value ∨
            stringToValue F T text = none ∧ value = getDefaultValue F T

/-- **When the two layers agree.**  `ConfigMgr` answers what is configured, or the default of
the call; after any calls `DiscordConfig` answers the same exactly if `Agrees`. -/
theorem getOption_agrees_iff (F : FloatText) (options : Options) (calls : List (Call F))
    (T : OptionType) (name : Text) (value : T.Value F) :
    (((({} : DiscordConfig).afterCalls F options calls).getOption F options T name
        (some value)).1.value = ConfigMgr.getOption F options T name value ∧
      ConfigMgr.getOption F options T name value =
        ((options.lookup name).bind (stringToValue F T)).getD value) ↔
      Agrees options calls T name value := by
  have hvalue := value_getOption options (({} : DiscordConfig).afterCalls F options calls)
    ⟨T, name, some value⟩
  have hkept := lookup_afterCalls options {} calls name
  rw [show ({} : DiscordConfig).configOptions.lookup name = none from rfl, Option.none_or] at hkept
  rw [hkept] at hvalue
  rw [ConfigMgr.getOption_eq, hvalue, and_iff_left rfl, Agrees]
  cases hconfigured : options.lookup name with
  | some text =>
      -- every call for the name keeps the configured text
      have htext : ((calls.find? fun call => call.optionName = name).map fun call =>
          call.text options).getD (Call.text ⟨T, name, some value⟩ options) = text := by
        cases hfirst : calls.find? fun call => call.optionName = name with
        | none => simp [Call.text, hconfigured]
        | some first => simp [Call.text, optionName_of_find? hfirst, hconfigured]
      simp only [htext, Option.bind_some]
      cases stringToValue F T text with
      | none => simp [eq_comm]
      | some result => simp
  | none =>
      cases hfirst : calls.find? fun call => call.optionName = name with
      | none =>
          simp [Call.text, hconfigured, getDefaultValueString, stringToValue_formatValue]
      | some first =>
          simp only [Call.text, optionName_of_find? hfirst, hconfigured, Option.map_some,
            Option.getD_some, Option.getD_none, Option.bind_none]
          cases stringToValue F T (getDefaultValueString F first.T first.value) with
          | none => simp [eq_comm]
          | some result => simp

/-- Whole numbers that every `float` holds exactly, as fmt writes them. -/
def wholeFloats : FloatText where
  Value := { v : ℤ // IntegralType.int16.Represents v }
  one := ⟨1, by decide⟩
  format v := decimalText v.1
  stringTo str :=
    (WarheadDiscord.stringTo .int16 str).pmap (fun v h => ⟨v, h⟩)
      fun _ h => represents_of_stringTo h
  stringTo_format v := by
    simp only [stringTo_decimalText v.2]
    rfl

/-- A rate asked for twice, as a `float` and as a number: the default of the first call reads as
that of the second. -/
theorem getOption_agrees_rate :
    ((({} : DiscordConfig).afterCalls wholeFloats [] [⟨.float, ascii "Rate", some ⟨3, by decide⟩⟩]
      ).getOption wholeFloats [] (.integral .uint16) (ascii "Rate")
        (some ⟨3, by decide⟩)).1.value = ⟨3, by decide⟩ := by
  have hread : stringToValue wholeFloats (.integral .uint16) (decimalText 3) =
      some ⟨3, by decide⟩ := stringToValue_integral _ (by decide +kernel) _
  have hagrees := (getOption_agrees_iff wholeFloats []
    [⟨.float, ascii "Rate", some ⟨3, by decide⟩⟩] (.integral .uint16) (ascii "Rate")
    ⟨3, by decide⟩).mpr (.inl hread)
  exact hagrees.1

/-- A port that is not a number: the lower layer answers the default, the upper one zero. -/
theorem not_getOption_agrees :
    ¬ ∀ (F : FloatText) (options : Options) (calls : List (Call F)) (T : OptionType) (name : Text)
      (value : T.Value F),
      ((({} : DiscordConfig).afterCalls F options calls).getOption F options T name
        (some value)).1.value = ConfigMgr.getOption F options T name value := by
  intro h
  have hport := h wholeFloats [(ascii "ServerPort", ascii "http")] [] (.integral .uint16)
    (ascii "ServerPort") ⟨8085, by decide⟩
  exact absurd (congrArg Subtype.val hport) (by decide +kernel)

end DiscordConfig
end WarheadDiscord
