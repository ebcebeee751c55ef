import Mathlib.Algebra.BigOperators.Group.List.Basic
import WarheadDiscord.Logging.Channel

/-!
# What the configuration file says about patterns

The configuration file has a list of placeholders with their meaning.  What is not one of them is
literal text.  `documented` is the text that a message has by this list.

`Format` and the list do not agree on some placeholders: the keys for the two kinds of hours are
exchanged, `%%` is nothing, `%n` is padded, `%p` has another name for one level, and the width zero
is no width.  `ParsePattern` takes brackets after every key, and takes whatever is after a percent
sign for a key.  And a text may be longer than a `std::string` can be, because a width may be any
number.  `format_eq_documented_iff` says that there is nothing else.

Of two messages, one has a longer text by the list wherever brackets are taken or a level has
another name, and one has a shorter text wherever a month is padded or the width is zero.  Texts
that agree as a whole, and of which no part is shorter, agree in all parts.

## Main definitions

* `Placeholder`, `placeholders`, `Placeholder.meaning` — the list of the configuration file.
* `documented` — what a pattern means by it.
* `usesListed` — only placeholders on which `Format` and the list agree, and no brackets.
-/

namespace WarheadDiscord.Logging

/-! ## The list -/

inductive Placeholder
  | source
  | text
  | level
  | priority
  | shortPriority
  | file
  | filename
  | line
  | shortWeekday
  | weekday
  | shortMonth
  | month
  | day
  | paddedMonth
  | monthNumber
  | shortYear
  | year
  | hour
  | hour12
  | amPm
  | minute
  | second
  | epoch
  | percent
  | paddedSource (width : ℕ)
  deriving DecidableEq, Repr

/-- The placeholders that are a single letter. -/
def placeholders : List (Char × Placeholder) :=
  [('s', .source), ('t', .text), ('l', .level), ('p', .priority), ('q', .shortPriority),
    ('U', .file), ('O', .filename), ('u', .line), ('w', .shortWeekday), ('W', .weekday),
    ('b', .shortMonth), ('B', .month), ('d', .day), ('m', .paddedMonth), ('n', .monthNumber),
    ('y', .shortYear), ('Y', .year), ('H', .hour), ('h', .hour12), ('A', .amPm), ('M', .minute),
    ('S', .second), ('E', .epoch), ('%', .percent)]

/-- The priorities of the list, which has no others. -/
def LogLevel.priority : LogLevel → List UInt8
  | .info => ascii "Information"
  | level => level.name

/-- The meaning of the placeholders.  The list does not say on which side a source is padded and
cropped. -/
def Placeholder.meaning (msg : LogMessage) : Placeholder → List UInt8
  | .source => msg.source
  | .text => msg.text
  | .level => decimalText msg.level.toNat
  | .priority => msg.level.priority
  | .shortPriority => msg.level.priority.take 1
  | .file => msg.file
  | .filename => msg.filename
  | .line => decimalText msg.line
  | .shortWeekday => msg.localTime.weekday.take 3
  | .weekday => msg.localTime.weekday
  | .shortMonth => msg.localTime.month.take 3
  | .month => msg.localTime.month
  | .day => twoDigits msg.localTime.mday
  | .paddedMonth => twoDigits (msg.localTime.mon + 1)
  | .monthNumber => decimalText (msg.localTime.mon + 1)
  | .shortYear => twoDigits (msg.localTime.year.natAbs % 100)
  | .year => msg.localTime.yearText
  | .hour => twoDigits msg.localTime.hour
  | .hour12 => twoDigits msg.localTime.hour12
  | .amPm => msg.localTime.amPm
  | .minute => twoDigits msg.localTime.min
  | .second => twoDigits msg.localTime.sec
  | .epoch => decimalText msg.epochTime
  | .percent => [0x25]
  | .paddedSource width =>
      msg.source.drop (msg.source.length - width) ++
        List.replicate (width - msg.source.length) 0x20

/-- The placeholder after a percent sign, and the text after it. -/
def placeholderAt : List UInt8 → Option (Placeholder × List UInt8)
  | [] => none
  | key :: it =>
      if key = 0x76 then
        if it.head? = some 0x5b ∧ 0x5d ∈ it then
          (stringTo .uint64 (bracketed it.tail).1).map fun width =>
            (.paddedSource width.toNat, (bracketed it.tail).2)
        else none
      else (placeholders.lookup (Char.ofUInt8 key)).map fun p => (p, it)

theorem length_placeholderAt_lt {it rest : List UInt8} {p : Placeholder}
    (h : placeholderAt it = some (p, rest)) : rest.length < it.length := by
  cases it with
  | nil => cases h
  | cons key it =>
      rw [placeholderAt] at h
      split_ifs at h with hkey hwidth
      · obtain ⟨width, -, heq⟩ := Option.map_eq_some_iff.mp h
        have hle := length_bracketed_le it.tail
        rw [List.length_tail] at hle
        cases heq
        rw [List.length_cons]
        omega
      · obtain ⟨p, -, heq⟩ := Option.map_eq_some_iff.mp h
        cases heq
        exact Nat.lt_succ_self _

/-- The text of a message by the list. -/
def documented (msg : LogMessage) : List UInt8 → List UInt8
  | [] => []
  | c :: it =>
      if c = 0x25 then
        match h : placeholderAt it with
        | some (p, rest) =>
            have := length_placeholderAt_lt h
            p.meaning msg ++ documented msg rest
        | none => c :: documented msg it
      else c :: documented msg it
termination_by it => it.length

/-! ## The condition -/

/-- `Format` has the meaning of the list. -/
def Placeholder.isExpanded : Placeholder → Bool
  | .percent => false
  | .hour => false
  | .hour12 => false
  | .monthNumber => false
  | .priority => false
  | .paddedSource width => width ≠ 0
  | _ => true

/-- Brackets behind the placeholder are text. -/
def Placeholder.endsBrackets : Placeholder → Bool
  | .paddedSource _ => true
  | _ => false

/-- Every percent sign begins a placeholder that `Format` expands as listed, and only the width of
a source is in brackets behind a placeholder. -/
def usesListed : List UInt8 → Bool
  | [] => true
  | c :: it =>
      if c = 0x25 then
        match h : placeholderAt it with
        | some (p, rest) =>
            have := length_placeholderAt_lt h
            p.isExpanded && (p.endsBrackets || rest.head? ≠ some 0x5b) && usesListed rest
        | none => false
      else usesListed it
termination_by it => it.length

/-! ## Steps of the three recursions -/

section Steps
variable {msg : LogMessage} {c key : UInt8} {it rest : List UInt8} {p : Placeholder}

theorem parseActions_literal (prepend : List UInt8) (hc : c ≠ 0x25) (it : List UInt8) :
    parseActions prepend (c :: it) = parseActions (prepend ++ [c]) it := by
  rw [parseActions.eq_def]
  simp [hc]

theorem parseActions_percent_nil (prepend : List UInt8) :
    parseActions prepend [0x25] = parseActions prepend [] := by
  rw [parseActions.eq_def]
  simp

/-- What it takes for a percent sign to be accepted. -/
theorem parseActions_percent {prepend : List UInt8} {actions : List PatternAction}
    (h : parseActions prepend (0x25 :: key :: it) = .ok actions) :
    ∃ act rest actions', parseKey key it = .ok (act, rest) ∧
      parseActions [] rest = .ok actions' ∧ actions = { act with prepend } :: actions' := by
  rw [parseActions.eq_def] at h
  simp only [ne_eq, not_true_eq_false, if_false] at h
  split at h
  · cases h
  · next act rest hkey =>
      cases hrest : parseActions [] rest with
      | error e =>
          rw [hrest] at h
          cases h
      | ok actions' =>
          rw [hrest] at h
          cases h
          exact ⟨act, rest, actions', hkey, hrest, rfl⟩

/-- **Induction along the loop of `ParsePattern`**, for the patterns that it accepts. -/
theorem parseActions_induction {P : List UInt8 → List UInt8 → List PatternAction → Prop}
    (hnil : ∀ prepend, P prepend [] (if prepend = [] then [] else [{ prepend }]))
    (hliteral : ∀ prepend c it actions, c ≠ 0x25 → P (prepend ++ [c]) it actions →
      P prepend (c :: it) actions)
    (hlast : ∀ prepend actions, P prepend [] actions → P prepend [0x25] actions)
    (hkey : ∀ prepend key it act rest actions, parseKey key it = .ok (act, rest) →
      P [] rest actions → P prepend (0x25 :: key :: it) ({ act with prepend } :: actions))
    {prepend pattern : List UInt8} {actions : List PatternAction}
    (h : parseActions prepend pattern = .ok actions) : P prepend pattern actions := by
  induction hlength : pattern.length using Nat.strong_induction_on
    generalizing pattern prepend actions with
  | _ n ih =>
    cases pattern with
    | nil =>
        rw [parseActions.eq_def] at h
        cases h
        exact hnil prepend
    | cons c it =>
        by_cases hc : c = 0x25
        · subst hc
          cases it with
          | nil =>
              rw [parseActions_percent_nil] at h
              exact hlast prepend actions (ih 0 (by simp [← hlength]) h rfl)
          | cons key it =>
              obtain ⟨act, rest, actions', hact, hrest, rfl⟩ := parseActions_percent h
              have hle := length_parseKey_le hact
              have hshort : rest.length < n := by
                simp only [List.length_cons] at hlength
                omega
              exact hkey prepend key it act rest actions' hact (ih rest.length hshort hrest rfl)
        · rw [parseActions_literal prepend hc] at h
          exact hliteral prepend c it actions hc (ih it.length (by simp [← hlength]) h rfl)

theorem documented_literal (msg : LogMessage) (hc : c ≠ 0x25) (it : List UInt8) :
    documented msg (c :: it) = c :: documented msg it := by
  rw [documented.eq_def]
  simp [hc]

theorem documented_placeholder (msg : LogMessage) (h : placeholderAt it = some (p, rest)) :
    documented msg (0x25 :: it) = p.meaning msg ++ documented msg rest := by
  rw [documented.eq_def]
  simp only [if_true]
  split
  · next heq =>
      rw [h] at heq
      cases heq
      rfl
  · next heq =>
      rw [h] at heq
      cases heq

theorem documented_percent (msg : LogMessage) (h : placeholderAt it = none) :
    documented msg (0x25 :: it) = 0x25 :: documented msg it := by
  rw [documented.eq_def]
  simp only [if_true]
  split
  · next heq =>
      rw [h] at heq
      cases heq
  · rfl

theorem usesListed_literal (hc : c ≠ 0x25) (it : List UInt8) :
    usesListed (c :: it) = usesListed it := by
  rw [usesListed.eq_def]
  simp [hc]

theorem usesListed_placeholder (h : placeholderAt it = some (p, rest)) :
    usesListed (0x25 :: it) =
      (p.isExpanded && (p.endsBrackets || rest.head? ≠ some 0x5b) && usesListed rest) := by
  rw [usesListed.eq_def]
  simp only [if_true]
  split
  · next heq =>
      rw [h] at heq
      cases heq
      rfl
  · next heq =>
      rw [h] at heq
      cases heq

theorem usesListed_percent (h : placeholderAt it = none) : usesListed (0x25 :: it) = false := by
  rw [usesListed.eq_def]
  simp only [if_true]
  split
  · next heq =>
      rw [h] at heq
      cases heq
  · rfl

/-- Literal text is copied. -/
theorem documented_append (msg : LogMessage) {literal : List UInt8} (h : 0x25 ∉ literal)
    (it : List UInt8) : documented msg (literal ++ it) = literal ++ documented msg it := by
  induction literal with
  | nil => rfl
  | cons c literal ih =>
      rw [List.mem_cons, not_or] at h
      rw [List.cons_append, documented_literal msg (Ne.symm h.1), ih h.2, List.cons_append]

end Steps

/-! ## Placeholders and actions -/

/-- The letter of a placeholder. -/
def Placeholder.letter : Placeholder → Char
  | .source => 's'
  | .text => 't'
  | .level => 'l'
  | .priority => 'p'
  | .shortPriority => 'q'
  | .file => 'U'
  | .filename => 'O'
  | .line => 'u'
  | .shortWeekday => 'w'
  | .weekday => 'W'
  | .shortMonth => 'b'
  | .month => 'B'
  | .day => 'd'
  | .paddedMonth => 'm'
  | .monthNumber => 'n'
  | .shortYear => 'y'
  | .year => 'Y'
  | .hour => 'H'
  | .hour12 => 'h'
  | .amPm => 'A'
  | .minute => 'M'
  | .second => 'S'
  | .epoch => 'E'
  | .percent => '%'
  | .paddedSource _ => 'v'

theorem letter_of_mem_placeholders : ∀ q ∈ placeholders, q.1 = q.2.letter := by decide

/-- The action is what `ParsePattern` makes of the placeholder. -/
def Placeholder.IsFor (p : Placeholder) (act : PatternAction) : Prop :=
  Char.ofUInt8 act.key = p.letter ∧ ∀ width, p = .paddedSource width → act.length = width

/-- What `Format` makes of a placeholder. -/
def Placeholder.expanded (msg : LogMessage) : Placeholder → List UInt8
  | .priority => msg.level.name
  | .monthNumber => twoDigits (msg.localTime.mon + 1)
  | .hour => twoDigits msg.localTime.hour12
  | .hour12 => twoDigits msg.localTime.hour
  | .percent => []
  | .paddedSource 0 => msg.source
  | p => p.meaning msg

section Expanded
variable {p : Placeholder} {act : PatternAction}

theorem Placeholder.IsFor.expand_paddedSource {width : ℕ}
    (h : (Placeholder.paddedSource width).IsFor act) (msg : LogMessage) :
    act.expand msg = (Placeholder.paddedSource width).expanded msg := by
  have hexpand : act.expand msg =
      if msg.source.length < width then
        msg.source ++ List.replicate (width - msg.source.length) 0x20
      else if width ≠ 0 ∧ width < msg.source.length then
        msg.source.drop (msg.source.length - width)
      else msg.source := by
    rw [PatternAction.expand, h.1, h.2 width rfl]
    rfl
  rw [hexpand]
  cases width with
  | zero => simp [expanded]
  | succ width =>
      show _ = msg.source.drop (msg.source.length - (width + 1)) ++
        List.replicate (width + 1 - msg.source.length) 0x20
      split_ifs with hpad hcrop
      · rw [Nat.sub_eq_zero_of_le (Nat.le_of_lt hpad), List.drop_zero]
      · rw [Nat.sub_eq_zero_of_le (Nat.le_of_lt hcrop.2), List.replicate_zero, List.append_nil]
      · have hlength : width + 1 = msg.source.length := by omega
        rw [hlength, Nat.sub_self, List.drop_zero, List.replicate_zero, List.append_nil]

/-- **What `Format` makes of the action of a placeholder.** -/
theorem Placeholder.IsFor.expand_eq (h : p.IsFor act) (msg : LogMessage) :
    act.expand msg = p.expanded msg := by
  cases p with
  | paddedSource width => exact h.expand_paddedSource msg
  | shortPriority =>
      rw [PatternAction.expand, h.1]
      show msg.level.name.take 1 = msg.level.priority.take 1
      cases msg.level <;> rfl
  | _ =>
      rw [PatternAction.expand, h.1]
      rfl

theorem Placeholder.expanded_of_isExpanded (hp : p.isExpanded = true) (msg : LogMessage) :
    p.expanded msg = p.meaning msg := by
  cases p with
  | percent => cases hp
  | hour => cases hp
  | hour12 => cases hp
  | monthNumber => cases hp
  | priority => cases hp
  | paddedSource width =>
      cases width with
      | zero => cases hp
      | succ width => rfl
  | _ => rfl

/-- A message in the afternoon of a December, of the level that has two names. -/
def afternoonMessage : LogMessage where
  source := []
  text := []
  level := .info
  time := 28911600000000000
  localTime := Tm.ofNumbers 0 0 15 1 11 1970 2

/-- A message in the first month. -/
def januaryMessage : LogMessage where
  source := ascii "s"
  text := []
  level := .trace
  time := 54000000000000
  localTime := Tm.ofNumbers 0 0 15 1 0 1970 4

/-- In the afternoon no text is shorter by the list. -/
theorem Placeholder.length_expanded_le (p : Placeholder) :
    (p.expanded afternoonMessage).length ≤ (p.meaning afternoonMessage).length := by
  cases p with
  | paddedSource width =>
      cases width with
      | zero => decide
      | succ width => exact Nat.le_refl _
  | _ => decide

theorem Placeholder.isExpanded_or (h : p.expanded afternoonMessage = p.meaning afternoonMessage) :
    p.isExpanded = true ∨ p = .monthNumber ∨ p = .paddedSource 0 := by
  cases p with
  | paddedSource width =>
      cases width with
      | zero => exact .inr (.inr rfl)
      | succ width => exact .inl rfl
  | monthNumber => exact .inr (.inl rfl)
  | _ => first | exact .inl rfl | exact absurd h (by decide)

theorem Placeholder.length_meaning_lt (hp : p = .monthNumber ∨ p = .paddedSource 0) :
    (p.meaning januaryMessage).length < (p.expanded januaryMessage).length := by
  rcases hp with rfl | rfl <;> decide

theorem percent_not_mem_spaces (n : ℕ) : (0x25 : UInt8) ∉ List.replicate n 0x20 := by
  intro h
  exact absurd (List.eq_of_mem_replicate h) (by decide)

/-- Nothing that `Format` appends for the message has a percent sign. -/
theorem percent_not_mem_expand (act : PatternAction) : 0x25 ∉ act.expand afternoonMessage := by
  rw [PatternAction.expand]
  split
  case h_24 =>
    split_ifs with hpad hcrop
    · exact percent_not_mem_spaces _
    · exact absurd hcrop.2 (Nat.not_lt_zero _)
    · exact List.not_mem_nil
  all_goals decide

theorem Placeholder.percent_not_mem_meaning (hp : p.isExpanded = true) :
    0x25 ∉ p.meaning afternoonMessage := by
  cases p with
  | percent => cases hp
  | paddedSource width =>
      rw [meaning, List.mem_append, not_or]
      exact ⟨by simp [afternoonMessage], percent_not_mem_spaces _⟩
  | _ => decide

end Expanded

/-! ## Reading placeholders -/

section Reading
variable {key : UInt8} {it rest : List UInt8} {p : Placeholder}

theorem percent_not_mem_number {number : List UInt8} {v : ℤ}
    (h : stringTo .uint64 number = some v) : 0x25 ∉ number := by
  intro hmem
  have hread : ∃ n, readNumber number = some n := by
    rw [stringTo, if_neg (by decide), fromChars, if_neg (by simp [IntegralType.isSigned]),
      Option.filter_eq_some_iff, Option.map_eq_some_iff] at h
    obtain ⟨⟨n, hn, -⟩, -⟩ := h
    exact ⟨n, hn⟩
  obtain ⟨n, hn⟩ := hread
  rw [readNumber] at hn
  split_ifs at hn
  exact absurd (isDigit_of_readDigits hn _ hmem) (by decide)

/-- Between the text in brackets and the text after it is the closing bracket, or nothing. -/
theorem exists_eq_bracketed (it : List UInt8) :
    ∃ close, 0x25 ∉ close ∧ it = (bracketed it).1 ++ (close ++ (bracketed it).2) := by
  have hsplit := List.takeWhile_append_dropWhile (p := fun c : UInt8 => decide (c ≠ 0x5d)) (l := it)
  rw [bracketed]
  cases hdrop : it.dropWhile (fun c : UInt8 => decide (c ≠ 0x5d)) with
  | nil =>
      rw [hdrop] at hsplit
      exact ⟨[], List.not_mem_nil, hsplit.symm⟩
  | cons c rest =>
      have hc : c = 0x5d := by
        have hhead := List.head?_dropWhile_not (fun c : UInt8 => decide (c ≠ 0x5d)) it
        rw [hdrop] at hhead
        simpa using hhead
      rw [hdrop] at hsplit
      exact ⟨[c], by rw [hc]; decide, hsplit.symm⟩

/-- The two shapes of a placeholder. -/
theorem placeholderAt_cases (h : placeholderAt it = some (p, rest)) :
    (∃ number width, it = 0x76 :: 0x5b :: number ∧
        stringTo .uint64 (bracketed number).1 = some width ∧ p = .paddedSource width.toNat ∧
        rest = (bracketed number).2) ∨
      ∃ key, it = key :: rest ∧ key ≠ 0x5b ∧ (Char.ofUInt8 key, p) ∈ placeholders := by
  cases it with
  | nil => cases h
  | cons key it =>
      rw [placeholderAt] at h
      split_ifs at h with hkey hwidth
      · obtain ⟨width, hnumber, heq⟩ := Option.map_eq_some_iff.mp h
        cases it with
        | nil => cases hwidth.1
        | cons c it =>
            obtain rfl : c = 0x5b := by simpa using hwidth.1
            cases heq
            exact .inl ⟨it, width, by rw [hkey], hnumber, rfl, rfl⟩
      · obtain ⟨q, hlookup, heq⟩ := Option.map_eq_some_iff.mp h
        cases heq
        refine .inr ⟨key, rfl, ?_, ?_⟩
        · rintro rfl
          have hnone : placeholders.lookup (Char.ofUInt8 0x5b) = none := by decide
          rw [hnone] at hlookup
          cases hlookup
        · obtain ⟨l₁, l₂, heq, -⟩ := List.lookup_eq_some_iff.mp hlookup
          rw [heq]
          simp

end Reading

/-! ## Texts in parts -/

section Parts
variable {α β : Type*} {f g : α → List β} {l : List α}

theorem length_flatMap_le (hle : ∀ x ∈ l, (f x).length ≤ (g x).length) :
    (l.flatMap f).length ≤ (l.flatMap g).length := by
  induction l with
  | nil => exact Nat.le_refl _
  | cons x l ih =>
      obtain ⟨hx, hl⟩ := List.forall_mem_cons.mp hle
      rw [List.flatMap_cons, List.flatMap_cons, List.length_append, List.length_append]
      exact Nat.add_le_add hx (ih hl)

/-- **Texts that agree as a whole agree in all parts**, if no part of one is shorter. -/
theorem flatMap_inj_of_length_le (hle : ∀ x ∈ l, (f x).length ≤ (g x).length)
    (h : l.flatMap f = l.flatMap g) : ∀ x ∈ l, f x = g x := by
  induction l with
  | nil => simp
  | cons x l ih =>
      obtain ⟨hx, hl⟩ := List.forall_mem_cons.mp hle
      rw [List.flatMap_cons, List.flatMap_cons] at h
      have hlength := congrArg List.length h
      have hrest := length_flatMap_le hl
      rw [List.length_append, List.length_append] at hlength
      obtain ⟨hhead, htail⟩ := List.append_inj h (by omega)
      exact List.forall_mem_cons.mpr ⟨hhead, ih hl htail⟩

end Parts

/-! ## The parts of a pattern -/

/-- A part of a pattern: an octet that is copied, or a placeholder with the action that it is read
as and the brackets that are read with it. -/
inductive PatternItem
  | literal (c : UInt8)
  | placeholder (p : Placeholder) (act : PatternAction) (brackets : List UInt8)

namespace PatternItem

/-- The text of a part by the list. -/
def meaning (msg : LogMessage) : PatternItem → List UInt8
  | .literal c => [c]
  | .placeholder p _ brackets => p.meaning msg ++ brackets

/-- The text that `Format` has for it. -/
def expand (msg : LogMessage) : PatternItem → List UInt8
  | .literal c => [c]
  | .placeholder _ act _ => act.expand msg

def IsListed : PatternItem → Prop
  | .literal _ => True
  | .placeholder p _ brackets => p.isExpanded = true ∧ brackets = []

def WellFormed : PatternItem → Prop
  | .literal _ => True
  | .placeholder p act _ => p.IsFor act

end PatternItem

/-- The pattern and its actions have the same parts. -/
structure Itemized (prepend pattern : List UInt8) (actions : List PatternAction)
    (items : List PatternItem) : Prop where
  wellFormed : ∀ item ∈ items, item.WellFormed
  documented : ∀ msg, documented msg pattern = items.flatMap (PatternItem.meaning msg)
  formatted : ∀ msg, formatActions msg actions =
    prepend ++ items.flatMap (PatternItem.expand msg)
  usesListed : usesListed pattern = true ↔ ∀ item ∈ items, item.IsListed

namespace Itemized
variable {prepend pattern rest : List UInt8} {actions : List PatternAction}
  {items : List PatternItem}

theorem nil (prepend : List UInt8) :
    Itemized prepend [] (if prepend = [] then [] else [{ prepend }]) [] where
  wellFormed := by simp
  documented := fun msg => by rw [WarheadDiscord.Logging.documented]; rfl
  formatted := by
    intro msg
    split_ifs with hprepend
    · rw [hprepend]
      rfl
    · show prepend ++ [] ++ [] = prepend ++ []
      rw [List.append_nil]
  usesListed := by simp [WarheadDiscord.Logging.usesListed]

theorem literal {c : UInt8} (hc : c ≠ 0x25) (h : Itemized (prepend ++ [c]) pattern actions items) :
    Itemized prepend (c :: pattern) actions (.literal c :: items) where
  wellFormed := List.forall_mem_cons.mpr ⟨trivial, h.wellFormed⟩
  documented := by
    intro msg
    rw [documented_literal msg hc, h.documented]
    rfl
  formatted := by
    intro msg
    rw [h.formatted, List.append_assoc]
    rfl
  usesListed := by
    rw [usesListed_literal hc, h.usesListed, List.forall_mem_cons]
    exact (and_iff_right trivial).symm

/-- A placeholder with the brackets after it. -/
theorem placeholder {it literal : List UInt8} {p : Placeholder} {act : PatternAction}
    (hp : placeholderAt it = some (p, literal ++ rest)) (hact : p.IsFor act)
    (hliteral : 0x25 ∉ literal)
    (hends : literal = [] ↔ (p.endsBrackets || (literal ++ rest).head? ≠ some 0x5b) = true)
    (h : Itemized [] rest actions items) :
    Itemized prepend (0x25 :: it) ({ act with prepend } :: actions)
      (.placeholder p act literal :: items) where
  wellFormed := List.forall_mem_cons.mpr ⟨hact, h.wellFormed⟩
  documented := by
    intro msg
    rw [documented_placeholder msg hp, documented_append msg hliteral, h.documented,
      ← List.append_assoc]
    rfl
  formatted := by
    intro msg
    show prepend ++ act.expand msg ++ formatActions msg actions = _
    rw [h.formatted, List.append_assoc]
    rfl
  usesListed := by
    rw [usesListed_placeholder hp, List.forall_mem_cons, Bool.and_eq_true, Bool.and_eq_true,
      PatternItem.IsListed, ← hends]
    by_cases hnil : literal = []
    · rw [hnil, List.nil_append, h.usesListed]
    · simp [hnil]

end Itemized

theorem parseKey_of_ne {key : UInt8} {it : List UInt8} (hkey : key ≠ 0x5b)
    (hit : it.head? ≠ some 0x5b) : parseKey key it = .ok ({ key }, it) := by
  rw [parseKey, if_neg hkey, if_neg hit]

theorem parseKey_bracket {key : UInt8} (hkey : key ≠ 0x5b) (number : List UInt8) :
    parseKey key (0x5b :: number) =
      match stringTo .uint64 (bracketed number).1 with
      | none => .error (ascii "ParsePattern: Error at conver lenght from " ++ (bracketed number).1)
      | some length => .ok ({ key, length := length.toNat }, (bracketed number).2) := by
  rw [parseKey, if_neg hkey]
  rfl

theorem endsBrackets_of_mem_placeholders :
    ∀ q ∈ placeholders, q.2.endsBrackets = false := by decide

theorem Placeholder.isFor_of_mem {key : UInt8} {p : Placeholder} {act : PatternAction}
    (hmem : (Char.ofUInt8 key, p) ∈ placeholders) (hkey : act.key = key) : p.IsFor act := by
  refine ⟨?_, ?_⟩
  · rw [hkey]
    exact letter_of_mem_placeholders _ hmem
  · rintro width rfl
    cases endsBrackets_of_mem_placeholders _ hmem

/-- What `ParsePattern` reads at a placeholder, and the brackets that it takes with it. -/
structure ReadsPlaceholder (p : Placeholder) (behind : List UInt8) (act : PatternAction)
    (brackets rest : List UInt8) : Prop where
  behind_eq : behind = brackets ++ rest
  isFor : p.IsFor act
  percent : 0x25 ∉ brackets
  brackets_eq_nil : brackets = [] ↔ (p.endsBrackets || behind.head? ≠ some 0x5b) = true

theorem parseKey_placeholder {it behind rest : List UInt8} {key : UInt8} {p : Placeholder}
    {act : PatternAction} (hp : placeholderAt (key :: it) = some (p, behind))
    (hparse : parseKey key it = .ok (act, rest)) :
    ∃ brackets, ReadsPlaceholder p behind act brackets rest := by
  rcases placeholderAt_cases hp with ⟨number, width, heq, hnumber, rfl, rfl⟩ | ⟨_, heq, hkey, hmem⟩
  · cases heq
    rw [parseKey_bracket (by decide), hnumber] at hparse
    cases hparse
    refine ⟨[], rfl, ⟨rfl, ?_⟩, List.not_mem_nil, by simp [Placeholder.endsBrackets]⟩
    intro w hw
    cases hw
    rfl
  · cases heq
    have hends := endsBrackets_of_mem_placeholders _ hmem
    by_cases hhead : it.head? = some 0x5b
    · -- the brackets are read with the key, but they are text by the list
      cases it with
      | nil => cases hhead
      | cons c number =>
          obtain rfl : c = 0x5b := by simpa using hhead
          rw [parseKey_bracket hkey] at hparse
          cases hnumber : stringTo .uint64 (bracketed number).1 with
          | none => simp [hnumber] at hparse
          | some length =>
              rw [hnumber] at hparse
              cases hparse
              obtain ⟨close, hclose, hsplit⟩ := exists_eq_bracketed number
              refine ⟨0x5b :: ((bracketed number).1 ++ close), ?_,
                Placeholder.isFor_of_mem hmem rfl, ?_, ?_⟩
              · rw [List.cons_append, List.append_assoc, ← hsplit]
              · simp [percent_not_mem_number hnumber, hclose]
              · simp [hends]
    · rw [parseKey_of_ne hkey hhead] at hparse
      cases hparse
      exact ⟨[], rfl, Placeholder.isFor_of_mem hmem rfl, List.not_mem_nil, by simp [hhead]⟩

/-- **A pattern that is accepted has the same parts as its actions**, if no percent sign is text by
the list. -/
theorem exists_itemized {pattern prepend : List UInt8} {actions : List PatternAction}
    (hparse : parseActions prepend pattern = .ok actions)
    (hpercent : 0x25 ∉ documented afternoonMessage pattern) :
    ∃ items, Itemized prepend pattern actions items := by
  refine parseActions_induction (P := fun prepend pattern actions =>
    0x25 ∉ documented afternoonMessage pattern → ∃ items, Itemized prepend pattern actions items)
    ?_ ?_ ?_ ?_ hparse hpercent
  · intro prepend _
    exact ⟨[], .nil prepend⟩
  · intro prepend c it actions hc ih hpercent
    rw [documented_literal _ hc, List.mem_cons, not_or] at hpercent
    obtain ⟨items, hitems⟩ := ih hpercent.2
    exact ⟨_, hitems.literal hc⟩
  · intro prepend actions _ hpercent
    rw [documented_percent _ rfl] at hpercent
    exact absurd List.mem_cons_self hpercent
  · intro prepend key it act rest actions hkey ih hpercent
    cases hp : placeholderAt (key :: it) with
    | none =>
        rw [documented_percent _ hp] at hpercent
        exact absurd List.mem_cons_self hpercent
    | some placed =>
        obtain ⟨p, behind⟩ := placed
        obtain ⟨brackets, hread⟩ := parseKey_placeholder hp hkey
        obtain rfl := hread.behind_eq
        rw [documented_placeholder _ hp, documented_append _ hread.percent, List.mem_append,
          List.mem_append, not_or, not_or] at hpercent
        obtain ⟨items, hitems⟩ := ih hpercent.2.2
        exact ⟨_, hitems.placeholder hp hread.isFor hread.percent hread.brackets_eq_nil⟩

/-! ## The result -/

/-- `Format` writes no percent sign that is not in the message. -/
theorem percent_not_mem_formatActions {pattern prepend : List UInt8} {actions : List PatternAction}
    (hparse : parseActions prepend pattern = .ok actions) (hprepend : 0x25 ∉ prepend) :
    0x25 ∉ formatActions afternoonMessage actions := by
  refine parseActions_induction (P := fun prepend _ actions =>
    0x25 ∉ prepend → 0x25 ∉ formatActions afternoonMessage actions) ?_ ?_ ?_ ?_ hparse hprepend
  · intro prepend hprepend
    rw [(Itemized.nil prepend).formatted, List.flatMap_nil, List.append_nil]
    exact hprepend
  · intro prepend c it actions hc ih hprepend
    refine ih ?_
    rw [List.mem_append, List.mem_singleton, not_or]
    exact ⟨hprepend, Ne.symm hc⟩
  · intro prepend actions ih hprepend
    exact ih hprepend
  · intro prepend key it act rest actions _ ih hprepend
    have hact := percent_not_mem_expand { act with prepend }
    rw [formatActions, List.flatMap_cons, ← formatActions, List.mem_append, List.mem_append,
      not_or, not_or]
    exact ⟨⟨hprepend, hact⟩, ih List.not_mem_nil⟩

theorem percent_not_mem_documented {pattern : List UInt8} (h : usesListed pattern = true) :
    0x25 ∉ documented afternoonMessage pattern := by
  induction hlength : pattern.length using Nat.strong_induction_on generalizing pattern with
  | _ n ih =>
    cases pattern with
    | nil => simp [documented]
    | cons c it =>
        by_cases hc : c = 0x25
        · subst hc
          cases hp : placeholderAt it with
          | none =>
              rw [usesListed_percent hp] at h
              cases h
          | some placed =>
              obtain ⟨p, rest⟩ := placed
              rw [usesListed_placeholder hp, Bool.and_eq_true, Bool.and_eq_true] at h
              have hlt := length_placeholderAt_lt hp
              rw [documented_placeholder _ hp, List.mem_append, not_or]
              refine ⟨Placeholder.percent_not_mem_meaning h.1.1, ih rest.length ?_ h.2 rfl⟩
              rw [List.length_cons] at hlength
              omega
        · rw [usesListed_literal hc] at h
          rw [documented_literal _ hc, List.mem_cons, not_or]
          exact ⟨Ne.symm hc, ih it.length (by simp [← hlength]) h rfl⟩

section Items
variable {items : List PatternItem}

theorem PatternItem.expand_eq_meaning {item : PatternItem} (hitem : item.WellFormed)
    (hlisted : item.IsListed) (msg : LogMessage) : item.expand msg = item.meaning msg := by
  cases item with
  | literal c => rfl
  | placeholder p act brackets =>
      obtain ⟨hp, rfl⟩ := hlisted
      rw [expand, meaning, List.append_nil, hitem.expand_eq, Placeholder.expanded_of_isExpanded hp]

theorem PatternItem.length_expand_le {item : PatternItem} (hitem : item.WellFormed) :
    (item.expand afternoonMessage).length ≤ (item.meaning afternoonMessage).length := by
  cases item with
  | literal c => exact Nat.le_refl _
  | placeholder p act brackets =>
      have hle := p.length_expanded_le
      rw [expand, meaning, hitem.expand_eq, List.length_append]
      omega

/-- The text of a part in the afternoon shows all but two defects. -/
theorem PatternItem.isListed_or {item : PatternItem} (hitem : item.WellFormed)
    (h : item.expand afternoonMessage = item.meaning afternoonMessage) :
    item.IsListed ∨ ∃ p act, item = .placeholder p act [] ∧
      (p = .monthNumber ∨ p = .paddedSource 0) := by
  cases item with
  | literal c => exact .inl trivial
  | placeholder p act brackets =>
      rw [expand, meaning, hitem.expand_eq] at h
      have hle := p.length_expanded_le
      have hlength := congrArg List.length h
      rw [List.length_append] at hlength
      obtain rfl : brackets = [] := List.length_eq_zero_iff.mp (by omega)
      rw [List.append_nil] at h
      rcases Placeholder.isExpanded_or h with hp | hp
      · exact .inl ⟨hp, rfl⟩
      · exact .inr ⟨p, act, rfl, hp⟩

/-- **Texts that are the same for both messages have no defects.** -/
theorem isListed_of_flatMap_eq (hitems : ∀ item ∈ items, item.WellFormed)
    (hafternoon : items.flatMap (PatternItem.expand afternoonMessage) =
      items.flatMap (PatternItem.meaning afternoonMessage))
    (hjanuary : items.flatMap (PatternItem.expand januaryMessage) =
      items.flatMap (PatternItem.meaning januaryMessage)) :
    ∀ item ∈ items, item.IsListed := by
  have hafternoon := flatMap_inj_of_length_le
    (fun item hitem => PatternItem.length_expand_le (hitems item hitem)) hafternoon
  have hor (item : PatternItem) (hitem : item ∈ items) :=
    PatternItem.isListed_or (hitems item hitem) (hafternoon item hitem)
  have hlength (item : PatternItem) (hitem : item ∈ items) :
      (item.meaning januaryMessage).length ≤ (item.expand januaryMessage).length := by
    rcases hor item hitem with hlisted | ⟨p, act, rfl, hp⟩
    · rw [PatternItem.expand_eq_meaning (hitems item hitem) hlisted]
    · rw [PatternItem.meaning, List.append_nil, PatternItem.expand,
        Placeholder.IsFor.expand_eq (hitems _ hitem)]
      exact Nat.le_of_lt (Placeholder.length_meaning_lt hp)
  have hjanuary := flatMap_inj_of_length_le hlength hjanuary.symm
  intro item hitem
  refine (hor item hitem).resolve_right ?_
  rintro ⟨p, act, rfl, hp⟩
  have heq := hjanuary _ hitem
  rw [PatternItem.meaning, List.append_nil, PatternItem.expand,
    Placeholder.IsFor.expand_eq (hitems _ hitem)] at heq
  have hlt := Placeholder.length_meaning_lt hp
  rw [heq] at hlt
  exact absurd hlt (Nat.lt_irrefl _)

end Items

theorem Channel.setPattern_eq_ok {channel channel' : Channel} {pattern : List UInt8}
    (h : channel.setPattern pattern = .ok channel') :
    parseActions [] pattern = .ok channel'.patternActions ∧ channel'.patternActions ≠ [] := by
  by_cases hpattern : pattern = []
  · rw [setPattern, if_pos hpattern] at h
    cases h
  · have hparse : (parsePattern pattern).map (fun patternActions =>
        { channel with pattern, patternActions }) = .ok channel' := by
      rw [setPattern, if_neg hpattern] at h
      exact h
    rw [parsePattern, if_neg hpattern] at hparse
    cases hactions : parseActions [] pattern with
    | error e =>
        rw [hactions] at hparse
        cases hparse
    | ok actions =>
        cases actions with
        | nil =>
            rw [hactions] at hparse
            cases hparse
        | cons act actions =>
            rw [hactions] at hparse
            cases hparse
            exact ⟨rfl, List.cons_ne_nil _ _⟩

/-- A message as it can be: its texts have at most `n` octets, and its numbers are those of their
types. -/
structure LogMessage.Bounded (n : ℕ) (msg : LogMessage) : Prop where
  source : msg.source.length ≤ n
  text : msg.text.length ≤ n
  file : msg.file.length ≤ n
  line : msg.line < 2 ^ 64
  time : -2 ^ 63 ≤ msg.time ∧ msg.time < 2 ^ 63
  year : -2 ^ 31 ≤ msg.localTime.year - 1900 ∧ msg.localTime.year - 1900 < 2 ^ 31

theorem bounded_afternoonMessage (n : ℕ) : afternoonMessage.Bounded n :=
  ⟨Nat.zero_le n, Nat.zero_le n, Nat.zero_le n, by decide, by decide, by decide⟩

theorem bounded_januaryMessage {n : ℕ} (hn : 1 ≤ n) : januaryMessage.Bounded n :=
  ⟨hn, Nat.zero_le n, Nat.zero_le n, by decide, by decide, by decide⟩

theorem Channel.tryFormat_eq_ok_iff {channel : Channel} (h : channel.patternActions ≠ [])
    {maxSize : ℕ} {msg : LogMessage} {text documented : List UInt8} :
    channel.tryFormat maxSize msg text = .ok documented ↔
      formatActions msg channel.patternActions = documented ∧ documented.length ≤ maxSize := by
  rw [tryFormat_eq h, format, if_neg h]
  constructor
  · intro heq
    split_ifs at heq with hroom
    cases heq
    exact ⟨rfl, hroom⟩
  · rintro ⟨rfl, hroom⟩
    rw [if_pos hroom]

/-- **The messages of a channel are what the configuration file says exactly if its pattern has only
placeholders that are expanded as listed**, and a `std::string` has room for what the file says.
The messages are those whose texts are not longer than a bound, whatever it is; a source that is
padded to more than `maxSize` octets leaves room for none of them. -/
theorem format_eq_documented_iff {channel channel' : Channel} {pattern : List UInt8}
    {maxSize n : ℕ} (hn : 1 ≤ n) (h : channel.setPattern pattern = .ok channel') :
    (∀ msg text, msg.Bounded n →
        channel'.tryFormat maxSize msg text = .ok (documented msg pattern)) ↔
      usesListed pattern = true ∧
        ∀ msg : LogMessage, msg.Bounded n → (documented msg pattern).length ≤ maxSize := by
  obtain ⟨hparse, hne⟩ := Channel.setPattern_eq_ok h
  simp only [Channel.tryFormat_eq_ok_iff hne]
  constructor
  · intro heq
    have hafternoon := (heq afternoonMessage [] (bounded_afternoonMessage n)).1
    have hjanuary := (heq januaryMessage [] (bounded_januaryMessage hn)).1
    refine ⟨?_, fun msg hmsg => (heq msg [] hmsg).2⟩
    have hpercent : 0x25 ∉ documented afternoonMessage pattern := by
      rw [← hafternoon]
      exact percent_not_mem_formatActions hparse List.not_mem_nil
    obtain ⟨items, hitems⟩ := exists_itemized hparse hpercent
    rw [hitems.formatted, hitems.documented, List.nil_append] at hafternoon hjanuary
    exact hitems.usesListed.mpr (isListed_of_flatMap_eq hitems.wellFormed hafternoon hjanuary)
  · rintro ⟨hlisted, hroom⟩ msg text hmsg
    refine ⟨?_, hroom msg hmsg⟩
    obtain ⟨items, hitems⟩ := exists_itemized hparse (percent_not_mem_documented hlisted)
    rw [hitems.formatted, hitems.documented, List.nil_append]
    refine List.flatMap_congr ?_
    intro item hitem
    exact PatternItem.expand_eq_meaning (hitems.wellFormed item hitem)
      (hitems.usesListed.mp hlisted item hitem) msg

/-- A channel with a pattern that is read as some actions. -/
def consoleChannel (pattern : String) (patternActions : List PatternAction) : Channel where
  type := .console
  name := ascii "LogChannel.Console"
  level := .info
  pattern := ascii pattern
  patternActions := patternActions

/-- The channel of the configuration file. -/
def distChannel : Channel :=
  consoleChannel "[%H:%M:%S] %t"
    [{ key := 0x48, prepend := [0x5b] }, { key := 0x4d, prepend := [0x3a] },
      { key := 0x53, prepend := [0x3a] }, { key := 0x74, prepend := [0x5d, 0x20] }]

/-- A channel that does not write the hours. -/
def minuteChannel : Channel :=
  consoleChannel "%M:%S %v[9]%t"
    [{ key := 0x4d }, { key := 0x53, prepend := [0x3a] },
      { key := 0x76, length := 9, prepend := [0x20] }, { key := 0x74 }]

theorem setPattern_minuteChannel :
    distChannel.setPattern minuteChannel.pattern = .ok minuteChannel := by
  decide +kernel

/-- The text by the list, with the source padded or cropped to nine octets. -/
theorem documented_minuteChannel (msg : LogMessage) :
    documented msg minuteChannel.pattern =
      twoDigits msg.localTime.min ++ ascii ":" ++ twoDigits msg.localTime.sec ++ ascii " " ++
        (Placeholder.paddedSource 9).meaning msg ++ msg.text := by
  have hpattern : minuteChannel.pattern =
      0x25 :: 0x4d :: 0x3a :: 0x25 :: 0x53 :: 0x20 :: 0x25 :: 0x76 :: 0x5b :: 0x39 :: 0x5d ::
        0x25 :: 0x74 :: [] := by decide +kernel
  have hwidth : placeholderAt [0x76, 0x5b, 0x39, 0x5d, 0x25, 0x74] =
      some (.paddedSource 9, [0x25, 0x74]) := by decide +kernel
  rw [hpattern, documented_placeholder msg (p := .minute) (by rfl),
    documented_literal msg (by decide), documented_placeholder msg (p := .second) (by rfl),
    documented_literal msg (by decide), documented_placeholder msg hwidth,
    documented_placeholder msg (p := .text) (by rfl)]
  simp [Placeholder.meaning, documented, ascii]

theorem format_minuteChannel :
    distChannel.setPattern minuteChannel.pattern = .ok minuteChannel ∧
      ∀ msg text, msg.Bounded (2 ^ 32) →
        minuteChannel.tryFormat (2 ^ 63 - 2) msg text =
          .ok (documented msg minuteChannel.pattern) := by
  refine ⟨setPattern_minuteChannel,
    (format_eq_documented_iff (by decide) setPattern_minuteChannel).mpr ⟨by decide +kernel, ?_⟩⟩
  intro msg hmsg
  have htext := hmsg.text
  rw [documented_minuteChannel]
  simp only [List.length_append, Placeholder.meaning, List.length_drop, List.length_replicate,
    twoDigits, List.length_cons, List.length_nil, show (ascii ":").length = 1 from rfl,
    show (ascii " ").length = 1 from rfl]
  omega

/-- The pattern of the configuration file, at three in the afternoon. -/
theorem not_format_eq_documented_distChannel :
    minuteChannel.setPattern distChannel.pattern = .ok distChannel ∧
      distChannel.tryFormat (2 ^ 63 - 2) afternoonMessage [] = .ok (ascii "[03:00:00] ") ∧
      documented afternoonMessage distChannel.pattern = ascii "[15:00:00] " ∧
      distChannel.tryFormat (2 ^ 63 - 2) afternoonMessage [] ≠
        .ok (documented afternoonMessage distChannel.pattern) := by
  refine ⟨?_, ?_, ?_, ?_⟩ <;> decide +kernel

end WarheadDiscord.Logging
