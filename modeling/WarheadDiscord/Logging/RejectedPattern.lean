import WarheadDiscord.Logging.Pattern

/-!
# Patterns that are rejected

`SetPattern` stores the pattern before it is parsed, and `ParsePattern` clears the actions
before it reads the first character.  An exception at a width that is no number leaves the
channel with the actions in front of it; the text directly in front of that placeholder is
lost.  Only the empty pattern is rejected before anything is changed.

Whether this can be seen in the messages depends on what the channel was set to before.
`standing` is what a list of actions stands for: the octets and the placeholders that it writes,
under one name each, or nothing if there is no action and `Format` leaves the text alone.
Two lists that write the same for all messages stand for the same.  Two messages tell all
placeholders apart from each other and from literal text by the first octet of what is
written, but for the sources of different widths, and for a name and its abbreviation.  The
widths are told apart by a source of the right length, and the abbreviation by what has to
come behind it.

## Main definitions

* `parseLoop`, `Channel.trySetPattern` — `SetPattern` with the state it leaves behind.
* `Part`, `standing` — what actions stand for.
* `standsFor` — what a pattern stands for up to a width that is no number.
-/

namespace WarheadDiscord.Logging

/-! ## What is left behind -/

/-- The loop of `ParsePattern`: the exception, and the actions up to it. -/
def parseLoop (prepend : List UInt8) :
    List UInt8 → Option (List UInt8) × List PatternAction
  | [] => (none, if prepend = [] then [] else [{ prepend }])
  | c :: it =>
      if c ≠ 0x25 then parseLoop (prepend ++ [c]) it
      else
        match it with
        | [] => parseLoop prepend []
        | key :: it =>
            match h : parseKey key it with
            | .error e => (some e, [])
            | .ok (act, rest) =>
                have := length_parseKey_le h
                let r := parseLoop [] rest
                (r.1, { act with prepend } :: r.2)
termination_by it => it.length

/-- `SetPattern`: the exception, and the channel after it. -/
def Channel.trySetPattern (channel : Channel) (pattern : List UInt8) :
    Option (List UInt8) × Channel :=
  if pattern = [] then (some (ascii "Pattern is empty"), channel)
  else
    let r := parseLoop [] pattern
    let channel := { channel with pattern, patternActions := r.2 }
    match r.1 with
    | some e => (some e, channel)
    | none =>
        if r.2 = [] then
          (some (ascii "ParsePattern: Error at parse pattern '" ++ pattern ++ ascii "'"), channel)
        else (none, channel)

section Loop
variable {c key : UInt8} {it rest : List UInt8} {act : PatternAction}

theorem parseLoop_literal (prepend : List UInt8) (hc : c ≠ 0x25) (it : List UInt8) :
    parseLoop prepend (c :: it) = parseLoop (prepend ++ [c]) it := by
  rw [parseLoop.eq_def]
  simp [hc]

theorem parseLoop_percent_nil (prepend : List UInt8) :
    parseLoop prepend [0x25] = parseLoop prepend [] := by
  rw [parseLoop.eq_def]
  simp

theorem parseLoop_key (prepend : List UInt8) (h : parseKey key it = .ok (act, rest)) :
    parseLoop prepend (0x25 :: key :: it) =
      ((parseLoop [] rest).1, { act with prepend } :: (parseLoop [] rest).2) := by
  rw [parseLoop.eq_def]
  simp only [ne_eq, not_true_eq_false, if_false]
  split
  · next heq => simp [h] at heq
  · next heq =>
      rw [h] at heq
      cases heq
      rfl

theorem parseLoop_error (prepend : List UInt8) {e : List UInt8} (h : parseKey key it = .error e) :
    parseLoop prepend (0x25 :: key :: it) = (some e, []) := by
  rw [parseLoop.eq_def]
  simp only [ne_eq, not_true_eq_false, if_false]
  split
  · next heq =>
      rw [h] at heq
      cases heq
      rfl
  · next heq => simp [h] at heq

/-- **Induction along the loop**, with the pattern that is rejected as one more case. -/
theorem parseLoop_induction {P : List UInt8 → List UInt8 → Prop}
    (hnil : ∀ prepend, P prepend [])
    (hliteral : ∀ prepend c it, c ≠ 0x25 → P (prepend ++ [c]) it → P prepend (c :: it))
    (hlast : ∀ prepend, P prepend [] → P prepend [0x25])
    (herror : ∀ prepend key it e, parseKey key it = .error e → P prepend (0x25 :: key :: it))
    (hkey : ∀ prepend key it act rest, parseKey key it = .ok (act, rest) → P [] rest →
      P prepend (0x25 :: key :: it))
    (prepend pattern : List UInt8) : P prepend pattern := by
  induction hlength : pattern.length using Nat.strong_induction_on
    generalizing pattern prepend with
  | _ n ih =>
    cases pattern with
    | nil => exact hnil prepend
    | cons c it =>
        by_cases hc : c = 0x25
        · subst hc
          cases it with
          | nil => exact hlast prepend (hnil prepend)
          | cons key it =>
              cases hparse : parseKey key it with
              | error e => exact herror prepend key it e hparse
              | ok r =>
                  obtain ⟨act, rest⟩ := r
                  have hle := length_parseKey_le hparse
                  have hshort : rest.length < n := by
                    simp only [List.length_cons] at hlength
                    omega
                  exact hkey prepend key it act rest hparse (ih rest.length hshort [] rest rfl)
        · exact hliteral prepend c it hc (ih it.length (by simp [← hlength]) _ it rfl)

/-- The loop is that of `parseActions`. -/
theorem parseActions_eq (prepend pattern : List UInt8) :
    parseActions prepend pattern =
      match (parseLoop prepend pattern).1 with
      | some e => .error e
      | none => .ok (parseLoop prepend pattern).2 := by
  refine parseLoop_induction (P := fun prepend pattern => parseActions prepend pattern =
    match (parseLoop prepend pattern).1 with
    | some e => .error e
    | none => .ok (parseLoop prepend pattern).2) ?_ ?_ ?_ ?_ ?_ prepend pattern
  · intro prepend
    rw [parseActions.eq_def, parseLoop.eq_def]
  · intro prepend c it hc ih
    rw [parseActions_literal prepend hc, parseLoop_literal prepend hc]
    exact ih
  · intro prepend ih
    rw [parseActions_percent_nil, parseLoop_percent_nil]
    exact ih
  · intro prepend key it e h
    rw [parseLoop_error prepend h, parseActions.eq_def]
    simp only [ne_eq, not_true_eq_false, if_false]
    split
    · next heq =>
        rw [h] at heq
        cases heq
        rfl
    · next heq => simp [h] at heq
  · intro prepend key it act rest h ih
    rw [parseLoop_key prepend h, parseActions.eq_def]
    simp only [ne_eq, not_true_eq_false, if_false]
    split
    · next heq => simp [h] at heq
    · next heq =>
        rw [h] at heq
        cases heq
        rw [ih]
        cases (parseLoop [] rest).1 <;> rfl

end Loop

/-- `SetPattern` throws, or the channel that it leaves behind is the one that is set. -/
theorem Channel.setPattern_eq (channel : Channel) (pattern : List UInt8) :
    channel.setPattern pattern =
      match channel.trySetPattern pattern with
      | (some e, _) => .error e
      | (none, channel') => .ok channel' := by
  by_cases hpattern : pattern = []
  · rw [setPattern, trySetPattern, if_pos hpattern, if_pos hpattern]
    rfl
  · have hset : channel.setPattern pattern = (parsePattern pattern).map (fun patternActions =>
        { channel with pattern, patternActions }) := by
      rw [setPattern, if_neg hpattern]
      rfl
    rw [hset, parsePattern, if_neg hpattern, parseActions_eq, trySetPattern, if_neg hpattern]
    generalize parseLoop [] pattern = r
    obtain ⟨e, actions⟩ := r
    cases e with
    | some e => rfl
    | none => cases actions <;> rfl

/-! ## What actions stand for -/

/-- An octet, or what is written for a placeholder. -/
inductive Part
  | literal (c : UInt8)
  | field (p : Placeholder)
  deriving DecidableEq, Repr

/-- The text that `Format` appends for a part. -/
def Part.text (msg : LogMessage) : Part → List UInt8
  | .literal c => [c]
  | .field p => p.expanded msg

/-- One name for the placeholders that `Format` does not tell apart; there is none for the percent
sign, which it does not write. -/
def Placeholder.canonical : Placeholder → Option Placeholder
  | .percent => none
  | .monthNumber => some .paddedMonth
  | .paddedSource 0 => some .source
  | p => some p

namespace PatternAction

/-- The placeholder that a key stands for. -/
def placeholder? (pa : PatternAction) : Option Placeholder :=
  (if Char.ofUInt8 pa.key = 'v' then some (.paddedSource pa.length)
    else placeholders.lookup (Char.ofUInt8 pa.key)).bind Placeholder.canonical

def parts (pa : PatternAction) : List Part :=
  pa.prepend.map .literal ++ pa.placeholder?.toList.map .field

end PatternAction

/-- What a list of actions stands for. -/
def standing (actions : List PatternAction) : Option (List Part) :=
  if actions = [] then none else some (actions.flatMap PatternAction.parts)

/-- What a pattern stands for after some text, up to the first width that is no number; the text
directly in front of that is not part of it. -/
def standsFor (front : List UInt8) : List UInt8 → Option (List Part)
  | [] => if front = [] then none else some (front.map .literal)
  | c :: it =>
      if c ≠ 0x25 then standsFor (front ++ [c]) it
      else
        match it with
        | [] => standsFor front []
        | key :: it =>
            match h : parseKey key it with
            | .error _ => none
            | .ok (act, rest) =>
                have := length_parseKey_le h
                some (front.map .literal ++ act.placeholder?.toList.map .field ++
                  (standsFor [] rest).getD [])
termination_by it => it.length

theorem Placeholder.expanded_canonical (p : Placeholder) (msg : LogMessage) :
    p.expanded msg = p.canonical.elim [] fun q => q.expanded msg := by
  cases p with
  | paddedSource width => cases width <;> rfl
  | _ => rfl

/-- A key that is not in the list writes nothing. -/
theorem PatternAction.expand_of_lookup_eq_none {pa : PatternAction}
    (hv : Char.ofUInt8 pa.key ≠ 'v') (h : placeholders.lookup (Char.ofUInt8 pa.key) = none)
    (msg : LogMessage) : pa.expand msg = [] := by
  rw [expand]
  split
  case h_25 => rfl
  all_goals
    rename_i heq
    rw [heq] at h hv
    first
      | exact absurd rfl hv
      | cases h

/-- What a key writes is what its placeholder stands for. -/
theorem PatternAction.expand_eq (pa : PatternAction) (msg : LogMessage) :
    pa.expand msg = pa.placeholder?.elim [] fun p => p.expanded msg := by
  have hcanonical {p : Placeholder} (hp : p.IsFor pa) :
      pa.expand msg = p.canonical.elim [] fun q => q.expanded msg := by
    rw [hp.expand_eq, p.expanded_canonical]
  by_cases hv : Char.ofUInt8 pa.key = 'v'
  · rw [placeholder?, if_pos hv, Option.bind_some]
    refine hcanonical ⟨hv, ?_⟩
    intro width hwidth
    cases hwidth
    rfl
  · rw [placeholder?, if_neg hv]
    cases hlookup : placeholders.lookup (Char.ofUInt8 pa.key) with
    | none => exact expand_of_lookup_eq_none hv hlookup msg
    | some p =>
        obtain ⟨l₁, l₂, heq, -⟩ := List.lookup_eq_some_iff.mp hlookup
        exact hcanonical (Placeholder.isFor_of_mem (by rw [heq]; simp) rfl)

theorem formatActions_eq (msg : LogMessage) (actions : List PatternAction) :
    formatActions msg actions = (actions.flatMap PatternAction.parts).flatMap (Part.text msg) := by
  have hliteral (text : List UInt8) : (text.map Part.literal).flatMap (Part.text msg) = text := by
    induction text with
    | nil => rfl
    | cons c text ih => rw [List.map_cons, List.flatMap_cons, ih]; rfl
  have haction (pa : PatternAction) :
      pa.parts.flatMap (Part.text msg) = pa.prepend ++ pa.expand msg := by
    rw [PatternAction.parts, List.flatMap_append, hliteral, PatternAction.expand_eq]
    cases pa.placeholder? with
    | none => rfl
    | some p => simp [Part.text]
  rw [formatActions, List.flatMap_assoc]
  simp only [haction]

/-- What is left behind is what the pattern stands for up to the rejected width. -/
theorem standing_parseLoop (prepend pattern : List UInt8) :
    standing (parseLoop prepend pattern).2 = standsFor prepend pattern := by
  refine parseLoop_induction
    (P := fun prepend pattern => standing (parseLoop prepend pattern).2 = standsFor prepend pattern)
    ?_ ?_ ?_ ?_ ?_ prepend pattern
  · intro prepend
    rw [parseLoop.eq_def, standsFor.eq_def]
    by_cases hnil : prepend = []
    · simp [hnil, standing]
    · have hkey : ({ prepend } : PatternAction).parts = prepend.map .literal := List.append_nil _
      simp [hnil, standing, hkey]
  · intro prepend c it hc ih
    rw [parseLoop_literal prepend hc, standsFor.eq_def, ih]
    simp [hc]
  · intro prepend ih
    rw [parseLoop_percent_nil, ih, standsFor.eq_def prepend [0x25]]
    simp
  · intro prepend key it e h
    rw [parseLoop_error prepend h, standsFor.eq_def]
    simp only [ne_eq, not_true_eq_false, if_false]
    split
    · rfl
    · next heq => simp [h] at heq
  · intro prepend key it act rest h ih
    have hrest : (standing (parseLoop [] rest).2).getD [] =
        (parseLoop [] rest).2.flatMap PatternAction.parts := by
      rw [standing]
      by_cases hnil : (parseLoop [] rest).2 = []
      · simp [hnil]
      · simp [hnil]
    rw [parseLoop_key prepend h, standsFor.eq_def]
    simp only [ne_eq, not_true_eq_false, if_false]
    split
    · next heq => simp [h] at heq
    · next heq =>
        rw [h] at heq
        cases heq
        rw [← ih, hrest, standing, if_neg (List.cons_ne_nil _ _), List.flatMap_cons]
        rfl

/-! ## Telling parts apart -/

section Separation
variable {ι α β : Type*} {f : ι → α → List β} {S : α → Prop}

/-- **Texts that agree for all readers have the same parts**, if no part is without text for some
reader and the first parts of two such texts are always the same. -/
theorem eq_of_flatMap_eq {i : ι} (hne : ∀ x, S x → f i x ≠ [])
    (hfirst : ∀ x y l l', (∀ z ∈ x :: l, S z) → (∀ z ∈ y :: l', S z) →
      (∀ i, (x :: l).flatMap (f i) = (y :: l').flatMap (f i)) → x = y)
    {l l' : List α} (hl : ∀ x ∈ l, S x) (hl' : ∀ x ∈ l', S x)
    (h : ∀ i, l.flatMap (f i) = l'.flatMap (f i)) : l = l' := by
  induction l generalizing l' with
  | nil =>
      cases l' with
      | nil => rfl
      | cons y l' =>
          have hnil := h i
          rw [List.flatMap_nil, List.flatMap_cons] at hnil
          exact absurd (List.append_eq_nil_iff.mp hnil.symm).1 (hne y (hl' y List.mem_cons_self))
  | cons x l ih =>
      cases l' with
      | nil =>
          have hnil := h i
          rw [List.flatMap_nil, List.flatMap_cons] at hnil
          exact absurd (List.append_eq_nil_iff.mp hnil).1 (hne x (hl x List.mem_cons_self))
      | cons y l' =>
          have hxy := hfirst x y l l' hl hl' h
          have hrest : ∀ i, l.flatMap (f i) = l'.flatMap (f i) := by
            intro i
            have hi := h i
            rw [List.flatMap_cons, List.flatMap_cons, hxy] at hi
            exact List.append_cancel_left hi
          rw [hxy, ih (List.forall_mem_cons.mp hl).2 (List.forall_mem_cons.mp hl').2 hrest]

end Separation

/-- A message in a night of November. -/
def nightMessage : LogMessage where
  source := ascii "a"
  text := ascii "b"
  level := .fatal
  time := 848973633000000000
  localTime := Tm.ofNumbers 33 0 2 26 10 1996 2
  file := ascii "c/d"
  line := 6

/-- A message in an evening of August. -/
def eveningMessage : LogMessage where
  source := ascii "f"
  text := ascii "g"
  level := .error
  time := 2732485560000000000
  localTime := Tm.ofNumbers 0 46 23 2 7 2056 3
  file := ascii "h/i"
  line := 3

/-- The first octets of what is written for the two messages. -/
def Part.initials (x : Part) : Option UInt8 × Option UInt8 :=
  ((x.text nightMessage).head?, (x.text eveningMessage).head?)

/-- The placeholders without a number that are written under their own name. -/
def plainPlaceholders : List Placeholder :=
  [.source, .text, .level, .priority, .shortPriority, .file, .filename, .line, .shortWeekday,
    .weekday, .shortMonth, .month, .day, .paddedMonth, .shortYear, .year, .hour, .hour12, .amPm,
    .minute, .second, .epoch]

/-- A name and its abbreviation. -/
def abbreviations : List (Placeholder × Placeholder) :=
  [(.priority, .shortPriority), (.weekday, .shortWeekday), (.month, .shortMonth)]

/-- What is left of a name behind its abbreviation. -/
def Placeholder.remainder (msg : LogMessage) (p : Placeholder) : List UInt8 :=
  match p with
  | .priority => msg.level.name.drop 1
  | p => (p.expanded msg).drop 3

/-- The parts of actions. -/
inductive Part.Canonical : Part → Prop
  | literal (c : UInt8) : Canonical (.literal c)
  | plain {p : Placeholder} (hp : p ∈ plainPlaceholders) : Canonical (.field p)
  | padded (width : ℕ) : Canonical (.field (.paddedSource (width + 1)))

theorem initials_plain : ∀ p ∈ plainPlaceholders, ∀ q ∈ plainPlaceholders,
    (Part.field p).initials = (Part.field q).initials →
      p = q ∨ (p, q) ∈ abbreviations ∨ (q, p) ∈ abbreviations := by
  decide +kernel

theorem initials_plain_ne : ∀ p ∈ plainPlaceholders,
    (Part.field p).initials.1 ≠ (Part.field p).initials.2 := by
  decide +kernel

theorem initials_remainder : ∀ r ∈ abbreviations,
    (r.1.remainder nightMessage).head? ≠ (r.1.remainder eveningMessage).head? ∧
      ∀ p ∈ plainPlaceholders, (Part.field p).initials ≠
        ((r.1.remainder nightMessage).head?, (r.1.remainder eveningMessage).head?) := by
  decide +kernel

theorem expanded_plain_ne_nil : ∀ p ∈ plainPlaceholders,
    p.expanded nightMessage ≠ [] ∧ p.expanded eveningMessage ≠ [] := by
  decide +kernel

theorem remainder_ne_nil : ∀ r ∈ abbreviations,
    r.1.remainder nightMessage ≠ [] ∧ r.1.remainder eveningMessage ≠ [] := by
  decide +kernel

/-- The name is its abbreviation and what is left of it. -/
theorem expanded_abbreviation (msg : LogMessage) :
    ∀ r ∈ abbreviations, r.1.expanded msg = r.2.expanded msg ++ r.1.remainder msg := by
  have hpriority : msg.level.name = msg.level.priority.take 1 ++ msg.level.name.drop 1 := by
    cases msg.level <;> rfl
  simp only [abbreviations, List.forall_mem_cons, List.not_mem_nil, false_implies, implies_true,
    and_true]
  exact ⟨hpriority, (List.take_append_drop 3 msg.localTime.weekday).symm,
    (List.take_append_drop 3 msg.localTime.month).symm⟩

section Padded

/-- A message from a source of `n + 1` octets, the first of which is another one. -/
def sourceMessage (n : ℕ) : LogMessage :=
  { nightMessage with source := 0x61 :: List.replicate n 0x62 }

theorem head?_paddedSource (msg : LogMessage) {c : UInt8} (hsource : msg.source = [c]) (width : ℕ) :
    ((Part.field (.paddedSource (width + 1))).text msg).head? = some c := by
  change (msg.source.drop _ ++ _).head? = _
  rw [hsource, List.length_singleton, Nat.sub_eq_zero_of_le (Nat.le_add_left 1 width)]
  rfl

theorem initials_padded (width : ℕ) :
    (Part.field (.paddedSource (width + 1))).initials = (Part.field .source).initials :=
  Prod.ext (head?_paddedSource nightMessage rfl width) (head?_paddedSource eveningMessage rfl width)

/-- A width below the length crops the first octet. -/
theorem head?_paddedSource_sourceMessage (n width : ℕ) :
    ((Part.field (.paddedSource (width + 1))).text (sourceMessage n)).head? =
      some (if width < n then 0x62 else 0x61) := by
  have hlength : (sourceMessage n).source.length = n + 1 := by simp [sourceMessage]
  change ((sourceMessage n).source.drop _ ++ _).head? = _
  rw [hlength]
  split
  · have hcrop : n + 1 - (width + 1) = (n - width - 1) + 1 := by omega
    rw [hcrop]
    change (((List.replicate n (0x62 : UInt8)).drop (n - width - 1)) ++ _).head? = _
    rw [List.drop_replicate]
    have hrest : n - (n - width - 1) = width + 1 := by omega
    rw [hrest]
    rfl
  · rw [Nat.sub_eq_zero_of_le (by omega)]
    rfl

end Padded

namespace Part.Canonical
variable {x y : Part} {l l' : List Part}

theorem text_ne_nil (hx : x.Canonical) : x.text nightMessage ≠ [] ∧ x.text eveningMessage ≠ [] := by
  cases hx with
  | literal c => exact ⟨List.cons_ne_nil _ _, List.cons_ne_nil _ _⟩
  | plain hp => exact expanded_plain_ne_nil _ hp
  | padded width =>
      have hnight := head?_paddedSource nightMessage rfl width
      have hevening := head?_paddedSource eveningMessage rfl width
      exact ⟨fun hnil => by simp [hnil] at hnight, fun hnil => by simp [hnil] at hevening⟩

theorem head?_flatMap {msg : LogMessage} (hx : x.text msg ≠ []) (l : List Part) :
    ((x :: l).flatMap (text msg)).head? = (x.text msg).head? := by
  rw [List.flatMap_cons, List.head?_append_of_ne_nil _ hx]

/-- Texts that agree have the same first octet. -/
theorem head_eq {msg : LogMessage} {a b : UInt8} (hx : (x.text msg).head? = some a)
    (hy : (y.text msg).head? = some b)
    (h : (x :: l).flatMap (text msg) = (y :: l').flatMap (text msg)) : a = b := by
  have hagree := congrArg List.head? h
  rw [List.flatMap_cons, List.flatMap_cons, List.head?_append, List.head?_append, hx, hy,
    Option.some_or, Option.some_or] at hagree
  exact Option.some.inj hagree

/-- The first octets of texts that agree. -/
theorem initials_eq (hx : x.Canonical) (hy : y.Canonical)
    (h : ∀ msg, (x :: l).flatMap (text msg) = (y :: l').flatMap (text msg)) :
    x.initials = y.initials := by
  refine Prod.ext ?_ ?_
  · have hnight := congrArg List.head? (h nightMessage)
    rwa [head?_flatMap hx.text_ne_nil.1, head?_flatMap hy.text_ne_nil.1] at hnight
  · have hevening := congrArg List.head? (h eveningMessage)
    rwa [head?_flatMap hx.text_ne_nil.2, head?_flatMap hy.text_ne_nil.2] at hevening

/-- No part is written like literal text for both messages. -/
theorem initials_ne_literal {p : Placeholder} (hp : p ∈ plainPlaceholders) (c : UInt8) :
    (field p).initials ≠ (Part.literal c).initials := by
  intro heq
  refine initials_plain_ne p hp ?_
  rw [heq]
  rfl

/-- Behind an abbreviation there is no part that is written like the rest of the name. -/
theorem not_abbreviation {p q : Placeholder} (hpq : (p, q) ∈ abbreviations)
    (hl' : ∀ z ∈ l', Canonical z)
    (h : ∀ msg, (field p :: l).flatMap (text msg) = (field q :: l').flatMap (text msg)) :
    False := by
  have hbehind (msg : LogMessage) :
      p.remainder msg ++ l.flatMap (text msg) = l'.flatMap (text msg) := by
    have hmsg := h msg
    have hname : p.expanded msg = q.expanded msg ++ p.remainder msg :=
      expanded_abbreviation msg (p, q) hpq
    rw [List.flatMap_cons, List.flatMap_cons, text, text, hname, List.append_assoc] at hmsg
    exact List.append_cancel_left hmsg
  obtain ⟨hnight, hevening⟩ := remainder_ne_nil (p, q) hpq
  obtain ⟨hdiffer, hplain⟩ := initials_remainder (p, q) hpq
  cases l' with
  | nil => exact hnight (List.append_eq_nil_iff.mp (hbehind nightMessage)).1
  | cons z l' =>
      have hz : z.Canonical := hl' z List.mem_cons_self
      have hinitials : z.initials =
          ((p.remainder nightMessage).head?, (p.remainder eveningMessage).head?) := by
        refine Prod.ext ?_ ?_
        · have hhead := congrArg List.head? (hbehind nightMessage)
          rw [List.head?_append_of_ne_nil _ hnight, head?_flatMap hz.text_ne_nil.1] at hhead
          exact hhead.symm
        · have hhead := congrArg List.head? (hbehind eveningMessage)
          rw [List.head?_append_of_ne_nil _ hevening, head?_flatMap hz.text_ne_nil.2] at hhead
          exact hhead.symm
      cases hz with
      | literal c =>
          have hfst := congrArg Prod.fst hinitials
          have hsnd := congrArg Prod.snd hinitials
          exact hdiffer (hfst.symm.trans hsnd)
      | plain hp => exact hplain _ hp hinitials
      | padded width =>
          rw [initials_padded] at hinitials
          exact hplain .source (by decide) hinitials

/-- Sources of different widths differ for a source of the right length. -/
theorem padded_eq {width width' : ℕ} (h : ∀ msg,
    (field (.paddedSource (width + 1)) :: l).flatMap (text msg) =
      (field (.paddedSource (width' + 1)) :: l').flatMap (text msg)) : ¬ width < width' := by
  intro hlt
  have hcrop := head?_paddedSource_sourceMessage width' width
  have hwhole := head?_paddedSource_sourceMessage width' width'
  rw [if_pos hlt] at hcrop
  rw [if_neg (Nat.lt_irrefl _)] at hwhole
  exact absurd (head_eq hcrop hwhole (h (sourceMessage width'))) (by decide)

/-- A source and a cropped source. -/
theorem source_ne_padded {width : ℕ} (h : ∀ msg, (field .source :: l).flatMap (text msg) =
    (field (.paddedSource (width + 1)) :: l').flatMap (text msg)) : False := by
  have hcrop := head?_paddedSource_sourceMessage (width + 1) width
  rw [if_pos (Nat.lt_succ_self _)] at hcrop
  have hsource : ((field .source).text (sourceMessage (width + 1))).head? = some 0x61 := rfl
  exact absurd (head_eq hsource hcrop (h (sourceMessage (width + 1)))) (by decide)

/-- A placeholder that is written like a source is the source. -/
theorem eq_source {p : Placeholder} (hp : p ∈ plainPlaceholders)
    (h : (field p).initials = (field .source).initials) : p = .source := by
  rcases initials_plain p hp .source (by decide) h with heq | hmem | hmem
  · exact heq
  · simp [abbreviations] at hmem
  · simp [abbreviations] at hmem

/-- **Texts that agree for all messages begin with the same part.** -/
theorem first_eq (hl : ∀ z ∈ x :: l, Canonical z) (hl' : ∀ z ∈ y :: l', Canonical z)
    (h : ∀ msg, (x :: l).flatMap (text msg) = (y :: l').flatMap (text msg)) : x = y := by
  obtain ⟨hx, htail⟩ := List.forall_mem_cons.mp hl
  obtain ⟨hy, htail'⟩ := List.forall_mem_cons.mp hl'
  have hinitials := initials_eq hx hy h
  have hsym : ∀ msg, (y :: l').flatMap (text msg) = (x :: l).flatMap (text msg) :=
    fun msg => (h msg).symm
  cases hx with
  | literal c =>
      cases hy with
      | literal d =>
          have hcd : some c = some d := congrArg Prod.fst hinitials
          cases hcd
          rfl
      | plain hq => exact absurd hinitials.symm (initials_ne_literal hq c)
      | padded width =>
          rw [initials_padded] at hinitials
          exact absurd hinitials.symm (initials_ne_literal (p := .source) (by decide) c)
  | plain hp =>
      cases hy with
      | literal d => exact absurd hinitials (initials_ne_literal hp d)
      | plain hq =>
          rcases initials_plain _ hp _ hq hinitials with heq | hmem | hmem
          · rw [heq]
          · exact (not_abbreviation hmem htail' h).elim
          · exact (not_abbreviation hmem htail hsym).elim
      | padded width =>
          rw [initials_padded] at hinitials
          obtain rfl := eq_source hp hinitials
          exact (source_ne_padded h).elim
  | padded width =>
      rw [initials_padded] at hinitials
      cases hy with
      | literal d => exact absurd hinitials (initials_ne_literal (p := .source) (by decide) d)
      | plain hq =>
          obtain rfl := eq_source hq hinitials.symm
          exact (source_ne_padded hsym).elim
      | padded width' =>
          have hlt := padded_eq h
          have hgt := padded_eq hsym
          have heq : width = width' := by omega
          rw [heq]

end Part.Canonical

theorem Placeholder.canonical_field {p q : Placeholder} (h : q.canonical = some p) :
    (Part.field p).Canonical := by
  cases q with
  | percent => cases h
  | paddedSource width =>
      cases width with
      | zero =>
          cases h
          exact .plain (by decide)
      | succ width =>
          cases h
          exact .padded width
  | _ =>
      cases h
      exact .plain (by decide)

theorem canonical_parts (actions : List PatternAction) :
    ∀ x ∈ actions.flatMap PatternAction.parts, x.Canonical := by
  intro x hx
  obtain ⟨pa, -, hmem⟩ := List.mem_flatMap.mp hx
  rcases List.mem_append.mp hmem with hliteral | hfield
  · obtain ⟨c, -, rfl⟩ := List.mem_map.mp hliteral
    exact .literal c
  · obtain ⟨p, hp, rfl⟩ := List.mem_map.mp hfield
    rw [Option.mem_toList, PatternAction.placeholder?, Option.bind_eq_some_iff] at hp
    obtain ⟨q, -, hq⟩ := hp
    exact Placeholder.canonical_field hq

/-! ## The result -/

theorem Channel.format_of_nil {channel : Channel} (h : channel.patternActions = [])
    (msg : LogMessage) (text : List UInt8) : channel.format msg text = text := if_pos h

theorem Channel.format_of_ne_nil {channel : Channel} (h : channel.patternActions ≠ [])
    (msg : LogMessage) (text : List UInt8) :
    channel.format msg text = formatActions msg channel.patternActions := if_neg h

/-- A channel with actions does not leave every text alone. -/
theorem Channel.not_forall_format_eq {channel : Channel} (h : channel.patternActions ≠ []) :
    ¬ ∀ msg text, channel.format msg text = text := by
  intro heq
  have hlong := heq nightMessage (0 :: formatActions nightMessage channel.patternActions)
  rw [format_of_ne_nil h] at hlong
  have hlength := congrArg List.length hlong
  rw [List.length_cons] at hlength
  omega

/-- **Channels write the same exactly if they stand for the same.** -/
theorem Channel.format_eq_iff (channel channel' : Channel) :
    (∀ msg text, channel.format msg text = channel'.format msg text) ↔
      standing channel.patternActions = standing channel'.patternActions := by
  by_cases hnil : channel.patternActions = []
  · by_cases hnil' : channel'.patternActions = []
    · simp only [format_of_nil hnil, format_of_nil hnil', implies_true, hnil, hnil']
    · simp only [format_of_nil hnil]
      refine iff_of_false ?_ (by simp [standing, hnil, hnil'])
      intro heq
      exact not_forall_format_eq hnil' fun msg text => (heq msg text).symm
  · by_cases hnil' : channel'.patternActions = []
    · simp only [format_of_nil hnil']
      exact iff_of_false (not_forall_format_eq hnil) (by simp [standing, hnil, hnil'])
    · simp only [format_of_ne_nil hnil, format_of_ne_nil hnil', forall_const, formatActions_eq,
        standing, hnil, hnil', if_false, Option.some.injEq]
      constructor
      · intro heq
        exact eq_of_flatMap_eq (i := nightMessage) (fun x hx => (Part.Canonical.text_ne_nil hx).1)
          (fun _ _ _ _ => Part.Canonical.first_eq) (canonical_parts _) (canonical_parts _) heq
      · intro heq msg
        rw [heq]

theorem Channel.trySetPattern_snd (channel : Channel) {pattern : List UInt8} (h : pattern ≠ []) :
    (channel.trySetPattern pattern).2 =
      { channel with pattern, patternActions := (parseLoop [] pattern).2 } := by
  rw [trySetPattern, if_neg h]
  simp only
  split
  · rfl
  · split <;> rfl

theorem Channel.trySetPattern_fst (channel : Channel) (pattern : List UInt8) :
    (channel.trySetPattern pattern).1 = none ↔ ∃ actions, parsePattern pattern = .ok actions := by
  by_cases hpattern : pattern = []
  · simp [trySetPattern, parsePattern, hpattern]
  · rw [trySetPattern, if_neg hpattern, parsePattern, if_neg hpattern, parseActions_eq]
    generalize parseLoop [] pattern = r
    obtain ⟨e, actions⟩ := r
    cases e with
    | some e => simp
    | none => cases actions <;> simp

/-- **When a rejected pattern changes no message.**  It is empty, or the channel stood already for
what the pattern stands for up to the width that is no number. -/
theorem trySetPattern_unchanged_iff (channel : Channel) (pattern : List UInt8) :
    ((channel.trySetPattern pattern).1 ≠ none → ∀ msg text,
      (channel.trySetPattern pattern).2.format msg text = channel.format msg text) ↔
      (∃ actions, parsePattern pattern = .ok actions) ∨ pattern = [] ∨
        standing channel.patternActions = standsFor [] pattern := by
  rw [← channel.trySetPattern_fst]
  by_cases hpattern : pattern = []
  · have hsame : (channel.trySetPattern pattern).2 = channel := by
      rw [Channel.trySetPattern, if_pos hpattern]
    exact iff_of_true (fun _ msg text => by rw [hsame]) (.inr (.inl hpattern))
  · have hformat := (channel.trySetPattern pattern).2.format_eq_iff channel
    rw [channel.trySetPattern_snd hpattern] at hformat ⊢
    rw [hformat, standing_parseLoop, eq_comm]
    by_cases haccepted : (channel.trySetPattern pattern).1 = none
    · simp [haccepted]
    · simp [haccepted, hpattern]

/-- A channel that is set to what it does already, with a width behind it that is no number. -/
theorem trySetPattern_unchanged_minuteChannel :
    (minuteChannel.trySetPattern (ascii "%M:%S %v[9]%t of %v[x]")).1 ≠ none ∧
      ∀ msg text, (minuteChannel.trySetPattern (ascii "%M:%S %v[9]%t of %v[x]")).2.format msg text =
        minuteChannel.format msg text := by
  have hthrows : (minuteChannel.trySetPattern (ascii "%M:%S %v[9]%t of %v[x]")).1 ≠ none := by
    decide +kernel
  have hunchanged := (trySetPattern_unchanged_iff minuteChannel
    (ascii "%M:%S %v[9]%t of %v[x]")).mpr (.inr (.inr (by decide +kernel)))
  exact ⟨hthrows, hunchanged hthrows⟩

/-- After a rejected pattern the channel of the configuration file writes the source only. -/
theorem not_trySetPattern_unchanged :
    ¬ ∀ (channel : Channel) (pattern : List UInt8), (channel.trySetPattern pattern).1 ≠ none →
      ∀ msg text, (channel.trySetPattern pattern).2.format msg text = channel.format msg text := by
  intro h
  exact absurd (h distChannel (ascii "%s: %v[x]") (by decide +kernel) nightMessage [])
    (by decide +kernel)

end WarheadDiscord.Logging
