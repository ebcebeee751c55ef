import Mathlib.Data.List.Basic
import Mathlib.Tactic.Common

/-!
# `fmt::format` with one text

A format string is copied, except that doubled braces stand for one, and that a replacement field
stands for the argument.  A field names the argument by its index or by none at all; there is one
argument, so that the index is zero, and a field without an index is the only field.

What a format specification does to the argument is a parameter: it gives a text, and the number of
octets that it has read behind the colon.  An exception is `none`.

## Main definitions

* `Fmt.field` — a replacement field.
* `Fmt.format` — the function.
-/

namespace WarheadDiscord.Fmt

/-- How fields have named the argument so far. -/
inductive Indexing
  | undecided
  | automatic
  | manual
  deriving DecidableEq, Repr

/-- `parse_arg_id`, with the text behind the index. -/
def argId (indexing : Indexing) : List UInt8 → Option (Indexing × List UInt8)
  | [] => none
  | c :: it =>
      if c = 0x7d ∨ c = 0x3a then
        if indexing = .undecided then some (.automatic, c :: it) else none
      else if c = 0x30 ∧ (it.head? = some 0x7d ∨ it.head? = some 0x3a) then
        if indexing = .automatic then none else some (.manual, it)
      else none

section
variable (specs : List UInt8 → List UInt8 → Option (List UInt8 × ℕ)) (arg : List UInt8)

/-- What stands for a field, and the text behind it. -/
def field (indexing : Indexing) (it : List UInt8) :
    Option (List UInt8 × Indexing × List UInt8) :=
  match argId indexing it with
  | some (indexing, 0x7d :: rest) => some (arg, indexing, rest)
  | some (indexing, 0x3a :: it) =>
      match specs it arg with
      | some (text, n) =>
          match it.drop n with
          | 0x7d :: rest => some (text, indexing, rest)
          | _ => none
      | none => none
  | _ => none

theorem length_argId_le {indexing indexing' : Indexing} {it rest : List UInt8}
    (h : argId indexing it = some (indexing', rest)) : rest.length ≤ it.length := by
  cases it with
  | nil => cases h
  | cons c it =>
      rw [argId] at h
      split_ifs at h
      · cases h
        exact Nat.le_refl _
      · cases h
        exact Nat.le_succ _

theorem length_field_lt {indexing indexing' : Indexing} {it text rest : List UInt8}
    (h : field specs arg indexing it = some (text, indexing', rest)) :
    rest.length < it.length := by
  rw [field] at h
  split at h
  · next hid =>
      cases h
      exact length_argId_le hid
  · next it' hid =>
      have hle := length_argId_le hid
      rw [List.length_cons] at hle
      split at h
      · next n _ =>
          split at h
          · next hdrop =>
              cases h
              have hlength := congrArg List.length hdrop
              rw [List.length_drop, List.length_cons] at hlength
              omega
          · cases h
      · cases h
  · cases h

/-- `parse_format_string`, with what is written for the text. -/
def formatFrom (indexing : Indexing) : List UInt8 → Option (List UInt8)
  | [] => some []
  | c :: it =>
      if c = 0x7b then
        if it.head? = some 0x7b then (formatFrom indexing it.tail).map (0x7b :: ·)
        else
          match h : field specs arg indexing it with
          | some (text, indexing, rest) =>
              have := length_field_lt specs arg h
              (formatFrom indexing rest).map (text ++ ·)
          | none => none
      else if c = 0x7d then
        if it.head? = some 0x7d then (formatFrom indexing it.tail).map (0x7d :: ·) else none
      else (formatFrom indexing it).map (c :: ·)
termination_by it => it.length
decreasing_by all_goals simp only [List.length_cons, List.length_tail]; omega

def format (str : List UInt8) : Option (List UInt8) := formatFrom specs arg .undecided str

end

/-- A text without braces. -/
def IsPlain (text : List UInt8) : Prop := 0x7b ∉ text ∧ 0x7d ∉ text

section
variable {specs : List UInt8 → List UInt8 → Option (List UInt8 × ℕ)} {arg : List UInt8}

@[simp] theorem formatFrom_nil (indexing : Indexing) :
    formatFrom specs arg indexing [] = some [] := by
  rw [formatFrom]

variable (specs arg) in
/-- Text without braces is copied. -/
theorem formatFrom_append {text : List UInt8} (h : IsPlain text) (indexing : Indexing)
    (rest : List UInt8) : formatFrom specs arg indexing (text ++ rest) =
      (formatFrom specs arg indexing rest).map (text ++ ·) := by
  induction text with
  | nil =>
      show _ = (formatFrom specs arg indexing rest).map id
      rw [Option.map_id]
      rfl
  | cons c text ih =>
      rw [IsPlain, List.mem_cons, List.mem_cons, not_or, not_or] at h
      rw [List.cons_append, formatFrom, if_neg (Ne.symm h.1.1), if_neg (Ne.symm h.2.1),
        ih ⟨h.1.2, h.2.2⟩, Option.map_map]
      rfl

theorem format_of_isPlain {text : List UInt8} (h : IsPlain text) :
    format specs arg text = some text := by
  have happend := formatFrom_append specs arg h .undecided []
  rw [List.append_nil, formatFrom_nil, Option.map_some, List.append_nil] at happend
  exact happend

/-- A field without anything in it stands for the argument. -/
theorem format_field {before behind : List UInt8} (hbefore : IsPlain before)
    (hbehind : IsPlain behind) :
    format specs arg (before ++ 0x7b :: 0x7d :: behind) = some (before ++ (arg ++ behind)) := by
  have hcopied := formatFrom_append specs arg hbehind .automatic []
  rw [List.append_nil, formatFrom_nil, Option.map_some, List.append_nil] at hcopied
  have hfield : field specs arg .undecided (0x7d :: behind) = some (arg, .automatic, behind) := rfl
  have hopen : formatFrom specs arg .undecided (0x7b :: 0x7d :: behind) =
      some (arg ++ behind) := by
    rw [formatFrom, if_pos rfl, if_neg (by simp)]
    split
    · next heq =>
        rw [hfield] at heq
        cases heq
        rw [hcopied]
        rfl
    · next heq =>
        rw [hfield] at heq
        cases heq
  rw [format, formatFrom_append specs arg hbefore, hopen]
  rfl

end

end WarheadDiscord.Fmt
