import Mathlib.Data.List.Basic
import WarheadDiscord.Common.Util
import WarheadDiscord.Lib.Loop

/-!
# Splitting text

`Tokenize` goes from separator to separator with two positions in the text.  `tokenize` reads the
same text octet by octet, and the loop returns what it gives (`returns_tokenize`).  With the empty
tokens this is the only list of texts without a separator that give the text when they are joined
by separators.

## Main definitions

* `Tokenizer.turn` — a turn of the loop, on the positions and the tokens so far.
* `IsSplit` — the pieces of a text.
-/

namespace WarheadDiscord

/-! ## The loop -/

namespace Tokenizer

/-- `std::string_view::find` of an octet from a position on, with `none` for `npos`. -/
def find (str : List UInt8) (sep : UInt8) (pos : ℕ) : Option ℕ :=
  ((str.drop pos).idxOf? sep).map (pos + ·)

/-- `std::string_view::substr`, with `none` for an exception. -/
def substr (str : List UInt8) (pos n : ℕ) : Option (List UInt8) :=
  if str.length < pos then none else some ((str.drop pos).take n)

/-- The variables of the loop. -/
structure Cursor where
  start : ℕ
  stop : Option ℕ
  tokens : List (List UInt8)
  deriving DecidableEq, Repr

/-- In front of the first turn. -/
def Cursor.first (str : List UInt8) (sep : UInt8) : Cursor := ⟨0, find str sep 0, []⟩

/-- A turn of the loop, or what is done behind it.  The result is `none` if `substr` throws. -/
def turn (str : List UInt8) (sep : UInt8) (keepEmpty : Bool) (s : Cursor) :
    Cursor ⊕ Option (List (List UInt8)) :=
  match s.stop with
  | some stop =>
      if keepEmpty || s.start < stop then
        match substr str s.start (stop - s.start) with
        | some token => .inl ⟨stop + 1, find str sep (stop + 1), s.tokens ++ [token]⟩
        | none => .inr none
      else .inl ⟨stop + 1, find str sep (stop + 1), s.tokens⟩
  | none =>
      if keepEmpty || s.start < str.length then
        .inr ((substr str s.start str.length).map fun token => s.tokens ++ [token])
      else .inr (some s.tokens)

end Tokenizer

/-- Texts without the separator that give the text when they are joined by it. -/
structure IsSplit (sep : UInt8) (str : List UInt8) (pieces : List (List UInt8)) : Prop where
  ne_nil : pieces ≠ []
  not_mem : ∀ piece ∈ pieces, sep ∉ piece
  join : [sep].intercalate pieces = str

/-! ## The tokens -/

section Tokens
variable {sep : UInt8} {keepEmpty : Bool} {token str rest : List UInt8}

/-- The tokens up to the first separator. -/
theorem tokenizeFrom_append (hsep : sep ∉ token) (start rest : List UInt8) :
    tokenizeFrom sep keepEmpty start (token ++ sep :: rest) =
      (if keepEmpty || start ++ token ≠ [] then [start ++ token] else []) ++
        tokenizeFrom sep keepEmpty [] rest := by
  induction token generalizing start with
  | nil => simp [tokenizeFrom]
  | cons c token ih =>
      rw [List.mem_cons, not_or] at hsep
      rw [List.cons_append, tokenizeFrom, if_neg (Ne.symm hsep.1), ih hsep.2, List.append_assoc]
      rfl

theorem tokenizeFrom_of_not_mem (hsep : sep ∉ token) (start : List UInt8) :
    tokenizeFrom sep keepEmpty start token =
      if keepEmpty || start ++ token ≠ [] then [start ++ token] else [] := by
  induction token generalizing start with
  | nil => simp [tokenizeFrom]
  | cons c token ih =>
      rw [List.mem_cons, not_or] at hsep
      rw [tokenizeFrom, if_neg (Ne.symm hsep.1), ih hsep.2, List.append_assoc]
      rfl

theorem tokenize_append (hsep : sep ∉ token) (rest : List UInt8) :
    tokenize (token ++ sep :: rest) sep keepEmpty =
      (if keepEmpty || token ≠ [] then [token] else []) ++ tokenize rest sep keepEmpty :=
  tokenizeFrom_append hsep [] rest

theorem tokenize_of_not_mem (hsep : sep ∉ token) :
    tokenize token sep keepEmpty = if keepEmpty || token ≠ [] then [token] else [] :=
  tokenizeFrom_of_not_mem hsep []

theorem tokenizeFrom_true (start str : List UInt8) :
    tokenizeFrom sep true start str = (str.splitOn sep).modifyHead (start ++ ·) := by
  induction str generalizing start with
  | nil => simp [tokenizeFrom]
  | cons c str ih =>
      rw [tokenizeFrom, List.splitOn_cons_eq_if_modifyHead]
      by_cases hc : c = sep
      · have hid : (fun piece : List UInt8 => [] ++ piece) = id := rfl
        rw [if_pos hc, ih, hid, List.modifyHead_id]
        simp [hc]
      · rw [if_neg hc, ih, if_neg (by simpa using hc), List.modifyHead_modifyHead]
        congr 1
        funext piece
        simp

/-- With the empty tokens the pieces are those of `splitOn`. -/
theorem tokenize_true (str : List UInt8) (sep : UInt8) :
    tokenize str sep true = str.splitOn sep := by
  have hid : (fun piece : List UInt8 => [] ++ piece) = id := rfl
  rw [tokenize, tokenizeFrom_true, hid, List.modifyHead_id]
  rfl

theorem tokenizeFrom_false (start str : List UInt8) :
    tokenizeFrom sep false start str = (tokenizeFrom sep true start str).filter (· ≠ []) := by
  induction str generalizing start with
  | nil => by_cases hstart : start = [] <;> simp [tokenizeFrom, hstart]
  | cons c str ih =>
      rw [tokenizeFrom, tokenizeFrom, ih, ih]
      by_cases hc : c = sep
      · by_cases hstart : start = [] <;> simp [hc, hstart]
      · rw [if_neg hc, if_neg hc]

/-- No piece has the separator in it. -/
theorem not_mem_of_mem_splitOn {piece : List UInt8} (h : piece ∈ str.splitOn sep) :
    sep ∉ piece := by
  induction str generalizing piece with
  | nil =>
      rw [List.splitOn_nil, List.mem_singleton] at h
      simp [h]
  | cons c str ih =>
      rw [List.splitOn_cons_eq_if_modifyHead] at h
      split_ifs at h with hc
      · rcases List.mem_cons.mp h with rfl | h
        · exact List.not_mem_nil
        · exact ih h
      · obtain ⟨first, pieces, hsplit⟩ := List.exists_cons_of_ne_nil (List.splitOn_ne_nil sep str)
        rw [hsplit] at h ih
        rcases List.mem_cons.mp h with rfl | h
        · rw [List.mem_cons, not_or]
          refine ⟨?_, ih List.mem_cons_self⟩
          rintro rfl
          exact hc (beq_self_eq_true _)
        · exact ih (List.mem_cons_of_mem _ h)

/-- **The pieces of a text** are determined by it. -/
theorem isSplit_iff {pieces : List (List UInt8)} :
    IsSplit sep str pieces ↔ str.splitOn sep = pieces := by
  constructor
  · rintro ⟨hne, hmem, rfl⟩
    exact List.splitOn_intercalate sep hmem hne
  · rintro rfl
    exact ⟨List.splitOn_ne_nil sep str, fun piece => not_mem_of_mem_splitOn,
      List.intercalate_splitOn sep⟩

end Tokens

/-! ## The result of the loop -/

namespace Tokenizer
variable {str : List UInt8} {sep : UInt8} {keepEmpty : Bool} {pos stop : ℕ}

theorem find_eq_none_iff : find str sep pos = none ↔ sep ∉ str.drop pos := by
  rw [find, Option.map_eq_none_iff, List.idxOf?_eq_none_iff]

/-- The separator that is found is the first one. -/
theorem exists_drop_of_find (h : find str sep pos = some stop) :
    ∃ token, sep ∉ token ∧ stop = pos + token.length ∧
      str.drop pos = token ++ sep :: str.drop (stop + 1) := by
  obtain ⟨i, hi, rfl⟩ := Option.map_eq_some_iff.mp h
  obtain ⟨hlt, hat, hbefore⟩ := List.idxOf?_eq_some_iff.mp hi
  have hlength : ((str.drop pos).take i).length = i := List.length_take_of_le (Nat.le_of_lt hlt)
  refine ⟨(str.drop pos).take i, ?_, by rw [hlength], ?_⟩
  · intro hmem
    obtain ⟨j, hj, heq⟩ := List.getElem_of_mem hmem
    rw [List.getElem_take] at heq
    exact hbefore j (hlength ▸ hj) heq
  · conv_lhs => rw [← List.take_append_drop i (str.drop pos), List.drop_eq_getElem_cons hlt, hat]
    rw [List.drop_drop, Nat.add_assoc]

theorem substr_of_le {n : ℕ} (h : pos ≤ str.length) :
    substr str pos n = some ((str.drop pos).take n) := by
  rw [substr, if_neg (by omega)]

/-- What holds in front of every turn. -/
structure Invariant (str : List UInt8) (sep : UInt8) (keepEmpty : Bool) (s : Cursor) : Prop where
  start_le : s.start ≤ str.length
  stop_eq : s.stop = find str sep s.start
  tokens_eq : s.tokens ++ tokenize (str.drop s.start) sep keepEmpty = tokenize str sep keepEmpty

/-- A turn that finds a separator. -/
theorem turn_of_find {s : Cursor} (h : Invariant str sep keepEmpty s)
    (hstop : find str sep s.start = some stop) :
    ∃ t, turn str sep keepEmpty s = .inl t ∧ Invariant str sep keepEmpty t ∧
      s.start < t.start := by
  obtain ⟨token, hsep, rfl, hdrop⟩ := exists_drop_of_find hstop
  have htake : (str.drop s.start).take (s.start + token.length - s.start) = token := by
    rw [Nat.add_sub_cancel_left, hdrop, List.take_left]
  have hle : s.start + token.length + 1 ≤ str.length := by
    have hlength := congrArg List.length hdrop
    rw [List.length_drop, List.length_append, List.length_cons, List.length_drop] at hlength
    have hstart := h.start_le
    omega
  have hkeep : (keepEmpty || decide (s.start < s.start + token.length)) =
      (keepEmpty || decide (token ≠ [])) := by
    cases token <;> simp
  have htokens := h.tokens_eq
  rw [hdrop, tokenize_append hsep] at htokens
  rw [turn, h.stop_eq, hstop]
  simp only [hkeep, substr_of_le h.start_le, htake]
  by_cases hadd : (keepEmpty || decide (token ≠ [])) = true
  · rw [if_pos hadd] at htokens ⊢
    exact ⟨_, rfl, ⟨hle, rfl, by rw [← htokens, List.append_assoc]⟩,
      Nat.lt_succ_of_le (Nat.le_add_right _ _)⟩
  · rw [if_neg hadd] at htokens ⊢
    exact ⟨_, rfl, ⟨hle, rfl, htokens⟩, Nat.lt_succ_of_le (Nat.le_add_right _ _)⟩

/-- Behind the last separator. -/
theorem turn_of_find_none {s : Cursor} (h : Invariant str sep keepEmpty s)
    (hstop : find str sep s.start = none) :
    turn str sep keepEmpty s = .inr (some (tokenize str sep keepEmpty)) := by
  have htokens := h.tokens_eq
  rw [tokenize_of_not_mem (find_eq_none_iff.mp hstop)] at htokens
  have hkeep : (keepEmpty || decide (s.start < str.length)) =
      (keepEmpty || decide (str.drop s.start ≠ [])) := by
    simp
  have hall : (str.drop s.start).take str.length = str.drop s.start :=
    List.take_of_length_le (by simp)
  rw [turn, h.stop_eq, hstop]
  simp only [hkeep, substr_of_le h.start_le, hall]
  by_cases hadd : (keepEmpty || decide (str.drop s.start ≠ [])) = true
  · rw [if_pos hadd] at htokens ⊢
    rw [← htokens]
    rfl
  · rw [if_neg hadd, List.append_nil] at htokens
    rw [if_neg hadd, htokens]

/-- **The loop returns the tokens.** -/
theorem returns_tokenize (str : List UInt8) (sep : UInt8) (keepEmpty : Bool) :
    Loop.Returns (turn str sep keepEmpty) (.first str sep) (some (tokenize str sep keepEmpty)) := by
  have hfirst : Invariant str sep keepEmpty (.first str sep) := ⟨Nat.zero_le _, rfl, rfl⟩
  have hturn : ∀ s, Invariant str sep keepEmpty s →
      (∃ r, turn str sep keepEmpty s = .inr r ∧ r = some (tokenize str sep keepEmpty)) ∨
        ∃ t, turn str sep keepEmpty s = .inl t ∧ Invariant str sep keepEmpty t ∧
          str.length + 1 - t.start < str.length + 1 - s.start := by
    intro s hs
    cases hstop : find str sep s.start with
    | none => exact .inl ⟨_, turn_of_find_none hs hstop, rfl⟩
    | some stop =>
        obtain ⟨t, hturn, ht, hlt⟩ := turn_of_find hs hstop
        have hle := ht.start_le
        exact .inr ⟨t, hturn, ht, by omega⟩
  obtain ⟨r, hreturns, rfl⟩ :=
    Loop.exists_returns_of_lt (fun s : Cursor => str.length + 1 - s.start) hturn hfirst
  exact hreturns

end Tokenizer

/-- **`Tokenize` is the split at the separators**: the loop ends, with the empty tokens it gives
the only pieces of the text, and without them what is left of these. -/
theorem tokenize_eq_split (str : List UInt8) (sep : UInt8) :
    (∀ keepEmpty, Loop.Returns (Tokenizer.turn str sep keepEmpty) (.first str sep)
        (some (tokenize str sep keepEmpty))) ∧
      (∀ pieces, IsSplit sep str pieces ↔ pieces = tokenize str sep true) ∧
      tokenize str sep false = (tokenize str sep true).filter (· ≠ []) := by
  refine ⟨Tokenizer.returns_tokenize str sep, ?_, tokenizeFrom_false [] str⟩
  intro pieces
  rw [isSplit_iff, tokenize_true]
  exact eq_comm

example : tokenize [0x2c, 0x61, 0x2c] 0x2c true = [[], [0x61], []] := by decide

end WarheadDiscord
