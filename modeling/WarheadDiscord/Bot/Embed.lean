import WarheadDiscord.Common.Utf8

/-!
# The embeds of the bot library

An embed cuts the texts it is given.  `utf8substr` counts code points, so what it leaves of a
text may take more bytes than it was told to leave.  On valid text it gives the first so many
characters (`utf8substr_eq`), and these fit into that number of bytes exactly when the whole
text does, or when they are all ASCII (`length_first_le_iff`).

`none` stands for a read behind the end of a string, which `utf8len` does for a sequence that
is cut off.  `char` is signed.

## Main definitions

* `utf8len`, `utf8substr` — the functions of `dpp::utility`.
* `Embed`, `Embed.addField` and the setters — `dpp::embed`.
-/

namespace WarheadDiscord

open Utf8

namespace Dpp

/-- `std::string::npos` -/
def npos : ℕ := 2 ^ 64 - 1

/-- The `switch` of `utf8len`. -/
def lenStep (c : UInt8) : ℕ := if 0xf0 &&& c = 0xe0 then 3 else if 0xf0 &&& c = 0xf0 then 4 else 2

/-- The rest of `utf8len` from a place in the string on.  The source counts a run of ASCII at
its end, here it is counted as it is read. -/
def utf8lenFrom : List UInt8 → ℕ → Option ℕ
  | [], count => some count
  | c :: rest, count =>
      if c = 0 then some count
      else if c < 0x80 then utf8lenFrom rest (count + 1)
      else if rest.length + 1 < lenStep c then none
      else utf8lenFrom (rest.drop (lenStep c - 1)) (count + 1)
termination_by s => s.length
decreasing_by all_goals simp; try omega

def utf8len (str : List UInt8) : Option ℕ := utf8lenFrom str 0

/-- How many bytes are behind this one in its sequence; `none` is for invalid text. -/
def behind (c : UInt8) : Option ℕ :=
  if c < 0x80 then some 0
  else if c &&& 0xe0 = 0xc0 then some 1
  else if c &&& 0xf0 = 0xe0 then some 2
  else if c &&& 0xf8 = 0xf0 then some 3
  else none

/-- The loop of `utf8substr`: `q`, `i`, `min` and `max` behind it, or `none` when it returns. -/
def utf8substrLoop (str : List UInt8) (start leng q i min max : ℕ) : Option (ℕ × ℕ × ℕ × ℕ) :=
  if hlt : i < str.length then
    let min := if q = start then i else min
    let max := if q ≤ start + leng ∨ leng = npos then i else max
    match behind str[i] with
    | none => none
    | some n => utf8substrLoop str start leng (q + 1) (i + n + 1) min max
  else some (q, i, min, max)
termination_by str.length - i

def utf8substr (str : List UInt8) (start leng : ℕ) : Option (List UInt8) :=
  if leng = 0 then some []
  else do
    let whole ← if start = 0 then (utf8len str).map fun len => decide (leng ≥ len) else some false
    if whole then return str
    match utf8substrLoop str start leng 0 0 npos npos with
    | none => return []
    | some (q, i, min, max) =>
        let max := if q ≤ start + leng ∨ leng = npos then i else max
        if min = npos ∨ max = npos then return [] else return (str.drop min).take max

structure EmbedField where
  name : List UInt8
  value : List UInt8
  isInline : Bool
  deriving DecidableEq, Repr

structure Embed where
  title : List UInt8 := []
  description : List UInt8 := []
  color : BitVec 32 := 0
  timestamp : ℤ := 0
  fields : List EmbedField := []
  deriving DecidableEq, Repr

namespace Embed

def setTitle (e : Embed) (text : List UInt8) : Option Embed :=
  (utf8substr text 0 256).map fun title => { e with title := title }

def setDescription (e : Embed) (text : List UInt8) : Option Embed :=
  (utf8substr text 0 4096).map fun description => { e with description := description }

def setColor (e : Embed) (col : BitVec 32) : Embed := { e with color := col &&& 0x00ffffff }

def setTimestamp (e : Embed) (tstamp : ℤ) : Embed := { e with timestamp := tstamp }

def addField (e : Embed) (name value : List UInt8) (isInline : Bool) : Option Embed :=
  if e.fields.length < 25 then do
    let name ← utf8substr name 0 256
    let value ← utf8substr value 0 1024
    return { e with fields := e.fields ++ [⟨name, value, isInline⟩] }
  else return e

end Embed

/-! ## Cutting valid text -/

/-- The masks, as ranges. -/
theorem masks_eq (c : UInt8) :
    behind c = (if c.toNat < 0x80 then some 0
      else if c.toNat < 0xc0 then none
      else if c.toNat < 0xe0 then some 1
      else if c.toNat < 0xf0 then some 2
      else if c.toNat < 0xf8 then some 3
      else none) ∧
    lenStep c = if c.toNat < 0xe0 then 2 else if c.toNat < 0xf0 then 3 else 4 := by
  have hall : ∀ n < 256,
      behind (UInt8.ofNat n) = (if (UInt8.ofNat n).toNat < 0x80 then some 0
        else if (UInt8.ofNat n).toNat < 0xc0 then none
        else if (UInt8.ofNat n).toNat < 0xe0 then some 1
        else if (UInt8.ofNat n).toNat < 0xf0 then some 2
        else if (UInt8.ofNat n).toNat < 0xf8 then some 3
        else none) ∧
      lenStep (UInt8.ofNat n) = if (UInt8.ofNat n).toNat < 0xe0 then 2
        else if (UInt8.ofNat n).toNat < 0xf0 then 3 else 4 := by decide +kernel
  have hc := hall c.toNat c.toNat_lt
  rwa [UInt8.ofNat_toNat] at hc

/-- Both functions find out how long a sequence is. -/
theorem masks_of_sequence {a : UInt8} {bs : List UInt8} {cp : ℕ} (h : Sequence (a :: bs) cp) :
    behind a = some bs.length ∧ (a.toNat < 0x80 ∧ bs = [] ∨
      0x80 ≤ a.toNat ∧ lenStep a = bs.length + 1) := by
  obtain ⟨hbehind, hstep⟩ := masks_eq a
  rw [hbehind, hstep]
  generalize hn : a :: bs = s at h
  cases h with
  | one a' ha =>
    cases hn
    exact ⟨if_pos ha, .inl ⟨ha, rfl⟩⟩
  | two a' b cp ha hb hmin hmax =>
    cases hn
    rw [if_neg (by omega), if_neg (by omega), if_pos (by omega), if_pos (by omega)]
    exact ⟨rfl, .inr ⟨by omega, rfl⟩⟩
  | three a' b c cp ha hb hc hmin hmax hsurrogate =>
    cases hn
    rw [if_neg (by omega), if_neg (by omega), if_neg (by omega), if_pos (by omega),
      if_neg (by omega), if_pos (by omega)]
    exact ⟨rfl, .inr ⟨by omega, rfl⟩⟩
  | four a' b c d cp ha hb hc hd hmin hmax =>
    cases hn
    rw [if_neg (by omega), if_neg (by omega), if_neg (by omega), if_neg (by omega),
      if_pos (by omega), if_neg (by omega), if_neg (by omega)]
    exact ⟨rfl, .inr ⟨by omega, rfl⟩⟩

theorem utf8lenFrom_append {bs : List UInt8} {cp : ℕ} (h : Sequence bs cp)
    (hzero : ∀ b ∈ bs, b ≠ 0) (rest : List UInt8) (count : ℕ) :
    utf8lenFrom (bs ++ rest) count = utf8lenFrom rest (count + 1) := by
  obtain ⟨a, bs, rfl⟩ := List.exists_cons_of_length_pos h.length_pos
  rw [List.cons_append, utf8lenFrom, if_neg (hzero a List.mem_cons_self)]
  rcases (masks_of_sequence h).2 with ⟨ha, rfl⟩ | ⟨ha, hstep⟩
  · have hlt : a < 0x80 := ha
    rw [if_pos hlt, List.nil_append]
  · have hge : ¬ a < 0x80 := not_lt.2 ha
    rw [if_neg hge, hstep, if_neg (by simp), Nat.add_sub_cancel, List.drop_left]

/-- On text without a zero, `utf8len` counts the code points. -/
theorem utf8len_eq {s : List UInt8} {cps : List ℕ} (h : Text s cps) (hzero : ∀ b ∈ s, b ≠ 0) :
    utf8len s = some cps.length := by
  have hfrom : ∀ count, utf8lenFrom s count = some (count + cps.length) := by
    induction h with
    | nil => intro count; rw [utf8lenFrom]; rfl
    | cons hsequence htext ih =>
      intro count
      rw [List.forall_mem_append] at hzero
      rw [utf8lenFrom_append hsequence hzero.1, ih hzero.2, List.length_cons]
      congr 1
      omega
  rw [utf8len, hfrom, Nat.zero_add]

section Loop

variable {str before bs rest s : List UInt8} {cps : List ℕ} {cp leng q min max : ℕ}

/-- One turn of the loop is one sequence. -/
theorem utf8substrLoop_sequence (h : Sequence bs cp) (hstr : str = before ++ (bs ++ rest)) :
    utf8substrLoop str 0 leng q before.length min max =
      utf8substrLoop str 0 leng (q + 1) (before ++ bs).length
        (if q = 0 then before.length else min)
        (if q ≤ 0 + leng ∨ leng = npos then before.length else max) := by
  obtain ⟨a, bs, rfl⟩ := List.exists_cons_of_length_pos h.length_pos
  have hlt : before.length < str.length := by
    rw [hstr, List.length_append, List.length_append, List.length_cons]
    omega
  have hget : str[before.length] = a := by
    simp [hstr]
  rw [utf8substrLoop, dif_pos hlt, hget, (masks_of_sequence h).1, List.length_append,
    List.length_cons]
  rfl

theorem utf8substrLoop_end (q min max : ℕ) :
    utf8substrLoop str 0 leng q str.length min max = some (q, str.length, min, max) := by
  rw [utf8substrLoop, dif_neg (lt_irrefl _)]

/-- Behind the last character that is wanted, nothing changes. -/
theorem utf8substrLoop_of_lt (h : Text s cps) (hstr : str = before ++ s) (hq : leng < q)
    (hnpos : leng ≠ npos) :
    utf8substrLoop str 0 leng q before.length min max =
      some (q + cps.length, str.length, min, max) := by
  induction h generalizing before q with
  | nil =>
    rw [List.append_nil] at hstr
    rw [← hstr, utf8substrLoop_end]
    rfl
  | cons hsequence htext ih =>
    rw [utf8substrLoop_sequence hsequence hstr, if_neg (by omega), if_neg (by omega),
      ih (hstr.trans (List.append_assoc _ _ _).symm) (by omega), List.length_cons]
    congr 2
    omega

/-- Up to there, `max` is where the next character starts. -/
theorem utf8substrLoop_of_le (h : Text s cps) (hstr : str = before ++ s) (hq : q ≤ leng)
    (hlt : leng < q + cps.length) (hnpos : leng ≠ npos) :
    ∃ first last, s = first ++ last ∧ Text first (cps.take (leng - q)) ∧
      utf8substrLoop str 0 leng q before.length min max =
        some (q + cps.length, str.length, if q = 0 then before.length else min,
          (before ++ first).length) := by
  induction h generalizing before q min max with
  | nil => exact absurd hlt (by simpa using hq)
  | @cons bs s cp cps hsequence htext ih =>
    have hstr' := hstr.trans (List.append_assoc _ _ _).symm
    rw [utf8substrLoop_sequence hsequence hstr, if_pos (by omega : q ≤ 0 + leng ∨ leng = npos)]
    rw [List.length_cons] at hlt ⊢
    by_cases hlast : q = leng
    · refine ⟨[], bs ++ s, rfl, ?_, ?_⟩
      · rw [hlast, Nat.sub_self, List.take_zero]
        exact .nil
      · rw [utf8substrLoop_of_lt htext hstr' (by omega) hnpos, List.append_nil]
        congr 2
        omega
    · obtain ⟨first, last, hsplit, hfirst, hloop⟩ := @ih (before ++ bs) (q + 1)
        (if q = 0 then before.length else min) before.length hstr' (by omega) (by omega)
      refine ⟨bs ++ first, last, ?_, ?_, ?_⟩
      · rw [hsplit, List.append_assoc]
      · rw [show leng - q = leng - (q + 1) + 1 by omega, List.take_succ_cons]
        exact .cons hsequence hfirst
      · rw [hloop, if_neg (by omega), List.append_assoc]
        congr 2
        omega

end Loop

/-- **What `utf8substr` leaves of valid text**: its first so many characters. -/
theorem utf8substr_eq {s : List UInt8} {cps : List ℕ} {leng : ℕ} (h : Text s cps)
    (hzero : ∀ b ∈ s, b ≠ 0) (hpos : leng ≠ 0) (hnpos : 4 * leng < npos) :
    ∃ first last, s = first ++ last ∧ Text first (cps.take leng) ∧
      (cps.length ≤ leng → last = []) ∧ utf8substr s 0 leng = some first := by
  rw [utf8substr, if_neg hpos, if_pos rfl, utf8len_eq h hzero]
  simp only [Option.map_some, Option.bind_eq_bind, Option.bind_some, ge_iff_le, decide_eq_true_eq]
  by_cases hle : cps.length ≤ leng
  · rw [if_pos hle]
    refine ⟨s, [], (List.append_nil s).symm, ?_, fun _ => rfl, rfl⟩
    rwa [List.take_of_length_le hle]
  · rw [if_neg hle]
    obtain ⟨first, last, hsplit, hfirst, hloop⟩ := @utf8substrLoop_of_le s [] s cps leng 0 npos npos
      h rfl (Nat.zero_le _) (by omega) (by omega)
    have hlength := (length_le_of_text hfirst).2
    rw [Nat.sub_zero, List.length_take] at hlength
    refine ⟨first, last, hsplit, hfirst, fun h => absurd h hle, ?_⟩
    rw [List.length_nil] at hloop
    rw [hloop]
    have hend : ¬ (0 + cps.length ≤ 0 + leng ∨ leng = npos) := by omega
    have hfound : ¬ (0 = npos ∨ first.length = npos) := by
      have hzero : 0 ≠ npos := by decide
      omega
    simp only [List.nil_append, if_pos, if_neg hend, if_neg hfound, List.drop_zero]
    rw [hsplit, List.take_left]
    rfl

/-- Text of as many bytes as characters is ASCII. -/
theorem ascii_of_length_le {t : List UInt8} {cps : List ℕ} (h : Text t cps)
    (hle : t.length ≤ cps.length) : ∀ b ∈ t, b.toNat < 0x80 := by
  induction h with
  | nil => intro b hb; cases hb
  | @cons bs s cp cps hsequence htext ih =>
    have hcps := (length_le_of_text htext).1
    have hpos := hsequence.length_pos
    rw [List.length_append, List.length_cons] at hle
    cases hsequence with
    | one a ha =>
      rw [List.singleton_append, List.forall_mem_cons]
      exact ⟨ha, ih (by simp only [List.length_singleton] at hle; omega)⟩
    | _ => simp only [List.length_cons] at hle; omega

/-- Behind ASCII there are as many characters as bytes. -/
theorem lt_length_of_ascii {t : List UInt8} {cps : List ℕ} {n : ℕ} (h : Text t cps)
    (hn : n < t.length) (hascii : ∀ b ∈ t.take n, b.toNat < 0x80) : n < cps.length := by
  induction h generalizing n with
  | nil => cases hn
  | @cons bs s cp cps hsequence htext ih =>
    cases n with
    | zero => exact Nat.succ_pos _
    | succ n =>
      obtain ⟨a, bs, rfl⟩ := List.exists_cons_of_length_pos hsequence.length_pos
      rw [List.cons_append, List.take_succ_cons, List.forall_mem_cons] at hascii
      rcases (masks_of_sequence hsequence).2 with ⟨-, rfl⟩ | ⟨ha, -⟩
      · rw [List.length_cons]
        exact Nat.succ_lt_succ (ih (Nat.lt_of_succ_lt_succ hn) hascii.2)
      · exact absurd hascii.1 (not_lt.2 ha)

/-- The text fits, or what is left of it is ASCII. -/
def FitsCut (leng : ℕ) (text : List UInt8) : Prop :=
  text.length ≤ leng ∨ ∀ b ∈ text.take leng, b.toNat < 0x80

/-- **When the first characters fit** into as many bytes. -/
theorem length_first_le_iff {first last : List UInt8} {cps : List ℕ} {leng : ℕ}
    (hfirst : Text first (cps.take leng))
    (hlast : cps.length ≤ leng → last = []) :
    first.length ≤ leng ↔ FitsCut leng (first ++ last) := by
  have hcount := (length_le_of_text hfirst).1
  constructor
  · intro hle
    by_cases hshort : cps.length ≤ leng
    · left
      rwa [hlast hshort, List.append_nil]
    · right
      rw [List.length_take] at hcount
      have hlength : first.length = leng := by omega
      rw [List.take_left' hlength]
      refine ascii_of_length_le hfirst ?_
      rw [List.length_take]
      omega
  · rintro (hle | hascii)
    · rw [List.length_append] at hle
      omega
    · by_contra hlt
      rw [List.take_append_of_le_length (by omega)] at hascii
      have hmore := lt_length_of_ascii hfirst (by omega) hascii
      rw [List.length_take] at hmore
      omega

/-- What is left of a string that can be sent, and when it fits. -/
theorem utf8substr_fits {text : List UInt8} {leng : ℕ} (hvalid : isValid text = true)
    (hzero : ∀ b ∈ text, b ≠ 0) (hpos : leng ≠ 0) (hnpos : 4 * leng < npos) :
    ∃ cut, utf8substr text 0 leng = some cut ∧ (cut.length ≤ leng ↔ FitsCut leng text) := by
  obtain ⟨cps, htext⟩ := isValid_iff.1 hvalid
  obtain ⟨first, last, rfl, hfirst, hlast, hcut⟩ := utf8substr_eq htext hzero hpos hnpos
  exact ⟨first, hcut, length_first_le_iff hfirst hlast⟩

end Dpp

end WarheadDiscord
