import WarheadDiscord.Account.AccountMgr

/-!
# Random keys

`GetRandomKey` draws how many small letters there are, then how many big ones, and the rest are
digits.  It fills three parts of a text with them and shuffles it.  The first draw may take
all the characters there are, and then the second one is from an empty range, which `urand`
asserts not to be (`getRandomKey_iff`).

The generators are given by what they may return: a number of the range that is asked for, any
number, and any order of a text.

## Main definitions

* `Generators` — the generators, with the state they are in.
* `urand`, `fillLoop`, `getRandomKey` — the code; `none` is the failed assertion.
* `WellFormedKey` — what is asked of a key.
-/

namespace WarheadDiscord

open Utf8

structure Generators (γ : Type) where
  /-- `std::uniform_int_distribution<uint32>`, on a range that is not empty -/
  uniform : ℕ → ℕ → γ → ℕ × γ
  /-- `rand` -/
  rand : γ → ℕ × γ
  /-- `std::shuffle` -/
  shuffle : List UInt8 → γ → List UInt8 × γ
  uniform_mem : ∀ min max g, min ≤ max →
    min ≤ (uniform min max g).1 ∧ (uniform min max g).1 ≤ max
  shuffle_perm : ∀ key g, (shuffle key g).1.Perm key

variable {γ : Type} (gen : Generators γ)

def urand (min max : ℕ) (g : γ) : Option (ℕ × γ) :=
  if min ≤ max then some (gen.uniform min max g) else none

/-- A loop over `count` characters from `i` on: each becomes one of `range` characters. -/
def fillLoop (range first : ℕ) : ℕ → ℕ → List UInt8 → γ → List UInt8 × γ
  | 0, _, key, g => (key, g)
  | count + 1, i, key, g =>
      let (value, g) := gen.rand g
      fillLoop range first count (i + 1) (key.set i (UInt8.ofNat (value % range + first))) g

/-- The three loops, on a text of zeros. -/
def fillKey (numbers bigChars : ℕ) (g : γ) : List UInt8 × γ :=
  let (key, g) := fillLoop gen 10 48 numbers 0 (List.replicate MAX_PASS_STR 0) g
  let (key, g) := fillLoop gen 26 65 bigChars numbers key g
  fillLoop gen 26 97 (MAX_PASS_STR - (numbers + bigChars)) (numbers + bigChars) key g

def getRandomKey (g : γ) : Option (List UInt8 × γ) := do
  let (smallChars, g) ← urand gen 1 MAX_PASS_STR g
  let (bigChars, g) ← urand gen 1 (MAX_PASS_STR - smallChars) g
  let numbers := MAX_PASS_STR - smallChars - bigChars
  let (key, g) := fillKey gen numbers bigChars g
  return gen.shuffle key g

/-! ## What is asked -/

def IsDigit (c : UInt8) : Prop := 48 ≤ c.toNat ∧ c.toNat < 58
def IsUpper (c : UInt8) : Prop := 65 ≤ c.toNat ∧ c.toNat < 91
def IsLower (c : UInt8) : Prop := 97 ≤ c.toNat ∧ c.toNat < 123

structure WellFormedKey (key : List UInt8) : Prop where
  length_eq : key.length = MAX_PASS_STR
  alnum : ∀ c ∈ key, IsDigit c ∨ IsUpper c ∨ IsLower c
  lower : ∃ c ∈ key, IsLower c
  upper : ∃ c ∈ key, IsUpper c

/-- No account is refused for the length of the key. -/
def NeverLong (key : List UInt8) : Prop :=
  (∀ (srp6 : Srp6) (accounts : Accounts) (salt : Vector UInt8 32) (username : List UInt8)
      (guildID : ℤ) (realmName : List UInt8),
    (createAccount srp6 accounts salt username key guildID realmName).1 ≠ .longKey) ∧
  ∀ (srp6 : Srp6) (accounts : Accounts) (salt : Vector UInt8 32) (name : List UInt8),
    (changeKey srp6 accounts salt name key).1 ≠ .longKey

variable {key : List UInt8}

theorem utf8length_le (s : List UInt8) : (utf8length s).1 ≤ s.length := by
  rw [utf8length, distance]
  cases hcps : codePoints s with
  | error error => exact Nat.zero_le _
  | ok cps => exact (length_le_of_text (codePoints_eq_ok_iff.mp hcps)).1

theorem length_utf8ToUpperOnlyLatin (s : List UInt8) :
    (utf8ToUpperOnlyLatin s).2.length = s.length := by
  by_cases hvalid : isValid s = true
  · rw [utf8ToUpperOnlyLatin_of_isValid hvalid, List.length_map]
  · rw [utf8ToUpperOnlyLatin_of_not_isValid hvalid]

/-- A text has at most as many characters as octets. -/
theorem neverLong_of_length_le (h : key.length ≤ MAX_PASS_STR) : NeverLong key := by
  constructor
  · intro srp6 accounts salt username guildID realmName
    have hkey : ¬ (utf8length key).1 > MAX_PASS_STR :=
      Nat.not_lt.mpr ((utf8length_le key).trans h)
    rw [createAccount, if_neg hkey]
    dsimp only
    split_ifs <;> exact fun hlong => by cases hlong
  · intro srp6 accounts salt name
    have hkey : ¬ (utf8length (utf8ToUpperOnlyLatin key).2).1 > MAX_PASS_STR := by
      have hle := utf8length_le (utf8ToUpperOnlyLatin key).2
      rw [length_utf8ToUpperOnlyLatin] at hle
      exact Nat.not_lt.mpr (hle.trans h)
    rw [changeKey]
    dsimp only
    rw [if_neg hkey]
    split_ifs <;> exact fun hlong => by cases hlong

/-! ## The three parts -/

/-- What a loop leaves: its characters are in the range, and the others are as they were. -/
theorem fillLoop_spec (range first : ℕ) (hrange : 0 < range) (hfirst : range + first ≤ 256)
    (count i : ℕ) (key : List UInt8) (g : γ) :
    (fillLoop gen range first count i key g).1.length = key.length ∧
      ∀ j c, (fillLoop gen range first count i key g).1[j]? = some c →
        if i ≤ j ∧ j < i + count then first ≤ c.toNat ∧ c.toNat < range + first
        else key[j]? = some c := by
  induction count generalizing i key g with
  | zero =>
    refine ⟨rfl, ?_⟩
    intro j c hc
    rw [if_neg (by omega)]
    exact hc
  | succ count ih =>
    rw [fillLoop]
    obtain ⟨hlength, hcells⟩ := ih (i + 1)
      (key.set i (UInt8.ofNat ((gen.rand g).1 % range + first))) (gen.rand g).2
    refine ⟨hlength.trans List.length_set, ?_⟩
    intro j c hc
    have hcell := hcells j c hc
    by_cases hj : j = i
    · -- the character that was just written
      subst hj
      have hlt := Nat.mod_lt (gen.rand g).1 hrange
      rw [if_neg (by omega)] at hcell
      have hin : j < key.length := by
        have hin := (List.getElem?_eq_some_iff.mp hcell).1
        rwa [List.length_set] at hin
      rw [List.getElem?_set_self hin] at hcell
      cases hcell
      have hoctet : (gen.rand g).1 % range + first < UInt8.size := by
        change _ < 256
        omega
      rw [if_pos (by omega), UInt8.toNat_ofNat_of_lt' hoctet]
      omega
    · by_cases hin : i ≤ j ∧ j < i + (count + 1)
      · rw [if_pos (by omega)] at hcell
        rwa [if_pos hin]
      · rw [if_neg (by omega), List.getElem?_set_ne (Ne.symm hj)] at hcell
        rwa [if_neg hin]

/-- The characters after the three loops. -/
theorem fillKey_spec {numbers bigChars : ℕ} (hle : numbers + bigChars ≤ MAX_PASS_STR) (g : γ) :
    (fillKey gen numbers bigChars g).1.length = MAX_PASS_STR ∧
      ∀ j c, (fillKey gen numbers bigChars g).1[j]? = some c →
        if j < numbers then IsDigit c
        else if j < numbers + bigChars then IsUpper c
        else IsLower c := by
  rw [fillKey]
  dsimp only
  generalize hfirst : fillLoop gen 10 48 numbers 0 (List.replicate MAX_PASS_STR 0) g = first
  generalize hsecond : fillLoop gen 26 65 bigChars numbers first.1 first.2 = second
  have hspec₁ := fillLoop_spec gen 10 48 (by decide) (by decide) numbers 0
    (List.replicate MAX_PASS_STR 0) g
  have hspec₂ := fillLoop_spec gen 26 65 (by decide) (by decide) bigChars numbers first.1 first.2
  have hspec₃ := fillLoop_spec gen 26 97 (by decide) (by decide)
    (MAX_PASS_STR - (numbers + bigChars)) (numbers + bigChars) second.1 second.2
  rw [hfirst, List.length_replicate] at hspec₁
  rw [hsecond] at hspec₂
  have hlength := hspec₃.1.trans (hspec₂.1.trans hspec₁.1)
  refine ⟨hlength, ?_⟩
  intro j c hc
  have hj : j < MAX_PASS_STR := hlength ▸ (List.getElem?_eq_some_iff.mp hc).1
  have hcell₃ := hspec₃.2 j c hc
  split_ifs with hdigit hupper
  · rw [if_neg (by omega)] at hcell₃
    have hcell₂ := hspec₂.2 j c hcell₃
    rw [if_neg (by omega)] at hcell₂
    have hcell₁ := hspec₁.2 j c hcell₂
    rwa [if_pos (by omega)] at hcell₁
  · rw [if_neg (by omega)] at hcell₃
    have hcell₂ := hspec₂.2 j c hcell₃
    rwa [if_pos (by omega)] at hcell₂
  · rwa [if_pos (by omega)] at hcell₃

/-- There is a letter of either kind, and nothing but letters and digits. -/
theorem wellFormedKey_fillKey (numbers bigChars : ℕ) (hbig : 0 < bigChars)
    (hlt : numbers + bigChars < MAX_PASS_STR) (g : γ) :
    WellFormedKey (fillKey gen numbers bigChars g).1 := by
  obtain ⟨hlength, hcells⟩ := fillKey_spec gen hlt.le g
  refine ⟨hlength, ?_, ?_, ?_⟩
  · intro c hc
    obtain ⟨j, hj⟩ := List.getElem?_of_mem hc
    have hcell := hcells j c hj
    split_ifs at hcell
    · exact .inl hcell
    · exact .inr (.inl hcell)
    · exact .inr (.inr hcell)
  · -- the first character of the third part
    have hin : numbers + bigChars < (fillKey gen numbers bigChars g).1.length := hlength ▸ hlt
    have hcell := hcells _ _ (List.getElem?_eq_getElem hin)
    rw [if_neg (by omega), if_neg (by omega)] at hcell
    exact ⟨_, List.getElem_mem hin, hcell⟩
  · have hin : numbers < (fillKey gen numbers bigChars g).1.length := by omega
    have hcell := hcells _ _ (List.getElem?_eq_getElem hin)
    rw [if_neg (by omega), if_pos (by omega)] at hcell
    exact ⟨_, List.getElem_mem hin, hcell⟩

theorem WellFormedKey.of_perm {key' : List UInt8} (h : WellFormedKey key) (hperm : key'.Perm key) :
    WellFormedKey key' where
  length_eq := hperm.length_eq.trans h.length_eq
  alnum c hc := h.alnum c (hperm.mem_iff.mp hc)
  lower := by
    obtain ⟨c, hc, hlower⟩ := h.lower
    exact ⟨c, hperm.mem_iff.mpr hc, hlower⟩
  upper := by
    obtain ⟨c, hc, hupper⟩ := h.upper
    exact ⟨c, hperm.mem_iff.mpr hc, hupper⟩

/-- **Random keys**: a key is well formed and never too long, unless the first draw leaves nothing
for the second. -/
theorem getRandomKey_iff (g : γ) :
    (∃ key g', getRandomKey gen g = some (key, g') ∧ WellFormedKey key ∧ NeverLong key) ↔
      (gen.uniform 1 MAX_PASS_STR g).1 ≠ MAX_PASS_STR := by
  have hdraw := gen.uniform_mem 1 MAX_PASS_STR g (by decide)
  have hfirst : urand gen 1 MAX_PASS_STR g = some (gen.uniform 1 MAX_PASS_STR g) :=
    if_pos (by decide)
  generalize gen.uniform 1 MAX_PASS_STR g = first at hdraw hfirst ⊢
  obtain ⟨smallChars, g₁⟩ := first
  dsimp only at hdraw ⊢
  rw [getRandomKey, hfirst, Option.bind_eq_bind, Option.bind_some]
  dsimp only
  constructor
  · rintro ⟨key, g', hkey, -, -⟩ hall
    have hsecond : urand gen 1 (MAX_PASS_STR - smallChars) g₁ = none := if_neg (by omega)
    rw [hsecond] at hkey
    cases hkey
  · intro hne
    have hrange : 1 ≤ MAX_PASS_STR - smallChars := by omega
    have hdraw₂ := gen.uniform_mem 1 (MAX_PASS_STR - smallChars) g₁ hrange
    have hsecond : urand gen 1 (MAX_PASS_STR - smallChars) g₁ =
        some (gen.uniform 1 (MAX_PASS_STR - smallChars) g₁) := if_pos hrange
    generalize gen.uniform 1 (MAX_PASS_STR - smallChars) g₁ = second at hdraw₂ hsecond
    obtain ⟨bigChars, g₂⟩ := second
    dsimp only at hdraw₂
    have hfilled := wellFormedKey_fillKey gen (MAX_PASS_STR - smallChars - bigChars) bigChars
      (by omega) (by omega) g₂
    have hkey := hfilled.of_perm (gen.shuffle_perm _
      (fillKey gen (MAX_PASS_STR - smallChars - bigChars) bigChars g₂).2)
    rw [hsecond, Option.bind_some]
    exact ⟨_, _, rfl, hkey, neverLong_of_length_le hkey.length_eq.le⟩

/-- Generators that return the greatest number they may, and leave a text as it is. -/
def greatest : Generators Unit where
  uniform _ max g := (max, g)
  rand g := (0, g)
  shuffle key g := (key, g)
  uniform_mem _ _ _ hle := ⟨hle, le_rfl⟩
  shuffle_perm _ _ := .refl _

/-- The assertion fails. -/
theorem not_wellFormedKey_greatest :
    ¬ ∃ key g', getRandomKey greatest () = some (key, g') ∧ WellFormedKey key ∧
      NeverLong key := by
  rintro ⟨key, g', hkey, -, -⟩
  have hnone : getRandomKey greatest () = none := by decide
  rw [hnone] at hkey
  cases hkey

end WarheadDiscord
