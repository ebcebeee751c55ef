import WarheadDiscord.Common.StringConvert
import WarheadDiscord.Lib.Search

/-!
# The countries of addresses

`IpLocationStore::Load` reads ranges of addresses from a file, sorts them by their first address
and asserts that they do not overlap.  `GetLocationRecord` searches by the last address: it looks
for the first range that ends behind the address, so an address that is the last one of its
range is not found (`lookup_iff`), and a range of one address is never found.

Texts are octets.  A line of the file is read by four calls of `std::getline`, three of them up to
a comma.  The order that `std::sort` gives to equal keys is arbitrary, and the text of an address
is read by a function that is not part of the program.

## Main definitions

* `IpLocationRecord`, `readRecords`, `load` — `IpLocationStore::Load`.
* `lookup`, `getLocationRecord` — `IpLocationStore::GetLocationRecord`.
* `Ranges`, `Locates` — what is asked of a file, and of a lookup.
-/

namespace WarheadDiscord

open Search

structure IpLocationRecord where
  ipFrom : UInt32
  ipTo : UInt32
  countryCode : List UInt8
  countryName : List UInt8
  deriving DecidableEq, Repr

namespace IpLocation

/-- `std::getline` on what is left of a file; it fails when nothing is left. -/
def getline (delim : UInt8) (rest : List UInt8) : Option (List UInt8 × List UInt8) :=
  if rest = [] then none
  else
    let line := rest.takeWhile (· ≠ delim)
    some (line, rest.drop (line.length + 1))

/-- The four texts of a line, and what is left of the file. -/
def getFields (rest : List UInt8) :
    Option ((List UInt8 × List UInt8 × List UInt8 × List UInt8) × List UInt8) := do
  -- ',' three times, and '\n'
  let (ipFrom, rest) ← getline 0x2c rest
  let (ipTo, rest) ← getline 0x2c rest
  let (countryCode, rest) ← getline 0x2c rest
  let (countryName, rest) ← getline 0x0a rest
  return ((ipFrom, ipTo, countryCode, countryName), rest)

/-- `StringTo<uint32>` -/
def stringToUInt32 (str : List UInt8) : Option UInt32 :=
  (stringTo .uint32 str).map fun v => UInt32.ofNat v.toNat

/-- The record of a line; `none` when one of the addresses is not a number. -/
def toRecord (fields : List UInt8 × List UInt8 × List UInt8 × List UInt8) :
    Option IpLocationRecord :=
  let (ipFrom, ipTo, countryCode, countryName) := fields
  -- '\r', '\n' and quotation marks
  let countryName := (countryName.filter (· ≠ 0x0d)).filter (· ≠ 0x0a)
  let ipFrom := ipFrom.filter (· ≠ 0x22)
  let ipTo := ipTo.filter (· ≠ 0x22)
  let countryCode := countryCode.filter (· ≠ 0x22)
  let countryName := countryName.filter (· ≠ 0x22)
  let countryCode := countryCode.map tolower
  match stringToUInt32 ipFrom, stringToUInt32 ipTo with
  | some ipFrom, some ipTo => some ⟨ipFrom, ipTo, countryCode, countryName⟩
  | _, _ => none

theorem length_lt_of_getline {delim : UInt8} {rest line rest' : List UInt8}
    (h : getline delim rest = some (line, rest')) : rest'.length < rest.length := by
  unfold getline at h
  split at h
  · cases h
  · rename_i hne
    cases h
    have hpos := List.length_pos_iff.2 hne
    rw [List.length_drop]
    omega

theorem length_lt_of_getFields {rest rest' : List UInt8}
    {fields : List UInt8 × List UInt8 × List UInt8 × List UInt8}
    (h : getFields rest = some (fields, rest')) : rest'.length < rest.length := by
  simp only [getFields, Option.bind_eq_bind, Option.bind_eq_some_iff] at h
  obtain ⟨⟨ipFrom, r₁⟩, h₁, ⟨ipTo, r₂⟩, h₂, ⟨code, r₃⟩, h₃, ⟨name, r₄⟩, h₄, h⟩ := h
  cases h
  have hlt₁ := length_lt_of_getline h₁
  have hlt₂ := length_lt_of_getline h₂
  have hlt₃ := length_lt_of_getline h₃
  have hlt₄ := length_lt_of_getline h₄
  dsimp only at hlt₂ hlt₃ hlt₄ ⊢
  omega

/-- The loop of `Load`: the records in the order of the file. -/
def readRecords (rest : List UInt8) : List IpLocationRecord :=
  match _h : getFields rest with
  | none => []
  | some (fields, rest') => (toRecord fields).toList ++ readRecords rest'
termination_by rest.length
decreasing_by exact length_lt_of_getFields _h

/-- The order that the records are sorted in. -/
def lessFrom (a b : IpLocationRecord) : Bool := a.ipFrom < b.ipFrom

/-- The order that is asserted. -/
def lessTo (a b : IpLocationRecord) : Bool := a.ipFrom < b.ipTo

/-- `Load` with the text of the configured file, when there is one; `none` is the failed
assertion. -/
def load (sorter : Sorter lessFrom) : Option (List UInt8) → Option (List IpLocationRecord)
  | none => some []
  | some text =>
      let store := sorter.sort (readRecords text)
      if isSorted lessTo store then some store else none

/-- `GetLocationRecord` with the number of the address. -/
def lookup (store : List IpLocationRecord) (ip : UInt32) : Option IpLocationRecord :=
  match store[upperBound (fun loc => ip < loc.ipTo) store]? with
  | none => none
  | some loc => if ip < loc.ipFrom then none else some loc

/-- `GetLocationRecord`; `none` is the exception for a text that is not an address. -/
def getLocationRecord (makeAddressV4 : List UInt8 → Option UInt32)
    (store : List IpLocationRecord) (ipAddress : List UInt8) :
    Option (Option IpLocationRecord) :=
  (makeAddressV4 ipAddress).map (lookup store)

/-! ## Ranges that do not overlap -/

/-- One range is behind the other. -/
def Apart (a b : IpLocationRecord) : Prop := a.ipTo < b.ipFrom ∨ b.ipTo < a.ipFrom

/-- The records are ranges, and no two of them have an address in common. -/
structure Ranges (records : List IpLocationRecord) : Prop where
  from_le_to : ∀ r ∈ records, r.ipFrom ≤ r.ipTo
  apart : records.Pairwise Apart

/-- The address is in the range. -/
def Contains (r : IpLocationRecord) (ip : UInt32) : Prop := r.ipFrom ≤ ip ∧ ip ≤ r.ipTo

/-- The answer is the record with the address, or nothing when there is none. -/
def Locates (records : List IpLocationRecord) (ip : UInt32) (answer : Option IpLocationRecord) :
    Prop :=
  ∀ r, answer = some r ↔ r ∈ records ∧ Contains r ip

variable {records store : List IpLocationRecord} {ip : UInt32}

/-- Sorted ranges are one behind the other. -/
theorem pairwise_sort (sorter : Sorter lessFrom) (h : Ranges records) :
    (sorter.sort records).Pairwise fun a b => a.ipTo < b.ipFrom := by
  have hperm := sorter.perm records
  have happart : (sorter.sort records).Pairwise Apart :=
    (hperm.pairwise_iff fun hab => Or.symm hab).2 h.apart
  refine ((sorter.sorted records).and happart).imp_of_mem ?_
  intro a b ha hb hab
  obtain ⟨hsorted, hlt | hlt⟩ := hab
  · exact hlt
  · have hle := h.from_le_to b (hperm.mem_iff.1 hb)
    have hfrom : ¬ b.ipFrom < a.ipFrom := of_decide_eq_false hsorted
    rw [UInt32.lt_iff_toNat_lt] at hlt hfrom
    rw [UInt32.le_iff_toNat_le] at hle
    omega

theorem ranges_sort (sorter : Sorter lessFrom) (h : Ranges records) :
    ∀ r ∈ sorter.sort records, r.ipFrom ≤ r.ipTo := by
  intro r hr
  exact h.from_le_to r ((sorter.perm records).mem_iff.1 hr)

theorem load_eq_some (sorter : Sorter lessFrom) {text : List UInt8}
    (h : Ranges (readRecords text)) :
    load sorter (some text) = some (sorter.sort (readRecords text)) := by
  have hsorted : isSorted lessTo (sorter.sort (readRecords text)) = true := by
    refine isSorted_of_pairwise ((pairwise_sort sorter h).imp ?_)
    intro a b hab
    have hnot : ¬ b.ipFrom < a.ipTo := by
      rw [UInt32.lt_iff_toNat_lt] at hab ⊢
      omega
    exact decide_eq_false hnot
  rw [load, if_pos hsorted]

/-- What ends behind the address is behind what does not. -/
theorem partitioned_store (h : store.Pairwise fun a b => a.ipTo < b.ipFrom)
    (hranges : ∀ r ∈ store, r.ipFrom ≤ r.ipTo) (ip : UInt32) :
    Partitioned (fun loc : IpLocationRecord => decide (ip < loc.ipTo)) store := by
  refine h.imp_of_mem ?_
  intro a b _ hb hab ha
  have hle := hranges b hb
  have hlt := of_decide_eq_true ha
  refine decide_eq_true ?_
  rw [UInt32.lt_iff_toNat_lt] at hab hlt ⊢
  rw [UInt32.le_iff_toNat_le] at hle
  omega

/-- The first range that ends behind an address of a range is that range. -/
theorem find?_eq_some {r : IpLocationRecord}
    (h : store.Pairwise fun a b => a.ipTo < b.ipFrom) (hr : r ∈ store) (hfrom : r.ipFrom ≤ ip)
    (hto : ip < r.ipTo) : store.find? (fun loc => ip < loc.ipTo) = some r := by
  induction store with
  | nil => cases hr
  | cons a store ih =>
    rw [List.pairwise_cons] at h
    rcases List.mem_cons.1 hr with rfl | hr
    · exact List.find?_cons_of_pos (decide_eq_true hto)
    · -- the ranges before it end before it
      have hlt := h.1 r hr
      have hnot : ¬ ip < a.ipTo := by
        rw [UInt32.lt_iff_toNat_lt] at hlt ⊢
        rw [UInt32.le_iff_toNat_le] at hfrom
        omega
      rw [List.find?_cons, decide_eq_false hnot]
      exact ih h.2 hr

/-- **What a lookup finds**: a range with the address, which does not end there. -/
theorem lookup_eq_some_iff (h : store.Pairwise fun a b => a.ipTo < b.ipFrom)
    (hranges : ∀ r ∈ store, r.ipFrom ≤ r.ipTo) {r : IpLocationRecord} :
    lookup store ip = some r ↔ r ∈ store ∧ r.ipFrom ≤ ip ∧ ip < r.ipTo := by
  rw [lookup, getElem?_upperBound (partitioned_store h hranges ip)]
  constructor
  · intro hlookup
    split at hlookup
    · cases hlookup
    · rename_i loc hfind
      split_ifs at hlookup with hlt
      cases hlookup
      have hto := List.find?_some hfind
      exact ⟨List.mem_of_find?_eq_some hfind, UInt32.not_lt.1 hlt, of_decide_eq_true hto⟩
  · intro hr
    rw [find?_eq_some h hr.1 hr.2.1 hr.2.2]
    exact if_neg (UInt32.not_lt.2 hr.2.1)

/-- A lookup is right unless a range ends at the address. -/
theorem locates_lookup_iff (h : store.Pairwise fun a b => a.ipTo < b.ipFrom)
    (hranges : ∀ r ∈ store, r.ipFrom ≤ r.ipTo) (ip : UInt32) :
    Locates store ip (lookup store ip) ↔ ∀ r ∈ store, r.ipTo ≠ ip := by
  constructor
  · rintro hlocates r hr rfl
    have hfound := (hlocates r).2 ⟨hr, hranges r hr, UInt32.le_refl _⟩
    have hlt := ((lookup_eq_some_iff h hranges).1 hfound).2.2
    exact UInt32.lt_irrefl _ hlt
  · intro hne r
    rw [lookup_eq_some_iff h hranges]
    constructor
    · intro hr
      exact ⟨hr.1, hr.2.1, UInt32.le_of_lt hr.2.2⟩
    · intro hr
      exact ⟨hr.1, hr.2.1, UInt32.lt_of_le_of_ne hr.2.2 (hne r hr.1).symm⟩

theorem locates_sort_iff (sorter : Sorter lessFrom) {answer : Option IpLocationRecord} :
    Locates (sorter.sort records) ip answer ↔ Locates records ip answer := by
  unfold Locates
  simp only [(sorter.perm records).mem_iff]

/-- **Lookups**: a file of ranges is loaded, and a lookup is right unless the address is the last
one of a range. -/
theorem lookup_iff (sorter : Sorter lessFrom) {text : List UInt8}
    (h : Ranges (readRecords text)) :
    ∃ store, load sorter (some text) = some store ∧
      ∀ (makeAddressV4 : List UInt8 → Option UInt32) (ipAddress : List UInt8) (ip : UInt32),
        makeAddressV4 ipAddress = some ip →
          ((∃ answer, getLocationRecord makeAddressV4 store ipAddress = some answer ∧
              Locates (readRecords text) ip answer) ↔
            ∀ r ∈ readRecords text, r.ipTo ≠ ip) := by
  have hperm := sorter.perm (readRecords text)
  refine ⟨_, load_eq_some sorter h, ?_⟩
  intro makeAddressV4 ipAddress ip hip
  have hiff := locates_lookup_iff (pairwise_sort sorter h) (ranges_sort sorter h) ip
  rw [locates_sort_iff] at hiff
  simp only [hperm.mem_iff] at hiff
  rw [← hiff, getLocationRecord, hip]
  constructor
  · rintro ⟨answer, hanswer, hlocates⟩
    cases hanswer
    exact hlocates
  · intro hlocates
    exact ⟨_, rfl, hlocates⟩

/-! ## A file with two ranges, one next to the other -/

def mergeSorter : Sorter lessFrom where
  sort records := records.mergeSort fun a b => a.ipFrom ≤ b.ipFrom
  perm records := List.mergeSort_perm records _
  sorted records := by
    refine List.Pairwise.imp ?_ (List.pairwise_mergeSort ?_ ?_ records)
    · intro a b hab
      exact decide_eq_false (UInt32.not_lt.2 (of_decide_eq_true hab))
    · intro a b c hab hbc
      exact decide_eq_true (UInt32.le_trans (of_decide_eq_true hab) (of_decide_eq_true hbc))
    · intro a b
      rcases UInt32.le_total a.ipFrom b.ipFrom with hab | hba
      · rw [decide_eq_true hab, Bool.true_or]
      · rw [decide_eq_true hba, Bool.or_true]

def twoRanges : List UInt8 := ascii "6,9,FR,France\r\n\"1\",\"5\",\"DE\",\"Germany\"\r\n"

/-- `make_address_v4` on two of the addresses -/
def smallAddress (ipAddress : List UInt8) : Option UInt32 :=
  if ipAddress = ascii "0.0.0.3" then some 3
  else if ipAddress = ascii "0.0.0.5" then some 5
  else none

theorem readRecords_twoRanges :
    readRecords twoRanges =
      [⟨6, 9, ascii "fr", ascii "France"⟩, ⟨1, 5, ascii "de", ascii "Germany"⟩] := by
  decide +kernel

theorem ranges_twoRanges : Ranges (readRecords twoRanges) := by
  rw [readRecords_twoRanges]
  constructor
  · decide
  · unfold Apart
    decide

theorem lookup_iff_twoRanges :
    ∃ store, load mergeSorter (some twoRanges) = some store ∧
      ∃ answer, getLocationRecord smallAddress store (ascii "0.0.0.3") = some answer ∧
        Locates (readRecords twoRanges) 3 answer := by
  obtain ⟨store, hload, hlookup⟩ := lookup_iff mergeSorter ranges_twoRanges
  have hne : ∀ r ∈ readRecords twoRanges, r.ipTo ≠ 3 := by
    rw [readRecords_twoRanges]
    decide
  exact ⟨store, hload, (hlookup smallAddress (ascii "0.0.0.3") 3 (by decide)).2 hne⟩

/-- The last address of the first range is between the two for the search. -/
theorem not_locates_lastAddress :
    Ranges (readRecords twoRanges) ∧
      ∃ store, load mergeSorter (some twoRanges) = some store ∧
        smallAddress (ascii "0.0.0.5") = some 5 ∧
        getLocationRecord smallAddress store (ascii "0.0.0.5") = some none ∧
        ¬ Locates (readRecords twoRanges) 5 none := by
  have hranges := ranges_sort mergeSorter ranges_twoRanges
  refine ⟨ranges_twoRanges, _, load_eq_some mergeSorter ranges_twoRanges, by decide, ?_, ?_⟩
  · refine congrArg some (Option.eq_none_iff_forall_ne_some.2 ?_)
    intro r hr
    have hnot : ∀ r ∈ readRecords twoRanges, ¬ (r.ipFrom ≤ 5 ∧ 5 < r.ipTo) := by
      rw [readRecords_twoRanges]
      decide
    have hfound :=
      (lookup_eq_some_iff (pairwise_sort mergeSorter ranges_twoRanges) hranges).1 hr
    exact hnot r ((mergeSorter.perm _).mem_iff.1 hfound.1) hfound.2
  · intro hlocates
    have hmem : (⟨1, 5, ascii "de", ascii "Germany"⟩ : IpLocationRecord) ∈
        readRecords twoRanges := by
      rw [readRecords_twoRanges]
      decide
    have hfound := (hlocates _).2 ⟨hmem, by decide, by decide⟩
    cases hfound

end IpLocation

end WarheadDiscord
