import WarheadDiscord.Common.StringConvert
import WarheadDiscord.Lib.RingBuffer
import Mathlib.Algebra.Order.BigOperators.Group.List
import Mathlib.Data.List.Induction

/-!
# The average update time

`UpdateTime::Update` keeps the last thousand durations in a table and divides their sum.  Whether
the table is full is asked of the cell behind its end, so no update stays in the table
(`not_averages`), and the divisor depends on what is found there (`average_run_append`).
If that told whether the table is full, the average would be the mean
(`average_eq_mean`).

Durations are numbers of milliseconds with 64 bits and a sign.  A sum of them that does not fit is
taken to wrap around.  A duration is divided by a `std::size_t` as a number without a sign.

## Main definitions

* `UpdateTime`, `UpdateTime.update` — the table, and one update with the indices it uses.
* `Tick` — the duration of an update, and what it finds behind the table.
* `UpdateTime.run` — updates from the start.
* `UpdateTime.Averages` — what is asked of a run.
-/

namespace WarheadDiscord

/-- `AVG_DIFF_COUNT` -/
def avgDiffCount : ℕ := 1000

structure UpdateTime where
  /-- `_updateTimeDataTable` and `_updateTimeTableIndex` -/
  table : RingBuffer ℤ avgDiffCount
  lastUpdateTime : ℤ
  averageUpdateTime : ℤ

/-- The duration that an update is called with, and the 64 bits behind the table at that time. -/
structure Tick where
  diff : ℤ
  behind : ℤ

namespace UpdateTime

def new : UpdateTime where
  table := RingBuffer.replicate 0 (by decide)
  lastUpdateTime := 0
  averageUpdateTime := 0

/-- `operator[]` of the table, which checks nothing. -/
def subscript (table : RingBuffer ℤ avgDiffCount) (behind : ℤ) (i : ℕ) : ℤ :=
  table.cells[i]?.getD behind

/-- `std::accumulate` over the table -/
def accumulate (cells : List ℤ) : ℤ :=
  cells.foldl (fun sum diff => IntegralType.int64.convert (sum + diff)) 0

/-- A duration divided by a `std::size_t`, as a duration. -/
def divide (sum : ℤ) (count : ℕ) : ℤ :=
  IntegralType.int64.convert (IntegralType.uint64.convert sum / count)

/-- `Update`, and the indices of the table that it uses. -/
def update (t : UpdateTime) (tick : Tick) : UpdateTime × List ℕ :=
  let index := t.table.index
  let table := t.table.write tick.diff
  let (average, indices) :=
    if 0 < subscript table tick.behind avgDiffCount then
      (divide (accumulate table.cells) avgDiffCount, List.range avgDiffCount)
    else if 0 < subscript table tick.behind index then
      (divide (accumulate table.cells) (index + 1), index :: List.range avgDiffCount)
    else (t.averageUpdateTime, [index])
  (⟨table.advance, tick.diff, average⟩, index :: avgDiffCount :: indices)

/-- An update after others. -/
def step (s : UpdateTime × List ℕ) (tick : Tick) : UpdateTime × List ℕ :=
  let next := s.1.update tick
  (next.1, s.2 ++ next.2)

/-- Updates from the start, and the indices that they use. -/
def run (ticks : List Tick) : UpdateTime × List ℕ := ticks.foldl step (new, [])

/-- The last durations, as many as the table has cells. -/
def window (diffs : List ℤ) : List ℤ := diffs.drop (diffs.length - avgDiffCount)

def mean (diffs : List ℤ) : ℤ := diffs.sum / diffs.length

/-- What is asked of the updates. -/
structure Averages (ticks : List Tick) : Prop where
  inRange : ∀ i ∈ (run ticks).2, i < avgDiffCount
  average : (run ticks).1.averageUpdateTime = mean (window (ticks.map Tick.diff))

variable {ticks : List Tick} {tick : Tick}

theorem run_append (ticks : List Tick) (tick : Tick) :
    run (ticks ++ [tick]) = step (run ticks) tick := by
  rw [run, List.foldl_append]
  rfl

/-- Every update uses the cell behind the table. -/
theorem mem_update (t : UpdateTime) (tick : Tick) : avgDiffCount ∈ (t.update tick).2 :=
  List.mem_cons_of_mem _ List.mem_cons_self

/-- **No update stays in the table.** -/
theorem not_averages (h : ticks ≠ []) : ¬ Averages ticks := by
  intro haverages
  have hlast := List.dropLast_append_getLast h
  have hmem : avgDiffCount ∈ (run ticks).2 := by
    rw [← hlast, run_append]
    exact List.mem_append_right _ (mem_update _ _)
  exact Nat.lt_irrefl _ (haverages.inRange _ hmem)

/-- One update, with nothing but the index behind the table. -/
theorem not_averages_oneTick : ¬ Averages [⟨7, 0⟩] := not_averages (by decide)

/-! ## The average -/

/-- An addition that wraps around can be left for later. -/
theorem convert_add (a b : ℤ) :
    IntegralType.int64.convert (IntegralType.int64.convert a + b) =
      IntegralType.int64.convert (a + b) := by
  have hne : IntegralType.int64 ≠ .bool := by decide
  rw [← IntegralType.convert_emod hne, Int.add_emod, IntegralType.emod_convert hne, ← Int.add_emod,
    IntegralType.convert_emod hne]

theorem accumulate_eq (cells : List ℤ) :
    accumulate cells = IntegralType.int64.convert cells.sum := by
  have hfold : ∀ (cells : List ℤ) (a : ℤ),
      cells.foldl (fun sum diff => IntegralType.int64.convert (sum + diff))
        (IntegralType.int64.convert a) = IntegralType.int64.convert (a + cells.sum) := by
    intro cells
    induction cells with
    | nil =>
      intro a
      rw [List.foldl_nil, List.sum_nil, add_zero]
    | cons diff cells ih =>
      intro a
      rw [List.foldl_cons, convert_add, ih, List.sum_cons, add_assoc]
  have hzero := hfold cells 0
  rw [zero_add] at hzero
  exact hzero

/-- The updates write the table one cell after the other. -/
theorem table_run (ticks : List Tick) :
    (run ticks).1.table = (ticks.map Tick.diff).foldl (fun r x => r.push x) new.table := by
  induction ticks using List.reverseRecOn with
  | nil => rfl
  | append_singleton ticks tick ih =>
    rw [run_append, List.map_append, List.foldl_append, ← ih]
    rfl

/-- The cells have the last durations, and zeros where there are none yet. -/
theorem sum_cells_foldl_push (diffs : List ℤ) :
    (diffs.foldl (fun r x => r.push x) new.table).cells.sum = (window diffs).sum := by
  rw [← (RingBuffer.oldestFirst_perm _).sum_eq, RingBuffer.oldestFirst_foldl_push, new,
    RingBuffer.oldestFirst_replicate, List.drop_append, List.drop_replicate,
    List.length_replicate, List.sum_append, List.sum_replicate, nsmul_zero, zero_add, window]

theorem averageUpdateTime_update (t : UpdateTime) (tick : Tick) :
    (t.update tick).1.averageUpdateTime =
      if 0 < subscript (t.table.write tick.diff) tick.behind avgDiffCount then
        divide (accumulate (t.table.write tick.diff).cells) avgDiffCount
      else if 0 < subscript (t.table.write tick.diff) tick.behind t.table.index then
        divide (accumulate (t.table.write tick.diff).cells) (t.table.index + 1)
      else t.averageUpdateTime := by
  rw [update]
  split_ifs <;> simp only

/-- **The average after an update**, with what the update finds behind the table. -/
theorem average_run_append (ticks : List Tick) (tick : Tick) :
    (run (ticks ++ [tick])).1.averageUpdateTime =
      (let sum := IntegralType.int64.convert (window ((ticks ++ [tick]).map Tick.diff)).sum
      if 0 < tick.behind then divide sum avgDiffCount
      else if 0 < tick.diff then divide sum (ticks.length % avgDiffCount + 1)
      else (run ticks).1.averageUpdateTime) := by
  have hsum : accumulate ((run ticks).1.table.write tick.diff).cells =
      IntegralType.int64.convert (window ((ticks ++ [tick]).map Tick.diff)).sum := by
    rw [accumulate_eq, ← sum_cells_foldl_push, List.map_append, List.foldl_append, ← table_run]
    rfl
  have hbehind : subscript ((run ticks).1.table.write tick.diff) tick.behind avgDiffCount =
      tick.behind := by
    rw [subscript, List.getElem?_eq_none (RingBuffer.length_cells _).le, Option.getD_none]
  have hdiff : subscript ((run ticks).1.table.write tick.diff) tick.behind
      (run ticks).1.table.index = tick.diff := by
    rw [subscript, RingBuffer.getElem?_write, Option.getD_some]
  have hindex : (run ticks).1.table.index = ticks.length % avgDiffCount := by
    rw [table_run, RingBuffer.index_foldl_push, List.length_map]
    exact congrArg (· % avgDiffCount) (Nat.zero_add _)
  rw [run_append, step, averageUpdateTime_update, hbehind, hdiff, hsum, hindex]

/-- Two updates of ten milliseconds: the second one finds its index behind the table, and divides
by the size of the table. -/
theorem not_averages_twoTicks :
    (run [⟨10, 0⟩, ⟨10, 1⟩]).1.averageUpdateTime = 0 ∧ mean (window [10, 10]) = 10 ∧
      avgDiffCount ∈ (run [⟨10, 0⟩, ⟨10, 1⟩]).2 ∧ ¬ Averages [⟨10, 0⟩, ⟨10, 1⟩] := by
  have haverage : (run [⟨10, 0⟩, ⟨10, 1⟩]).1.averageUpdateTime = 0 :=
    (average_run_append [⟨10, 0⟩] ⟨10, 1⟩).trans (by decide +kernel)
  have hmean : mean (window [10, 10]) = 10 := by decide +kernel
  have hmem : avgDiffCount ∈ (run [⟨10, 0⟩, ⟨10, 1⟩]).2 :=
    List.mem_append_right _ (mem_update _ _)
  refine ⟨haverage, hmean, hmem, ?_⟩
  intro haverages
  exact Nat.lt_irrefl _ (haverages.inRange _ hmem)


/-- Sums that fit are divided as they are. -/
theorem divide_eq {sum : ℤ} {count : ℕ} (hnonneg : 0 ≤ sum) (hlt : sum < 2 ^ 63) :
    divide (IntegralType.int64.convert sum) count = sum / count := by
  have hsigned : ∀ v : ℤ, 0 ≤ v → v < 2 ^ 63 → IntegralType.int64.convert v = v := by
    intro v hv hvlt
    refine IntegralType.convert_of_represents ?_
    change -2 ^ 63 ≤ v ∧ v < 2 ^ 63
    omega
  have hunsigned : IntegralType.uint64.convert sum = sum := by
    refine IntegralType.convert_of_represents ?_
    change 0 ≤ sum ∧ sum < 2 ^ 64
    omega
  have hle : sum / count ≤ sum := Int.ediv_le_self _ hnonneg
  rw [divide, hsigned sum hnonneg hlt, hunsigned,
    hsigned _ (Int.ediv_nonneg hnonneg (Int.natCast_nonneg _)) (Int.lt_of_le_of_lt hle hlt)]

/-- **The average is the mean** of the last durations when the cell behind the table is positive
as soon as the table is full, and the duration is positive as long as it is not. -/
theorem average_eq_mean (hnonneg : ∀ diff ∈ (ticks ++ [tick]).map Tick.diff, 0 ≤ diff)
    (hlt : (window ((ticks ++ [tick]).map Tick.diff)).sum < 2 ^ 63)
    (hbehind : 0 < tick.behind ↔ avgDiffCount ≤ ticks.length + 1)
    (hdiff : 0 < tick.behind ∨ 0 < tick.diff) :
    (run (ticks ++ [tick])).1.averageUpdateTime =
      mean (window ((ticks ++ [tick]).map Tick.diff)) := by
  have hsum : 0 ≤ (window ((ticks ++ [tick]).map Tick.diff)).sum :=
    List.sum_nonneg fun diff hmem => hnonneg diff (List.mem_of_mem_drop hmem)
  have hlength : (window ((ticks ++ [tick]).map Tick.diff)).length =
      min (ticks.length + 1) avgDiffCount := by
    rw [window, List.length_drop, List.length_map, List.length_append, List.length_singleton]
    omega
  rw [average_run_append, mean, hlength]
  split_ifs with hfull hpositive
  · rw [divide_eq hsum hlt, min_eq_right (hbehind.1 hfull)]
  · have hpart : ticks.length + 1 < avgDiffCount :=
      Nat.lt_of_not_le fun hle => hfull (hbehind.2 hle)
    rw [divide_eq hsum hlt, min_eq_left hpart.le, Nat.mod_eq_of_lt (Nat.lt_of_succ_lt hpart)]
  · exact absurd hdiff (not_or.2 ⟨hfull, hpositive⟩)

end UpdateTime

end WarheadDiscord
