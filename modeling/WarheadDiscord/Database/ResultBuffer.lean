import Mathlib.Algebra.BigOperators.Group.List.Basic
import Mathlib.Order.Monotone.Basic
import WarheadDiscord.Database.PreparedResultSet

/-!
# The buffer of a prepared result

The buffers of the columns start at the sum of the sizes of the columns before them, and each moves
on by the size of a row when it was used, so the columns drift apart where there are NULL values.
A buffer that was used `q` times is in the part `q` of the block, at the place of its column: the
values of a column are in different parts, and those of different columns at different places.  No
two values overlap, whatever the pattern of the NULL values (`layoutSafe_of_lt`).

The block has room for all rows, if the product of the number of rows and their size is a `size_t`.
If it is not, the block is too small for the last row (`layoutSafe_iff`).

## Main definitions

* `columnOffset`, `nonNulls` — the place of a column, and how often its buffer has moved.
* `LayoutSafe` — what is promised of the values.
-/

namespace WarheadDiscord

open Memory

/-- The sizes of the columns in front of a column. -/
def columnOffset (timeSize : ℕ) (fields : List MySQLField) (column : ℕ) : ℕ :=
  rowSize timeSize (fields.take column)

/-- The column has a value in the row. -/
def hasValue (fetch : ℕ → Option FetchedRow) (column row : ℕ) : Bool :=
  (fetch row).any fun values => (values column).isSome

/-- The number of rows in front of a row in which the column has a value. -/
def nonNulls (fetch : ℕ → Option FetchedRow) (column : ℕ) : ℕ → ℕ
  | 0 => 0
  | row + 1 => nonNulls fetch column row + if hasValue fetch column row then 1 else 0

/-- The octets that are written for a value. -/
def ResultCell.contents (c : ResultCell) : List UInt8 :=
  c.data.take c.bufferLength ++
    if c.type.isTerminated ∧ c.data.length < c.bufferLength then [0] else []

/-- All values are inside the buffer, no two of them overlap, the terminating zero is inside, and
what was written for a value is there at the end. -/
structure LayoutSafe (size : ℕ) (s : Buffering) : Prop where
  inside : ∀ c ∈ s.cells, c.address + c.bufferLength ≤ size
  disjoint : ∀ c ∈ s.cells, ∀ d ∈ s.cells, (c.row, c.column) ≠ (d.row, d.column) →
    c.address + c.bufferLength ≤ d.address ∨ d.address + d.bufferLength ≤ c.address
  terminated : ∀ c ∈ s.cells, ∀ w ∈ c.terminator,
    c.address ≤ w.address ∧ w.address + w.values.length ≤ c.address + c.bufferLength
  kept : ∀ c ∈ s.cells, ∀ i a, c.contents[i]? = some a →
    ∀ m, writeAll m s.writes (c.address + i) = a

/-! ## Places and parts -/

section Places
variable (timeSize : ℕ) {fields : List MySQLField} {i j : ℕ} {f g : MySQLField}

theorem columnOffset_succ (h : fields[i]? = some f) :
    columnOffset timeSize fields (i + 1) =
      columnOffset timeSize fields i + sizeForType timeSize f := by
  rw [columnOffset, columnOffset, List.take_add_one, h, rowSize, rowSize, List.map_append,
    List.sum_append]
  simp

theorem columnOffset_monotone (fields : List MySQLField) :
    Monotone (columnOffset timeSize fields) := by
  refine monotone_nat_of_le_succ fun i => ?_
  cases h : fields[i]? with
  | some f =>
      rw [columnOffset_succ timeSize h]
      exact Nat.le_add_right _ _
  | none =>
      rw [columnOffset, columnOffset, List.take_add_one, h]
      simp

/-- A column ends in front of the next one. -/
theorem columnOffset_add_size_le (h : fields[i]? = some f) (hlt : i < j) :
    columnOffset timeSize fields i + sizeForType timeSize f ≤ columnOffset timeSize fields j := by
  rw [← columnOffset_succ timeSize h]
  exact columnOffset_monotone timeSize fields hlt

theorem columnOffset_length (fields : List MySQLField) :
    columnOffset timeSize fields fields.length = rowSize timeSize fields := by
  rw [columnOffset, List.take_length]

theorem columnOffset_add_size_le_rowSize (h : fields[i]? = some f) :
    columnOffset timeSize fields i + sizeForType timeSize f ≤ rowSize timeSize fields := by
  obtain ⟨hlt, -⟩ := List.getElem?_eq_some_iff.mp h
  rw [← columnOffset_length]
  exact columnOffset_add_size_le timeSize h hlt

/-- A part of the block ends in front of the next one. -/
theorem place_add_size_le (h : fields[i]? = some f) {q p : ℕ} (hlt : q < p) :
    columnOffset timeSize fields i + rowSize timeSize fields * q + sizeForType timeSize f ≤
      rowSize timeSize fields * p := by
  have hpart : rowSize timeSize fields * (q + 1) ≤ rowSize timeSize fields * p :=
    Nat.mul_le_mul_left _ hlt
  have hcolumn := columnOffset_add_size_le_rowSize timeSize h
  rw [Nat.mul_succ] at hpart
  omega

/-- **Two places in the block do not overlap**, if the columns or the parts are different. -/
theorem places_disjoint (hf : fields[i]? = some f) (hg : fields[j]? = some g) {q p : ℕ}
    (hne : i = j → q ≠ p) :
    columnOffset timeSize fields i + rowSize timeSize fields * q + sizeForType timeSize f ≤
        columnOffset timeSize fields j + rowSize timeSize fields * p ∨
      columnOffset timeSize fields j + rowSize timeSize fields * p + sizeForType timeSize g ≤
        columnOffset timeSize fields i + rowSize timeSize fields * q := by
  rcases Nat.lt_trichotomy q p with hlt | rfl | hlt
  · have hle := place_add_size_le timeSize hf hlt
    omega
  · rcases Nat.lt_trichotomy i j with hlt | rfl | hlt
    · have hle := columnOffset_add_size_le timeSize hf hlt
      omega
    · exact absurd rfl (hne rfl)
    · have hle := columnOffset_add_size_le timeSize hg hlt
      omega
  · have hle := place_add_size_le timeSize hg hlt
    omega

/-- The buffers are bound to the places of the columns. -/
theorem getElem?_bindColumns {offset : ℕ} (hlt : offset + rowSize timeSize fields < 2 ^ 32)
    (i : ℕ) :
    (bindColumns timeSize offset fields)[i]? = (fields[i]?).map fun f =>
      ⟨f.type, sizeForType timeSize f, offset + columnOffset timeSize fields i⟩ := by
  induction fields generalizing offset i with
  | nil => rfl
  | cons f fields ih =>
      have hcons : rowSize timeSize (f :: fields) =
          sizeForType timeSize f + rowSize timeSize fields := List.sum_cons
      rw [hcons] at hlt
      cases i with
      | zero => rfl
      | succ i =>
          rw [bindColumns, List.getElem?_cons_succ, List.getElem?_cons_succ,
            Nat.mod_eq_of_lt (by omega), ih (by omega)]
          simp only [columnOffset, List.take_succ_cons, rowSize, List.map_cons, List.sum_cons,
            Nat.add_assoc]

end Places

section NonNulls
variable {fetch : ℕ → Option FetchedRow} {column row row' : ℕ}

theorem nonNulls_le (fetch : ℕ → Option FetchedRow) (column row : ℕ) :
    nonNulls fetch column row ≤ row := by
  induction row with
  | zero => rfl
  | succ row ih =>
      rw [nonNulls]
      split_ifs
      · omega
      · omega

theorem nonNulls_monotone (fetch : ℕ → Option FetchedRow) (column : ℕ) :
    Monotone (nonNulls fetch column) :=
  monotone_nat_of_le_succ fun _ => Nat.le_add_right _ _

/-- The buffer moves on behind a value. -/
theorem nonNulls_lt (hvalue : hasValue fetch column row = true) (hlt : row < row') :
    nonNulls fetch column row < nonNulls fetch column row' := by
  have hsucc : nonNulls fetch column (row + 1) = nonNulls fetch column row + 1 := by
    rw [nonNulls, if_pos hvalue]
  have hle : nonNulls fetch column (row + 1) ≤ nonNulls fetch column row' :=
    nonNulls_monotone fetch column hlt
  omega

end NonNulls

/-! ## One row -/

section Row
variable (size fieldCount : ℕ) (row : FetchedRow)

theorem rowPosition_readColumns (fIndex : ℕ) (binds : List ResultBind) (s : Buffering) :
    (readColumns size fieldCount row fIndex binds s).rowPosition = s.rowPosition := by
  induction binds generalizing fIndex s with
  | nil => rfl
  | cons bind binds ih =>
      rw [readColumns, ih, readColumn]
      split <;> rfl

theorem buffers_readColumns (fIndex : ℕ) (binds : List ResultBind) (s : Buffering) (j : ℕ) :
    (readColumns size fieldCount row fIndex binds s).buffers j =
      if fIndex ≤ j ∧ j < fIndex + binds.length ∧ (row j).isSome then s.buffers j + size
      else s.buffers j := by
  induction binds generalizing fIndex s with
  | nil =>
      rw [readColumns, if_neg]
      intro hj
      simp only [List.length_nil] at hj
      omega
  | cons bind binds ih =>
      have hcolumn : (readColumn size fieldCount row fIndex bind s).buffers j =
          if j = fIndex ∧ (row j).isSome then s.buffers j + size else s.buffers j := by
        rw [readColumn]
        cases hrow : row fIndex with
        | none =>
            rw [if_neg]
            rintro ⟨rfl, hsome⟩
            rw [hrow] at hsome
            cases hsome
        | some data =>
            by_cases hj : j = fIndex
            · subst hj
              simp [hrow]
            · simp [hj]
      rw [readColumns, ih, hcolumn, List.length_cons]
      by_cases hsome : (row j).isSome = true
      · simp only [hsome, and_true]
        split_ifs <;> omega
      · simp [hsome]

/-- The value of a column, where it is written to. -/
def cellAt (row : FetchedRow) (s : Buffering) (bind : ResultBind × ℕ) : Option ResultCell :=
  (row bind.2).map fun data =>
    ⟨s.rowPosition, bind.2, bind.1.type, s.buffers bind.2, bind.1.bufferLength, data⟩

/-- A column does not move the buffers of the columns behind it. -/
theorem filterMap_cellAt_readColumn (fIndex : ℕ) (bind : ResultBind) (binds : List ResultBind)
    (s : Buffering) :
    (binds.zipIdx (fIndex + 1)).filterMap
        (cellAt row (readColumn size fieldCount row fIndex bind s)) =
      (binds.zipIdx (fIndex + 1)).filterMap (cellAt row s) := by
  refine List.filterMap_congr ?_
  intro b hb
  have hindex : b.2 ≠ fIndex := by
    have hle := List.le_snd_of_mem_zipIdx hb
    omega
  rw [cellAt, cellAt, readColumn]
  split
  · simp [hindex]
  · rfl

theorem readColumns_cells_writes (fIndex : ℕ) (binds : List ResultBind) (s : Buffering) :
    (readColumns size fieldCount row fIndex binds s).cells =
        s.cells ++ (binds.zipIdx fIndex).filterMap (cellAt row s) ∧
      (readColumns size fieldCount row fIndex binds s).writes =
        s.writes ++
          ((binds.zipIdx fIndex).filterMap (cellAt row s)).flatMap ResultCell.terminator := by
  induction binds generalizing fIndex s with
  | nil => simp [readColumns]
  | cons bind binds ih =>
      obtain ⟨hcells, hwrites⟩ := ih (fIndex + 1) (readColumn size fieldCount row fIndex bind s)
      rw [readColumns, hcells, hwrites, filterMap_cellAt_readColumn, List.zipIdx_cons]
      cases hrow : row fIndex with
      | none =>
          have hnone : cellAt row s (bind, fIndex) = none := by rw [cellAt, hrow, Option.map_none]
          rw [List.filterMap_cons_none hnone, readColumn, hrow]
          exact ⟨rfl, rfl⟩
      | some data =>
          have hsome : cellAt row s (bind, fIndex) = some ⟨s.rowPosition, fIndex, bind.type,
              s.buffers fIndex, bind.bufferLength, data⟩ := by rw [cellAt, hrow, Option.map_some]
          rw [List.filterMap_cons_some hsome, List.flatMap_cons, readColumn, hrow]
          exact ⟨by simp, by simp⟩

/-- **What reading a row does.** -/
theorem readRow_cells_writes (binds : List ResultBind) (s : Buffering) :
    (readRow size fieldCount row binds s).cells = s.cells ++ rowCells row binds s ∧
      (readRow size fieldCount row binds s).writes =
        s.writes ++ (rowCells row binds s).map ResultCell.fetched ++
          (rowCells row binds s).flatMap ResultCell.terminator := by
  rw [readRow]
  exact readColumns_cells_writes size fieldCount row 0 binds _

variable {row} in
theorem mem_rowCells {binds : List ResultBind} {s : Buffering} {c : ResultCell} :
    c ∈ rowCells row binds s ↔ ∃ bind data, binds[c.column]? = some bind ∧
      row c.column = some data ∧
      c = ⟨s.rowPosition, c.column, bind.type, s.buffers c.column, bind.bufferLength, data⟩ := by
  rw [rowCells, List.mem_filterMap]
  constructor
  · rintro ⟨⟨bind, j⟩, hmem, hc⟩
    obtain ⟨data, hdata, rfl⟩ := Option.map_eq_some_iff.mp hc
    exact ⟨bind, data, List.mk_mem_zipIdx_iff_getElem?.mp hmem, hdata, rfl⟩
  · rintro ⟨bind, data, hbind, hdata, hc⟩
    refine ⟨(bind, c.column), List.mk_mem_zipIdx_iff_getElem?.mpr hbind, ?_⟩
    rw [Option.map_eq_some_iff]
    exact ⟨data, hdata, hc.symm⟩

end Row

/-! ## All rows -/

section Rows
variable {timeSize : ℕ} {fields : List MySQLField} {fetch : ℕ → Option FetchedRow}
  {s : Buffering} {c d : ResultCell}

/-- The value is at the place of its column, in the part that the buffer had come to. -/
structure Placed (timeSize : ℕ) (fields : List MySQLField) (fetch : ℕ → Option FetchedRow)
    (c : ResultCell) : Prop where
  field : fields[c.column]?.map (fun f => (f.type, sizeForType timeSize f)) =
    some (c.type, c.bufferLength)
  value : (fetch c.row).bind (fun row => row c.column) = some c.data
  address : c.address = columnOffset timeSize fields c.column +
    rowSize timeSize fields * nonNulls fetch c.column c.row

/-- The state in front of a row. -/
structure Laid (timeSize : ℕ) (fields : List MySQLField) (fetch : ℕ → Option FetchedRow)
    (s : Buffering) : Prop where
  buffers : ∀ i < fields.length, s.buffers i = columnOffset timeSize fields i +
    rowSize timeSize fields * nonNulls fetch i s.rowPosition
  cells : ∀ c ∈ s.cells, c.row < s.rowPosition ∧ Placed timeSize fields fetch c
  writes : ∀ w, w ∈ s.writes ↔ ∃ c ∈ s.cells, w = c.fetched ∨ w ∈ c.terminator

theorem length_bindColumns (timeSize offset : ℕ) (fields : List MySQLField) :
    (bindColumns timeSize offset fields).length = fields.length := by
  induction fields generalizing offset with
  | nil => rfl
  | cons f fields ih => rw [bindColumns, List.length_cons, List.length_cons, ih]

theorem Laid.placed_of_mem_rowCells (hlt : rowSize timeSize fields < 2 ^ 32)
    (h : Laid timeSize fields fetch s) {row : FetchedRow} (hrow : fetch s.rowPosition = some row)
    (hc : c ∈ rowCells row (bindColumns timeSize 0 fields) s) :
    c.row = s.rowPosition ∧ Placed timeSize fields fetch c := by
  obtain ⟨bind, data, hbind, hdata, heq⟩ := mem_rowCells.mp hc
  rw [getElem?_bindColumns timeSize (by omega), Option.map_eq_some_iff] at hbind
  obtain ⟨f, hf, rfl⟩ := hbind
  obtain ⟨hcolumn, -⟩ := List.getElem?_eq_some_iff.mp hf
  have hposition : c.row = s.rowPosition := by rw [heq]
  refine ⟨hposition, ?_, ?_, ?_⟩
  · rw [hf, heq]
    rfl
  · rw [hposition, hrow, Option.bind_some, hdata, heq]
  · rw [hposition, ← h.buffers c.column hcolumn, heq]

/-- **A row keeps the layout.** -/
theorem Laid.readRow (hlt : rowSize timeSize fields < 2 ^ 32) (h : Laid timeSize fields fetch s)
    {row : FetchedRow} (hrow : fetch s.rowPosition = some row) :
    Laid timeSize fields fetch (readRow (rowSize timeSize fields) fields.length row
      (bindColumns timeSize 0 fields) s) := by
  obtain ⟨hcells, hwrites⟩ := readRow_cells_writes (rowSize timeSize fields) fields.length row
    (bindColumns timeSize 0 fields) s
  have hposition : (WarheadDiscord.readRow (rowSize timeSize fields) fields.length row
      (bindColumns timeSize 0 fields) s).rowPosition = s.rowPosition + 1 := by
    rw [WarheadDiscord.readRow]
    exact congrArg (· + 1) (rowPosition_readColumns _ _ _ _ _ _)
  refine ⟨?_, ?_, ?_⟩
  · intro i hi
    have hbuffer := buffers_readColumns (rowSize timeSize fields) fields.length row 0
      (bindColumns timeSize 0 fields) { s with writes := s.writes ++
        (rowCells row (bindColumns timeSize 0 fields) s).map ResultCell.fetched } i
    have hvalue : hasValue fetch i s.rowPosition = (row i).isSome := by
      rw [hasValue, hrow, Option.any_some]
    rw [hposition, nonNulls, hvalue, WarheadDiscord.readRow]
    refine hbuffer.trans ?_
    rw [length_bindColumns, h.buffers i hi]
    cases (row i).isSome with
    | true => simp [hi, Nat.mul_add, Nat.add_assoc]
    | false => simp
  · intro c hc
    rw [hcells, List.mem_append] at hc
    rw [hposition]
    rcases hc with hold | hnew
    · exact ⟨Nat.lt_succ_of_lt (h.cells c hold).1, (h.cells c hold).2⟩
    · obtain ⟨hc, hplaced⟩ := h.placed_of_mem_rowCells hlt hrow hnew
      exact ⟨by omega, hplaced⟩
  · intro w
    rw [hwrites, hcells]
    simp only [List.mem_append, h.writes, List.mem_map, List.mem_flatMap]
    constructor
    · rintro ((⟨c, hc, hw⟩ | ⟨c, hc, rfl⟩) | ⟨c, hc, hw⟩)
      · exact ⟨c, .inl hc, hw⟩
      · exact ⟨c, .inr hc, .inl rfl⟩
      · exact ⟨c, .inr hc, .inr hw⟩
    · rintro ⟨c, hc | hc, hw⟩
      · exact .inl (.inl ⟨c, hc, hw⟩)
      · rcases hw with rfl | hw
        · exact .inl (.inr ⟨c, hc, rfl⟩)
        · exact .inr ⟨c, hc, hw⟩

theorem Laid.readRows (hlt : rowSize timeSize fields < 2 ^ 32) (h : Laid timeSize fields fetch s)
    (n : ℕ) :
    Laid timeSize fields fetch (readRows (rowSize timeSize fields) fields.length fetch
      (bindColumns timeSize 0 fields) n s) ∧
    (readRows (rowSize timeSize fields) fields.length fetch (bindColumns timeSize 0 fields) n
      s).rowPosition ≤ s.rowPosition + n := by
  induction n generalizing s with
  | zero => exact ⟨h, Nat.le_refl _⟩
  | succ n ih =>
      rw [WarheadDiscord.readRows]
      cases hrow : fetch s.rowPosition with
      | none => exact ⟨h, Nat.le_add_right _ _⟩
      | some row =>
          obtain ⟨hlaid, hle⟩ := ih (h.readRow hlt hrow)
          refine ⟨hlaid, hle.trans ?_⟩
          have hposition : (WarheadDiscord.readRow (rowSize timeSize fields) fields.length row
              (bindColumns timeSize 0 fields) s).rowPosition = s.rowPosition + 1 :=
            congrArg (· + 1) (rowPosition_readColumns _ _ _ _ _ _)
          omega

theorem laid_bufferRows (hlt : rowSize timeSize fields < 2 ^ 32) (rowCount : ℕ)
    (fetch : ℕ → Option FetchedRow) :
    Laid timeSize fields fetch (bufferRows timeSize fields rowCount fetch) ∧
      (bufferRows timeSize fields rowCount fetch).rowPosition ≤ rowCount := by
  have hstart : Laid timeSize fields fetch
      { buffers := fun i =>
          (((bindColumns timeSize 0 fields)[i]?).map ResultBind.buffer).getD 0
        rows := List.replicate (rowStart rowCount fields.length) .unset } := by
    refine ⟨?_, by simp, by simp⟩
    intro i hi
    have hbind := getElem?_bindColumns timeSize ((Nat.zero_add _).trans_lt hlt) i
    rw [List.getElem?_eq_getElem hi] at hbind
    simp [hbind, nonNulls]
  obtain ⟨hlaid, hle⟩ := hstart.readRows hlt rowCount
  rw [Nat.zero_add] at hle
  exact ⟨hlaid, hle⟩

/-! ## The layout -/

/-- A value is known by its row and its column. -/
theorem Placed.eq (hc : Placed timeSize fields fetch c) (hd : Placed timeSize fields fetch d)
    (hrow : c.row = d.row) (hcolumn : c.column = d.column) : c = d := by
  have hfield := hc.field
  have hvalue := hc.value
  have haddress := hc.address
  rw [hcolumn, hd.field, Option.some.injEq, Prod.mk.injEq] at hfield
  rw [hcolumn, hrow, hd.value, Option.some.injEq] at hvalue
  rw [hcolumn, hrow, ← hd.address] at haddress
  cases c
  cases d
  simp_all

theorem Placed.exists_field (hc : Placed timeSize fields fetch c) :
    ∃ f, fields[c.column]? = some f ∧ c.bufferLength = sizeForType timeSize f := by
  obtain ⟨f, hf, heq⟩ := Option.map_eq_some_iff.mp hc.field
  exact ⟨f, hf, (congrArg Prod.snd heq).symm⟩

theorem Placed.hasValue (hc : Placed timeSize fields fetch c) :
    hasValue fetch c.column c.row = true := by
  obtain ⟨row, hrow, hdata⟩ := Option.bind_eq_some_iff.mp hc.value
  rw [WarheadDiscord.hasValue, hrow, Option.any_some, hdata]
  rfl

theorem Placed.disjoint (hc : Placed timeSize fields fetch c) (hd : Placed timeSize fields fetch d)
    (hne : (c.row, c.column) ≠ (d.row, d.column)) :
    c.address + c.bufferLength ≤ d.address ∨ d.address + d.bufferLength ≤ c.address := by
  obtain ⟨f, hf, hcsize⟩ := hc.exists_field
  obtain ⟨g, hg, hdsize⟩ := hd.exists_field
  rw [hc.address, hd.address, hcsize, hdsize]
  refine places_disjoint timeSize hf hg ?_
  intro hcolumn
  have hrow : c.row ≠ d.row := fun hrow => hne (Prod.ext hrow hcolumn)
  rcases Nat.lt_or_gt_of_ne hrow with hlt | hlt
  · rw [← hcolumn]
    exact Nat.ne_of_lt (nonNulls_lt hc.hasValue hlt)
  · rw [hcolumn]
    exact Nat.ne_of_gt (nonNulls_lt hd.hasValue hlt)

/-- The writes for a value are inside its region. -/
theorem ResultCell.covers_region {w : Write UInt8} {x : ℕ} (hw : w = c.fetched ∨ w ∈ c.terminator)
    (hx : w.Covers x) : c.address ≤ x ∧ x < c.address + c.bufferLength := by
  rcases hw with rfl | hw
  · have hlength : (c.data.take c.bufferLength).length ≤ c.bufferLength := List.length_take_le _ _
    exact ⟨hx.1, Nat.lt_of_lt_of_le hx.2 (Nat.add_le_add_left hlength _)⟩
  · rw [terminator] at hw
    split_ifs at hw with hroom
    · obtain rfl := List.mem_singleton.mp hw
      obtain ⟨hle, hlt⟩ := hx
      simp only [List.length_singleton] at hle hlt
      omega
    · cases hw

/-- The only writes to the region of a value are its own. -/
theorem Laid.eq_of_covers (h : Laid timeSize fields fetch s) (hc : c ∈ s.cells) {w : Write UInt8}
    (hw : w ∈ s.writes) {x : ℕ} (hx : w.Covers x)
    (hregion : c.address ≤ x ∧ x < c.address + c.bufferLength) :
    w = c.fetched ∨ w ∈ c.terminator := by
  obtain ⟨d, hd, hwd⟩ := (h.writes w).mp hw
  have hxd := ResultCell.covers_region hwd hx
  by_cases hsame : (c.row, c.column) = (d.row, d.column)
  · obtain rfl : c = d := (h.cells c hc).2.eq (h.cells d hd).2 (congrArg Prod.fst hsame)
      (congrArg Prod.snd hsame)
    exact hwd
  · have := (h.cells c hc).2.disjoint (h.cells d hd).2 hsame
    omega

/-- The terminating zero is behind the octets that were fetched. -/
theorem Laid.writeAll_fetched (h : Laid timeSize fields fetch s) (hc : c ∈ s.cells) {i : ℕ}
    {a : UInt8} (hi : c.fetched.values[i]? = some a) (m : ℕ → UInt8) :
    writeAll m s.writes (c.address + i) = a := by
  have hlt : i < c.fetched.values.length := (List.getElem?_eq_some_iff.mp hi).1
  have hlength : c.fetched.values.length = min c.bufferLength c.data.length := List.length_take
  refine writeAll_of_unique ((h.writes c.fetched).mpr ⟨c, hc, .inl rfl⟩) hi ?_ m
  intro v hv hcovers
  have hregion : c.address ≤ c.address + i ∧ c.address + i < c.address + c.bufferLength :=
    ⟨Nat.le_add_right _ _, by omega⟩
  refine (h.eq_of_covers hc hv hcovers hregion).resolve_right ?_
  intro hv
  rw [ResultCell.terminator] at hv
  split_ifs at hv with hroom
  · rw [List.mem_singleton.mp hv] at hcovers
    have hle : c.address + c.data.length ≤ c.address + i := hcovers.1
    omega
  · cases hv

theorem Laid.writeAll_terminator (h : Laid timeSize fields fetch s) (hc : c ∈ s.cells)
    (hroom : c.type.isTerminated ∧ c.data.length < c.bufferLength) (m : ℕ → UInt8) :
    writeAll m s.writes (c.address + c.data.length) = 0 := by
  have hterminator : c.terminator = [⟨c.address + c.data.length, [0]⟩] := if_pos hroom
  have hmem : (⟨c.address + c.data.length, [0]⟩ : Write UInt8) ∈ c.terminator := by
    rw [hterminator]
    exact List.mem_singleton_self _
  refine writeAll_of_unique (w := ⟨c.address + c.data.length, [0]⟩) (i := 0)
    ((h.writes _).mpr ⟨c, hc, .inr hmem⟩) rfl ?_ m
  intro v hv hcovers
  rcases h.eq_of_covers hc hv hcovers
      ⟨Nat.le_add_right _ _, Nat.add_lt_add_left hroom.2 _⟩ with rfl | hv
  · have hlt : c.address + c.data.length < c.address + c.fetched.values.length := hcovers.2
    have hlength : c.fetched.values.length ≤ c.data.length := List.length_take_le' _ _
    omega
  · rw [hterminator] at hv
    exact List.mem_singleton.mp hv

/-- What was written for a value is there at the end. -/
theorem Laid.writeAll_eq (h : Laid timeSize fields fetch s) (hc : c ∈ s.cells) {i : ℕ} {a : UInt8}
    (hi : c.contents[i]? = some a) (m : ℕ → UInt8) : writeAll m s.writes (c.address + i) = a := by
  rw [ResultCell.contents, List.getElem?_append] at hi
  split_ifs at hi with hfetched hroom
  · exact h.writeAll_fetched hc hi m
  · have hlength : (c.data.take c.bufferLength).length = c.data.length := by
      rw [List.take_of_length_le (Nat.le_of_lt hroom.2)]
    rw [hlength] at hfetched hi
    obtain rfl : i = c.data.length := by
      have hlt := (List.getElem?_eq_some_iff.mp hi).1
      rw [List.length_singleton] at hlt
      omega
    rw [Nat.sub_self] at hi
    cases hi
    exact h.writeAll_terminator hc hroom m
  · cases hi

/-- **The layout is safe if the buffer has room for all rows.** -/
theorem Laid.layoutSafe (h : Laid timeSize fields fetch s) {rowCount size : ℕ}
    (hrows : s.rowPosition ≤ rowCount) (hsize : rowSize timeSize fields * rowCount ≤ size) :
    LayoutSafe size s where
  inside := by
    intro c hc
    obtain ⟨hrow, hplaced⟩ := h.cells c hc
    obtain ⟨f, hf, hlength⟩ := hplaced.exists_field
    rw [hplaced.address, hlength]
    refine (place_add_size_le timeSize hf ?_).trans hsize
    have hle := nonNulls_le fetch c.column c.row
    omega
  disjoint := fun c hc d hd => (h.cells c hc).2.disjoint (h.cells d hd).2
  terminated := by
    intro c hc w hw
    rw [ResultCell.terminator] at hw
    split_ifs at hw with hroom
    · obtain rfl := List.mem_singleton.mp hw
      exact ⟨Nat.le_add_right _ _, by simp only [List.length_singleton]; omega⟩
    · cases hw
  kept := fun c hc i a hi m => h.writeAll_eq hc hi m

end Rows

/-! ## The size of the buffer -/

theorem layoutSafe_of_lt {timeSize : ℕ} {fields : List MySQLField}
    (hsizes : rowSize timeSize fields < 2 ^ 32) {rowCount : ℕ}
    (hlt : rowSize timeSize fields * rowCount < 2 ^ 64) (fetch : ℕ → Option FetchedRow) :
    LayoutSafe (bufferSize timeSize fields rowCount)
      (bufferRows timeSize fields rowCount fetch) := by
  obtain ⟨hlaid, hle⟩ := laid_bufferRows hsizes rowCount fetch
  refine hlaid.layoutSafe hle ?_
  rw [bufferSize, Nat.mod_eq_of_lt hlt]

/-! ### The last value -/

section Last
variable {timeSize : ℕ} {fields : List MySQLField} {fetch : ℕ → Option FetchedRow}
  {size fieldCount n : ℕ} {binds : List ResultBind} {s : Buffering}

theorem mem_cells_readRows {c : ResultCell} (hc : c ∈ s.cells) :
    c ∈ (readRows size fieldCount fetch binds n s).cells := by
  induction n generalizing s with
  | zero => exact hc
  | succ n ih =>
      rw [readRows]
      cases fetch s.rowPosition with
      | none => exact hc
      | some row =>
          refine ih ?_
          rw [(readRow_cells_writes size fieldCount row binds s).1]
          exact List.mem_append_left _ hc

/-- If no fetch fails, there is a cell for each value of the rows that are to be read. -/
theorem exists_mem_cells_readRows (hfetch : ∀ row, (fetch row).isSome) {row column : ℕ}
    (hvalue : hasValue fetch column row = true) (hcolumn : column < binds.length)
    (hle : s.rowPosition ≤ row) (hlt : row < s.rowPosition + n) :
    ∃ c ∈ (readRows size fieldCount fetch binds n s).cells, c.row = row ∧ c.column = column := by
  induction n generalizing s with
  | zero => omega
  | succ n ih =>
      obtain ⟨values, hrow⟩ := Option.isSome_iff_exists.mp (hfetch s.rowPosition)
      have hposition : (readRow size fieldCount values binds s).rowPosition = s.rowPosition + 1 :=
        congrArg (· + 1) (rowPosition_readColumns _ _ _ _ _ _)
      rw [readRows, hrow]
      rcases Nat.eq_or_lt_of_le hle with rfl | hnext
      · rw [hasValue, hrow, Option.any_some, Option.isSome_iff_exists] at hvalue
        obtain ⟨data, hdata⟩ := hvalue
        refine ⟨⟨s.rowPosition, column, binds[column].type, s.buffers column,
          binds[column].bufferLength, data⟩, mem_cells_readRows ?_, rfl, rfl⟩
        rw [(readRow_cells_writes size fieldCount values binds s).1]
        exact List.mem_append_right _ (mem_rowCells.mpr
          ⟨binds[column], data, List.getElem?_eq_getElem hcolumn, hdata, rfl⟩)
      · exact ih (by omega) (by omega)

theorem exists_mem_cells_bufferRows (timeSize : ℕ) (hfetch : ∀ row, (fetch row).isSome)
    {rowCount row column : ℕ} (hvalue : hasValue fetch column row = true)
    (hcolumn : column < fields.length) (hrow : row < rowCount) :
    ∃ c ∈ (bufferRows timeSize fields rowCount fetch).cells, c.row = row ∧ c.column = column := by
  rw [← length_bindColumns timeSize 0 fields] at hcolumn
  exact exists_mem_cells_readRows hfetch hvalue hcolumn (Nat.zero_le _) (by simpa using hrow)

/-- No value is NULL. -/
def fullRows (_ : ℕ) : Option FetchedRow := some fun _ => some []

theorem nonNulls_fullRows (column row : ℕ) : nonNulls fullRows column row = row := by
  induction row with
  | zero => rfl
  | succ row ih =>
      rw [nonNulls, ih]
      rfl

/-- **The last value of a result without NULL values ends where the rows end.** -/
theorem exists_end_eq (hsizes : rowSize timeSize fields < 2 ^ 32) {rowCount : ℕ}
    (hrows : 0 < rowCount) (hfields : 0 < fields.length) :
    ∃ c ∈ (bufferRows timeSize fields rowCount fullRows).cells,
      c.address + c.bufferLength = rowSize timeSize fields * rowCount := by
  have hvalue : hasValue fullRows (fields.length - 1) (rowCount - 1) = true := rfl
  obtain ⟨c, hc, hrow, hcolumn⟩ := exists_mem_cells_bufferRows timeSize (fun _ => rfl) hvalue
    (Nat.sub_lt hfields Nat.one_pos) (Nat.sub_lt hrows Nat.one_pos)
  obtain ⟨-, hplaced⟩ := (laid_bufferRows hsizes rowCount fullRows).1.cells c hc
  obtain ⟨f, hf, hlength⟩ := hplaced.exists_field
  have hlast := columnOffset_succ timeSize hf
  rw [hcolumn, Nat.sub_add_cancel hfields, columnOffset_length, ← hcolumn] at hlast
  have hparts : rowSize timeSize fields * rowCount =
      rowSize timeSize fields * (rowCount - 1) + rowSize timeSize fields := by
    rw [← Nat.mul_succ, Nat.succ_eq_add_one, Nat.sub_add_cancel hrows]
  refine ⟨c, hc, ?_⟩
  rw [hplaced.address, hlength, nonNulls_fullRows, hrow, hparts]
  omega

end Last

/-- **The layout is safe for all patterns of NULL values exactly if the size of the buffer is not
reduced.** -/
theorem layoutSafe_iff {timeSize : ℕ} {fields : List MySQLField}
    (hsizes : (fields.map (sizeForType timeSize)).sum < 2 ^ 32) (rowCount : ℕ) :
    (∀ fetch, LayoutSafe (bufferSize timeSize fields rowCount)
        (bufferRows timeSize fields rowCount fetch)) ↔
      (fields.map (sizeForType timeSize)).sum * rowCount < 2 ^ 64 := by
  constructor
  · intro h
    by_contra hge
    have hge : 2 ^ 64 ≤ rowSize timeSize fields * rowCount := Nat.not_lt.mp hge
    have hrows : 0 < rowCount := Nat.pos_of_ne_zero fun hzero => by simp [hzero] at hge
    have hfields : 0 < fields.length := by
      refine Nat.pos_of_ne_zero fun hzero => ?_
      rw [List.length_eq_zero_iff.mp hzero] at hge
      simp [rowSize] at hge
    obtain ⟨c, hc, hend⟩ := exists_end_eq hsizes hrows hfields
    have hinside := (h fullRows).inside c hc
    have hsize : bufferSize timeSize fields rowCount < 2 ^ 64 := Nat.mod_lt _ (by decide)
    omega
  · intro hlt
    exact layoutSafe_of_lt hsizes hlt

theorem layoutSafe_idColumn :
    bufferSize 40 idColumn 2 = 8 ∧
      ∀ fetch, LayoutSafe (bufferSize 40 idColumn 2) (bufferRows 40 idColumn 2 fetch) :=
  ⟨by decide, (layoutSafe_iff (by decide) 2).mpr (by decide)⟩

/-- A column whose longest value is as long as a packet of the server can be. -/
def longColumn : List MySQLField := [⟨.longBlob, 2 ^ 30 - 1⟩]

/-- Only the first row has a value. -/
def oneLongValue (row : ℕ) : Option FetchedRow :=
  some fun _ => if row = 0 then some (List.replicate (2 ^ 30 - 1) 120) else none

/-- The size of the buffer is reduced to nothing, and the first row is written behind it. -/
theorem not_layoutSafe_longColumn :
    bufferSize 40 longColumn (2 ^ 34) = 0 ∧
      ¬ LayoutSafe (bufferSize 40 longColumn (2 ^ 34))
        (bufferRows 40 longColumn (2 ^ 34) oneLongValue) := by
  have hsize : bufferSize 40 longColumn (2 ^ 34) = 0 := by decide
  refine ⟨hsize, ?_⟩
  intro h
  have hvalue : hasValue oneLongValue 0 0 = true := rfl
  have hcolumns : 0 < longColumn.length := by decide
  have hrows : 0 < 2 ^ 34 := by decide
  obtain ⟨c, hc, -, hcolumn⟩ :=
    exists_mem_cells_bufferRows 40 (fun _ => rfl) hvalue hcolumns hrows
  obtain ⟨-, hplaced⟩ := (laid_bufferRows (by decide) (2 ^ 34) oneLongValue).1.cells c hc
  have hfield := hplaced.field
  rw [hcolumn] at hfield
  have hlength : 2 ^ 30 = c.bufferLength := congrArg Prod.snd (Option.some.inj hfield)
  have hinside := h.inside c hc
  omega

end WarheadDiscord
