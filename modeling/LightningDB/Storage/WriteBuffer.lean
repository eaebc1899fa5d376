import LightningDB.Framework.Runs
import LightningDB.Storage.Value
import Mathlib.Data.List.Sort
import Mathlib.Logic.Function.Basic

/-!
# The write buffers of a table

A row that is appended waits in a buffer of its transaction, with the id that the counter of the table has
given it.  `flush_buffer` turns the columns of the buffer into arrays and writes them as one block, which
begins at the id of the first row.

So a row ends up at its id only if the ids of the buffer follow each other without a gap.  The counter is
shared, and another transaction or another statement may have taken ids in between.  The rest of the
condition under which a flush does what it should (`Exact`) is about the columns: that of the arrays that
are made, some do not have the type that the schema of the table asks for, and some values are changed on
their way into the array or out of the page.
-/

namespace LightningDB

open Framework Function List

/-- `DataType`, without the fields of the nested types. -/
inductive ArrowType where
  | int64 | int32 | uint64 | float64 | boolean | utf8 | date32 | timestamp | list | struct | null
deriving DecidableEq

/-- `logical_type_to_arrow_type`. -/
def logicalTypeToArrowType : LogicalType → ArrowType
  | .int64 => .int64
  | .int32 => .int32
  | .uint64 | .node _ => .uint64
  | .double | .float => .float64
  | .bool => .boolean
  | .string => .utf8
  | .date => .date32
  | .timestamp => .timestamp
  | .list _ => .list
  | .struct _ => .struct
  | _ => .null

/-- `Column`, as far as writing to it depends on it. -/
structure Column where
  name : String
  dataType : LogicalType
  hasOverflow : Bool
  compressed : Bool

/-- What the code takes from elsewhere: the casts between the representations of numbers,
`Display for Value`, and `RecordBatch::try_new`, which accepts arrays that are of one length and have the
types of the schema. -/
structure Arrow where
  asI64 : UInt64 → UInt64
  ofI64 : UInt64 → UInt64
  asU64 : UInt64 → UInt64
  print : StoredValue → String
  tryNew : List Column → List (ArrowType × List StoredValue) → Except LightningError Unit
  tryNew_eq_ok_iff : ∀ columns arrays, tryNew columns arrays = .ok () ↔
    (∀ x ∈ arrays, x.2.length = (arrays.map (·.2.length)).headD 0) ∧
      arrays.map (·.1) = columns.map fun col => logicalTypeToArrowType col.dataType

/-- `WriteBuffer`. -/
structure WriteBuffer where
  columns : List (List StoredValue)
  rowIds : List ℕ

/-- `Table`: the columns, the counter of row ids, the content of the pages by row and column as the
transaction that flushes sees it, and the write buffers.  `appended` has the rows that are waiting, as they
were handed to `append_row`. -/
structure BufferedTable where
  columns : List Column
  nextRowId : ℕ
  isNull : ℕ → ℕ → Bool
  data : ℕ → ℕ → StoredValue
  writeBuffer : ℕ → Option WriteBuffer
  appended : ℕ → List (ℕ × List StoredValue)

/-! ## Arrays -/

def builderType : LogicalType → ArrowType
  | .string => .utf8
  | .int64 | .int32 | .int16 | .int8 => .int64
  | .double | .float => .float64
  | .bool => .boolean
  | .node _ | .rel _ | .uint64 | .uint32 | .uint16 | .uint8 => .uint64
  | .date => .date32
  | .timestamp => .timestamp
  | _ => .utf8

variable (arrow : Arrow)

/-- What a value becomes in the array for its column, as `Value::from_arrow` gives it back. -/
def builderEntry : LogicalType → StoredValue → StoredValue
  | .string, .string s => .string s
  | .int64, .number n | .int32, .number n | .int16, .number n | .int8, .number n =>
    .number (arrow.ofI64 (arrow.asI64 n))
  | .double, .number n | .float, .number n => .number n
  | .bool, .boolean b => .boolean b
  | .node _, .node id => .node id
  | .rel _, .relationship id => .node id
  | .uint64, .node id | .uint32, .node id | .uint16, .node id | .uint8, .node id => .node id
  | .uint64, .number n | .uint32, .number n | .uint16, .number n | .uint8, .number n =>
    .node (arrow.asU64 n)
  | .date, .date d => .date d
  | .timestamp, .timestamp t => .timestamp t
  | .string, _ | .int64, _ | .int32, _ | .int16, _ | .int8, _ | .double, _ | .float, _ | .bool, _
  | .node _, _ | .rel _, _ | .uint64, _ | .uint32, _ | .uint16, _ | .uint8, _ | .date, _
  | .timestamp, _ => .null
  | _, v => .string (arrow.print v)

/-- The array of a column.  A column that was added after the buffer was begun has nulls. -/
def Column.array (numRows : ℕ) (col : Column) :
    Option (List StoredValue) → ArrowType × List StoredValue
  | some values => (builderType col.dataType, values.map (builderEntry arrow col.dataType))
  | none => (logicalTypeToArrowType col.dataType, List.replicate numRows .null)

/-- A value as it is read after it has been written: `parse_value` of `serialize_value_into`, for the
values that the array of a column of the type has. -/
def readBack : LogicalType → StoredValue → StoredValue
  | .int64, .number n => .number (arrow.ofI64 (arrow.asI64 n))
  | .uint64, .node id | .node _, .node id => .node id
  | .double, .number n | .float, .number n => .number n
  | .bool, .boolean b => .boolean b
  | .string, .string s => .string s
  | .date, .date d => .date d
  | .timestamp, .timestamp t => .timestamp t
  | _, _ => .null

/-- The error of `serialize_value_into`. -/
def Column.serializeError (col : Column) : StoredValue → Option LightningError
  | .string s =>
    let len := (utf8 s).length
    if len < 64 ∨ col.hasOverflow then none
    else some (.internal
      s!"String of length {len} exceeds inline limit (63 bytes) and no overflow file is configured")
  | _ => none

/-- The error of `ensure_writable`. -/
def Column.compressedError (col : Column) : LightningError :=
  let name := col.name
  .internal s!"column '{name}' is compressed (immutable generation); decompress it before writing"

namespace BufferedTable

variable (t : BufferedTable)

/-- The content of a cell: `get_value`. -/
def get (row col : ℕ) : StoredValue :=
  if t.isNull row col then .null else t.data row col

/-! ## Writing -/

/-- The null bits of a block of rows. -/
def setNulls (start col : ℕ) (entries : List StoredValue) : BufferedTable :=
  { t with
    isNull := fun r c =>
      if c = col ∧ start ≤ r ∧ r < start + entries.length then
        decide (entries.getD (r - start) .null = .null)
      else t.isNull r c }

/-- The data of a block of rows, up to the first value that cannot be written. -/
def setData (column : Column) (col : ℕ) :
    ℕ → List StoredValue → BufferedTable → Except LightningError Unit × BufferedTable
  | _, [], t => (.ok (), t)
  | row, v :: entries, t =>
    if v = .null then setData column col (row + 1) entries t
    else
      match column.serializeError v with
      | some e => (.error e, t)
      | none =>
        setData column col (row + 1) entries
          { t with
            data := update t.data row
              (update (t.data row) col (readBack arrow column.dataType v)) }

/-- `bulk_append_array_bulk_mode`. -/
def bulkAppendArray (column : Column) (col start : ℕ) (entries : List StoredValue) (t : BufferedTable) :
    Except LightningError Unit × BufferedTable :=
  if column.compressed then (.error column.compressedError, t)
  else if entries = [] then (.ok (), t)
  else setData arrow column col start entries (t.setNulls start col entries)

def appendColumns (start : ℕ) :
    List ((Column × List StoredValue) × ℕ) → BufferedTable → Except LightningError Unit × BufferedTable
  | [], t => (.ok (), t)
  | ((column, entries), col) :: rest, t =>
    match bulkAppendArray arrow column col start entries t with
    | (.error e, t) => (.error e, t)
    | (.ok (), t) => appendColumns start rest t

def arrays (columns : List (List StoredValue)) : List (ArrowType × List StoredValue) :=
  t.columns.zipIdx.map fun x => x.1.array arrow (columns.headD []).length columns[x.2]?

def blocks (columns : List (List StoredValue)) : List ((Column × List StoredValue) × ℕ) :=
  t.columns.zipIdx.map fun x =>
    ((x.1, (x.1.array arrow (columns.headD []).length columns[x.2]?).2), x.2)

def removeBuffer (tx : ℕ) : BufferedTable :=
  { t with
    writeBuffer := update t.writeBuffer tx none
    appended := update t.appended tx [] }

/-- `flush_buffer`. -/
def flushBuffer (tx : ℕ) (t : BufferedTable) : Except LightningError Unit × BufferedTable :=
  match t.writeBuffer tx with
  | none => (.ok (), t)
  | some wb =>
    if wb.columns.headD [] = [] then (.ok (), t.removeBuffer tx)
    else
      match arrow.tryNew t.columns (t.arrays arrow wb.columns) with
      | .error e => (.error e, t.removeBuffer tx)
      | .ok () => appendColumns arrow (wb.rowIds.headD 0) (t.blocks arrow wb.columns) (t.removeBuffer tx)

/-- `ensure_buffer`. -/
def ensureBuffer (tx : ℕ) : WriteBuffer :=
  (t.writeBuffer tx).getD ⟨t.columns.map fun _ => [], []⟩

/-- The first part of `append_row`: the row is put into the buffer.  Extra values are left out. -/
def pushRow (tx id : ℕ) (values : List StoredValue) : BufferedTable :=
  let wb := t.ensureBuffer tx
  { t with
    writeBuffer := update t.writeBuffer tx (some
      { columns := wb.columns.zipIdx.map fun (column, i) => column ++ values[i]?.toList
        rowIds := wb.rowIds ++ [id] })
    appended := update t.appended tx (t.appended tx ++ [(id, values)]) }

/-- `DEFAULT_WRITE_BUFFER_THRESHOLD`. -/
def writeBufferThreshold : ℕ := 200

/-- `append_row`. -/
def appendRow (tx id : ℕ) (values : List StoredValue) :
    Except LightningError Unit × BufferedTable :=
  let t := t.pushRow tx id values
  if ((t.ensureBuffer tx).columns.headD []).length ≥ writeBufferThreshold then t.flushBuffer arrow tx
  else (.ok (), t)

end BufferedTable

inductive TableCall where
  /-- `next_row_id.fetch_add(1)`, `reserve_rows` and `append_row`. -/
  | append (tx : ℕ) (values : List StoredValue)
  /-- `next_row_id.fetch_add(count)` and `reserve_rows`, for rows that do not go through the buffer. -/
  | reserve (tx count : ℕ)
  /-- `flush_pending`. -/
  | flush (tx : ℕ)
  /-- `ALTER TABLE … ADD`. -/
  | addColumn (column : Column)

/-- Calls on a table that begins without buffered rows.  `create_table` gives each table at least one column,
`_id` or `_src`. -/
def tableSystem (arrow : Arrow) : System BufferedTable TableCall where
  init t := t.columns ≠ [] ∧ (∀ tx, t.writeBuffer tx = none) ∧ ∀ tx, t.appended tx = []
  step t
    | .append tx values =>
      some ({ t with nextRowId := t.nextRowId + 1 }.appendRow arrow tx t.nextRowId values).2
    | .reserve _ count => some { t with nextRowId := t.nextRowId + count }
    | .flush tx => some (t.flushBuffer arrow tx).2
    | .addColumn column => some { t with columns := t.columns ++ [column] }

namespace BufferedTable

variable (t : BufferedTable) {column : Column} {col start row tx : ℕ}
variable {entries : List StoredValue}

/-! ## What a flush writes -/

/-- What is read of an entry of an array. -/
def shown (arrow : Arrow) (type : LogicalType) (entry : StoredValue) : StoredValue :=
  if entry = .null then .null else readBack arrow type entry

def Writable (column : Column) (entries : List StoredValue) : Prop :=
  column.compressed = false ∧ ∀ v ∈ entries, column.serializeError v = none

lemma setData_ok_iff :
    (setData arrow column col row entries t).1 = .ok () ↔ ∀ v ∈ entries, column.serializeError v = none := by
  induction entries generalizing row t with
  | nil => simp [setData]
  | cons v entries ih =>
    rw [setData, forall_mem_cons]
    split
    next hv =>
      rw [ih, hv]
      exact ⟨fun h => ⟨rfl, h⟩, And.right⟩
    · cases hv : column.serializeError v with
      | none => exact (ih _).trans ⟨fun h => ⟨rfl, h⟩, And.right⟩
      | some e =>
        refine ⟨fun h => ?_, fun h => ?_⟩
        · cases h
        · cases h.1

lemma setData_frame (column : Column) (col row : ℕ) (entries : List StoredValue) :
    ∃ data, (setData arrow column col row entries t).2 = { t with data := data } ∧
      ∀ r c, c ≠ col ∨ r < row ∨ row + entries.length ≤ r → data r c = t.data r c := by
  induction entries generalizing row t with
  | nil => exact ⟨_, rfl, fun _ _ _ => rfl⟩
  | cons v entries ih =>
    rw [setData, length_cons]
    split
    · obtain ⟨data, heq, hframe⟩ := ih t (row + 1)
      exact ⟨data, heq, fun r c h => hframe r c (by omega)⟩
    · cases column.serializeError v with
      | some e => exact ⟨_, rfl, fun _ _ _ => rfl⟩
      | none =>
        obtain ⟨data, heq, hframe⟩ := ih { t with data := update t.data row _ } (row + 1)
        refine ⟨data, heq, fun r c h => (hframe r c (by omega)).trans ?_⟩
        by_cases hr : r = row
        · have hc : c ≠ col := by omega
          dsimp only
          rw [hr, update_self, update_of_ne hc]
        · exact congrFun (update_of_ne hr _ t.data) c

variable {r c i : ℕ} {v : StoredValue}

lemma setData_data (col row : ℕ)
    (hok : ∀ v ∈ entries, column.serializeError v = none) (hv : entries[i]? = some v)
    (hne : v ≠ .null) : (setData arrow column col row entries t).2.data (row + i) col =
      readBack arrow column.dataType v := by
  induction entries generalizing row t i with
  | nil => simp at hv
  | cons w entries ih =>
    obtain ⟨hw, hok⟩ := forall_mem_cons.1 hok
    rw [setData, hw]
    cases i with
    | zero =>
      rw [getElem?_cons_zero, Option.some.injEq] at hv
      subst hv
      rw [if_neg hne]
      obtain ⟨data, heq, hframe⟩ := setData_frame arrow { t with data := update t.data row _ }
        column col (row + 1) entries
      rw [heq, Nat.add_zero]
      refine (hframe row col (.inr (.inl (Nat.lt_succ_self row)))).trans ?_
      dsimp only
      rw [update_self, update_self]
    | succ i =>
      rw [show row + (i + 1) = row + 1 + i by omega]
      split
      · exact ih t (row + 1) hok hv
      · exact ih _ (row + 1) hok hv

lemma bulkAppendArray_ok_iff (col start : ℕ) :
    (bulkAppendArray arrow column col start entries t).1 = .ok () ↔ Writable column entries := by
  rw [bulkAppendArray, Writable]
  cases column.compressed with
  | true =>
    refine ⟨fun h => ?_, fun h => ?_⟩
    · cases h
    · cases h.1
  | false =>
    rw [if_neg Bool.false_ne_true]
    split
    next hnil =>
      rw [hnil]
      exact ⟨fun _ => ⟨rfl, fun _ hv => absurd hv not_mem_nil⟩, fun _ => rfl⟩
    · rw [setData_ok_iff]
      exact ⟨fun h => ⟨rfl, h⟩, And.right⟩

lemma get_bulkAppendArray (h : Writable column entries) (hv : entries[i]? = some v) :
    (bulkAppendArray arrow column col start entries t).2.get (start + i) col =
      shown arrow column.dataType v := by
  have hne : entries ≠ [] := by
    rintro rfl
    simp at hv
  have hi : i < entries.length := (List.getElem?_eq_some_iff.1 hv).1
  obtain ⟨data, heq, -⟩ := setData_frame arrow (t.setNulls start col entries) column col start entries
  have hdata := setData_data arrow (t.setNulls start col entries) col start h.2 hv
  rw [heq] at hdata
  rw [bulkAppendArray, h.1, if_neg Bool.false_ne_true, if_neg hne, heq, get, shown]
  have hnull : (t.setNulls start col entries).isNull (start + i) col = decide (v = .null) := by
    rw [setNulls]
    dsimp only
    rw [if_pos ⟨rfl, Nat.le_add_right _ _, Nat.add_lt_add_left hi _⟩, Nat.add_sub_cancel_left,
      getD_eq_getElem?_getD, hv]
    rfl
  rw [hnull]
  by_cases hvnull : v = .null
  · rw [if_pos (decide_eq_true hvnull), if_pos hvnull]
  · rw [if_neg (by rw [decide_eq_false hvnull]; exact Bool.false_ne_true), if_neg hvnull]
    exact hdata hvnull

def OnlyPages (t t' : BufferedTable) : Prop :=
  ∃ isNull data, t' = { t with isNull := isNull, data := data }

lemma OnlyPages.trans {t t' t'' : BufferedTable} (h : OnlyPages t t') (h' : OnlyPages t' t'') :
    OnlyPages t t'' := by
  obtain ⟨isNull, data, rfl⟩ := h
  obtain ⟨isNull', data', rfl⟩ := h'
  exact ⟨isNull', data', rfl⟩

lemma bulkAppendArray_frame (column : Column) (col start : ℕ) (entries : List StoredValue) :
    OnlyPages t (bulkAppendArray arrow column col start entries t).2 ∧
      ∀ r c, c ≠ col ∨ r < start ∨ start + entries.length ≤ r →
        (bulkAppendArray arrow column col start entries t).2.isNull r c = t.isNull r c ∧
        (bulkAppendArray arrow column col start entries t).2.data r c = t.data r c := by
  rw [bulkAppendArray]
  split
  · exact ⟨⟨_, _, rfl⟩, fun _ _ _ => ⟨rfl, rfl⟩⟩
  · split
    · exact ⟨⟨_, _, rfl⟩, fun _ _ _ => ⟨rfl, rfl⟩⟩
    · obtain ⟨data, heq, hframe⟩ := setData_frame arrow (t.setNulls start col entries) column col
        start entries
      rw [heq]
      exact ⟨⟨_, _, rfl⟩, fun r c h => ⟨if_neg (by omega), hframe r c h⟩⟩

section Columns

variable {l : List ((Column × List StoredValue) × ℕ)}

variable {x : (Column × List StoredValue) × ℕ}

lemma appendColumns_cons : appendColumns arrow start (x :: l) t =
    match (bulkAppendArray arrow x.1.1 x.2 start x.1.2 t).1 with
    | .error e => (.error e, (bulkAppendArray arrow x.1.1 x.2 start x.1.2 t).2)
    | .ok _ => appendColumns arrow start l (bulkAppendArray arrow x.1.1 x.2 start x.1.2 t).2 := by
  rw [appendColumns]
  rcases bulkAppendArray arrow x.1.1 x.2 start x.1.2 t with ⟨_ | _, t'⟩ <;> rfl

lemma appendColumns_ok_iff :
    (appendColumns arrow start l t).1 = .ok () ↔ ∀ x ∈ l, Writable x.1.1 x.1.2 := by
  induction l generalizing t with
  | nil => simp [appendColumns]
  | cons x l ih =>
    rw [forall_mem_cons, ← bulkAppendArray_ok_iff arrow t x.2 start]
    cases hrun : (bulkAppendArray arrow x.1.1 x.2 start x.1.2 t).1 with
    | error e =>
      rw [appendColumns_cons, hrun]
      refine ⟨fun h => ?_, fun h => ?_⟩
      · cases h
      · cases h.1
    | ok u =>
      rw [appendColumns_cons, hrun]
      refine (ih _).trans ?_
      exact ⟨fun h => ⟨rfl, h⟩, And.right⟩

lemma appendColumns_frame (start : ℕ) (l : List ((Column × List StoredValue) × ℕ)) :
    OnlyPages t (appendColumns arrow start l t).2 ∧
      ∀ r c, (∀ x ∈ l, c ≠ x.2 ∨ r < start ∨ start + x.1.2.length ≤ r) →
        (appendColumns arrow start l t).2.isNull r c = t.isNull r c ∧
        (appendColumns arrow start l t).2.data r c = t.data r c := by
  induction l generalizing t with
  | nil => exact ⟨⟨_, _, rfl⟩, fun _ _ _ => ⟨rfl, rfl⟩⟩
  | cons x l ih =>
    obtain ⟨hpages, hframe⟩ := bulkAppendArray_frame arrow t x.1.1 x.2 start x.1.2
    rw [appendColumns_cons]
    cases (bulkAppendArray arrow x.1.1 x.2 start x.1.2 t).1 with
    | error e => exact ⟨hpages, fun r c h => hframe r c (h x mem_cons_self)⟩
    | ok u =>
      obtain ⟨hpages', hframe'⟩ := ih (bulkAppendArray arrow x.1.1 x.2 start x.1.2 t).2
      refine ⟨hpages.trans hpages', fun r c h => ?_⟩
      obtain ⟨hx, h⟩ := forall_mem_cons.1 h
      obtain ⟨hnull, hdata⟩ := hframe r c hx
      exact ⟨(hframe' r c h).1.trans hnull, (hframe' r c h).2.trans hdata⟩

lemma get_appendColumns (hok : ∀ x ∈ l, Writable x.1.1 x.1.2)
    (hcols : (l.map (·.2)).Nodup) (hx : x ∈ l) {i : ℕ} {v : StoredValue} (hv : x.1.2[i]? = some v) :
    (appendColumns arrow start l t).2.get (start + i) x.2 = shown arrow x.1.1.dataType v := by
  induction l generalizing t with
  | nil => exact absurd hx not_mem_nil
  | cons y l ih =>
    obtain ⟨hy, hrest⟩ := forall_mem_cons.1 hok
    rw [map_cons, nodup_cons] at hcols
    rw [appendColumns_cons, (bulkAppendArray_ok_iff arrow t _ _).2 hy]
    rcases mem_cons.1 hx with rfl | hx
    · -- the columns after it are others
      have hother : ∀ y ∈ l, x.2 ≠ y.2 ∨ start + i < start ∨ start + y.1.2.length ≤ start + i :=
        fun y hy => .inl fun heq => hcols.1 (heq ▸ mem_map_of_mem hy)
      obtain ⟨hnull, hdata⟩ := (appendColumns_frame arrow
        (bulkAppendArray arrow x.1.1 x.2 start x.1.2 t).2 start l).2 _ _ hother
      rw [get, hnull, hdata]
      exact get_bulkAppendArray arrow t hy hv
    · exact ih _ hrest hcols.2 hx

end Columns

variable {arrow t} {t' : BufferedTable} {wb : WriteBuffer}

/-! ## The rows of a buffer -/

variable (rows : List (ℕ × List StoredValue))

def valuesAt (i : ℕ) : List StoredValue :=
  rows.flatMap fun x => x.2[i]?.toList

lemma valuesAt_eq_filter (i : ℕ) : valuesAt rows i =
    (rows.filter fun x => i < x.2.length).map fun x => x.2.getD i .null := by
  induction rows with
  | nil => rfl
  | cons x rows ih =>
    rw [valuesAt, flatMap_cons, ← valuesAt, ih, filter_cons]
    by_cases hx : i < x.2.length
    · rw [if_pos (decide_eq_true hx), map_cons, getD_eq_getElem?_getD, getElem?_eq_getElem hx]
      rfl
    · rw [if_neg (by simpa using hx), getElem?_eq_none (Nat.le_of_not_lt hx)]
      rfl

lemma length_valuesAt_le (i : ℕ) : (valuesAt rows i).length ≤ rows.length := by
  rw [valuesAt_eq_filter, length_map]
  exact length_filter_le _ _

variable {rows : List (ℕ × List StoredValue)} {i : ℕ}

/-- If no value is missing, they are in the order of the rows. -/
lemma valuesAt_eq (h : ∀ x ∈ rows, i < x.2.length) :
    valuesAt rows i = rows.map fun x => x.2.getD i .null := by
  rw [valuesAt_eq_filter, filter_eq_self.2 (by simpa using h)]

lemma lt_length_of_valuesAt
    (h : (valuesAt rows i).length = rows.length) : ∀ x ∈ rows, i < x.2.length := by
  rw [valuesAt_eq_filter, length_map, length_filter_eq_length_iff] at h
  simpa using h

lemma valuesAt_concat (rows : List (ℕ × List StoredValue)) (id : ℕ) (values : List StoredValue) (i : ℕ) :
    valuesAt (rows ++ [(id, values)]) i = valuesAt rows i ++ values[i]?.toList := by
  rw [valuesAt, flatMap_append, flatMap_singleton, valuesAt]

/-- A buffer has the rows that were appended. -/
structure Buffered (t : BufferedTable) (tx : ℕ) (wb : WriteBuffer) : Prop where
  rows : t.appended tx ≠ []
  pos : 0 < wb.columns.length
  width : wb.columns.length ≤ t.columns.length
  columns : wb.columns = (List.range wb.columns.length).map (valuesAt (t.appended tx))
  rowIds : wb.rowIds = (t.appended tx).map (·.1)

def width (t : BufferedTable) (tx : ℕ) : ℕ := (t.ensureBuffer tx).columns.length

namespace Buffered

variable (h : Buffered t tx wb)
include h

lemma getElem_columns (i : ℕ) :
    wb.columns[i]? = if i < wb.columns.length then some (valuesAt (t.appended tx) i) else none := by
  split
  next hi =>
    rw [h.columns, getElem?_map, getElem?_range hi]
    rfl
  next hi => exact getElem?_eq_none (Nat.le_of_not_lt hi)

lemma head_columns : wb.columns.headD [] = valuesAt (t.appended tx) 0 := by
  rw [headD_eq_head?_getD, head?_eq_getElem?, h.getElem_columns, if_pos h.pos]
  rfl

end Buffered

/-- What holds of the buffer of a transaction in every state: it has the rows that were appended, and their
ids go up. -/
structure OrderedAt (t : BufferedTable) (tx : ℕ) : Prop where
  buffer : t.writeBuffer tx = none ∧ t.appended tx = [] ∨
    ∃ wb, t.writeBuffer tx = some wb ∧ Buffered t tx wb
  increasing : ((t.appended tx).map (·.1)).Pairwise (· < ·)
  below : ∀ x ∈ t.appended tx, x.1 < t.nextRowId

/-- **The flush of a buffer does what it should**: whatever the pages had before, each row that was
appended is at its id, and no other row has been written. -/
def FlushRight (arrow : Arrow) (t : BufferedTable) (tx : ℕ) : Prop :=
  ∀ isNull data,
    (flushBuffer arrow tx { t with isNull := isNull, data := data }).1 = .ok () ∧
    (∀ x ∈ t.appended tx, ∀ i < t.columns.length,
      (flushBuffer arrow tx { t with isNull := isNull, data := data }).2.get x.1 i = x.2.getD i .null) ∧
    ∀ r c, r ∉ (t.appended tx).map (·.1) →
      (flushBuffer arrow tx { t with isNull := isNull, data := data }).2.isNull r c = isNull r c ∧
      (flushBuffer arrow tx { t with isNull := isNull, data := data }).2.data r c = data r c

def Keeps (arrow : Arrow) (column : Column) (v : StoredValue) : Prop :=
  column.serializeError (builderEntry arrow column.dataType v) = none ∧
    shown arrow column.dataType (builderEntry arrow column.dataType v) = v

/-- The condition: the ids have no gap, the columns can be written and get arrays of their types, each
value is one that its column keeps, and a column that the buffer does not have gets no value. -/
def Exact (arrow : Arrow) (t : BufferedTable) (tx : ℕ) : Prop :=
  t.appended tx = [] ∨
    (∃ start, (t.appended tx).map (·.1) = List.range' start (t.appended tx).length) ∧
    ∀ i column, t.columns[i]? = some column → column.compressed = false ∧
      (i < t.width tx → builderType column.dataType = logicalTypeToArrowType column.dataType ∧
        ∀ x ∈ t.appended tx, i < x.2.length ∧ Keeps arrow column (x.2.getD i .null)) ∧
      (t.width tx ≤ i → ∀ x ∈ t.appended tx, x.2.getD i .null = .null)

/-! ## The flush of a buffer -/

/-- The array of a column of the table, for the rows of a buffer of the given width. -/
def entriesAt (arrow : Arrow) (rows : List (ℕ × List StoredValue)) (width i : ℕ) (column : Column) :
    List StoredValue :=
  if i < width then (valuesAt rows i).map (builderEntry arrow column.dataType)
  else List.replicate (valuesAt rows 0).length .null

namespace Buffered

variable (h : Buffered t tx wb)
include h
variable (arrow)

lemma array_eq (i : ℕ) (column : Column) :
    column.array arrow (wb.columns.headD []).length wb.columns[i]? =
      (if i < wb.columns.length then builderType column.dataType
        else logicalTypeToArrowType column.dataType,
        entriesAt arrow (t.appended tx) wb.columns.length i column) := by
  rw [h.getElem_columns, entriesAt, h.head_columns]
  split
  · rfl
  · rfl

lemma mem_blocks {x : (Column × List StoredValue) × ℕ} :
    x ∈ t.blocks arrow wb.columns ↔ t.columns[x.2]? = some x.1.1 ∧
      x.1.2 = entriesAt arrow (t.appended tx) wb.columns.length x.2 x.1.1 := by
  rw [blocks, mem_map]
  constructor
  · rintro ⟨y, hy, rfl⟩
    rw [mem_zipIdx_iff_getElem?] at hy
    exact ⟨hy, by rw [h.array_eq]⟩
  · rintro ⟨hcol, hentries⟩
    refine ⟨(x.1.1, x.2), mem_zipIdx_iff_getElem?.2 hcol, ?_⟩
    rw [h.array_eq]
    rw [← hentries]

lemma tryNew_ok_iff : arrow.tryNew t.columns (t.arrays arrow wb.columns) = .ok () ↔
      ∀ i column, t.columns[i]? = some column →
        (entriesAt arrow (t.appended tx) wb.columns.length i column).length =
          (valuesAt (t.appended tx) 0).length ∧
        (i < wb.columns.length → builderType column.dataType = logicalTypeToArrowType column.dataType) := by
  have harrays : t.arrays arrow wb.columns = t.columns.zipIdx.map fun x =>
      (if x.2 < wb.columns.length then builderType x.1.dataType
        else logicalTypeToArrowType x.1.dataType,
        entriesAt arrow (t.appended tx) wb.columns.length x.2 x.1) :=
    map_congr_left fun x _ => h.array_eq arrow x.2 x.1
  have hhead : ((t.arrays arrow wb.columns).map (·.2.length)).headD 0 =
      (valuesAt (t.appended tx) 0).length := by
    obtain ⟨column, rest, hcolumns⟩ := exists_cons_of_length_pos (h.pos.trans_le h.width)
    rw [harrays, hcolumns, zipIdx_cons, map_cons, map_cons, headD_cons]
    dsimp only
    rw [entriesAt, if_pos h.pos, length_map]
  have hcolumns : t.columns.map (fun col => logicalTypeToArrowType col.dataType) =
      t.columns.zipIdx.map fun x => logicalTypeToArrowType x.1.dataType := by
    conv_lhs => rw [← zipIdx_map_fst 0 t.columns]
    rw [map_map]
    rfl
  rw [arrow.tryNew_eq_ok_iff, hhead, harrays, forall_mem_map, hcolumns, map_map, map_inj_left]
  constructor
  · rintro ⟨hlengths, htypes⟩ i column hi
    have hmem : (column, i) ∈ t.columns.zipIdx := mem_zipIdx_iff_getElem?.2 hi
    exact ⟨hlengths _ hmem, fun hlt => (if_pos hlt).symm.trans (htypes _ hmem)⟩
  · intro hall
    have hall := fun x (hx : x ∈ t.columns.zipIdx) => hall x.2 x.1 (mem_zipIdx_iff_getElem?.1 hx)
    refine ⟨fun x hx => (hall x hx).1, fun x hx => ?_⟩
    dsimp only [comp_apply]
    split
    next hlt => exact (hall x hx).2 hlt
    · rfl

lemma flush_eq (hwb : t.writeBuffer tx = some wb) (hne : valuesAt (t.appended tx) 0 ≠ [])
    (htry : arrow.tryNew t.columns (t.arrays arrow wb.columns) = .ok ()) :
    flushBuffer arrow tx t = appendColumns arrow (((t.appended tx).map (·.1)).headD 0)
      (t.blocks arrow wb.columns) (t.removeBuffer tx) := by
  rw [flushBuffer, hwb]
  dsimp only
  rw [h.head_columns, if_neg hne, htry, h.rowIds]

lemma flush_cases (hwb : t.writeBuffer tx = some wb) (hok : (flushBuffer arrow tx t).1 = .ok ()) :
    valuesAt (t.appended tx) 0 = [] ∧ flushBuffer arrow tx t = (.ok (), t.removeBuffer tx) ∨
      arrow.tryNew t.columns (t.arrays arrow wb.columns) = .ok () ∧
      (∀ x ∈ t.blocks arrow wb.columns, Writable x.1.1 x.1.2) ∧
      flushBuffer arrow tx t = appendColumns arrow (((t.appended tx).map (·.1)).headD 0)
        (t.blocks arrow wb.columns) (t.removeBuffer tx) := by
  by_cases hne : valuesAt (t.appended tx) 0 = []
  · refine .inl ⟨hne, ?_⟩
    rw [flushBuffer, hwb]
    dsimp only
    rw [h.head_columns, if_pos hne]
  · right
    cases htry : arrow.tryNew t.columns (t.arrays arrow wb.columns) with
    | error e =>
      rw [flushBuffer, hwb] at hok
      dsimp only at hok
      rw [h.head_columns, if_neg hne, htry] at hok
      cases hok
    | ok u =>
      have heq := h.flush_eq arrow hwb hne htry
      rw [heq, appendColumns_ok_iff] at hok
      exact ⟨rfl, hok, heq⟩

end Buffered

/-- Columns that are added and the contents of the pages do not matter to a buffer. -/
lemma Buffered.congr (h : Buffered t tx wb) (hrows : t'.appended tx = t.appended tx)
    (hcolumns : t.columns.length ≤ t'.columns.length) : Buffered t' tx wb where
  rows := hrows ▸ h.rows
  pos := h.pos
  width := h.width.trans hcolumns
  columns := hrows ▸ h.columns
  rowIds := hrows ▸ h.rowIds

lemma Buffered.withPages (h : Buffered t tx wb) (isNull : ℕ → ℕ → Bool)
    (data : ℕ → ℕ → StoredValue) : Buffered { t with isNull := isNull, data := data } tx wb :=
  h.congr rfl le_rfl

lemma nodup_blocks (arrow : Arrow) (t : BufferedTable) (columns : List (List StoredValue)) :
    ((t.blocks arrow columns).map (·.2)).Nodup := by
  have hmap : (t.blocks arrow columns).map (·.2) = t.columns.zipIdx.map Prod.snd := by
    rw [blocks, map_map]
    rfl
  rw [hmap, zipIdx_map_snd]
  exact nodup_range'

variable {x : ℕ × List StoredValue}

/-- The entries of a column that keeps all values. -/
lemma getElem_entriesAt (arrow : Arrow) (column : Column) {rows : List (ℕ × List StoredValue)} {width i j : ℕ}
    (hvalues : ∀ x ∈ rows, i < width → i < x.2.length)
    (hfirst : (valuesAt rows 0).length = rows.length) (hx : rows[j]? = some x) :
    (entriesAt arrow rows width i column)[j]? =
      some (if i < width then builderEntry arrow column.dataType (x.2.getD i .null) else .null) := by
  rw [entriesAt]
  split
  next hi =>
    rw [valuesAt_eq fun x hx => hvalues x hx hi, getElem?_map, getElem?_map, hx]
    rfl
  · rw [hfirst, List.getElem?_replicate, if_pos (List.getElem?_eq_some_iff.1 hx).1]

lemma width_eq (hwb : t.writeBuffer tx = some wb) : t.width tx = wb.columns.length := by
  rw [width, ensureBuffer, hwb, Option.getD_some]

lemma id_eq {rows : List (ℕ × List StoredValue)} {start j : ℕ}
    (hids : rows.map (·.1) = range' start rows.length) (hx : rows[j]? = some x) : x.1 = start + j := by
  have hmap : (rows.map (·.1))[j]? = some x.1 := by
    rw [getElem?_map, hx]
    rfl
  rw [hids, List.getElem?_range' (List.getElem?_eq_some_iff.1 hx).1, Option.some.injEq] at hmap
  omega

/-- **The condition is enough.** -/
theorem flushRight_of_exact (hwb : t.writeBuffer tx = some wb) (h : Buffered t tx wb)
    (hexact : Exact arrow t tx) :
    (flushBuffer arrow tx t).1 = .ok () ∧ (∀ x ∈ t.appended tx, ∀ i < t.columns.length,
      (flushBuffer arrow tx t).2.get x.1 i = x.2.getD i .null) ∧
    ∀ r c, r ∉ (t.appended tx).map (·.1) →
      (flushBuffer arrow tx t).2.isNull r c = t.isNull r c ∧
      (flushBuffer arrow tx t).2.data r c = t.data r c := by
  obtain ⟨⟨start, hids⟩, hcolumns⟩ := hexact.resolve_left h.rows
  rw [width_eq hwb] at hcolumns
  have hvalues : ∀ i column, t.columns[i]? = some column → i < wb.columns.length →
      ∀ x ∈ t.appended tx, i < x.2.length :=
    fun i column hi hlt x hx => (((hcolumns i column hi).2.1 hlt).2 x hx).1
  have hcolumn : ∀ i < t.columns.length, ∃ column, t.columns[i]? = some column :=
    fun i hi => ⟨_, getElem?_eq_getElem hi⟩
  obtain ⟨first, hzero⟩ := hcolumn 0 (h.pos.trans_le h.width)
  have hfirst : (valuesAt (t.appended tx) 0).length = (t.appended tx).length := by
    rw [valuesAt_eq (hvalues 0 first hzero h.pos), length_map]
  have hne : valuesAt (t.appended tx) 0 ≠ [] := by
    rw [← length_pos_iff, hfirst, length_pos_iff]
    exact h.rows
  have hlength : ∀ i column, t.columns[i]? = some column →
      (entriesAt arrow (t.appended tx) wb.columns.length i column).length = (t.appended tx).length := by
    intro i column hi
    rw [entriesAt]
    split
    next hlt => rw [valuesAt_eq (hvalues i column hi hlt), length_map, length_map]
    · rw [length_replicate, hfirst]
  have htry : arrow.tryNew t.columns (t.arrays arrow wb.columns) = .ok () :=
    (h.tryNew_ok_iff arrow).2 fun i column hi =>
      ⟨by rw [hlength i column hi, hfirst], fun hlt => ((hcolumns i column hi).2.1 hlt).1⟩
  have hentry : ∀ i column, t.columns[i]? = some column →
      ∀ j (x : ℕ × List StoredValue), (t.appended tx)[j]? = some x →
      (entriesAt arrow (t.appended tx) wb.columns.length i column)[j]? =
        some (if i < wb.columns.length then builderEntry arrow column.dataType (x.2.getD i .null)
          else .null) :=
    fun i column hi j x hx => getElem_entriesAt arrow column (fun x hx hlt => hvalues i column hi hlt x hx) hfirst hx
  have hwritable : ∀ x ∈ t.blocks arrow wb.columns, Writable x.1.1 x.1.2 := by
    intro x hx
    obtain ⟨hi, hentries⟩ := (h.mem_blocks arrow).1 hx
    refine ⟨(hcolumns x.2 x.1.1 hi).1, fun v hv => ?_⟩
    rw [hentries] at hv
    obtain ⟨j, hj⟩ := getElem?_of_mem hv
    have hlt : j < (t.appended tx).length := by
      rw [← hlength x.2 x.1.1 hi]
      exact (List.getElem?_eq_some_iff.1 hj).1
    rw [hentry x.2 x.1.1 hi j _ (getElem?_eq_getElem hlt), Option.some.injEq] at hj
    rw [← hj]
    split
    next hwidth => exact (((hcolumns x.2 x.1.1 hi).2.1 hwidth).2 _ (getElem_mem hlt)).2.1
    · rfl
  -- the flush takes the first id as its start
  have hstart : ((t.appended tx).map (·.1)).headD 0 = start := by
    rw [hids]
    obtain ⟨n, hn⟩ := Nat.exists_eq_succ_of_ne_zero (length_pos_iff.2 h.rows).ne'
    rw [hn]
    rfl
  rw [h.flush_eq arrow hwb hne htry, hstart]
  refine ⟨(appendColumns_ok_iff arrow _).2 hwritable, fun x hx i hi => ?_, fun r c hr => ?_⟩
  · obtain ⟨column, hi⟩ := hcolumn i hi
    obtain ⟨j, hj⟩ := getElem?_of_mem hx
    rw [id_eq hids hj]
    have hblock : ((column, entriesAt arrow (t.appended tx) wb.columns.length i column), i) ∈
        t.blocks arrow wb.columns := (h.mem_blocks arrow).2 ⟨hi, rfl⟩
    rw [get_appendColumns arrow _ hwritable (nodup_blocks arrow t wb.columns) hblock (hentry i column hi j x hj)]
    split
    next hlt => exact (((hcolumns i column hi).2.1 hlt).2 x hx).2.2
    next hlt => exact ((hcolumns i column hi).2.2 (Nat.le_of_not_lt hlt) x hx).symm
  · refine (appendColumns_frame arrow (t.removeBuffer tx) start _).2 r c fun x hx => .inr ?_
    obtain ⟨hi, hentries⟩ := (h.mem_blocks arrow).1 hx
    rw [hentries, hlength x.2 x.1.1 hi]
    rw [hids, mem_range'_1] at hr
    omega

/-- Numbers that go up inside a range as long as they are many are the range. -/
lemma eq_range'_of_inside {l : List ℕ} {start n : ℕ} (hincreasing : l.Pairwise (· < ·))
    (hinside : ∀ x ∈ l, start ≤ x ∧ x < start + n) (hn : n ≤ l.length) : l = range' start n := by
  have hsub : l ⊆ range' start n := fun x hx => mem_range'_1.2 (hinside x hx)
  have hperm : l.Perm (range' start n) :=
    (subperm_of_subset hincreasing.nodup hsub).perm_of_length_le (by rwa [length_range'])
  exact hperm.eq_of_pairwise' hincreasing pairwise_lt_range'

/-- A flush that is right whatever the pages have had can write every column, and the rows of the block
are the only ones: another row would keep what its page has had. -/
lemma inside_of_flushRight (hwb : t.writeBuffer tx = some wb) (h : Buffered t tx wb)
    (hright : FlushRight arrow t tx) :
    arrow.tryNew t.columns (t.arrays arrow wb.columns) = .ok () ∧
      (∀ x ∈ t.blocks arrow wb.columns, Writable x.1.1 x.1.2) ∧
      ∀ x ∈ t.appended tx, ((t.appended tx).map (·.1)).headD 0 ≤ x.1 ∧
        x.1 < ((t.appended tx).map (·.1)).headD 0 + (valuesAt (t.appended tx) 0).length := by
  have hzero : 0 < t.columns.length := h.pos.trans_le h.width
  -- pages that have the same wrong value everywhere
  have hwrong : ∀ x ∈ t.appended tx, ∃ w, w ≠ x.2.getD 0 .null ∧
      (arrow.tryNew t.columns (t.arrays arrow wb.columns) = .ok () ∧
        (∀ x ∈ t.blocks arrow wb.columns, Writable x.1.1 x.1.2)) ∧
      (appendColumns arrow (((t.appended tx).map (·.1)).headD 0) (t.blocks arrow wb.columns)
        (removeBuffer { t with isNull := fun _ _ => false, data := fun _ _ => w } tx)).2.get x.1 0 ≠ w := by
    intro x hx
    obtain ⟨w, hw⟩ : ∃ w, w ≠ x.2.getD 0 .null := by
      by_cases hv : x.2.getD 0 .null = .null
      · exact ⟨.boolean true, fun heq => by rw [hv] at heq; cases heq⟩
      · exact ⟨.null, Ne.symm hv⟩
    have hgot := (hright (fun _ _ => false) (fun _ _ => w)).2.1 x hx 0 hzero
    rcases (h.withPages (fun _ _ => false) (fun _ _ => w)).flush_cases arrow hwb (hright _ _).1 with
      ⟨-, heq⟩ | ⟨htry, hwritable, heq⟩
    · rw [heq] at hgot
      exact absurd hgot hw
    · rw [heq] at hgot
      exact ⟨w, hw, ⟨htry, hwritable⟩, fun hkept => hw (hkept.symm.trans hgot)⟩
  obtain ⟨x, hx⟩ := exists_mem_of_ne_nil _ h.rows
  obtain ⟨-, -, ⟨htry, hwritable⟩, -⟩ := hwrong x hx
  refine ⟨htry, hwritable, fun x hx => ?_⟩
  by_contra hout
  obtain ⟨w, -, -, hchanged⟩ := hwrong x hx
  obtain ⟨hnull, hdata⟩ := (appendColumns_frame arrow
    (removeBuffer { t with isNull := fun _ _ => false, data := fun _ _ => w } tx)
    (((t.appended tx).map (·.1)).headD 0) (t.blocks arrow wb.columns)).2 x.1 0 fun y hy => by
      obtain ⟨hi, hentries⟩ := (h.mem_blocks arrow).1 hy
      rw [hentries, ((h.tryNew_ok_iff arrow).1 htry y.2 y.1.1 hi).1]
      omega
  refine hchanged ?_
  rw [get, hnull, hdata]
  rfl

/-- **The condition is needed.** -/
theorem exact_of_flushRight (hwb : t.writeBuffer tx = some wb) (h : Buffered t tx wb)
    (hincreasing : ((t.appended tx).map (·.1)).Pairwise (· < ·)) (hright : FlushRight arrow t tx) :
    Exact arrow t tx := by
  obtain ⟨htry, hwritable, hinside⟩ := inside_of_flushRight hwb h hright
  have hlength := fun i column hi => ((h.tryNew_ok_iff arrow).1 htry i column hi).1
  have hblock : ∀ i column, t.columns[i]? = some column →
      ((column, entriesAt arrow (t.appended tx) wb.columns.length i column), i) ∈
        t.blocks arrow wb.columns :=
    fun i column hi => (h.mem_blocks arrow).2 ⟨hi, rfl⟩
  -- so the rows are where the block is, and as many
  have hrange : (t.appended tx).map (·.1) = range' (((t.appended tx).map (·.1)).headD 0)
      (valuesAt (t.appended tx) 0).length := by
    refine eq_range'_of_inside hincreasing (forall_mem_map.2 hinside) ?_
    rw [length_map]
    exact length_valuesAt_le (t.appended tx) 0
  have hsize : (valuesAt (t.appended tx) 0).length = (t.appended tx).length := by
    have hlen := congrArg length hrange
    rw [length_map, length_range'] at hlen
    exact hlen.symm
  have hvalues : ∀ i column, t.columns[i]? = some column → ∀ x ∈ t.appended tx,
      i < wb.columns.length → i < x.2.length := by
    intro i column hi x hx hlt
    have hlen := hlength i column hi
    rw [entriesAt, if_pos hlt, length_map, hsize] at hlen
    exact lt_length_of_valuesAt hlen x hx
  -- what a row has after the flush is what was appended
  have hshown : ∀ i column, t.columns[i]? = some column → ∀ (j : ℕ) (x : ℕ × List StoredValue),
      (t.appended tx)[j]? = some x → shown arrow column.dataType
        (if i < wb.columns.length then builderEntry arrow column.dataType (x.2.getD i .null)
          else .null) = x.2.getD i .null := by
    intro i column hi j x hx
    have hentry := getElem_entriesAt arrow column (hvalues i column hi) hsize hx
    have hgot := (hright (fun _ _ => false) (fun _ _ => .null)).2.1 x (List.mem_of_getElem? hx) i
      (List.getElem?_eq_some_iff.1 hi).1
    rcases (h.withPages (fun _ _ => false) (fun _ _ => .null)).flush_cases arrow hwb (hright _ _).1 with
      ⟨hnil, -⟩ | ⟨-, -, heq⟩
    · rw [← length_eq_zero_iff] at hnil
      exact absurd (hsize.symm.trans hnil) (length_pos_iff.2 h.rows).ne'
    · rw [heq, id_eq (hsize ▸ hrange) hx] at hgot
      refine Eq.trans (Eq.symm ?_) hgot
      exact get_appendColumns arrow _ hwritable (nodup_blocks arrow t wb.columns) (hblock i column hi) hentry
  rw [Exact, width_eq hwb]
  refine .inr ⟨⟨_, hsize ▸ hrange⟩, fun i column hi => ⟨(hwritable _ (hblock i column hi)).1,
    fun hlt => ⟨((h.tryNew_ok_iff arrow).1 htry i column hi).2 hlt, fun x hx => ?_⟩, fun hge x hx => ?_⟩⟩
  · obtain ⟨j, hj⟩ := getElem?_of_mem hx
    have hkept := hshown i column hi j x hj
    rw [if_pos hlt] at hkept
    refine ⟨hvalues i column hi x hx hlt, ?_, hkept⟩
    refine (hwritable _ (hblock i column hi)).2 _ (mem_of_getElem? (i := j) ?_)
    rw [getElem_entriesAt arrow column (hvalues i column hi) hsize hj, if_pos hlt]
  · obtain ⟨j, hj⟩ := getElem?_of_mem hx
    have hkept := hshown i column hi j x hj
    rw [if_neg (not_lt.2 hge)] at hkept
    exact hkept.symm

/-! ## Runs -/

/-- A flush takes the buffer out and writes pages, whatever becomes of it. -/
lemma flushBuffer_cases (arrow : Arrow) (tx : ℕ) (t : BufferedTable) :
    (flushBuffer arrow tx t).2 = t ∨ OnlyPages (t.removeBuffer tx) (flushBuffer arrow tx t).2 := by
  rw [flushBuffer]
  cases t.writeBuffer tx with
  | none => exact .inl rfl
  | some wb =>
    right
    dsimp only
    split
    · exact ⟨_, _, rfl⟩
    · cases arrow.tryNew t.columns (t.arrays arrow wb.columns) with
      | error e => exact ⟨_, _, rfl⟩
      | ok u => exact (appendColumns_frame arrow _ _ _).1

lemma OrderedAt.congr (h : OrderedAt t tx) (hbuffer : t'.writeBuffer tx = t.writeBuffer tx)
    (hrows : t'.appended tx = t.appended tx) (hcolumns : t.columns.length ≤ t'.columns.length)
    (hnext : t.nextRowId ≤ t'.nextRowId) : OrderedAt t' tx := by
  refine ⟨?_, ?_, ?_⟩
  · rw [hbuffer, hrows]
    exact h.buffer.imp_right fun ⟨wb, hwb, hbuffered⟩ => ⟨wb, hwb, hbuffered.congr hrows hcolumns⟩
  · rw [hrows]
    exact h.increasing
  · rw [hrows]
    exact fun x hx => (h.below x hx).trans_le hnext

lemma OrderedAt.of_empty (hnone : t.writeBuffer tx = none) (hrows : t.appended tx = []) :
    OrderedAt t tx := by
  refine ⟨.inl ⟨hnone, hrows⟩, ?_, ?_⟩
  · rw [hrows]
    exact List.Pairwise.nil
  · rw [hrows]
    exact fun _ hx => absurd hx not_mem_nil

lemma orderedAt_removeBuffer (h : ∀ tx, OrderedAt t tx) (tx tx' : ℕ) :
    OrderedAt (t.removeBuffer tx) tx' := by
  by_cases htx : tx' = tx
  · subst htx
    exact .of_empty (update_self _ _ _) (update_self _ _ _)
  · exact (h tx').congr (update_of_ne htx _ _) (update_of_ne htx _ _) le_rfl le_rfl

lemma orderedAt_flushBuffer (arrow : Arrow) (h : ∀ tx, OrderedAt t tx) (tx tx' : ℕ) :
    OrderedAt (flushBuffer arrow tx t).2 tx' := by
  rcases flushBuffer_cases arrow tx t with heq | ⟨isNull, data, heq⟩
  · rw [heq]
    exact h tx'
  · rw [heq]
    exact (orderedAt_removeBuffer h tx tx').congr rfl rfl le_rfl le_rfl

lemma OrderedAt.ensureBuffer (h : OrderedAt t tx) (hcolumns : t.columns ≠ []) :
    0 < (t.ensureBuffer tx).columns.length ∧
      (t.ensureBuffer tx).columns.length ≤ t.columns.length ∧
      (∀ i < (t.ensureBuffer tx).columns.length,
        (t.ensureBuffer tx).columns[i]? = some (valuesAt (t.appended tx) i)) ∧
      (t.ensureBuffer tx).rowIds = (t.appended tx).map (·.1) := by
  rw [BufferedTable.ensureBuffer]
  rcases h.buffer with ⟨hnone, hrows⟩ | ⟨wb, hwb, hbuffered⟩
  · rw [hnone, hrows, Option.getD_none, length_map]
    refine ⟨length_pos_iff.2 hcolumns, le_rfl, fun i hi => ?_, rfl⟩
    rw [getElem?_map, getElem?_eq_getElem hi]
    rfl
  · rw [hwb]
    exact ⟨hbuffered.pos, hbuffered.width, fun i hi => (hbuffered.getElem_columns i).trans (if_pos hi),
      hbuffered.rowIds⟩

lemma orderedAt_pushRow (hcolumns : t.columns ≠ []) (h : ∀ tx, OrderedAt t tx) {tx id : ℕ}
    (hnew : ∀ x ∈ t.appended tx, x.1 < id) (hid : id < t.nextRowId) (values : List StoredValue) (tx' : ℕ) :
    OrderedAt (t.pushRow tx id values) tx' := by
  by_cases htx : tx' = tx
  · subst htx
    obtain ⟨hpos, hwidth, hvalues, hids⟩ := (h tx').ensureBuffer hcolumns
    have hrows : (t.pushRow tx' id values).appended tx' = t.appended tx' ++ [(id, values)] :=
      update_self _ _ _
    refine ⟨.inr ⟨_, update_self _ _ _, ?_, ?_, ?_, ?_, ?_⟩, ?_, ?_⟩
    · rw [hrows]
      exact append_ne_nil_of_right_ne_nil _ (cons_ne_nil _ _)
    · rw [length_map, length_zipIdx]
      exact hpos
    · rw [length_map, length_zipIdx]
      exact hwidth
    · -- each column gets the value that the row has for it
      rw [hrows, length_map, length_zipIdx]
      refine ext_getElem? fun i => ?_
      rw [getElem?_map, getElem?_zipIdx, getElem?_map]
      by_cases hi : i < (t.ensureBuffer tx').columns.length
      · rw [hvalues i hi, getElem?_range hi, Nat.zero_add]
        exact congrArg some (valuesAt_concat _ _ _ _).symm
      · rw [getElem?_eq_none (Nat.le_of_not_lt hi),
          getElem?_eq_none (length_range ▸ Nat.le_of_not_lt hi)]
        rfl
    · rw [hrows, map_append, ← hids]
      rfl
    · rw [hrows, map_append, pairwise_append]
      refine ⟨(h tx').increasing, pairwise_singleton _ _, forall_mem_map.2 fun x hx y hy => ?_⟩
      rw [mem_singleton.1 hy]
      exact hnew x hx
    · rw [hrows]
      exact forall_mem_append.2 ⟨(h tx').below, forall_mem_singleton.2 hid⟩
  · exact (h tx').congr (update_of_ne htx _ _) (update_of_ne htx _ _) le_rfl le_rfl

/-- The rows that `append` puts into a buffer. -/
lemma orderedAt_append (hcolumns : t.columns ≠ []) (h : ∀ tx, OrderedAt t tx) (tx : ℕ)
    (values : List StoredValue) (tx' : ℕ) :
    OrderedAt (pushRow { t with nextRowId := t.nextRowId + 1 } tx t.nextRowId values) tx' :=
  orderedAt_pushRow (t := { t with nextRowId := t.nextRowId + 1 }) hcolumns
    (fun tx => (h tx).congr rfl rfl le_rfl (Nat.le_succ _)) (h tx).below (Nat.lt_succ_self _) values tx'

lemma columns_flushBuffer (arrow : Arrow) (tx : ℕ) (t : BufferedTable) :
    (flushBuffer arrow tx t).2.columns = t.columns := by
  rcases flushBuffer_cases arrow tx t with heq | ⟨isNull, data, heq⟩
  · rw [heq]
  · rw [heq]
    rfl

theorem ordered_of_reachable {s : BufferedTable} (hs : (tableSystem arrow).Reachable s) :
    s.columns ≠ [] ∧ ∀ tx, OrderedAt s tx := by
  refine hs.invariant (I := fun s => s.columns ≠ [] ∧ ∀ tx, OrderedAt s tx) ?_ ?_
  · rintro s ⟨hcolumns, hnone, hrows⟩
    exact ⟨hcolumns, fun tx => .of_empty (hnone tx) (hrows tx)⟩
  · rintro s call s' - ⟨hcolumns, h⟩ - hstep
    cases call with
    | append tx values =>
      have hpush := orderedAt_append hcolumns h tx values
      cases hstep
      rw [appendRow]
      split
      · exact ⟨(columns_flushBuffer arrow tx _).trans_ne hcolumns, orderedAt_flushBuffer arrow hpush tx⟩
      · exact ⟨hcolumns, hpush⟩
    | reserve tx count =>
      cases hstep
      exact ⟨hcolumns, fun tx => (h tx).congr rfl rfl le_rfl (Nat.le_add_right _ _)⟩
    | flush tx =>
      cases hstep
      exact ⟨(columns_flushBuffer arrow tx _).trans_ne hcolumns, orderedAt_flushBuffer arrow h tx⟩
    | addColumn column =>
      cases hstep
      refine ⟨append_ne_nil_of_right_ne_nil _ (cons_ne_nil _ _), fun tx => ?_⟩
      refine (h tx).congr rfl rfl ?_ le_rfl
      rw [length_append]
      exact Nat.le_add_right _ _

theorem flushRight_iff_exact (h : OrderedAt t tx) : FlushRight arrow t tx ↔ Exact arrow t tx := by
  rcases h.buffer with ⟨hnone, hrows⟩ | ⟨wb, hwb, hbuffered⟩
  · -- there is nothing to flush
    refine ⟨fun _ => .inl hrows, fun _ isNull data => ?_⟩
    have hflush : flushBuffer arrow tx { t with isNull := isNull, data := data } =
        (.ok (), { t with isNull := isNull, data := data }) := by
      rw [flushBuffer, hnone]
    rw [hflush, hrows]
    exact ⟨rfl, fun _ hx => absurd hx not_mem_nil, fun _ _ _ => ⟨rfl, rfl⟩⟩
  · exact ⟨exact_of_flushRight hwb hbuffered h.increasing, fun hexact isNull data =>
      flushRight_of_exact (t := { t with isNull := isNull, data := data }) hwb
        (hbuffered.withPages isNull data) hexact⟩

end BufferedTable

open BufferedTable

/-- **A flush moves the rows of a transaction to their ids exactly if the buffer is exact**, in every state
of a run: when the flush is called for, and when `append_row` does it because the buffer is full. -/
theorem flush_moves_rows_to_ids {arrow : Arrow} {s t : BufferedTable} (tx : ℕ)
    (hs : (tableSystem arrow).Reachable s)
    (ht : t = s ∨ ∃ values,
      t = pushRow { s with nextRowId := s.nextRowId + 1 } tx s.nextRowId values) :
    FlushRight arrow t tx ↔ Exact arrow t tx := by
  obtain ⟨hcolumns, hordered⟩ := ordered_of_reachable hs
  rcases ht with rfl | ⟨values, rfl⟩
  · exact flushRight_iff_exact (hordered tx)
  · exact flushRight_iff_exact (orderedAt_append hcolumns hordered tx values tx)

/-- A table with one column of strings. -/
def namesTable : BufferedTable where
  columns := [⟨"name", .string, true, false⟩]
  nextRowId := 0
  isNull _ _ := true
  data _ _ := .null
  writeBuffer _ := none
  appended _ := []

/-- Casts that change nothing, as for numbers that are their own integers, and the checks of
`RecordBatch::try_new` one after another. -/
def plainArrow : Arrow where
  asI64 := id
  ofI64 := id
  asU64 := id
  print _ := ""
  tryNew columns arrays :=
    if ∃ x ∈ arrays, x.2.length ≠ (arrays.map (·.2.length)).headD 0 then
      .error (.internal
        "Invalid argument error: all columns in a record batch must have the same length")
    else if arrays.map (·.1) ≠ columns.map fun col => logicalTypeToArrowType col.dataType then
      .error (.internal "Invalid argument error: column types must match schema types")
    else .ok ()
  tryNew_eq_ok_iff columns arrays := by
    split
    next hlength =>
      obtain ⟨x, hx, hne⟩ := hlength
      exact ⟨nofun, fun h => absurd (h.1 x hx) hne⟩
    next hlength =>
      split
      next htype => exact ⟨nofun, fun h => absurd h.2 htype⟩
      next htype => exact ⟨fun _ => ⟨by simpa using hlength, not_not.1 htype⟩, fun _ => rfl⟩

lemma namesTable_init : (tableSystem plainArrow).init namesTable :=
  ⟨cons_ne_nil _ _, fun _ => rfl, fun _ => rfl⟩

/-- Transaction 7 appends two rows and transaction 8 appends one after them.  The buffer of the first is
exact, and its flush is right. -/
theorem flush_moves_rows_to_ids_two : ∃ s, (tableSystem plainArrow).Reachable s ∧
    s.appended 7 = [(0, [.string "a"]), (1, [.string "b"])] ∧ s.appended 8 = [(2, [.string "c"])] ∧
    FlushRight plainArrow s 7 := by
  have hs := System.Reachable.exec (.init namesTable_init)
    (rfl : (tableSystem plainArrow).exec namesTable [.append 7 [.string "a"], .append 7 [.string "b"],
      .append 8 [.string "c"]] = some _)
  refine ⟨_, hs, rfl, rfl, (flush_moves_rows_to_ids 7 hs (.inl rfl)).2 (.inr ⟨⟨0, rfl⟩, ?_⟩)⟩
  intro i column hi
  cases i with
  | succ i => cases hi
  | zero =>
    cases hi
    refine ⟨rfl, fun _ => ⟨rfl, fun x hx => ?_⟩, fun hge => absurd hge (by decide)⟩
    rcases mem_pair.1 hx with rfl | rfl
    · exact ⟨Nat.zero_lt_one, by decide, by decide⟩
    · exact ⟨Nat.zero_lt_one, by decide, by decide⟩

/-- Two transactions append in turn, and the second row of the first transaction is written where the row of
the other should be. -/
theorem flush_writes_to_other_id : ∃ s, (tableSystem plainArrow).Reachable s ∧
      s.appended 1 = [(0, [.string "a"]), (2, [.string "c"])] ∧
      (flushBuffer plainArrow 1 s).1 = .ok () ∧
      (flushBuffer plainArrow 1 s).2.get 1 0 = .string "c" ∧
      (flushBuffer plainArrow 1 s).2.get 2 0 = .null := by
  refine ⟨_, System.Reachable.exec (.init namesTable_init)
    (rfl : (tableSystem plainArrow).exec namesTable [.append 1 [.string "a"], .append 2 [.string "b"],
      .append 1 [.string "c"]] = some _), ?_, ?_, ?_, ?_⟩
  · rfl
  · decide
  · decide
  · decide

end LightningDB
