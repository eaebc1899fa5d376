import LightningDB.Storage.Value
import LightningDB.Transaction.RowLocks

/-!
# What a query works on

The state of a database as the operators of a query see and change it, for one session at a time: no
other transaction takes a step while a statement runs, but others may be open.  The tables are as
`create_table` makes them: the columns of a table share one `RowVersion`.

Some of it is versioned.  A value written by a transaction goes to the transaction's own version of
its page, and row marks keep the rows of open transactions apart.  The rest (`Shared`) is changed in
place and at once: the counters of row ids, the row counts of the catalog, the statistics, the
adjacency indexes, and the schema.

A physical operator is a coroutine (`Op`).  It reads, performs effects and hands out chunks; what it
does next may depend on all that its transaction can see.
-/

namespace LightningDB

open Framework Function

/-- `Value`.  The kinds that no operator looks into go by their printed form, lists and structs apart
from the rest; `rows` is what a page of a hash index has for a key. -/
inductive Value where
  | null
  | node (id : ℕ)
  | string (s : String)
  | other (printed : String)
  | nested (printed : String)
  | rows (ids : List ℕ)
deriving DecidableEq

/-- `Display for Value`. -/
def Value.print : Value → String
  | .null => "null"
  | .node id => s!"node({id})"
  | .string s => s
  | .other printed | .nested printed => printed
  | .rows ids => s!"{ids}"

/-- `HashIndex::serialize_value`, as far as it refuses a value: an entry has room for 251 bytes of a
string. -/
def Value.indexError : Value → Option LightningError
  | .string s => if (utf8 s).length > 256 - 5 then some (.internal "String too long") else none
  | .null | .nested _ | .rows _ => some (.internal "Unsupported index value type")
  | .node _ | .other _ => none

/-- The rows of a `DataChunk`. -/
abbrev Chunk := List (List Value)

/-- What is stored in pages: the value of a column in a row, with its null bit, and the rows that the
primary key index of a table has for a key. -/
inductive Cell where
  | column (table col row : ℕ)
  | index (table : ℕ) (key : Value)
deriving DecidableEq

/-- Whether a cell is in one of the columns. -/
def Cell.isIn (cols : List ℕ) : Cell → Bool
  | .column _ col _ => decide (col ∈ cols)
  | .index _ _ => false

/-- `IndexMutation`: a change of a full-text or vector index that waits for the commit. -/
inductive IndexMutation where
  | ftsInsert (table node : ℕ) (fields : List (String × String))
  | ftsDelete (table node : ℕ)
  | vectorUpsert (table node : ℕ) (embedding : Value)
  | vectorDelete (table node : ℕ)
deriving DecidableEq

/-- An adjacency index: its edges, those deleted since, and the cardinality of the table when it was
built, unless it has been marked stale. -/
structure Csr where
  edges : List (ℕ × ℕ)
  deleted : List (ℕ × ℕ)
  cardinality : Option ℕ
deriving DecidableEq

/-- What is changed in place.  Tables go by number; `schema` is what else the catalog and the storage
manager know. -/
structure Shared (Schema : Type) where
  nextRowId : ℕ → ℕ
  /-- `num_rows` of the catalog. -/
  numRows : ℕ → ℕ
  /-- `stats.cardinality` of the table. -/
  cardinality : ℕ → ℕ
  csr : ℕ → Option Csr
  /-- The compressed columns, by table and position. -/
  compressed : List (ℕ × ℕ)
  /-- The names of the columns of a table. -/
  columns : ℕ → List String
  schema : Schema

/-- The database.  `versions` and `buffers` have the uncommitted page contents and the write buffers
of each transaction, the last one written last; `mutated` the index mutations applied so far. -/
structure Store (Schema : Type) where
  tm : TransactionManager
  rows : ℕ → RowVersion
  pages : Cell → Value
  versions : ℕ → List (Cell × Value)
  buffers : ℕ → List (ℕ × ℕ × List Value)
  mutated : List IndexMutation
  shared : Shared Schema
  /-- How often `invalidate_plan_caches` has been called. -/
  invalidations : ℕ

/-- A transaction with what it keeps for its end: `undo_buffer`, last record first, as far as it
undoes changes of the schema; `index_mutations`; `rollback_table_bases`; `allocated_rows`. -/
structure TxState (Schema : Type) where
  tx : Transaction
  undo : List (Shared Schema → Shared Schema)
  indexMutations : List IndexMutation
  tableBases : List (ℕ × ℕ × ℕ)
  allocated : List (ℕ × ℕ)
  finalized : Bool

/-- What a transaction can see: values, the visibility of rows, and all that is shared. -/
structure View (Schema : Type) where
  cell : Cell → Value
  visible : ℕ → ℕ → Bool
  shared : Shared Schema

/-- What a step of a transaction leaves: its result or an error, the transaction and the database. -/
structure Ran (Schema α : Type) where
  result : Except LightningError α
  tx : TxState Schema
  store : Store Schema

/-- What an operator does, other than to read and to hand out a chunk. -/
inductive Effect (Schema : Type) where
  /-- `mark_row`; a conflict is an error. -/
  | mark (table row : ℕ)
  /-- `reserve_rows`. -/
  | reserve (table start count : ℕ)
  /-- A write to the transaction's version of a page. -/
  | put (cell : Cell) (v : Value)
  /-- `modified_rows.push`. -/
  | register (table row : ℕ)
  /-- `append_row`: the row goes to the write buffer of the table. -/
  | buffer (table row : ℕ) (values : List Value)
  /-- `bulk_append_batch`, with the columns that its thread pool gets to. -/
  | bulkAppend (table start : ℕ) (rows : List (List Value)) (pool : List ℕ)
  /-- A change in place. -/
  | share (f : Shared Schema → Shared Schema)
  /-- `invalidate_plan_caches`. -/
  | invalidate
  /-- `undo_buffer.push`, of a record that undoes a change of the schema. -/
  | undo (f : Shared Schema → Shared Schema)
  | indexMutation (m : IndexMutation)
  | noteTableWrite (table nextRowId numRows : ℕ)
  | noteAllocated (table row : ℕ)
  /-- `commit` and `rollback` of the transaction that the operator runs in. -/
  | commit
  | rollback

/-- A physical operator, from where it stands: `get_next` goes on to the next `emit`, `done` or
`fail`. -/
inductive Op (Schema : Type) where
  | done
  | fail (e : LightningError)
  | emit (chunk : Chunk) (next : Op Schema)
  | read (next : View Schema → Op Schema)
  | perform (e : Effect Schema) (next : Op Schema)

variable {Schema : Type}

namespace Shared

variable (sh : Shared Schema)

/-- Whether a column has a compressed generation. -/
def isCompressed (table col : ℕ) : Bool := decide ((table, col) ∈ sh.compressed)

/-- `next_row_id.fetch_add`. -/
def allocate (table n : ℕ) : Shared Schema :=
  { sh with nextRowId := update sh.nextRowId table (sh.nextRowId table + n) }

/-- `num_rows += n`. -/
def addNumRows (table n : ℕ) : Shared Schema :=
  { sh with numRows := update sh.numRows table (sh.numRows table + n) }

/-- `num_rows`, decreased but not below zero. -/
def subNumRows (table n : ℕ) : Shared Schema :=
  { sh with numRows := update sh.numRows table (sh.numRows table - n) }

/-- `stats.cardinality += n`. -/
def addCardinality (table n : ℕ) : Shared Schema :=
  { sh with cardinality := update sh.cardinality table (sh.cardinality table + n) }

/-- `stats.cardinality.saturating_sub(n)`. -/
def subCardinality (table n : ℕ) : Shared Schema :=
  { sh with cardinality := update sh.cardinality table (sh.cardinality table - n) }

/-- `next_row_id.fetch_max`. -/
def raiseNextRowId (table n : ℕ) : Shared Schema :=
  { sh with nextRowId := update sh.nextRowId table (max (sh.nextRowId table) n) }

/-- What `bulk_append_batch` makes of the counters for `n` rows from a row id on. -/
def appendRows (table start n : ℕ) : Shared Schema :=
  if n = 0 then sh else (sh.addCardinality table n).raiseNextRowId table (start + n)

/-- Change the adjacency index of a table, if it has one. -/
def onCsr (table : ℕ) (f : Csr → Csr) : Shared Schema :=
  { sh with csr := update sh.csr table ((sh.csr table).map f) }

end Shared

namespace TxState

/-- A transaction that has just begun. -/
def start (tx : Transaction) : TxState Schema := ⟨tx, [], [], [], [], false⟩

/-- `note_table_write`: the first note stays. -/
def noteTableWrite (tx : TxState Schema) (table nextRowId numRows : ℕ) : TxState Schema :=
  if tx.tableBases.any (·.1 = table) then tx
  else { tx with tableBases := tx.tableBases ++ [(table, nextRowId, numRows)] }

end TxState

/-- Go on after a step, unless it has failed. -/
def Ran.andThen {α β : Type} (r : Ran Schema α)
    (next : α → TxState Schema → Store Schema → Ran Schema β) : Ran Schema β :=
  match r.result with
  | .ok a => next a r.tx r.store
  | .error e => ⟨.error e, r.tx, r.store⟩

namespace Store

/-- The content of a cell among the writes of a transaction. -/
def lookupCell (writes : List (Cell × Value)) (c : Cell) : Option Value :=
  writes.foldl (fun found w => if w.1 = c then some w.2 else found) none

variable (s : Store Schema)

/-- What the transaction sees: its own versions before the committed ones. -/
def view (tx : Transaction) : View Schema where
  cell := fun c => (lookupCell (s.versions tx.txId) c).getD (s.pages c)
  visible := fun table row => (s.rows table).isVisible row tx.txId tx.readTs
  shared := s.shared

/-- Write to the transaction's version of a page. -/
def putCells (t : ℕ) (writes : List (Cell × Value)) : Store Schema :=
  { s with versions := update s.versions t (s.versions t ++ writes) }

def rowCells (table start : ℕ) (rows : List (List Value)) : List (Cell × Value) :=
  (rows.zipIdx start).flatMap fun (values, row) =>
    values.zipIdx.map fun (v, col) => (Cell.column table col row, v)

/-- The text of `ensure_writable`. -/
def compressedColumn (name : String) : LightningError :=
  .internal s!"column '{name}' is compressed (immutable generation); decompress it before writing"

def markRange (t table start stop : ℕ) : Store Schema :=
  { s with rows := onVersion s.rows table fun rv => rv.markRowBatch start stop t }

/-- `bulk_append_array_inner` of the columns `cols`: each marks the range and writes its values. -/
def appendColumns (t table start : ℕ) (rows : List (List Value)) (cols : List ℕ) : Store Schema :=
  if cols = [] then s
  else
    (s.putCells t ((rowCells table start rows).filter (·.1.isIn cols))).markRange t table start
      (start + rows.length)

def batchColumns (table : ℕ) (rows : List (List Value)) (sh : Shared Schema) : List ℕ :=
  List.range (min (sh.columns table).length (rows.headD []).length)

/-- The columns that are written, and the one whose error is returned: one column after another up to
the first compressed one; or in a thread pool, where those that it has got to are written when the
error of a compressed one stops it. -/
def columnsWritten (table : ℕ) (rows : List (List Value)) (pool : Option (List ℕ))
    (sh : Shared Schema) : List ℕ × Option ℕ :=
  let cols := batchColumns table rows sh
  match cols.find? (sh.isCompressed table), pool with
  | none, _ => (cols, none)
  | some k, none => (List.range k, some k)
  | some k, some pool =>
    (cols.filter fun c => c ∈ pool && !sh.isCompressed table c,
      some ((pool.find? fun c => c ∈ cols && sh.isCompressed table c).getD k))

/-- A batch of rows is registered, and its columns are marked and written. -/
def appendBatch (table start : ℕ) (rows : List (List Value)) (pool : Option (List ℕ))
    (tx : TxState Schema) (s : Store Schema) : Ran Schema Unit :=
  if rows = [] then ⟨.ok (), tx, s⟩
  else
    let written := columnsWritten table rows pool s.shared
    ⟨match written.2 with
      | none => .ok ()
      | some col => .error (compressedColumn ((s.shared.columns table).getD col "")),
      { tx with tx := tx.tx.registerRange table start (start + rows.length) },
      s.appendColumns tx.tx.txId table start rows written.1⟩

/-- `bulk_append_batch`: many columns of many rows are written by a thread pool.  `next_row_id` is raised
to the end of the range. -/
def bulkAppendBatch (table start : ℕ) (rows : List (List Value)) (pool : List ℕ)
    (tx : TxState Schema) (s : Store Schema) : Ran Schema Unit :=
  (appendBatch table start rows
      (if 3 ≤ (s.shared.columns table).length ∧ 1000 ≤ rows.length then some pool else none)
      tx s).andThen fun _ tx s =>
    ⟨.ok (), tx, { s with shared := s.shared.appendRows table start rows.length }⟩

/-- `flush_buffer` of one table: the rows get the ids from that of the first one on. -/
def flushBuffer (table : ℕ) (tx : TxState Schema) (s : Store Schema) : Ran Schema Unit :=
  match (s.buffers tx.tx.txId).filter (·.1 = table) with
  | [] => ⟨.ok (), tx, s⟩
  | (_, start, values) :: rest =>
    (appendBatch table start (values :: rest.map (·.2.2)) none tx
      { s with
        buffers := update s.buffers tx.tx.txId
          ((s.buffers tx.tx.txId).filter (·.1 ≠ table)) }).andThen fun _ tx s =>
      ⟨.ok (), tx, { s with shared := s.shared.addCardinality table (rest.length + 1) }⟩

/-- The write buffers of tables, one after another. -/
def flushTables : List ℕ → TxState Schema → Store Schema → Ran Schema Unit
  | [], tx, s => ⟨.ok (), tx, s⟩
  | table :: tables, tx, s =>
    (s.flushBuffer table tx).andThen fun _ tx s => flushTables tables tx s

variable (tx : TxState Schema)

/-- `flush_all_pending`: all write buffers of the transaction. -/
def flushAllPending (s : Store Schema) : Ran Schema Unit :=
  flushTables ((s.buffers tx.tx.txId).map (·.1)) tx s

/-- `DEFAULT_WRITE_BUFFER_THRESHOLD`. -/
def defaultWriteBufferThreshold : ℕ := 200

/-- `append_row`. -/
def appendRow (table row : ℕ) (values : List Value) (tx : TxState Schema) (s : Store Schema) :
    Ran Schema Unit :=
  let s :=
    { s with
      buffers := update s.buffers tx.tx.txId
        (s.buffers tx.tx.txId ++ [(table, row, values)]) }
  if ((s.buffers tx.tx.txId).filter (·.1 = table)).length ≥ defaultWriteBufferThreshold then
    s.flushBuffer table tx
  else ⟨.ok (), tx, s⟩

/-! ## The ends of a transaction -/

/-- `begin_at`. -/
def beginAt (isReadOnly : Bool) (snapshotTs : Option ℕ) :
    Except LightningError (TxState Schema × Store Schema) :=
  match s.tm.beginAt isReadOnly snapshotTs with
  | none => .error (.internal "transaction ID overflow")
  | some (tx, tm) => .ok (.start tx, { s with tm := tm })

/-- The last part of `commit`: rows and pages are committed. -/
def publish (tx : Transaction) (commitTs : ℕ) : Store Schema :=
  { s with
    tm := s.tm.finish tx
    rows := tx.commitMarks commitTs s.rows
    pages := fun c => (lookupCell (s.versions tx.txId) c).getD (s.pages c)
    versions := update s.versions tx.txId [] }

/-- `commit`.  A reader only leaves.  For a writer the index mutations are applied and the write buffers
flushed before the timestamp is taken.  The row counts of the catalog stay as they are: the pass over
them looks for `version_info` of a table among the modified rows, and the columns that `create_table`
makes have another one. -/
def commit : Ran Schema Unit :=
  if tx.tx.isReadOnly then
    ⟨.ok (), { tx with finalized := true }, { s with tm := s.tm.finish tx.tx }⟩
  else
    ({ s with mutated := s.mutated ++ tx.indexMutations }.flushAllPending tx).andThen fun _ tx s =>
      match s.tm.nextCommitTs with
      | none => ⟨.error (.internal "MVCC timestamp overflow"), tx, s⟩
      | some (commitTs, tm) =>
        ⟨.ok (), { tx with finalized := true }, { s with tm := tm }.publish tx.tx commitTs⟩

/-- `Transaction::drop`. -/
def drop : Store Schema :=
  if tx.finalized then s
  else if tx.tx.isReadOnly then { s with tm := s.tm.finish tx.tx }
  else
    { s with
      tm := s.tm.finish tx.tx
      versions := update s.versions tx.tx.txId [] }

/-- Commit a transaction of the database's own, or drop it. -/
def commitOwn (own : TxState Schema) : Except LightningError Unit × Store Schema :=
  let r := s.commit own
  (r.result, r.store.drop r.tx)

/-- The counters as they were before the first write to each table. -/
def restoreBases (bases : List (ℕ × ℕ × ℕ)) (sh : Shared Schema) : Shared Schema :=
  bases.foldl (fun sh (table, baseId, baseRows) =>
    { sh with
      nextRowId := update sh.nextRowId table baseId
      numRows := update sh.numRows table baseRows }) sh

/-- `append_value` of null, with errors ignored. -/
def tombstoneCell (table row : ℕ) (r : TxState Schema × Store Schema) (col : ℕ) :
    TxState Schema × Store Schema :=
  if r.2.shared.isCompressed table col then r
  else
    let s := r.2.putCells r.1.tx.txId [(.column table col row, .null)]
    match (s.rows table).markRow row r.1.tx.txId r.1.tx.readTs with
    | .ok rv =>
      ({ r.1 with tx := r.1.tx.registerRow table row },
       { s with rows := onVersion s.rows table fun _ => rv })
    | .error _ => (r.1, s)

/-- The transaction that overwrites allocated rows with nulls, so that scans skip them. -/
def tombstone (allocated : List (ℕ × ℕ)) : Store Schema :=
  if allocated = [] then s
  else
    match s.beginAt false none with
    | .error _ => s
    | .ok begun =>
      let r := allocated.foldl (fun r (table, row) =>
        (List.range (r.2.shared.columns table).length).foldl (tombstoneCell table row) r) begun
      (r.2.commitOwn r.1).2

/-- What `rollback` does to a writer before it looks at the row counters: the undo records, last one
first, and the marks. -/
def undoWrites : Store Schema :=
  { s with
    shared := tx.undo.foldl (fun sh (f : Shared Schema → Shared Schema) => f sh) s.shared
    versions := update s.versions tx.tx.txId []
    rows := tx.tx.rollbackMarks s.rows
    tm := s.tm.removeActive tx.tx.txId }

/-- The row counters are set back, unless another write transaction is open. -/
def undoAllocations : Store Schema :=
  if tx.tableBases = [] then s
  else if s.tm.activeTxIds = ∅ then { s with shared := restoreBases tx.tableBases s.shared }
  else s.tombstone tx.allocated

/-- `rollback`. -/
def rollback : Ran Schema Unit :=
  let s := if tx.tx.isReadOnly then s else (s.undoWrites tx).undoAllocations tx
  ⟨.ok (), { tx with finalized := true }, { s with tm := s.tm.removeReadTs tx.tx.readTs }⟩

end Store

/-- What an effect does to the transaction and to the database. -/
def Effect.apply (tx : TxState Schema) (s : Store Schema) : Effect Schema → Ran Schema Unit
  | .mark table row =>
    match (s.rows table).markRow row tx.tx.txId tx.tx.readTs with
    | .ok rv => ⟨.ok (), tx, { s with rows := onVersion s.rows table fun _ => rv }⟩
    | .error msg => ⟨.error (.database msg), tx, s⟩
  | .reserve table start count =>
    if count = 0 then ⟨.ok (), tx, s⟩
    else
      ⟨.ok (), { tx with tx := tx.tx.registerRange table start (start + count) },
        s.markRange tx.tx.txId table start (start + count)⟩
  | .put cell v => ⟨.ok (), tx, s.putCells tx.tx.txId [(cell, v)]⟩
  | .register table row => ⟨.ok (), { tx with tx := tx.tx.registerRow table row }, s⟩
  | .buffer table row values => s.appendRow table row values tx
  | .bulkAppend table start rows pool => s.bulkAppendBatch table start rows pool tx
  | .share f => ⟨.ok (), tx, { s with shared := f s.shared }⟩
  | .invalidate => ⟨.ok (), tx, { s with invalidations := s.invalidations + 1 }⟩
  | .undo f => ⟨.ok (), { tx with undo := f :: tx.undo }, s⟩
  | .indexMutation m => ⟨.ok (), { tx with indexMutations := tx.indexMutations ++ [m] }, s⟩
  | .noteTableWrite table nextRowId numRows =>
    ⟨.ok (), tx.noteTableWrite table nextRowId numRows, s⟩
  | .noteAllocated table row => ⟨.ok (), { tx with allocated := tx.allocated ++ [(table, row)] }, s⟩
  | .commit => s.commit tx
  | .rollback => s.rollback tx

/-- Pull an operator to its end: the chunks, or the first error. -/
def Op.run : Op Schema → TxState Schema → Store Schema → Ran Schema (List Chunk)
  | .done, tx, s => ⟨.ok [], tx, s⟩
  | .fail e, tx, s => ⟨.error e, tx, s⟩
  | .emit chunk next, tx, s =>
    { next.run tx s with result := (next.run tx s).result.map (chunk :: ·) }
  | .read next, tx, s => (next (s.view tx.tx)).run tx s
  | .perform e next, tx, s => (e.apply tx s).andThen fun _ tx s => next.run tx s

end LightningDB
