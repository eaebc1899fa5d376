import LightningDB.Parser.Statements
import LightningDB.Query.Store

/-!
# The writing operators

`PhysicalCreate`, `PhysicalDelete`, `PhysicalCopy` into a table, `PhysicalDDL` and
`PhysicalTransaction`, as programs over the operator they pull from.  Each of them does its work in
the first call of `get_next`: it drains its child, and then hands out at most one chunk.

Expressions are functions from the rows of a chunk to a column, or an error; parameters are applied
already.  Undo records that `rollback` skips (`UpdateColumn`, `DeleteNode`) are left out.
-/

namespace LightningDB

variable {Schema : Type}

/-- `ExpressionEvaluator::evaluate`: the chunk, if there is one, and the number of rows. -/
abbrev Expr := Option Chunk → ℕ → Except LightningError (List Value)

/-- What a vector index of a table needs: the position of the embedding column, and which values have
its dimension. -/
structure VectorColumn where
  col : Option ℕ
  fits : Value → Bool

/-- `Table`, as a plan has it.  `primaryKey` is the position of the primary key of a table with a
hash index. -/
structure Table where
  id : ℕ
  name : String
  columns : List String
  isRel : Bool
  primaryKey : Option ℕ
  hasFts : Bool
  vector : Option VectorColumn

namespace Op

/-! ## Parts -/

/-- `while let Some(chunk) = child.get_next()? { … }`, with an accumulator. -/
def drain {α : Type} (body : α → Chunk → (α → Op Schema) → Op Schema) (after : α → Op Schema) :
    Op Schema → α → Op Schema
  | .done, a => after a
  | .fail e, _ => .fail e
  | .emit chunk next, a => body a chunk fun a => drain body after next a
  | .read next, a => .read fun v => drain body after (next v) a
  | .perform e next, a => .perform e (drain body after next a)

/-- The same steps for each element of a list. -/
def forEach {α : Type} (l : List α) (body : α → Op Schema → Op Schema) (next : Op Schema) :
    Op Schema :=
  l.foldr body next

def performAll (es : List (Effect Schema)) (next : Op Schema) : Op Schema := forEach es .perform next

/-- Hand out the rows, if there are any. -/
def emitRows : Chunk → Op Schema
  | [] => .done
  | rows => .emit rows .done

variable (t : Table)

def evaluateAll (exprs : List (ℕ × Expr)) (chunk : Option Chunk) (numRows : ℕ) :
    Except LightningError (List (ℕ × List Value)) :=
  exprs.mapM fun (col, expr) => (expr chunk numRows).map (col, ·)

/-- The values that evaluated columns have in row `i`. -/
def rowAt (columns : List (ℕ × List Value)) (i : ℕ) : List (ℕ × Value) :=
  columns.map fun (col, values) => (col, values.getD i .null)

def setColumns (row : List Value) (values : List (ℕ × Value)) : List Value :=
  values.foldl (fun row x => row.set x.1 x.2) row

/-- A row of nulls with the given first columns. -/
def newRow (first : List Value) (values : List (ℕ × Value)) : List Value :=
  setColumns (first ++ List.replicate (t.columns.length - first.length) .null) values

/-- `ensure_writable`. -/
def ensureWritable (col : ℕ) (next : Op Schema) : Op Schema :=
  .read fun v =>
    if v.shared.isCompressed t.id col then
      .fail (Store.compressedColumn (t.columns.getD col ""))
    else next

/-- `append_value`: the page is written before the row is marked. -/
def appendValue (col row : ℕ) (v : Value) (next : Op Schema) : Op Schema :=
  ensureWritable t col <|
    .perform (.put (.column t.id col row) v) <|
      .perform (.mark t.id row) <| .perform (.register t.id row) next

/-- `reserve_rows`. -/
def reserveRows (start count : ℕ) (next : Op Schema) : Op Schema :=
  if t.columns = [] then next else .perform (.reserve t.id start count) next

/-- `batch_append_rows`: column by column the rows are written and marked; they are registered after
the last column. -/
def batchAppendRows (start : ℕ) (rows : List (List Value)) (next : Op Schema) : Op Schema :=
  if rows = [] then next
  else
    forEach (List.range t.columns.length)
      (fun col next => ensureWritable t col <|
        performAll ((rows.zipIdx start).map fun x =>
          .put (.column t.id col x.2) (x.1.getD col .null)) <|
        performAll ((rows.zipIdx start).map fun x => .mark t.id x.2) next) <|
    performAll ((t.columns.flatMap fun _ => rows.zipIdx start).map fun x => .register t.id x.2) <|
    .perform (.share (·.addCardinality t.id rows.length)) next

/-- The rows that an index page has for a key. -/
def entries : Value → List ℕ
  | .rows ids => ids
  | _ => []

variable (v : View Schema)

/-- `HashIndex::lookup`. -/
def indexLookup (table : ℕ) (key : Value) : Option ℕ :=
  (entries (v.cell (.index table key))).head?

/-- `HashIndex::insert`. -/
def indexInsert (table : ℕ) (key : Value) (row : ℕ) (next : Op Schema) : Op Schema :=
  match key.indexError with
  | some e => .fail e
  | none => .read fun v =>
    .perform (.put (.index table key) (.rows (entries (v.cell (.index table key)) ++ [row]))) next

/-- `HashIndex::delete`. -/
def indexDelete (table : ℕ) (key : Value) (row : ℕ) (next : Op Schema) : Op Schema :=
  .read fun v =>
    if row ∈ entries (v.cell (.index table key)) then
      .perform (.put (.index table key) (.rows ((entries (v.cell (.index table key))).erase row)))
        next
    else next

/-- The string columns of a row, for the full-text index. -/
def stringFields (row : List Value) : List (String × String) :=
  (t.columns.zip row).filterMap fun (name, v) =>
    match v with
    | .string s => some (name, s)
    | _ => none

/-- `FtsInsert` of a row that has string fields. -/
def ftsInsert (id : ℕ) (row : List Value) (next : Op Schema) : Op Schema :=
  match stringFields t row with
  | [] => next
  | fields => .perform (.indexMutation (.ftsInsert t.id id fields)) next

def nodeIds (chunk : Chunk) : List ℕ :=
  chunk.filterMap fun row =>
    match row.head? with
    | some (.node id) => some id
    | _ => none

/-! ## CREATE -/

variable (properties : List (ℕ × Expr))

/-- A chunk of `PhysicalCreate` with a child. -/
def createChunk (rows : Chunk) (chunk : Chunk) (next : Chunk → Op Schema) : Op Schema :=
  if chunk = [] then next rows
  else .read fun v =>
    let start := v.shared.nextRowId t.id
    .perform (.share (·.allocate t.id chunk.length)) <|
    reserveRows t start chunk.length <|
    match evaluateAll properties (some chunk) chunk.length with
    | .error e => .fail e
    | .ok columns =>
      let new := (List.range chunk.length).map fun i =>
        newRow t [.node (start + i)] (rowAt columns i)
      batchAppendRows t start new <|
      forEach (if t.hasFts then new.zipIdx start else []) (fun x => ftsInsert t x.2 x.1) <|
      next (rows ++ new)

/-- The primary key of a row that `PhysicalCreate` has put in the write buffer. -/
def insertPrimaryKey (row : List Value) (id : ℕ) (next : Op Schema) : Op Schema :=
  match t.primaryKey with
  | none => next
  | some pk => .read fun v =>
    let key := row.getD pk .null
    match indexLookup v t.id key with
    | some _ =>
      .fail (.query
        ("Duplicate primary key value '" ++ key.print ++ "' for table '" ++ t.name ++ "'"))
    | none => indexInsert t.id key id next

/-- `PhysicalCreate` without a child. -/
def createOne : Op Schema :=
  .read fun v =>
    let id := v.shared.nextRowId t.id
    .perform (.noteTableWrite t.id id (v.shared.numRows t.id)) <|
    .perform (.share (·.allocate t.id 1)) <|
    reserveRows t id 1 <|
    .perform (.noteAllocated t.id id) <|
    match evaluateAll properties none 1 with
    | .error e => .fail e
    | .ok columns =>
      let row := newRow t [.node id] (rowAt columns 0)
      .perform (.buffer t.id id row) <|
      insertPrimaryKey t row id <|
      .perform (.share (·.addNumRows t.id 1)) <|
      .emit [row] .done

/-- `PhysicalCreate`. -/
def physicalCreate : Option (Op Schema) → Op Schema
  | none => createOne t properties
  | some child =>
    drain (createChunk t properties)
      (fun rows => .perform (.share (·.addNumRows t.id rows.length)) (emitRows rows)) child []

/-! ## DELETE -/

/-- The columns that `PhysicalDelete` marks before it writes. -/
def userColumns : List String := t.columns.filter fun name => name.front ≠ '_'

/-- A row of `PhysicalDelete`, with what it was before. -/
def deleteRow (id : ℕ) (next : List Value → Op Schema) : Op Schema :=
  .read fun v =>
    let row := .node id :: (List.range' 1 (t.columns.length - 1)).map fun c =>
      v.cell (.column t.id c id)
    performAll ((userColumns t).map fun _ => .mark t.id id) <|
    forEach (List.range t.columns.length) (fun col next => appendValue t col id .null next) <|
    (match t.primaryKey with
      | some pk => indexDelete t.id (row.getD pk .null) id
      | none => fun next => next) <|
    performAll (if t.hasFts then [.indexMutation (.ftsDelete t.id id)] else []) <|
    performAll (if t.vector.isSome then [.indexMutation (.vectorDelete t.id id)] else []) <|
    next row

def deleteRows (t : Table) : List ℕ → Chunk → (Chunk → Op Schema) → Op Schema
  | [], rows, next => next rows
  | id :: ids, rows, next => deleteRow t id fun row => deleteRows t ids (rows ++ [row]) next

/-- A relationship table, and which of its ends are in the table of the deleted nodes. -/
structure Detached where
  table : Table
  checkSrc : Bool
  checkDst : Bool

/-- The relationships of deleted nodes. -/
def detachedRows (d : Detached) (deleted : List ℕ) : List (ℕ × ℕ × ℕ) :=
  match d.table.columns.idxOf? "_src", d.table.columns.idxOf? "_dst" with
  | some src, some dst =>
    (List.range (v.shared.nextRowId d.table.id)).filterMap fun row =>
      match v.cell (.column d.table.id src row), v.cell (.column d.table.id dst row) with
      | .node a, .node b =>
        if (d.checkSrc ∧ a ∈ deleted) ∨ (d.checkDst ∧ b ∈ deleted) then some (row, a, b) else none
      | _, _ => none
  | _, _ => []

/-- The detach phase of `PhysicalDelete` for one relationship table. -/
def detach (deleted : List ℕ) (d : Detached) (next : Op Schema) : Op Schema :=
  .read fun v =>
    let rows := detachedRows v d deleted
    forEach rows (fun (row, a, b) next =>
      forEach (List.range d.table.columns.length)
        (fun col next => appendValue d.table col row .null next) <|
      .perform (.share (·.onCsr d.table.id fun csr => { csr with deleted := csr.deleted ++ [(a, b)] }))
        next) <|
    if rows = [] then next
    else .perform (.share (·.subCardinality d.table.id rows.length)) next

/-- `PhysicalDelete`.  The counts go down by the number of rows pulled, nodes or not. -/
def physicalDelete (detached : List Detached) (child : Op Schema) : Op Schema :=
  drain (α := Chunk × List ℕ × ℕ)
    (fun (rows, ids, total) chunk next =>
      deleteRows t (nodeIds chunk) rows fun rows =>
        next (rows, ids ++ nodeIds chunk, total + chunk.length))
    (fun (rows, ids, total) =>
      forEach (if ids = [] then [] else detached) (detach ids) <|
      .perform (.share fun sh =>
        (if t.isRel then sh else sh.subNumRows t.id total).subCardinality t.id total) <|
      emitRows rows)
    child ([], [], 0)

/-! ## COPY, DDL and the rest -/

/-- What `rebuild_csr` finds outside of the pages: the rows that the file of the first column has room
for, the bound on node ids (none if it is zero), and the error of the scans or of the build, if there
is one. -/
structure CsrScan where
  fileRows : ℕ
  nodeCapacity : ℕ
  failure : Option LightningError

/-- The edges of a relationship table, from its first two columns. -/
def scanEdges (scan : CsrScan) : List (ℕ × ℕ) :=
  (List.range (v.shared.cardinality t.id)).filterMap fun row =>
    match v.cell (.column t.id 0 row), v.cell (.column t.id 1 row) with
    | .node src, .node dst =>
      if scan.nodeCapacity = 0 ∨ (src < scan.nodeCapacity ∧ dst < scan.nodeCapacity) then
        some (src, dst)
      else none
    | _, _ => none

/-- The cardinality, and with it the counter of row ids, is cut to the rows of the file where it is more
than twice that. -/
def capCardinality (scan : CsrScan) (sh : Shared Schema) : Shared Schema :=
  if 0 < scan.fileRows ∧ scan.fileRows * 2 < sh.cardinality t.id then
    { sh with
      cardinality := Function.update sh.cardinality t.id scan.fileRows
      nextRowId := Function.update sh.nextRowId t.id scan.fileRows }
  else sh

/-- `rebuild_csr`. -/
def rebuildCsr (scan : CsrScan) (next : Op Schema) : Op Schema :=
  .read fun v =>
    if (v.shared.csr t.id).isNone then next
    else
      .perform (.share (capCardinality t scan)) <| .read fun v =>
        if v.shared.cardinality t.id = 0 ∨ t.columns.length < 2 then next
        else
          match scan.failure with
          | some e => .fail e
          | none =>
            .perform (.share (·.onCsr t.id fun csr =>
              { csr with edges := scanEdges t v scan, deleted := [] })) next

/-- What happens around a COPY: the columns that the thread pool gets to in the batch from a row id on,
and what `rebuild_csr` finds. -/
structure CopyRun where
  pool : ℕ → List ℕ
  scan : CsrScan

/-- The batches of `execute_copy_from`, from the next row id on. -/
def copyBatches (t : Table) (pool : ℕ → List ℕ) :
    List (Except LightningError (List (List Value))) → ℕ → ℕ → (ℕ → Op Schema) → Op Schema
  | [], _, added, next => next added
  | .error e :: _, _, _, _ => .fail e
  | .ok rows :: batches, nextId, added, next =>
    if rows = [] then copyBatches t pool batches nextId added next
    else
      let rows :=
        if t.columns.head? = some "INTERNAL_ID" then
          (rows.zipIdx nextId).map fun (row, id) => .other (toString id) :: row
        else rows
      .perform (.bulkAppend t.id nextId rows (pool nextId)) <|
      copyBatches t pool batches (nextId + rows.length) (added + rows.length) next

/-- `PhysicalCopy` from a file with the given batches.  The first row id is the row count of the
catalog, and zero for a relationship table. -/
def physicalCopyFrom (run : CopyRun) (batches : List (Except LightningError (List (List Value)))) :
    Op Schema :=
  .read fun v =>
    copyBatches t run.pool batches (if t.isRel then 0 else v.shared.numRows t.id) 0 fun added =>
      rebuildCsr t run.scan <|
      .perform (.share (·.addNumRows t.id added)) <|
      .emit [[.other (toString added)]] .done

/-- `PhysicalTransaction`, in the transaction of the query itself. -/
def physicalTransaction : TransactionAction → Op Schema
  | .begin => .emit [[.string "Transaction started"]] .done
  | .commit => .perform .commit (.emit [[.string "Transaction committed"]] .done)
  | .rollback => .perform .rollback (.emit [[.string "Transaction rolled back"]] .done)

end Op

end LightningDB
