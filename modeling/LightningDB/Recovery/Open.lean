import LightningDB.Framework.FileBytes
import LightningDB.Storage.Value
import LightningDB.Wal.Replay

/-!
# Opening a database

`Database::new` opens the data files that the catalog asks for, registers most of them under their
file id, and hands the committed page images of the log to `StorageManager::apply_page`, which
writes them to the files it finds registered.

The page count of a file handle is taken from the size of the file when it is opened, before the
replay, and no write changes it.  A fresh transaction finds nothing cached, so `pin_page` reads the
file, or takes a zero page where the page count says that there is none.
-/

namespace LightningDB

open Framework

/-! ## The catalog -/

/-- The catalog entry of a node or a relationship table, as far as its files depend on it. -/
structure TableEntry where
  name : String
  properties : List (String × LogicalType)
  primaryKey : Option String

/-- `Catalog`: the tables, in the order in which the maps are gone through. -/
structure Catalog where
  nodeTables : List TableEntry
  relTables : List TableEntry

/-- The data file and the null bitmap of a column. -/
def columnPair (tableName colName : String) : List String :=
  [tableName ++ "_" ++ colName ++ ".ltng", tableName ++ "_" ++ colName ++ "_null.ltng"]

mutual

/-- `create_column_recursive`: the files it opens and registers, in order. -/
def createColumnRecursive (tableName colName : String) : LogicalType → List String
  | .list child =>
    columnPair tableName colName ++ createColumnRecursive tableName (colName ++ "_child") child
  | .struct fields => columnPair tableName colName ++ createFields tableName colName fields
  | .map key value =>
    columnPair tableName colName ++ createColumnRecursive tableName (colName ++ "_key") key ++
      createColumnRecursive tableName (colName ++ "_value") value
  | _ => columnPair tableName colName

/-- Its loop over the fields of a struct. -/
def createFields (tableName colName : String) : List (String × LogicalType) → List String
  | [] => []
  | (name, type) :: fields =>
    createColumnRecursive tableName (colName ++ "_" ++ name) type ++
      createFields tableName colName fields

end

/-- The columns that the catalog lists besides the system columns. -/
def userColumns (name : String) (systemColumns : List String)
    (columnDefinitions : List (String × LogicalType)) : List String :=
  (columnDefinitions.filter fun c => c.1 ∉ systemColumns).flatMap fun c =>
    createColumnRecursive name c.1 c.2

/-- `create_table`: the files it opens and registers. -/
def createTable (name : String) (columnDefinitions : List (String × LogicalType)) (isRel : Bool) :
    List String :=
  if isRel then
    [name ++ "_src.ltng", name ++ "_src_null.ltng", name ++ "_dst.ltng", name ++ "_dst_null.ltng"] ++
      userColumns name ["_src", "_dst"] columnDefinitions
  else columnPair name "_id" ++ userColumns name ["_id"] columnDefinitions

/-! ## File handles -/

/-- `FileHandle`: the file, and the page count in memory. -/
structure OpenFile where
  path : String
  numPages : ℕ
deriving DecidableEq

/-- `fnv1a_hash64`. -/
def fnv1aHash64 (data : List UInt8) : UInt64 :=
  data.foldl (fun hash byte => (hash ^^^ byte.toUInt64) * 1099511628211) 14695981039346656037

def encodedBytes (path : String) : List UInt8 := path.toList.flatMap String.utf8EncodeChar

/-- `StorageManager`: the directory with its files, the registry that `apply_page` consults, and
every handle that was opened. -/
structure StorageManager where
  dbPath : String
  files : String → Option (List UInt8)
  fileHandles : FinMap ℕ OpenFile
  opened : List OpenFile

namespace StorageManager

def fileId (dbPath path : String) : ℕ :=
  (fnv1aHash64 (encodedBytes (dbPath ++ "/" ++ path))).toNat

variable (sm : StorageManager) (path : String)

/-- The bytes of a file; one that is not there is empty. -/
def content : List UInt8 := (sm.files path).getD []

def setContent (bytes : List UInt8) : StorageManager :=
  { sm with files := Function.update sm.files path (some bytes) }

/-- `FileHandle::open`: the file is made if need be and padded to whole pages. -/
def openFile : OpenFile × StorageManager :=
  let size := (sm.content path).length
  let sm := sm.setContent path
    (sm.content path ++ List.replicate ((size + pageSize - 1) / pageSize * pageSize - size) 0)
  (⟨path, (size + pageSize - 1) / pageSize⟩, sm)

/-- Open a file for a table or an index that keeps the handle to itself. -/
def openPlain : StorageManager :=
  let (fh, sm) := sm.openFile path
  { sm with opened := fh :: sm.opened }

/-- Open a file and insert the handle into `file_handles`. -/
def openRegistered : StorageManager :=
  let (fh, sm) := sm.openFile path
  { sm with
    fileHandles := sm.fileHandles.insert (fileId sm.dbPath path) fh
    opened := fh :: sm.opened }

/-- The number of buckets of a new hash index. -/
def initialBuckets : ℕ := 64

/-- What `initialize_header` writes: the header page, and an empty page for each bucket. -/
def newIndexBytes : List UInt8 :=
  leBytes 8 initialBuckets ++ List.replicate ((initialBuckets + 1) * pageSize - 8) 0

/-- `create_index`: a hash index that is not there yet is initialized.  The handle is not
registered. -/
def createIndex : StorageManager :=
  if (sm.files path).isSome then sm.openPlain path
  else
    let sm := sm.setContent path newIndexBytes
    { sm with opened := ⟨path, initialBuckets + 1⟩ :: sm.opened }

inductive OpenStep where
  | plain (path : String)
  | registered (path : String)
  | index (path : String)

def step : OpenStep → StorageManager
  | .plain path => sm.openPlain path
  | .registered path => sm.openRegistered path
  | .index path => sm.createIndex path

/-- What `restore_tables_from_catalog` does for a node table. -/
def restoreNodeTable (t : TableEntry) : List OpenStep :=
  (createTable t.name t.properties false).map .registered ++
    (if t.primaryKey.isSome then [.index (t.name ++ "_pk_index.ltng")] else []) ++
    [.registered (t.name ++ "_vector.ltng")]

/-- What `restore_tables_from_catalog` does for a relationship table. -/
def restoreRelTable (t : TableEntry) : List OpenStep :=
  (createTable t.name t.properties true).map .registered

/-- The files opened: those of `StorageManager::new`, and those of
`restore_tables_from_catalog`. -/
def openSteps (catalog : Catalog) : List OpenStep :=
  [.plain "data.ltng", .plain "overflow.ltng"] ++ catalog.nodeTables.flatMap restoreNodeTable ++
    catalog.relTables.flatMap restoreRelTable

/-- The storage manager before the replay. -/
def restore (dbPath : String) (files : String → Option (List UInt8)) (catalog : Catalog) :
    StorageManager :=
  (openSteps catalog).foldl step ⟨dbPath, files, ∅, []⟩

/-! ## Replay and reading -/

/-- `apply_page`: images of another size and of unknown files are skipped. -/
def applyPage : ApplyPage StorageManager String := fun sm w =>
  if w.data.length ≠ pageSize then (sm, .ok ())
  else match sm.fileHandles.lookup w.fileId with
    | some fh =>
      (sm.setContent fh.path (writeAt (sm.content fh.path) (w.pageIdx * pageSize) w.data), .ok ())
    | none => (sm, .ok ())

/-- `pin_page` by a fresh transaction, through an open handle: the page is read from the file, or
is zero past the page count. -/
def pinPage (fh : OpenFile) (pageIdx : ℕ) : List UInt8 :=
  if pageIdx < fh.numPages then readAt (sm.content fh.path) (pageIdx * pageSize) pageSize
  else List.replicate pageSize 0

end StorageManager

/-- `Database::new`: open the files, then replay the log. -/
def databaseNew (crc : Checksum) (dbPath : String) (files : String → Option (List UInt8))
    (catalog : Catalog) (walBytes : List UInt8) (lastCheckpointTx : ℕ) : StorageManager :=
  ((WAL.new walBytes).replay StorageManager.applyPage crc
    (StorageManager.restore dbPath files catalog) lastCheckpointTx).2.1

end LightningDB
