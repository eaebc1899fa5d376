import LightningDB.Recovery.Open
import Mathlib.Data.Set.Basic

/-!
# Tables in the storage manager

What the storage manager keeps of a table: its columns with the files that they use and the row-version map
that they share, the counters in memory, and the indexes that are registered under its name.  Objects that
the source shares by reference (a `RowVersion`, a file on disk) are numbered as they are made; a file that is
removed and made again is another file.
-/

namespace LightningDB.Ddl

open Function

/-! ## Columns -/

/-- `Column`, with the files that it opens. -/
structure Column where
  name : String
  dataType : LogicalType
  path : String
  nullPath : String
  overflow : Option String
  /-- Which `RowVersion` the column refers to. -/
  versionInfo : ℕ
  children : List Column

/-- The file that the long strings of all columns are stored in. -/
def overflowPath : String := "overflow.ltng"

/-- A column with the file names that `create_column_recursive` gives it. -/
def Column.named (tableName colName : String) (type : LogicalType) (versionInfo : ℕ)
    (children : List Column) : Column where
  name := colName
  dataType := type
  path := tableName ++ "_" ++ colName ++ ".ltng"
  nullPath := tableName ++ "_" ++ colName ++ "_null.ltng"
  overflow := match type with
    | .string => some overflowPath
    | _ => none
  versionInfo := versionInfo
  children := children

mutual

/-- `create_column_recursive`. -/
def createColumnRecursive (tableName colName : String) (versionInfo : ℕ) : LogicalType → Column
  | .list child => .named tableName colName (.list child) versionInfo
      [createColumnRecursive tableName (colName ++ "_child") versionInfo child]
  | .struct fields => .named tableName colName (.struct fields) versionInfo
      (createFields tableName colName versionInfo fields)
  | .map key value => .named tableName colName (.map key value) versionInfo
      [createColumnRecursive tableName (colName ++ "_key") versionInfo key,
        createColumnRecursive tableName (colName ++ "_value") versionInfo value]
  | type => .named tableName colName type versionInfo []

/-- Its loop over the fields of a struct. -/
def createFields (tableName colName : String) (versionInfo : ℕ) :
    List (String × LogicalType) → List Column
  | [] => []
  | (name, type) :: fields =>
    createColumnRecursive tableName (colName ++ "_" ++ name) versionInfo type ::
      createFields tableName colName versionInfo fields

end

mutual

/-- The row-version maps of a column and its children. -/
def Column.versions : Column → List ℕ
  | ⟨_, _, _, _, _, versionInfo, children⟩ => versionInfo :: versionsOf children

def versionsOf : List Column → List ℕ
  | [] => []
  | col :: cols => col.versions ++ versionsOf cols

end

/-! ## Tables -/

/-- `Table`, without its write buffer and its trigram indexes. -/
structure Table where
  name : String
  columns : List Column
  /-- `stats.cardinality`. -/
  cardinality : ℕ
  versionInfo : ℕ
  nextRowId : ℕ

/-- `StorageManager`, with the files in the directory of the database. -/
structure Storage where
  nodeTables : String → Option Table
  relTables : String → Option Table
  /-- The hash indexes, by the files that they are in. -/
  indexes : String → Option String
  ftsIndexes : String → Option String
  /-- The vector indexes, with their dimensions. -/
  vectorIndexes : String → Option (String × ℕ)
  /-- The offset and adjacency files. -/
  fwdCsr : String → Option (String × String)
  bwdCsr : String → Option (String × String)
  /-- Which file has a name. -/
  files : String → Option ℕ
  /-- How many objects have been made. -/
  made : ℕ

namespace Storage

variable (s : Storage) (name : String)

/-- Set or remove a node table. -/
def setNode (table : Option Table) : Storage :=
  { s with nodeTables := update s.nodeTables name table }

def setRel (table : Option Table) : Storage :=
  { s with relTables := update s.relTables name table }

/-- `FileHandle::open`. -/
def openFile (path : String) : Storage :=
  match s.files path with
  | some _ => s
  | none => { s with files := update s.files path (some s.made), made := s.made + 1 }

def openFiles (paths : List String) : Storage := paths.foldl openFile s

/-- `get_table`. -/
def getTable : Option Table := s.nodeTables name <|> s.relTables name

/-- A table of the storage manager. -/
def IsTable (table : Table) : Prop :=
  ∃ name, s.nodeTables name = some table ∨ s.relTables name = some table

/-- The names of the columns that every table has. -/
def systemColumns (isRel : Bool) : List String := if isRel then ["_src", "_dst"] else ["_id"]

/-- The columns that every table has. -/
def newSystemColumns (isRel : Bool) (versionInfo : ℕ) : List Column :=
  if isRel then
    [⟨"_src", .uint64, name ++ "_src.ltng", name ++ "_src_null.ltng", none, versionInfo, []⟩,
      ⟨"_dst", .uint64, name ++ "_dst.ltng", name ++ "_dst_null.ltng", none, versionInfo, []⟩]
  else [⟨"_id", .uint64, name ++ "_" ++ "_id" ++ ".ltng", name ++ "_" ++ "_id" ++ "_null.ltng", none,
    versionInfo, []⟩]

/-- The columns that `create_table` makes. -/
def newColumns (columnDefinitions : List (String × LogicalType)) (isRel : Bool)
    (versionInfo : ℕ) : List Column :=
  newSystemColumns name isRel versionInfo ++
    (columnDefinitions.filter fun c => c.1 ∉ systemColumns isRel).map fun c =>
      createColumnRecursive name c.1 versionInfo c.2

/-- `create_table`.  The columns share one new `RowVersion`; `Table::new` makes another one for the table. -/
def createTable (columnDefinitions : List (String × LogicalType))
    (isRel : Bool) (stats : Option ℕ) : Storage :=
  let opened := s.openFiles (LightningDB.createTable name columnDefinitions isRel)
  let columns := newColumns name columnDefinitions isRel opened.made
  let table : Table := ⟨name, columns, stats.getD 0, opened.made + 1, 0⟩
  let s := { opened with made := opened.made + 2 }
  if isRel then s.setRel name (some table) else s.setNode name (some table)

/-- `remove_table`. -/
def removeTable : Storage :=
  { (s.setNode name none).setRel name none with
    indexes := update s.indexes name none
    ftsIndexes := update s.ftsIndexes name none
    vectorIndexes := update s.vectorIndexes name none
    fwdCsr := update s.fwdCsr name none
    bwdCsr := update s.bwdCsr name none }

/-- Replace the columns of a table, which is looked for among the node tables first. -/
def setColumns (columns : List Column) : Storage :=
  match s.nodeTables name with
  | some table => s.setNode name (some { table with columns := columns })
  | none =>
    match s.relTables name with
    | some table => s.setRel name (some { table with columns := columns })
    | none => s

/-- `add_column_to_table`. -/
def addColumnToTable (tableName colName : String) (type : LogicalType) :
    Except LightningError Storage :=
  match s.getTable tableName with
  | none => .error (.database ("Table '" ++ tableName ++ "' not found"))
  | some table =>
    if table.columns.any (·.name = colName) then
      .error (.database ("Column '" ++ colName ++ "' already exists in table '" ++ tableName ++ "'"))
    else
      let s := s.openFiles (LightningDB.createColumnRecursive tableName colName type)
      .ok (s.setColumns tableName
        (table.columns ++ [createColumnRecursive tableName colName table.versionInfo type]))

/-- `remove_column_from_table`. -/
def removeColumnFromTable (tableName colName : String) : Except LightningError Storage :=
  match s.getTable tableName with
  | none => .error (.database ("Table '" ++ tableName ++ "' not found"))
  | some table =>
    if table.columns.any (·.name = colName) then
      .ok (s.setColumns tableName (table.columns.eraseP (·.name = colName)))
    else .error (.database ("Column '" ++ colName ++ "' not found in table '" ++ tableName ++ "'"))

/-! ## What the operations leave alone -/

variable {s : Storage}

lemma openFile_spec (s : Storage) (path : String) :
    (∃ files made, s.openFile path = { s with files := files, made := made } ∧ s.made ≤ made) ∧
      (∀ p, s.files p ≠ none → (s.openFile path).files p = s.files p) ∧
        ∀ p, (s.openFile path).files p ≠ none ↔ s.files p ≠ none ∨ p = path := by
  rw [openFile]
  split
  next n hfile =>
    refine ⟨⟨s.files, s.made, rfl, le_rfl⟩, fun _ _ => rfl, fun p => ⟨.inl, fun h => h.elim id ?_⟩⟩
    rintro rfl
    rw [hfile]
    exact Option.some_ne_none n
  next hfile =>
    refine ⟨⟨_, _, rfl, Nat.le_succ _⟩, fun p hp => ?_, fun p => ?_⟩
    · have hne : p ≠ path := fun heq => hp (heq ▸ hfile)
      exact update_of_ne hne _ _
    · dsimp only
      by_cases heq : p = path
      · rw [heq, update_self]
        exact iff_of_true (Option.some_ne_none _) (.inr rfl)
      · rw [update_of_ne heq]
        exact ⟨.inl, fun h => h.resolve_right heq⟩

lemma openFiles_spec (s : Storage) (paths : List String) :
    (∃ files made, s.openFiles paths = { s with files := files, made := made } ∧ s.made ≤ made) ∧
      (∀ p, s.files p ≠ none → (s.openFiles paths).files p = s.files p) ∧
        ∀ p, (s.openFiles paths).files p ≠ none ↔ s.files p ≠ none ∨ p ∈ paths := by
  induction paths generalizing s with
  | nil => exact ⟨⟨s.files, s.made, rfl, le_rfl⟩, fun _ _ => rfl, fun p => by simp [openFiles]⟩
  | cons path paths ih =>
    obtain ⟨⟨files₁, made₁, heq₁, hle₁⟩, hkeep₁, hfiles₁⟩ := openFile_spec s path
    obtain ⟨⟨files₂, made₂, heq₂, hle₂⟩, hkeep₂, hfiles₂⟩ := ih (s.openFile path)
    have hcons : s.openFiles (path :: paths) = (s.openFile path).openFiles paths := rfl
    rw [hcons]
    refine ⟨⟨files₂, made₂, ?_, ?_⟩, fun p hp => ?_, fun p => ?_⟩
    · rw [heq₂, heq₁]
    · rw [heq₁] at hle₂
      exact hle₁.trans hle₂
    · rw [hkeep₂ p (by rw [hkeep₁ p hp]; exact hp), hkeep₁ p hp]
    · rw [hfiles₂, hfiles₁, List.mem_cons, or_assoc]

lemma setColumns_files (s : Storage) (name : String) (columns : List Column) :
    (s.setColumns name columns).files = s.files ∧ (s.setColumns name columns).made = s.made := by
  rw [setColumns]
  split
  · exact ⟨rfl, rfl⟩
  · split
    · exact ⟨rfl, rfl⟩
    · exact ⟨rfl, rfl⟩

variable {name : String} {table : Table}

lemma getTable_cases (h : s.getTable name = some table) :
    s.nodeTables name = some table ∨ s.nodeTables name = none ∧ s.relTables name = some table := by
  rw [getTable] at h
  cases hnode : s.nodeTables name with
  | some t =>
    rw [hnode] at h
    exact .inl h
  | none =>
    rw [hnode] at h
    exact .inr ⟨rfl, h⟩

lemma isTable_of_getTable (h : s.getTable name = some table) : s.IsTable table :=
  ⟨name, (getTable_cases h).imp_right And.right⟩

/-- What a map has after one update is new or was there before. -/
lemma eq_some_of_update {α : Type} {m : String → Option α} {k k' : String} {v : Option α} {a : α}
    (h : update m k v k' = some a) : v = some a ∨ m k' = some a := by
  by_cases heq : k' = k
  · rw [heq, update_self] at h
    exact .inl h
  · rw [update_of_ne heq] at h
    exact .inr h

lemma isTable_setColumns {columns : List Column} (h : (s.setColumns name columns).IsTable table) :
    s.IsTable table ∨ ∃ old, s.getTable name = some old ∧ table = { old with columns := columns } := by
  cases hget : s.getTable name with
  | none =>
    rw [getTable] at hget
    have hsame : s.setColumns name columns = s := by
      cases hnode : s.nodeTables name with
      | some t =>
        rw [hnode] at hget
        cases hget
      | none =>
        rw [hnode] at hget
        rw [setColumns, hnode, show s.relTables name = none from hget]
    rw [hsame] at h
    exact .inl h
  | some old =>
    obtain ⟨n, hn⟩ := h
    rcases getTable_cases hget with hnode | ⟨hnone, hrel⟩
    · rw [setColumns, hnode] at hn
      rcases hn with hn | hn
      · exact (eq_some_of_update hn).symm.imp (fun hn => ⟨n, .inl hn⟩)
          fun hnew => ⟨old, rfl, (Option.some.inj hnew).symm⟩
      · exact .inl ⟨n, .inr hn⟩
    · rw [setColumns, hnone, hrel] at hn
      rcases hn with hn | hn
      · exact .inl ⟨n, .inl hn⟩
      · exact (eq_some_of_update hn).symm.imp (fun hn => ⟨n, .inr hn⟩)
          fun hnew => ⟨old, rfl, (Option.some.inj hnew).symm⟩

end Storage

end LightningDB.Ddl
