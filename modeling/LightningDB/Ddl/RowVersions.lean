import LightningDB.Ddl.Storage
import LightningDB.Framework.Runs
import Mathlib.Data.Finset.Insert

/-!
# The row-version maps of a table

`create_table` makes one `RowVersion` that all columns of the new table share, and `Table::new` makes
another one for `Table.version_info`.  `add_column_to_table` gives a new column the one of the table.  So
the rows that are marked through the columns of a new table are not those that the checkpoint vacuums, and
a column that is added later does not see the marks of the others.
-/

namespace LightningDB.Ddl

open Framework List Option

lemma versions_named (tableName colName : String) (type : LogicalType) (versionInfo : ℕ)
    (children : List Column) : (Column.named tableName colName type versionInfo children).versions =
      versionInfo :: versionsOf children := by
  unfold Column.named
  rw [Column.versions]

mutual

lemma versions_createColumnRecursive (tableName colName : String) (versionInfo : ℕ) :
    ∀ type : LogicalType, ∀ v ∈ (createColumnRecursive tableName colName versionInfo type).versions,
      v = versionInfo
  | .list child => by
    intro v hv
    rw [createColumnRecursive, versions_named] at hv
    rcases mem_cons.1 hv with rfl | hv
    · rfl
    · rw [versionsOf, versionsOf, append_nil] at hv
      exact versions_createColumnRecursive tableName _ versionInfo child v hv
  | .struct fields => by
    intro v hv
    rw [createColumnRecursive, versions_named] at hv
    rcases mem_cons.1 hv with rfl | hv
    · rfl
    · exact versionsOf_createFields tableName colName versionInfo fields v hv
  | .map key value => by
    intro v hv
    rw [createColumnRecursive, versions_named] at hv
    rcases mem_cons.1 hv with rfl | hv
    · rfl
    · rw [versionsOf, versionsOf, versionsOf, append_nil] at hv
      rcases mem_append.1 hv with hv | hv
      · exact versions_createColumnRecursive tableName _ versionInfo key v hv
      · exact versions_createColumnRecursive tableName _ versionInfo value v hv
  | .any | .bool | .int128 | .int64 | .int32 | .int16 | .int8 | .uint128 | .uint64 | .uint32
  | .uint16 | .uint8 | .float | .double | .string | .blob | .timestamp | .date | .interval
  | .internalID | .serial | .union _ | .node _ | .rel _ | .lambda _ => by
    intro v hv
    simp only [createColumnRecursive, versions_named, versionsOf] at hv
    exact mem_singleton.1 hv

lemma versionsOf_createFields (tableName colName : String) (versionInfo : ℕ) :
    ∀ fields : List (String × LogicalType),
      ∀ v ∈ versionsOf (createFields tableName colName versionInfo fields), v = versionInfo
  | [] => by
    intro v hv
    rw [createFields, versionsOf] at hv
    cases hv
  | (name, type) :: fields => by
    intro v hv
    rw [createFields, versionsOf] at hv
    rcases mem_append.1 hv with hv | hv
    · exact versions_createColumnRecursive tableName _ versionInfo type v hv
    · exact versionsOf_createFields tableName colName versionInfo fields v hv

end

lemma mem_versionsOf {cols : List Column} {v : ℕ} : v ∈ versionsOf cols ↔ ∃ c ∈ cols, v ∈ c.versions := by
  induction cols with
  | nil => simp [versionsOf]
  | cons c cols ih => simp [versionsOf, ih]

/-- The columns of a new table share the map that was made for them. -/
lemma versionsOf_newColumns {name : String} {defs : List (String × LogicalType)} {isRel : Bool}
    {versionInfo v : ℕ} (hv : v ∈ versionsOf (Storage.newColumns name defs isRel versionInfo)) :
    v = versionInfo := by
  obtain ⟨col, hcol, hmem⟩ := mem_versionsOf.1 hv
  rcases mem_append.1 hcol with hcol | hcol
  · rw [Storage.newSystemColumns] at hcol
    split at hcol
    · simp only [mem_cons, not_mem_nil, or_false] at hcol
      rcases hcol with rfl | rfl
      · simpa [Column.versions, versionsOf] using hmem
      · simpa [Column.versions, versionsOf] using hmem
    · rw [mem_singleton.1 hcol] at hmem
      simpa [Column.versions, versionsOf] using hmem
  · obtain ⟨c, -, rfl⟩ := mem_map.1 hcol
    exact versions_createColumnRecursive name c.1 versionInfo c.2 v hmem

/-! ## Runs -/

/-- The storage manager, with the maps that `create_table` has made for columns.  The latter do not exist in
the source. -/
structure VersionMaps where
  storage : Storage
  columnMaps : Finset ℕ

namespace VersionMaps

/-- The entry of a table in the catalog, from which it is made when the database is opened. -/
structure Entry where
  name : String
  properties : List (String × LogicalType)
  isRel : Bool
  cardinality : ℕ

/-- The operations on tables.  Undoing one of the first four is one of them. -/
inductive Call where
  | createTable (name : String) (columnDefinitions : List (String × LogicalType)) (isRel : Bool)
      (stats : Option ℕ)
  | removeTable (name : String)
  | addColumnToTable (tableName colName : String) (type : LogicalType)
  | removeColumnFromTable (tableName colName : String)
  | reopen (catalog : List Entry)

/-- A storage manager without tables. -/
def empty : VersionMaps :=
  ⟨⟨fun _ => none, fun _ => none, fun _ => none, fun _ => none, fun _ => none, fun _ => none,
    fun _ => none, fun _ => none, 0⟩, ∅⟩

variable (s : VersionMaps)

/-- `create_table`. -/
def createTable (name : String) (columnDefinitions : List (String × LogicalType))
    (isRel : Bool) (stats : Option ℕ) : VersionMaps :=
  ⟨s.storage.createTable name columnDefinitions isRel stats,
    insert (s.storage.openFiles (LightningDB.createTable name columnDefinitions isRel)).made s.columnMaps⟩

/-- The tables are dropped from memory. -/
def close : VersionMaps :=
  { s with storage := { s.storage with nodeTables := fun _ => none, relTables := fun _ => none } }

/-- What an operation does. -/
def apply : Call → VersionMaps
  | .createTable name defs isRel stats => s.createTable name defs isRel stats
  | .removeTable name => { s with storage := s.storage.removeTable name }
  | .addColumnToTable tableName colName type =>
    { s with storage := (s.storage.addColumnToTable tableName colName type).toOption.getD s.storage }
  | .removeColumnFromTable tableName colName =>
    { s with storage := (s.storage.removeColumnFromTable tableName colName).toOption.getD s.storage }
  | .reopen catalog =>
    catalog.foldl (fun s e => s.createTable e.name e.properties e.isRel (some e.cardinality)) s.close

/-- Any sequence of operations. -/
def calls : System VersionMaps Call where
  init s := s = empty
  step s call := some (s.apply call)

/-- Every table and its columns have one row-version map. -/
def OneVersionMap : Prop :=
  ∀ table, s.storage.IsTable table → ∀ v ∈ versionsOf table.columns, v = table.versionInfo

/-- No table has a column that `create_table` has made: all have been added later. -/
def AllAdded : Prop :=
  ∀ table, s.storage.IsTable table → ∀ v ∈ versionsOf table.columns, v ∉ s.columnMaps

structure Kept (s : VersionMaps) (table : Table) : Prop where
  fresh : table.versionInfo < s.storage.made
  other : table.versionInfo ∉ s.columnMaps
  columns : ∀ v ∈ versionsOf table.columns, v ∈ s.columnMaps ∨ v = table.versionInfo

structure Sound (s : VersionMaps) : Prop where
  made : ∀ v ∈ s.columnMaps, v < s.storage.made
  tables : ∀ table, s.storage.IsTable table → Kept s table

variable {s : VersionMaps}

lemma Sound.oneVersionMap_iff (hs : Sound s) : OneVersionMap s ↔ AllAdded s := by
  constructor
  · intro hone table ht v hv
    rw [hone table ht v hv]
    exact (hs.tables table ht).other
  · intro hadded table ht v hv
    exact ((hs.tables table ht).columns v hv).resolve_left (hadded table ht v hv)

lemma Sound.setStorage (hs : Sound s) {storage : Storage} (hmade : s.storage.made ≤ storage.made)
    (htables : ∀ table, storage.IsTable table → Kept s table) : Sound ⟨storage, s.columnMaps⟩ where
  made v hv := (hs.made v hv).trans_le hmade
  tables table ht := ⟨(htables table ht).fresh.trans_le hmade, (htables table ht).other,
    (htables table ht).columns⟩

lemma Sound.addColumnToTable (hs : Sound s) (tableName colName : String) (type : LogicalType) :
    Sound (s.apply (.addColumnToTable tableName colName type)) := by
  rw [apply, Storage.addColumnToTable]
  cases htable : s.storage.getTable tableName with
  | none => exact hs
  | some table =>
    dsimp only
    split
    · exact hs
    · obtain ⟨⟨files, made, heq, hle⟩, -, -⟩ :=
        Storage.openFiles_spec s.storage (LightningDB.createColumnRecursive tableName colName type)
      simp only [Except.toOption, getD_some]
      refine hs.setStorage ?_ fun t ht => ?_
      · rw [(Storage.setColumns_files _ _ _).2, heq]
        exact hle
      · rcases Storage.isTable_setColumns ht with hold | ⟨old, hold, rfl⟩
        · rw [heq] at hold
          exact hs.tables t hold
        · rw [heq] at hold
          obtain rfl : table = old := some.inj (htable.symm.trans hold)
          have hkept := hs.tables table (Storage.isTable_of_getTable htable)
          refine ⟨hkept.fresh, hkept.other, fun v hv => ?_⟩
          obtain ⟨c, hc, hv⟩ := mem_versionsOf.1 hv
          rcases mem_append.1 hc with hc | hc
          · exact hkept.columns v (mem_versionsOf.2 ⟨c, hc, hv⟩)
          · rw [mem_singleton.1 hc] at hv
            exact .inr (versions_createColumnRecursive _ _ _ _ v hv)

lemma Sound.removeColumnFromTable (hs : Sound s) (tableName colName : String) :
    Sound (s.apply (.removeColumnFromTable tableName colName)) := by
  rw [apply, Storage.removeColumnFromTable]
  cases htable : s.storage.getTable tableName with
  | none => exact hs
  | some table =>
    dsimp only
    split
    · simp only [Except.toOption, getD_some]
      refine hs.setStorage (Storage.setColumns_files _ _ _).2.ge fun t ht => ?_
      rcases Storage.isTable_setColumns ht with hold | ⟨old, hold, rfl⟩
      · exact hs.tables t hold
      · obtain rfl : table = old := some.inj (htable.symm.trans hold)
        have hkept := hs.tables table (Storage.isTable_of_getTable htable)
        refine ⟨hkept.fresh, hkept.other, fun v hv => ?_⟩
        obtain ⟨c, hc, hv⟩ := mem_versionsOf.1 hv
        exact hkept.columns v (mem_versionsOf.2 ⟨c, mem_of_mem_eraseP hc, hv⟩)
    · exact hs

lemma Sound.removeTable (hs : Sound s) (name : String) : Sound (s.apply (.removeTable name)) := by
  refine hs.setStorage le_rfl fun table ht => hs.tables table ?_
  obtain ⟨n, hn⟩ := ht
  refine ⟨n, hn.imp (fun h => ?_) fun h => ?_⟩
  · exact (Storage.eq_some_of_update h).resolve_left nofun
  · exact (Storage.eq_some_of_update h).resolve_left nofun

/-- A new table has two maps of its own. -/
lemma Sound.createTable (hs : Sound s) (name : String) (defs : List (String × LogicalType)) (isRel : Bool)
    (stats : Option ℕ) : Sound (s.createTable name defs isRel stats) := by
  obtain ⟨⟨files, made, heq, hle⟩, -, -⟩ :=
    Storage.openFiles_spec s.storage (LightningDB.createTable name defs isRel)
  let table : Table := ⟨name, Storage.newColumns name defs isRel made, stats.getD 0, made + 1, 0⟩
  have hmaps : (s.createTable name defs isRel stats).columnMaps = insert made s.columnMaps := by
    rw [VersionMaps.createTable, heq]
  have hmade : (s.createTable name defs isRel stats).storage.made = made + 2 := by
    rw [VersionMaps.createTable, Storage.createTable, heq]
    split
    · rfl
    · rfl
  have htables : ∀ t, (s.createTable name defs isRel stats).storage.IsTable t →
      t = table ∨ s.storage.IsTable t := by
    rintro t ⟨n, hn⟩
    rw [VersionMaps.createTable, Storage.createTable, heq] at hn
    split at hn
    · rcases hn with hn | hn
      · exact .inr ⟨n, .inl hn⟩
      · exact (Storage.eq_some_of_update hn).imp (fun h => (some.inj h).symm) fun h => ⟨n, .inr h⟩
    · rcases hn with hn | hn
      · exact (Storage.eq_some_of_update hn).imp (fun h => (some.inj h).symm) fun h => ⟨n, .inl h⟩
      · exact .inr ⟨n, .inr hn⟩
  refine ⟨fun v hv => ?_, fun t ht => ?_⟩
  · rw [hmaps] at hv
    rcases Finset.mem_insert.1 hv with rfl | hv
    · omega
    · have := hs.made v hv
      omega
  · rcases htables t ht with rfl | hold
    · refine ⟨?_, ?_, fun v hv => .inl ?_⟩
      · rw [hmade]
        exact Nat.lt_succ_self _
      · rw [hmaps, Finset.mem_insert]
        rintro (hne | hmem)
        · exact Nat.succ_ne_self made hne
        · have hlt : made + 1 < s.storage.made := hs.made _ hmem
          omega
      · rw [hmaps, versionsOf_newColumns hv]
        exact Finset.mem_insert_self _ _
    · have hkept := hs.tables t hold
      refine ⟨?_, ?_, fun v hv => ?_⟩
      · rw [hmade]
        have := hkept.fresh
        omega
      · rw [hmaps, Finset.mem_insert]
        rintro (heq | hmem)
        · have := hkept.fresh
          omega
        · exact hkept.other hmem
      · rw [hmaps]
        exact (hkept.columns v hv).imp_left Finset.mem_insert_of_mem

lemma Sound.apply (hs : Sound s) (call : Call) : Sound (s.apply call) := by
  cases call with
  | createTable name defs isRel stats => exact hs.createTable name defs isRel stats
  | removeTable name => exact hs.removeTable name
  | addColumnToTable tableName colName type => exact hs.addColumnToTable tableName colName type
  | removeColumnFromTable tableName colName => exact hs.removeColumnFromTable tableName colName
  | reopen catalog =>
    rw [VersionMaps.apply]
    have hclose : Sound s.close := by
      refine hs.setStorage le_rfl ?_
      rintro table ⟨n, hn | hn⟩
      · cases hn
      · cases hn
    generalize s.close = s₀ at hclose ⊢
    induction catalog generalizing s₀ with
    | nil => exact hclose
    | cons e catalog ih => exact ih _ (hclose.createTable _ _ _ _)

lemma sound_of_reachable (hs : calls.Reachable s) : Sound s := by
  refine hs.invariant (I := Sound) ?_ ?_
  · rintro _ rfl
    refine ⟨fun v hv => absurd hv (Finset.notMem_empty v), ?_⟩
    rintro table ⟨n, hn | hn⟩
    · cases hn
    · cases hn
  · intro s call s' _ hs _ hstep
    obtain rfl : s.apply call = s' := some.inj hstep
    exact hs.apply call

end VersionMaps

end LightningDB.Ddl

namespace LightningDB

open Ddl VersionMaps

/-- **One row-version map for each table** is what there is exactly where no table has a column left that
`create_table` has made. -/
theorem one_version_map_iff {s : VersionMaps} (hs : VersionMaps.calls.Reachable s) :
    OneVersionMap s ↔ AllAdded s :=
  (VersionMaps.sound_of_reachable hs).oneVersionMap_iff

/-- A table whose only column has been added later, after the first one was removed. -/
theorem one_version_map_added :
    ∃ s, VersionMaps.calls.Reachable s ∧ (∃ table, s.storage.IsTable table ∧ table.columns ≠ []) ∧
      OneVersionMap s := by
  have h₀ : VersionMaps.calls.Reachable .empty := .init rfl
  have h₁ := h₀.exec (rfl : VersionMaps.calls.exec .empty
    [.createTable "t" [] false none, .addColumnToTable "t" "c" .int64,
      .removeColumnFromTable "t" "_id"] = some _)
  refine ⟨_, h₁, ⟨_, ⟨"t", .inl rfl⟩, List.cons_ne_nil _ _⟩, (one_version_map_iff h₁).2 ?_⟩
  rintro table ⟨n, hn | hn⟩
  · by_cases h : n = "t"
    · subst h
      cases hn
      decide
    · -- the three calls are on `t`, and at first there was no table
      cases (Function.update_of_ne h _ _).symm.trans <|
        (Function.update_of_ne h _ _).symm.trans <| (Function.update_of_ne h _ _).symm.trans hn
  · cases hn

/-- The map of a new table is not that of its columns. -/
theorem new_table_two_version_maps : ∃ s, VersionMaps.calls.Reachable s ∧ ¬ OneVersionMap s := by
  have h₀ : VersionMaps.calls.Reachable .empty := .init rfl
  have h₁ := h₀.exec (rfl : VersionMaps.calls.exec .empty [.createTable "t" [] false none] = some _)
  refine ⟨_, h₁, fun hone => ?_⟩
  have heq := hone _ ⟨"t", .inl rfl⟩ _ List.mem_cons_self
  revert heq
  decide

end LightningDB
