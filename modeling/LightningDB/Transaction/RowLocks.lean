import LightningDB.Framework.Runs
import LightningDB.Storage.RowVersion
import LightningDB.Transaction.Manager

/-!
# Row locks and the end of a transaction

A row is locked by its entry in `RowVersion.versions`, which commit and rollback remove only for the
rows that the transaction has *registered*: those in `modified_rows` and in `bulk_row_ranges`.  A
statement marks rows and registers them in separate accesses, and stops at the first conflict.

A statement is therefore a list of accesses (`RowOp`), which the threads interleave one by one.  Its
program is `RowStmt.ops`; a row it has marked is safe when it is registered already or when a
registration is still to come in what is left of the program (`Tracked`).  `no_orphaned_row_locks`
has the exact condition under which the end of a transaction leaves no lock behind, and the
conditions on statements under which that is so along a whole run.
-/

namespace LightningDB

open Framework List Option FinMap TransactionManager RowVersion

/-! ## Statements as accesses to row marks -/

/-- An access of a statement to the `RowVersion` numbered `vm`: `mark_row`, a push to `modified_rows`,
`mark_row_batch`, or a push to `bulk_row_ranges`. -/
inductive RowOp where
  | mark (vm row : ℕ)
  | push (vm row : ℕ)
  | markRange (vm start stop : ℕ)
  | pushRange (vm start stop : ℕ)
deriving DecidableEq

/-- A column of a batch with its `version_info`: a plain one, or a list or struct column with the rows
that appending each of its values marks.  The columns that `create_table` makes share one
`RowVersion`, and so do a column and its children; a column added later has another one. -/
inductive AppendColumn where
  | plain (vm : ℕ)
  | nested (vm : ℕ) (rows : List (List ℕ))

/-- `version_info` of a column. -/
def AppendColumn.versionInfo : AppendColumn → ℕ
  | .plain vm | .nested vm _ => vm

/-- The rows and columns of the writing statements.  Where a value is appended to a column, the list
has the rows that `append_plain_value` marks for it: the row itself, after those of the elements for
a list, and none for a value that does not fit a list or struct column. -/
inductive RowStmt where
  /-- The chunks of a SET; for each the assignments, and for each of these the column and the rows
  with the rows marked by writing the value. -/
  | set (chunks : List (List (ℕ × List (ℕ × List ℕ))))
  /-- DELETE of rows, where the columns come with whether their name starts with an underscore, and
  the detached rows of relationship tables with the columns of these. -/
  | delete (columns : List (ℕ × Bool)) (rows : List ℕ) (detached : List (List ℕ × ℕ))
  /-- CREATE over the rows of a child operator. -/
  | create (start count : ℕ) (columns : List AppendColumn)
  /-- `batch_append_rows` on its own. -/
  | batchAppend (start count : ℕ) (columns : List AppendColumn)
  /-- CREATE of one row, which goes to the write buffer. -/
  | reserve (columns : List AppendColumn) (start count : ℕ)
  /-- `flush_buffer`. -/
  | flush (start count : ℕ) (columns : List AppendColumn)
  /-- `append_value`. -/
  | append (vm : ℕ) (rows : List ℕ)

/-- `append_value`: `append_plain_value` marks a row and registers it at once. -/
def appendValueOps (vm : ℕ) (rows : List ℕ) : List RowOp :=
  rows.flatMap fun r => [.mark vm r, .push vm r]

/-- A chunk of `PhysicalSet::get_next`: all rows of all assignments are marked before the first value
is written. -/
def setChunkOps (assignments : List (ℕ × List (ℕ × List ℕ))) : List RowOp :=
  (assignments.flatMap fun x => x.2.map fun row => .mark x.1 row.1) ++
    assignments.flatMap fun x => x.2.flatMap fun row => appendValueOps x.1 row.2

/-- A row of `PhysicalDelete::get_next`: marked for each column without an underscore, then
overwritten with null in every column. -/
def deleteRowOps (columns : List (ℕ × Bool)) (row : ℕ) : List RowOp :=
  ((columns.filter fun col => !col.2).map fun col => .mark col.1 row) ++
    columns.flatMap fun col => appendValueOps col.1 [row]

/-- The rows of relationships that a DETACH DELETE overwrites. -/
def detachOps (detached : List (List ℕ × ℕ)) : List RowOp :=
  detached.flatMap fun x => x.1.flatMap fun vm => appendValueOps vm [x.2]

/-- `reserve_rows`: the rows are marked and registered in the first column. -/
def reserveOps (columns : List AppendColumn) (start count : ℕ) : List RowOp :=
  match columns with
  | [] => []
  | col :: _ =>
    if count = 0 then []
    else [.markRange col.versionInfo start (start + count),
      .pushRange col.versionInfo start (start + count)]

/-- `batch_append_values`: the rows of a plain column are marked and returned, those of a nested one
are registered as they are written. -/
def batchAppendValuesOps (start count : ℕ) : AppendColumn → List RowOp × List RowOp
  | .plain vm => ((List.range' start count).map (.mark vm), (List.range' start count).map (.push vm))
  | .nested vm rows => (rows.flatMap (appendValueOps vm), [])

/-- `batch_append_rows`: the returned rows are registered after the last column. -/
def batchAppendOps (start count : ℕ) (columns : List AppendColumn) : List RowOp :=
  (columns.flatMap fun col => (batchAppendValuesOps start count col).1) ++
    columns.flatMap fun col => (batchAppendValuesOps start count col).2

/-- `bulk_append_array_inner` of one column. -/
def bulkColumnOps (start count : ℕ) : AppendColumn → List RowOp
  | .plain vm => [.markRange vm start (start + count)]
  | .nested vm rows => .markRange vm start (start + count) :: rows.flatMap (appendValueOps vm)

/-- `flush_buffer`: the range is registered in the first column before the columns are written, each
of which marks the range in its own `RowVersion`. -/
def flushOps (start count : ℕ) (columns : List AppendColumn) : List RowOp :=
  match columns with
  | [] => []
  | col :: _ => .pushRange col.versionInfo start (start + count) ::
      columns.flatMap (bulkColumnOps start count)

/-- The accesses of a statement, in order. -/
def RowStmt.ops : RowStmt → List RowOp
  | .set chunks => chunks.flatMap setChunkOps
  | .delete columns rows detached => rows.flatMap (deleteRowOps columns) ++ detachOps detached
  | .create start count columns =>
      reserveOps columns start count ++ batchAppendOps start count columns
  | .batchAppend start count columns => batchAppendOps start count columns
  | .reserve columns start count => reserveOps columns start count
  | .flush start count columns => flushOps start count columns
  | .append vm rows => appendValueOps vm rows

/-! ## Transactions that run statements -/

/-- A transaction and what is left of the statement it is running. -/
structure RunningTx where
  tx : Transaction
  todo : List RowOp

/-- The `RowVersion`s by number and the transactions that have not ended. -/
structure LockState where
  tm : TransactionManager
  maps : ℕ → RowVersion
  live : FinMap ℕ RunningTx

/-- The steps of the system. -/
inductive LockAction where
  | beginAt (isReadOnly : Bool) (snapshotTs : Option ℕ)
  | start (t : ℕ) (stmt : RowStmt)
  | advance (t : ℕ)
  | commit (t : ℕ)
  | rollback (t : ℕ)
  | drop (t : ℕ)

/-- The transaction that a step ends. -/
def LockAction.ends? : LockAction → Option ℕ
  | .commit t | .rollback t | .drop t => some t
  | _ => none

/-- Apply an operation to one `RowVersion`. -/
def onVersion (maps : ℕ → RowVersion) (vm : ℕ) (f : RowVersion → RowVersion) : ℕ → RowVersion :=
  Function.update maps vm (f (maps vm))

namespace Transaction

variable (tx : Transaction)

/-- `modified_rows.push`. -/
def registerRow (vm row : ℕ) : Transaction :=
  { tx with modifiedRows := tx.modifiedRows ++ [(vm, row)] }

/-- `bulk_row_ranges.push`. -/
def registerRange (vm start stop : ℕ) : Transaction :=
  { tx with bulkRowRanges := tx.bulkRowRanges ++ [(vm, start, stop)] }

/-- The rows that commit and rollback will find. -/
def Registers (vm row : ℕ) : Prop :=
  (vm, row) ∈ tx.modifiedRows ∨
    ∃ start stop, (vm, start, stop) ∈ tx.bulkRowRanges ∧ start ≤ row ∧ row < stop

/-- What `commit` does to the marks: the ranges first, then the rows. -/
def commitMarks (commitTs : ℕ) (maps : ℕ → RowVersion) : ℕ → RowVersion :=
  tx.modifiedRows.foldl (fun maps x => onVersion maps x.1 fun rv => rv.commitRow x.2 commitTs)
    (tx.bulkRowRanges.foldl
      (fun maps x => onVersion maps x.1 fun rv => rv.commitRowBatch x.2.1 x.2.2 commitTs) maps)

/-- What `rollback` does to the marks: the rows first, then the ranges. -/
def rollbackMarks (maps : ℕ → RowVersion) : ℕ → RowVersion :=
  tx.bulkRowRanges.foldl
    (fun maps x => onVersion maps x.1 fun rv => rv.rollbackRowBatch x.2.1 x.2.2)
    (tx.modifiedRows.foldl (fun maps x => onVersion maps x.1 fun rv => rv.rollbackRow x.2) maps)

end Transaction

namespace LockState

variable (s : LockState)

/-- One access of transaction `t`.  A conflict ends the statement. -/
def perform (t : ℕ) (rt : RunningTx) (op : RowOp) (rest : List RowOp) : LockState :=
  match op with
  | .mark vm row =>
    match (s.maps vm).markRow row t rt.tx.readTs with
    | .ok rv =>
      { s with
        maps := onVersion s.maps vm fun _ => rv
        live := s.live.insert t { rt with todo := rest } }
    | .error _ => { s with live := s.live.insert t { rt with todo := [] } }
  | .push vm row =>
    { s with live := s.live.insert t ⟨rt.tx.registerRow vm row, rest⟩ }
  | .markRange vm start stop =>
    { s with
      maps := onVersion s.maps vm fun rv => rv.markRowBatch start stop t
      live := s.live.insert t { rt with todo := rest } }
  | .pushRange vm start stop =>
    { s with live := s.live.insert t ⟨rt.tx.registerRange vm start stop, rest⟩ }

/-- The transaction ends with the given marks. -/
def finish (tm : TransactionManager) (t : ℕ) (rt : RunningTx)
    (maps : ℕ → RowVersion) : LockState where
  tm := tm.finish rt.tx
  maps := maps
  live := s.live.erase t

/-- One step.  A transaction ends between statements; a reader ends without a look at its marks. -/
def step : LockAction → Option LockState
  | .beginAt isReadOnly snapshotTs =>
    (s.tm.beginAt isReadOnly snapshotTs).map fun (tx, tm) =>
      { s with tm := tm, live := s.live.insert tx.txId ⟨tx, []⟩ }
  | .start t stmt =>
    (s.live.lookup t).bind fun rt =>
      if rt.todo = [] then some { s with live := s.live.insert t { rt with todo := stmt.ops } }
      else none
  | .advance t =>
    (s.live.lookup t).bind fun rt =>
      match rt.todo with
      | op :: rest => some (s.perform t rt op rest)
      | [] => none
  | .commit t =>
    (s.live.lookup t).bind fun rt =>
      if rt.todo ≠ [] then none
      else if rt.tx.isReadOnly then some (s.finish s.tm t rt s.maps)
      else s.tm.nextCommitTs.map fun (commitTs, tm) =>
        s.finish tm t rt (rt.tx.commitMarks commitTs s.maps)
  | .rollback t =>
    (s.live.lookup t).bind fun rt =>
      if rt.todo ≠ [] then none
      else if rt.tx.isReadOnly then some (s.finish s.tm t rt s.maps)
      else some (s.finish s.tm t rt (rt.tx.rollbackMarks s.maps))
  | .drop t =>
    (s.live.lookup t).bind fun rt =>
      if rt.todo ≠ [] then none else some (s.finish s.tm t rt s.maps)

/-- A database with nothing marked and no transaction. -/
def Opened : Prop :=
  (∀ vm row, (s.maps vm).owner row = none) ∧ s.live = ∅

def initial : LockState := ⟨.new, fun _ => .new, ∅⟩

/-- Every lock belongs to a transaction that has not ended. -/
def NoOrphans : Prop :=
  ∀ vm row t, (s.maps vm).owner row = some t → (s.live.lookup t).isSome

end LockState

def lockSystem : System LockState LockAction where
  init := LockState.Opened
  step := LockState.step

/-! ## What the operations do to the owners -/

variable {tx : Transaction} {s s' : LockState} {a : LockAction} {t : ℕ}

section Owners

open RowVersion

variable (maps : ℕ → RowVersion)

lemma onVersion_apply (vm k : ℕ) (f : RowVersion → RowVersion) :
    onVersion maps vm f k = if k = vm then f (maps vm) else maps k := by
  rw [onVersion, Function.update_apply]

/-- A mark is erased in case `A`, and stays otherwise. -/
def Erased (A : Prop) (o o' : Option ℕ) : Prop := (A → o' = none) ∧ (¬ A → o' = o)

/-- Erasing those of `A`, and then those of `B`. -/
lemma Erased.trans {A B : Prop} {o o₁ o₂ : Option ℕ} (h₁ : Erased A o o₁) (h₂ : Erased B o₁ o₂) :
    Erased (A ∨ B) o o₂ := by
  constructor
  · intro h
    by_cases hB : B
    · exact h₂.1 hB
    · rw [h₂.2 hB]
      exact h₁.1 (h.resolve_right hB)
  · intro h
    rw [not_or] at h
    rw [h₂.2 h.2, h₁.2 h.1]

/-- Erasing marks, item by item, erases those of all items and nothing else. -/
lemma owner_foldl_onVersion {α : Type*} (vm : α → ℕ) (rows : α → List ℕ)
    (f : α → RowVersion → RowVersion)
    (hf : ∀ i rv r, (f i rv).owner r = if r ∈ rows i then none else rv.owner r) (items : List α)
    (k r : ℕ) : Erased (∃ i ∈ items, vm i = k ∧ r ∈ rows i) ((maps k).owner r)
      ((items.foldl (fun maps i => onVersion maps (vm i) (f i)) maps k).owner r) := by
  induction items generalizing maps with
  | nil => exact ⟨fun ⟨i, hi, _⟩ => (by cases hi), fun _ => rfl⟩
  | cons i items ih =>
    have hone : Erased (vm i = k ∧ r ∈ rows i) ((maps k).owner r)
        ((onVersion maps (vm i) (f i) k).owner r) := by
      rw [onVersion_apply]
      by_cases hk : k = vm i
      · subst hk
        rw [if_pos rfl, hf]
        exact ⟨fun h => if_pos h.2, fun h => if_neg fun hr => h ⟨rfl, hr⟩⟩
      · rw [if_neg hk]
        exact ⟨fun h => absurd h.1.symm hk, fun _ => rfl⟩
    rw [exists_mem_cons_iff]
    exact hone.trans (ih _)

lemma mem_range'_sub {start stop r : ℕ} :
    r ∈ range' start (stop - start) ↔ start ≤ r ∧ r < stop := by
  rw [mem_range'_1]
  omega

lemma owner_markRowBatch (rv : RowVersion) (start stop t r : ℕ) :
    (rv.markRowBatch start stop t).owner r =
      if start ≤ r ∧ r < stop then some t else rv.owner r := by
  rw [markRowBatch, ← if_congr mem_range'_sub rfl rfl]
  induction range' start (stop - start) generalizing rv with
  | nil => rfl
  | cons r₀ rows ih =>
    refine (ih (rv.setOwner r₀ t)).trans ?_
    by_cases hr : r = r₀
    · simp [hr]
    · simp [hr]

variable {maps} {vm row : ℕ}

/-- The registered rows, in the shape of the two passes of commit and rollback. -/
lemma registers_iff : tx.Registers vm row ↔ (∃ x ∈ tx.modifiedRows, x.1 = vm ∧ row ∈ [x.2]) ∨
        ∃ x ∈ tx.bulkRowRanges, x.1 = vm ∧ row ∈ range' x.2.1 (x.2.2 - x.2.1) := by
  refine or_congr ?_ ?_
  · constructor
    · exact fun h => ⟨_, h, rfl, mem_singleton_self _⟩
    · rintro ⟨⟨k, r⟩, h, rfl, hr⟩
      rcases mem_singleton.1 hr with rfl
      exact h
  · constructor
    · rintro ⟨start, stop, h, hr⟩
      exact ⟨_, h, rfl, mem_range'_sub.2 hr⟩
    · rintro ⟨⟨k, start, stop⟩, h, rfl, hr⟩
      exact ⟨start, stop, h, mem_range'_sub.1 hr⟩

/-- Commit removes the marks of the registered rows and no others. -/
lemma owner_commitMarks (ts : ℕ) : Erased (tx.Registers vm row) ((maps vm).owner row)
      ((tx.commitMarks ts maps vm).owner row) := by
  rw [registers_iff, or_comm]
  have hranges := owner_foldl_onVersion maps (fun x : ℕ × ℕ × ℕ => x.1)
    (fun x => range' x.2.1 (x.2.2 - x.2.1)) (fun x rv => rv.commitRowBatch x.2.1 x.2.2 ts)
    (fun x rv r => owner_commitRows rv r _ ts) tx.bulkRowRanges vm row
  exact hranges.trans (owner_foldl_onVersion _ (fun x : ℕ × ℕ => x.1) (fun x => [x.2])
    (fun x rv => rv.commitRow x.2 ts) (fun x rv r => owner_commitRows rv r [x.2] ts)
    tx.modifiedRows vm row)

/-- Rollback removes the marks of the registered rows and no others. -/
lemma owner_rollbackMarks : Erased (tx.Registers vm row) ((maps vm).owner row)
      ((tx.rollbackMarks maps vm).owner row) := by
  rw [registers_iff]
  have hrows := owner_foldl_onVersion maps (fun x : ℕ × ℕ => x.1) (fun x => [x.2])
    (fun x rv => rv.rollbackRow x.2) (fun x rv r => owner_rollbackRows rv r [x.2])
    tx.modifiedRows vm row
  exact hrows.trans (owner_foldl_onVersion _ (fun x : ℕ × ℕ × ℕ => x.1)
    (fun x => range' x.2.1 (x.2.2 - x.2.1)) (fun x rv => rv.rollbackRowBatch x.2.1 x.2.2)
    (fun x rv r => owner_rollbackRows rv r _) tx.bulkRowRanges vm row)

end Owners

/-! ## Programs that register what they mark -/

namespace RowOp

def Marks : RowOp → ℕ → ℕ → Prop
  | .mark vm row, k, r => vm = k ∧ row = r
  | .markRange vm start stop, k, r => vm = k ∧ start ≤ r ∧ r < stop
  | _, _, _ => False

def Pushes : RowOp → ℕ → ℕ → Prop
  | .push vm row, k, r => vm = k ∧ row = r
  | .pushRange vm start stop, k, r => vm = k ∧ start ≤ r ∧ r < stop
  | _, _, _ => False

def register (tx : Transaction) : RowOp → Transaction
  | .push vm row => tx.registerRow vm row
  | .pushRange vm start stop => tx.registerRange vm start stop
  | _ => tx

end RowOp

/-- Some access of the program registers the row. -/
def WillPush (ops : List RowOp) (vm row : ℕ) : Prop := ∃ op ∈ ops, op.Pushes vm row

/-- Every row that the program marks is registered, or the program registers it. -/
def RegistersMarks (tx : Transaction) (ops : List RowOp) : Prop :=
  ∀ op ∈ ops, ∀ vm row, op.Marks vm row → tx.Registers vm row ∨ WillPush ops vm row

section Programs

variable {ops ops' : List RowOp} {vm : ℕ}

lemma WillPush.mono (hsub : ops ⊆ ops') {row : ℕ}
    (h : WillPush ops vm row) : WillPush ops' vm row := by
  obtain ⟨op, hop, hpush⟩ := h
  exact ⟨op, hsub hop, hpush⟩

lemma RegistersMarks.append (h : RegistersMarks tx ops)
    (h' : RegistersMarks tx ops') : RegistersMarks tx (ops ++ ops') := by
  intro op hop vm row hmark
  rcases mem_append.1 hop with hop | hop
  · exact (h op hop vm row hmark).imp_right (WillPush.mono (subset_append_left _ _))
  · exact (h' op hop vm row hmark).imp_right (WillPush.mono (subset_append_right _ _))

lemma registersMarks_flatMap {α : Type*} {l : List α} {f : α → List RowOp}
    (h : ∀ x ∈ l, RegistersMarks tx (f x)) : RegistersMarks tx (l.flatMap f) := by
  intro op hop vm row hmark
  obtain ⟨x, hx, hop⟩ := mem_flatMap.1 hop
  exact (h x hx op hop vm row hmark).imp_right
    (WillPush.mono fun o ho => mem_flatMap.2 ⟨x, hx, ho⟩)

lemma registersMarks_appendValueOps (vm : ℕ) (rows : List ℕ) :
    RegistersMarks tx (appendValueOps vm rows) := by
  refine registersMarks_flatMap fun r _ => ?_
  intro op hop k row hmark
  refine .inr ⟨.push vm r, by simp, ?_⟩
  rcases mem_cons.1 hop with rfl | hop
  · exact hmark
  · rcases mem_singleton.1 hop with rfl
    exact hmark.elim

lemma registersMarks_appendValues (vm : ℕ) (rows : List (List ℕ)) :
    RegistersMarks tx (rows.flatMap (appendValueOps vm)) :=
  registersMarks_flatMap fun rows _ => registersMarks_appendValueOps vm rows

lemma willPush_appendValueOps {r : ℕ} {rows : List ℕ} (h : r ∈ rows) :
    WillPush (appendValueOps vm rows) vm r :=
  ⟨.push vm r, mem_flatMap.2 ⟨r, h, by simp⟩, rfl, rfl⟩

lemma RegistersMarks.check {checks writes : List RowOp} (hwrites : RegistersMarks tx writes)
    (hchecks : ∀ op ∈ checks, ∀ vm row, op.Marks vm row →
      tx.Registers vm row ∨ WillPush writes vm row) :
    RegistersMarks tx (checks ++ writes) := by
  intro op hop vm row hmark
  have hsub : WillPush writes vm row → WillPush (checks ++ writes) vm row :=
    WillPush.mono (subset_append_right checks writes)
  rcases mem_append.1 hop with hop | hop
  · exact (hchecks op hop vm row hmark).imp_right hsub
  · exact (hwrites op hop vm row hmark).imp_right hsub

/-- A chunk of a SET registers what it marks if it writes every row that it checks. -/
lemma registersMarks_setChunkOps {assignments : List (ℕ × List (ℕ × List ℕ))}
    (h : ∀ x ∈ assignments, ∀ row ∈ x.2, row.1 ∈ row.2 ∨ tx.Registers x.1 row.1) :
    RegistersMarks tx (setChunkOps assignments) := by
  refine RegistersMarks.check ?_ ?_
  · exact registersMarks_flatMap fun x _ =>
      registersMarks_flatMap fun row _ => registersMarks_appendValueOps x.1 row.2
  · intro op hop k r hmark
    obtain ⟨x, hx, hop⟩ := mem_flatMap.1 hop
    obtain ⟨row, hrow, rfl⟩ := mem_map.1 hop
    obtain ⟨rfl, rfl⟩ := hmark
    rcases h x hx row hrow with hmem | hreg
    · refine .inr ((willPush_appendValueOps hmem).mono ?_)
      intro o ho
      exact mem_flatMap.2 ⟨x, hx, mem_flatMap.2 ⟨row, hrow, ho⟩⟩
    · exact .inl hreg

lemma registersMarks_deleteRowOps (columns : List (ℕ × Bool)) (row : ℕ) :
    RegistersMarks tx (deleteRowOps columns row) := by
  refine RegistersMarks.check
    (registersMarks_flatMap fun col _ => registersMarks_appendValueOps col.1 [row]) ?_
  intro op hop k r hmark
  obtain ⟨col, hcol, rfl⟩ := mem_map.1 hop
  obtain ⟨rfl, rfl⟩ := hmark
  refine .inr ((willPush_appendValueOps (mem_singleton_self row)).mono ?_)
  exact fun o ho => mem_flatMap.2 ⟨col, mem_of_mem_filter hcol, ho⟩

variable (columns : List AppendColumn) (start count : ℕ)

lemma registersMarks_reserveOps : RegistersMarks tx (reserveOps columns start count) := by
  cases columns with
  | nil => exact nofun
  | cons col rest =>
    rw [reserveOps]
    split
    · exact nofun
    · intro op hop k r hmark
      refine .inr ⟨.pushRange col.versionInfo start (start + count), by simp, ?_⟩
      rcases mem_cons.1 hop with rfl | hop
      · exact hmark
      · rcases mem_singleton.1 hop with rfl
        exact hmark.elim

lemma registersMarks_batchAppendOps :
    RegistersMarks tx (batchAppendOps start count columns) := by
  intro op hop k r hmark
  rcases mem_append.1 hop with hop | hop
  · obtain ⟨col, hcol, hop⟩ := mem_flatMap.1 hop
    cases col with
    | plain vm =>
      obtain ⟨r', hr', rfl⟩ := mem_map.1 hop
      obtain ⟨rfl, rfl⟩ := hmark
      refine .inr ⟨.push vm r', mem_append_right _ ?_, rfl, rfl⟩
      exact mem_flatMap.2 ⟨.plain vm, hcol, mem_map.2 ⟨r', hr', rfl⟩⟩
    | nested vm rows =>
      refine (registersMarks_appendValues vm rows op hop k r hmark).imp_right (WillPush.mono ?_)
      exact fun o ho => mem_append_left _ (mem_flatMap.2 ⟨.nested vm rows, hcol, ho⟩)
  · obtain ⟨col, -, hop⟩ := mem_flatMap.1 hop
    cases col with
    | plain vm =>
      obtain ⟨r', -, rfl⟩ := mem_map.1 hop
      exact hmark.elim
    | nested vm rows => cases hop

/-- The columns share the `RowVersion` of the first one: none has been added to the table. -/
def OneRowVersion : Prop :=
  ∀ col ∈ columns, ∀ first ∈ columns.head?, col.versionInfo = first.versionInfo

/-- A flush registers what it marks if the columns share one `RowVersion`. -/
lemma registersMarks_flushOps (h : OneRowVersion columns) :
    RegistersMarks tx (flushOps start count columns) := by
  cases columns with
  | nil => exact nofun
  | cons first rest =>
    intro op hop k r hmark
    rcases mem_cons.1 hop with rfl | hop
    · exact hmark.elim
    obtain ⟨col, hcol, hop⟩ := mem_flatMap.1 hop
    have hrange : ∀ {op : RowOp}, op = .markRange col.versionInfo start (start + count) →
        op.Marks k r → WillPush (flushOps start count (first :: rest)) k r := by
      rintro op rfl hmark
      rw [h col hcol first rfl] at hmark
      exact ⟨.pushRange first.versionInfo start (start + count), mem_cons_self, hmark⟩
    cases col with
    | plain vm => exact .inr (hrange (mem_singleton.1 hop) hmark)
    | nested vm rows =>
      rcases mem_cons.1 hop with hop | hop
      · exact .inr (hrange hop hmark)
      · refine (registersMarks_appendValues vm rows op hop k r hmark).imp_right (WillPush.mono ?_)
        intro o ho
        exact mem_cons_of_mem _ (mem_flatMap.2 ⟨.nested vm rows, hcol, mem_cons_of_mem _ ho⟩)

/-- A SET writes every row that it checks, or has registered it before: its values fit the columns.
A flush writes columns that share one `RowVersion`. -/
def WritesChecked (tx : Transaction) : RowStmt → Prop
  | .set chunks => ∀ assignments ∈ chunks, ∀ x ∈ assignments, ∀ row ∈ x.2,
      row.1 ∈ row.2 ∨ tx.Registers x.1 row.1
  | .flush _ _ columns => OneRowVersion columns
  | _ => True

/-- Every statement that runs to its end registers what it marks, a SET provided that its values fit
the columns, and a flush provided that the columns share one `RowVersion`. -/
theorem registersMarks_ops {stmt : RowStmt} (h : WritesChecked tx stmt) :
    RegistersMarks tx stmt.ops := by
  cases stmt with
  | set chunks =>
    exact registersMarks_flatMap fun assignments hmem => registersMarks_setChunkOps (h _ hmem)
  | delete columns rows detached =>
    refine RegistersMarks.append ?_ ?_
    · exact registersMarks_flatMap fun row _ => registersMarks_deleteRowOps columns row
    · exact registersMarks_flatMap fun x _ =>
        registersMarks_flatMap fun vm _ => registersMarks_appendValueOps vm [x.2]
  | create start count columns =>
    exact (registersMarks_reserveOps columns start count).append
      (registersMarks_batchAppendOps columns start count)
  | batchAppend start count columns => exact registersMarks_batchAppendOps columns start count
  | reserve columns start count => exact registersMarks_reserveOps columns start count
  | flush start count columns => exact registersMarks_flushOps columns start count h
  | append vm rows => exact registersMarks_appendValueOps vm rows

end Programs

/-! ## The end of a transaction -/

/-- The marks that the end of a transaction removes: those of the registered rows, but none when it
is dropped or a reader. -/
def LockAction.Removes (tx : Transaction) (vm row : ℕ) : LockAction → Prop
  | .commit _ | .rollback _ => tx.isReadOnly = false ∧ tx.Registers vm row
  | _ => False

namespace LockState

/-- Every row that transaction `t` has locked is in `Reg`. -/
def OwnedIn (s : LockState) (t : ℕ) (Reg : ℕ → ℕ → Prop) : Prop :=
  ∀ vm row, (s.maps vm).owner row = some t → Reg vm row

variable {maps : ℕ → RowVersion}

/-- When `t` ends and the marks in `Reg` are removed, no lock stays behind just if `Reg` has all the
rows that `t` has locked. -/
lemma noOrphans_finish_iff (h : s.NoOrphans) (tm : TransactionManager) (t : ℕ) (rt : RunningTx)
    {Reg : ℕ → ℕ → Prop} (hmaps : ∀ vm row,
      Erased (Reg vm row) ((s.maps vm).owner row) ((maps vm).owner row)) :
    (s.finish tm t rt maps).NoOrphans ↔ s.OwnedIn t Reg := by
  constructor
  · intro hno vm row howner
    by_contra hreg
    have hlive := hno vm row t (by
      change (maps vm).owner row = some t
      rw [(hmaps vm row).2 hreg, howner])
    change ((s.live.erase t).lookup t).isSome at hlive
    rw [AList.lookup_erase] at hlive
    cases hlive
  · intro hown vm row t' howner
    change (maps vm).owner row = some t' at howner
    by_cases hreg : Reg vm row
    · rw [(hmaps vm row).1 hreg] at howner
      cases howner
    · rw [(hmaps vm row).2 hreg] at howner
      have hne : t' ≠ t := by
        rintro rfl
        exact hreg (hown vm row howner)
      change ((s.live.erase t).lookup t').isSome
      rw [AList.lookup_erase_ne hne]
      exact h vm row t' howner

/-- The step removes all locks of the transaction that it ends. -/
def EndsClean (s : LockState) (a : LockAction) : Prop :=
  ∀ t rt, a.ends? = some t → s.live.lookup t = some rt → s.OwnedIn t fun vm row => a.Removes rt.tx vm row

lemma step_ends (ha : a.ends? = some t) (hstep : s.step a = some s') :
    ∃ rt tm maps, s.live.lookup t = some rt ∧ rt.todo = [] ∧ tm.nextTxId = s.tm.nextTxId ∧
      s' = s.finish tm t rt maps ∧
      ∀ vm row, Erased (a.Removes rt.tx vm row) ((s.maps vm).owner row)
        ((maps vm).owner row) := by
  cases a with
  | commit t' =>
    cases ha
    obtain ⟨rt, hrt, htodo, hif⟩ := of_bind_ite_none hstep
    split at hif
    next hro =>
      cases hif
      exact ⟨rt, _, _, hrt, not_not.1 htodo, rfl, rfl, fun vm row =>
        ⟨fun h => by simp [h.1] at hro, fun _ => rfl⟩⟩
    next hro =>
      obtain ⟨⟨ts, tm⟩, hts, rfl⟩ := map_eq_some_iff.1 hif
      obtain ⟨-, rfl⟩ := nextCommitTs_eq_some hts
      rw [Bool.not_eq_true] at hro
      refine ⟨rt, { s.tm with currentTs := s.tm.currentTs + 1 }, _, hrt, not_not.1 htodo, rfl, rfl,
        fun vm row => ?_⟩
      simpa [LockAction.Removes, hro] using owner_commitMarks ts
  | rollback t' =>
    cases ha
    obtain ⟨rt, hrt, htodo, hif⟩ := of_bind_ite_none hstep
    split at hif
    next hro =>
      cases hif
      exact ⟨rt, _, _, hrt, not_not.1 htodo, rfl, rfl, fun vm row =>
        ⟨fun h => by simp [h.1] at hro, fun _ => rfl⟩⟩
    next hro =>
      cases hif
      rw [Bool.not_eq_true] at hro
      refine ⟨rt, _, _, hrt, not_not.1 htodo, rfl, rfl, fun vm row => ?_⟩
      simpa [LockAction.Removes, hro] using owner_rollbackMarks
  | drop t' =>
    cases ha
    obtain ⟨rt, hrt, htodo, hif⟩ := of_bind_ite_none hstep
    cases hif
    exact ⟨rt, _, _, hrt, not_not.1 htodo, rfl, rfl, fun vm row => ⟨fun h => h.elim, fun _ => rfl⟩⟩
  | _ => cases ha

lemma noOrphans_insert (h : s.NoOrphans) (tm : TransactionManager) (t : ℕ) (rt : RunningTx) :
    NoOrphans { s with tm := tm, live := s.live.insert t rt } := by
  intro vm row t' howner
  have hlive := h vm row t' howner
  rw [lookup_insert_eq_ite]
  split
  · rfl
  · exact hlive

/-- What an access does: it may mark rows for its transaction, which goes on, or there is a conflict. -/
lemma perform_cases (s : LockState) (t : ℕ) (rt : RunningTx) (op : RowOp) (rest : List RowOp) :
    (∃ maps, s.perform t rt op rest =
        { s with maps := maps, live := s.live.insert t ⟨op.register rt.tx, rest⟩ } ∧
      ∀ vm row t', (maps vm).owner row = some t' →
        t' = t ∧ op.Marks vm row ∨ (s.maps vm).owner row = some t') ∨
    s.perform t rt op rest = { s with live := s.live.insert t { rt with todo := [] } } ∧
      ∃ vm row e, op = .mark vm row ∧
        (s.maps vm).markRow row t rt.tx.readTs = .error e := by
  cases op with
  | mark vm row =>
    rw [perform]
    split
    next hmark =>
      refine .inl ⟨_, rfl, fun k r t' howner => ?_⟩
      rw [onVersion_apply] at howner
      split at howner
      next hk =>
        rw [(markRow_eq_ok hmark).1, owner_setOwner] at howner
        split at howner
        next hr => exact .inl ⟨(some.inj howner).symm, hk.symm, hr.symm⟩
        · exact .inr (hk ▸ howner)
      · exact .inr howner
    next e he => exact .inr ⟨rfl, vm, row, e, rfl, he⟩
  | push | pushRange => exact .inl ⟨_, rfl, fun _ _ _ => .inr⟩
  | markRange vm start stop =>
    refine .inl ⟨_, rfl, fun k r t' howner => ?_⟩
    rw [onVersion_apply] at howner
    split at howner
    next hk =>
      rw [owner_markRowBatch] at howner
      split at howner
      next hr => exact .inl ⟨(some.inj howner).symm, hk.symm, hr⟩
      · exact .inr (hk ▸ howner)
    · exact .inr howner

lemma noOrphans_perform (h : s.NoOrphans) (t : ℕ) (rt : RunningTx) (op : RowOp)
    (rest : List RowOp) : (s.perform t rt op rest).NoOrphans := by
  rcases s.perform_cases t rt op rest with ⟨maps, heq, hmaps⟩ | ⟨heq, -⟩
  · rw [heq]
    intro vm row t' howner
    rw [lookup_insert_eq_ite]
    split
    · rfl
    next hne => exact h vm row t' ((hmaps vm row t' howner).resolve_left fun hm => hne hm.1)
  · rw [heq]
    exact noOrphans_insert h s.tm t _

lemma noOrphans_end_iff (h : s.NoOrphans) (ha : a.ends? = some t)
    (hstep : s.step a = some s') : s'.NoOrphans ↔ s.EndsClean a := by
  obtain ⟨rt, tm, maps, hrt, -, -, rfl, hmaps⟩ := step_ends ha hstep
  rw [noOrphans_finish_iff h tm t rt hmaps]
  constructor
  · rintro hown t' rt' ha' hrt'
    obtain rfl : t' = t := some.inj (ha'.symm.trans ha)
    obtain rfl : rt' = rt := some.inj (hrt'.symm.trans hrt)
    exact hown
  · exact fun hclean => hclean t rt ha hrt

/-- **The end of a transaction.**  A step leaves a lock behind just if it ends a transaction that has
locked a row that the step does not remove. -/
theorem noOrphans_step_iff (h : s.NoOrphans) (hstep : s.step a = some s') :
    s'.NoOrphans ↔ s.EndsClean a := by
  cases a with
  | beginAt ro snap =>
    obtain ⟨⟨tx, tm⟩, -, rfl⟩ := map_eq_some_iff.1 hstep
    exact iff_of_true (noOrphans_insert h tm tx.txId _) nofun
  | start t stmt =>
    obtain ⟨rt, -, -, ⟨⟩⟩ := of_bind_ite hstep
    exact iff_of_true (noOrphans_insert h s.tm t _) nofun
  | advance t =>
    obtain ⟨rt, -, hif⟩ := bind_eq_some_iff.1 hstep
    split at hif
    · cases hif
      exact iff_of_true (noOrphans_perform h t rt _ _) nofun
    · cases hif
  | commit | rollback | drop => exact noOrphans_end_iff h rfl hstep

/-! ## Whole runs -/

/-- Every lock is registered by its transaction, or will be by what is left of its statement. -/
structure Tracked (s : LockState) : Prop where
  fresh : ∀ t rt, s.live.lookup t = some rt → t < s.tm.nextTxId
  owned : ∀ vm row t, (s.maps vm).owner row = some t → ∃ rt, s.live.lookup t = some rt ∧
    (rt.tx.Registers vm row ∨ WillPush rt.todo vm row)
  marks : ∀ t rt, s.live.lookup t = some rt → RegistersMarks rt.tx rt.todo

lemma Tracked.noOrphans (h : s.Tracked) : s.NoOrphans := by
  intro vm row t howner
  obtain ⟨rt, hrt, -⟩ := h.owned vm row t howner
  rw [hrt]
  rfl

lemma tracked_of_opened (h : s.Opened) : s.Tracked := by
  have hno : ∀ {t rt}, s.live.lookup t = some rt → False := by
    intro t rt ht
    rw [h.2] at ht
    cases ht
  refine ⟨fun t rt ht => (hno ht).elim, ?_, fun t rt ht => (hno ht).elim⟩
  intro vm row t howner
  rw [h.1] at howner
  cases howner

/-- A step of transaction `t` with new marks for `t` only. -/
lemma Tracked.update (h : s.Tracked) {rt : RunningTx} (rt' : RunningTx)
    (hrt : s.live.lookup t = some rt)
    (hmaps : ∀ vm row t', (maps vm).owner row = some t' →
      t' = t ∧ (rt'.tx.Registers vm row ∨ WillPush rt'.todo vm row) ∨
        (s.maps vm).owner row = some t')
    (hkeep : ∀ vm row, rt.tx.Registers vm row ∨ WillPush rt.todo vm row →
      (s.maps vm).owner row = some t →
      rt'.tx.Registers vm row ∨ WillPush rt'.todo vm row)
    (hmarks : RegistersMarks rt'.tx rt'.todo) :
    Tracked { s with maps := maps, live := s.live.insert t rt' } := by
  refine ⟨forall_insert h.fresh (h.fresh t rt hrt), fun vm row t' howner => ?_,
    forall_insert h.marks hmarks⟩
  by_cases ht' : t' = t
  · subst ht'
    refine ⟨rt', AList.lookup_insert _, ?_⟩
    rcases hmaps vm row t' howner with ⟨-, hnew⟩ | hold
    · exact hnew
    · obtain ⟨rt₀, hrt₀, hreg⟩ := h.owned vm row t' hold
      obtain rfl : rt₀ = rt := some.inj (hrt₀.symm.trans hrt)
      exact hkeep vm row hreg hold
  · rcases hmaps vm row t' howner with ⟨hnew, -⟩ | hold
    · exact absurd hnew ht'
    · obtain ⟨rt₀, hrt₀, hreg⟩ := h.owned vm row t' hold
      exact ⟨rt₀, by rw [AList.lookup_insert_ne ht', hrt₀], hreg⟩

/-- The conditions on a step: a SET writes the rows it checks and a flush goes to columns that share
one `RowVersion`; a conflict finds all locks of its
transaction registered; and the end of a reader or a drop finds no locks. -/
def StepOk (s : LockState) : LockAction → Prop
  | .beginAt _ _ => True
  | .start t stmt => ∀ rt, s.live.lookup t = some rt → WritesChecked rt.tx stmt
  | .advance t => ∀ rt vm row rest e, s.live.lookup t = some rt →
      rt.todo = .mark vm row :: rest →
      (s.maps vm).markRow row t rt.tx.readTs = .error e → s.OwnedIn t rt.tx.Registers
  | .commit t | .rollback t => ∀ rt, s.live.lookup t = some rt → rt.tx.isReadOnly = true →
      s.OwnedIn t fun _ _ => False
  | .drop t => s.OwnedIn t fun _ _ => False

end LockState

lemma registers_register_iff (tx : Transaction) (op : RowOp) (vm row : ℕ) :
    (op.register tx).Registers vm row ↔ tx.Registers vm row ∨ op.Pushes vm row := by
  cases op with
  | mark | markRange => simp [RowOp.register, RowOp.Pushes]
  | push k r =>
    simp only [RowOp.register, RowOp.Pushes, Transaction.Registers, Transaction.registerRow,
      mem_append, mem_singleton, Prod.mk.injEq]
    rw [or_right_comm, eq_comm (a := k), eq_comm (a := r)]
  | pushRange k start stop =>
    simp only [RowOp.register, Transaction.Registers, Transaction.registerRange,
      mem_append, mem_singleton, Prod.mk.injEq]
    constructor
    · rintro (h | ⟨a, b, h | ⟨rfl, rfl, rfl⟩, hr⟩)
      · exact .inl (.inl h)
      · exact .inl (.inr ⟨a, b, h, hr⟩)
      · exact .inr ⟨rfl, hr⟩
    · rintro ((h | ⟨a, b, h, hr⟩) | ⟨rfl, hr⟩)
      · exact .inl h
      · exact .inr ⟨a, b, .inl h, hr⟩
      · exact .inr ⟨start, stop, .inr ⟨rfl, rfl, rfl⟩, hr⟩

variable {op : RowOp} {rest : List RowOp}

/-- What was registered or to come stays so when the first access is made. -/
lemma registered_or_willPush_cons
    {vm row : ℕ} (h : tx.Registers vm row ∨ WillPush (op :: rest) vm row) :
    (op.register tx).Registers vm row ∨ WillPush rest vm row := by
  rw [registers_register_iff]
  rcases h with h | ⟨op', hop', hpush⟩
  · exact .inl (.inl h)
  · rcases mem_cons.1 hop' with rfl | hop'
    · exact .inl (.inr hpush)
    · exact .inr ⟨op', hop', hpush⟩

lemma RegistersMarks.tail
    (h : RegistersMarks tx (op :: rest)) : RegistersMarks (op.register tx) rest :=
  fun op' hop' vm row hmark =>
    registered_or_willPush_cons (h op' (mem_cons_of_mem _ hop') vm row hmark)

namespace LockState

lemma Tracked.perform (h : s.Tracked) {rt : RunningTx} {op : RowOp} {rest : List RowOp}
    (hrt : s.live.lookup t = some rt) (htodo : rt.todo = op :: rest)
    (hok : ∀ vm row e, op = .mark vm row →
      (s.maps vm).markRow row t rt.tx.readTs = .error e → s.OwnedIn t rt.tx.Registers) :
    (s.perform t rt op rest).Tracked := by
  have hmarks := h.marks t rt hrt
  rw [htodo] at hmarks
  rcases s.perform_cases t rt op rest with ⟨maps, heq, hmaps⟩ | ⟨heq, vm, row, e, rfl, he⟩
  · rw [heq]
    -- what an access marks is registered or still to come
    refine h.update ⟨op.register rt.tx, rest⟩ hrt (fun k r t' howner => ?_) (fun k r hreg _ => ?_)
      hmarks.tail
    · exact (hmaps k r t' howner).imp_left fun hm =>
        ⟨hm.1, registered_or_willPush_cons (hmarks op mem_cons_self k r hm.2)⟩
    · rw [htodo] at hreg
      exact registered_or_willPush_cons hreg
  · rw [heq]
    refine h.update { rt with todo := [] } hrt (fun _ _ _ howner => .inr howner) ?_ ?_
    · exact fun k r _ howner => .inl (hok vm row e rfl he k r howner)
    · exact nofun

/-- A transaction that ends has no locks but those that are removed. -/
lemma Tracked.ends (h : s.Tracked) (ha : a.ends? = some t)
    (hok : s.StepOk a) (hstep : s.step a = some s') : s'.Tracked := by
  obtain ⟨rt, tm, maps, hrt, htodo, hnext, rfl, hmaps⟩ := step_ends ha hstep
  -- every entry the transaction owns is one that its end removes
  have hclean : s.OwnedIn t fun vm row => a.Removes rt.tx vm row := by
    intro vm row howner
    obtain ⟨rt₀, hrt₀, hreg⟩ := h.owned vm row t howner
    obtain rfl : rt₀ = rt := some.inj (hrt₀.symm.trans hrt)
    have hreg : rt₀.tx.Registers vm row := by
      rcases hreg with hreg | ⟨op, hop, -⟩
      · exact hreg
      · rw [htodo] at hop
        cases hop
    have hro : (∀ rt, s.live.lookup t = some rt → rt.tx.isReadOnly = true →
        s.OwnedIn t fun _ _ => False) → rt₀.tx.isReadOnly = false := by
      intro hreader
      cases hro : rt₀.tx.isReadOnly with
      | true => exact (hreader rt₀ hrt hro vm row howner).elim
      | false => rfl
    cases a with
    | commit | rollback =>
      cases ha
      exact ⟨hro hok, hreg⟩
    | drop t' =>
      cases ha
      exact hok vm row howner
    | _ => cases ha
  refine ⟨?_, ?_, fun t' rt' ht' => h.marks t' rt' (of_lookup_erase ht').2⟩
  · intro t' rt' ht'
    change t' < (tm.finish rt.tx).nextTxId
    rw [finish_nextTxId, hnext]
    exact h.fresh t' rt' (of_lookup_erase ht').2
  · intro vm row t' howner
    change (maps vm).owner row = some t' at howner
    have hreg : ¬ a.Removes rt.tx vm row := by
      intro hreg
      rw [(hmaps vm row).1 hreg] at howner
      cases howner
    rw [(hmaps vm row).2 hreg] at howner
    obtain ⟨rt', hrt', hreg'⟩ := h.owned vm row t' howner
    have hne : t' ≠ t := by
      rintro rfl
      exact hreg (hclean vm row howner)
    refine ⟨rt', ?_, hreg'⟩
    change (s.live.erase t).lookup t' = some rt'
    rw [AList.lookup_erase_ne hne, hrt']

lemma Tracked.beginAt (h : s.Tracked) (tx : Transaction) {tm : TransactionManager}
    (ht : t = s.tm.nextTxId) (hnext : tm.nextTxId = s.tm.nextTxId + 1) :
    Tracked { s with tm := tm, live := s.live.insert t ⟨tx, []⟩ } := by
  subst ht
  refine ⟨forall_insert (fun t' rt' ht' => ?_) (hnext ▸ Nat.lt_succ_self _),
    fun vm row t' howner => ?_, forall_insert h.marks nofun⟩
  · exact hnext ▸ Nat.lt_succ_of_lt (h.fresh t' rt' ht')
  · obtain ⟨rt', hrt', hreg⟩ := h.owned vm row t' howner
    have hne : t' ≠ s.tm.nextTxId := (h.fresh t' rt' hrt').ne
    exact ⟨rt', by rw [AList.lookup_insert_ne hne, hrt'], hreg⟩

/-- **One step.**  The steps that meet the condition keep every lock tracked. -/
lemma Tracked.step (h : s.Tracked) (hok : s.StepOk a)
    (hstep : s.step a = some s') : s'.Tracked := by
  cases a with
  | beginAt ro snap =>
    obtain ⟨⟨tx, tm⟩, hbegin, rfl⟩ := map_eq_some_iff.1 hstep
    obtain ⟨⟨txId, tm₀⟩, halloc, hreg⟩ := map_eq_some_iff.1 hbegin
    obtain ⟨rfl, rfl⟩ := allocTxId_eq_some halloc
    cases hreg
    exact h.beginAt _ rfl rfl
  | start t stmt =>
    obtain ⟨rt, hrt, htodo, ⟨⟩⟩ := of_bind_ite hstep
    refine h.update { rt with todo := stmt.ops } hrt (fun _ _ _ howner => .inr howner)
      ?_ (registersMarks_ops (hok rt hrt))
    rintro vm row (hreg | ⟨op, hop, -⟩) _
    · exact .inl hreg
    · rw [htodo] at hop
      cases hop
  | advance t =>
    obtain ⟨rt, hrt, hif⟩ := bind_eq_some_iff.1 hstep
    split at hif
    next rest htodo =>
      cases hif
      refine h.perform hrt htodo ?_
      rintro vm row e rfl he
      exact hok rt vm row rest e hrt htodo he
    · cases hif
  | commit | rollback | drop => exact h.ends rfl hok hstep

end LockState

/-- **No orphaned row locks.**  A step leaves a lock of a finished transaction behind just if it ends
a transaction that has locked a row whose mark the step does not remove.  That never happens in a
run in which every SET writes the rows it checks, every flush goes to columns that share one
`RowVersion`, every conflict finds the locks of its transaction
registered, and no transaction that has locked a row is dropped or was a reader. -/
theorem no_orphaned_row_locks (s : LockState) :
    (∀ (s' : LockState) (a : LockAction), s.NoOrphans → s.step a = some s' →
      (s'.NoOrphans ↔ s.EndsClean a)) ∧
    (lockSystem.ReachableBy LockState.StepOk s → s.NoOrphans) := by
  refine ⟨fun s' a h hstep => LockState.noOrphans_step_iff h hstep, fun h => ?_⟩
  have htracked : s.Tracked :=
    h.invariant (fun s hs => LockState.tracked_of_opened hs)
      fun s a s' _ hs hok hstep => hs.step hok hstep
  exact htracked.noOrphans

/-- Statements that write what they check, no conflict, and the end of writers by commit or
rollback. -/
def LockState.calm (s : LockState) : LockAction → Bool
  | .beginAt _ _ => true
  | .start _ (.set chunks) => chunks.all fun c => c.all fun x => x.2.all fun row => row.1 ∈ row.2
  | .start _ (.flush _ _ columns) =>
      columns.all fun col => columns.head?.all fun first => col.versionInfo == first.versionInfo
  | .start _ _ => true
  | .advance t => (s.live.lookup t).all fun rt =>
      match rt.todo with
      | .mark vm row :: _ => ((s.maps vm).markRow row t rt.tx.readTs).isOk
      | _ => true
  | .commit t | .rollback t => (s.live.lookup t).all fun rt => !rt.tx.isReadOnly
  | .drop _ => false

lemma LockState.stepOk_of_calm (h : s.calm a = true) : s.StepOk a := by
  cases a with
  | beginAt => trivial
  | start t stmt =>
    intro rt _
    cases stmt with
    | set chunks =>
      intro assignments hmem x hx row hrow
      have hrows := all_eq_true.1 (all_eq_true.1 (all_eq_true.1 h _ hmem) x hx) row hrow
      exact .inl (of_decide_eq_true hrows)
    | flush start count columns =>
      intro col hcol first hfirst
      have hall := all_eq_true.1 h col hcol
      rw [hfirst, Option.all_some] at hall
      exact eq_of_beq hall
    | _ => trivial
  | advance t =>
    intro rt vm row rest e hrt htodo he
    rw [calm, hrt, Option.all_some, htodo] at h
    dsimp only at h
    rw [he] at h
    cases h
  | commit t | rollback t =>
    intro rt hrt hro
    rw [calm, hrt, Option.all_some, hro] at h
    cases h
  | drop t => cases h

/-- Transaction 1 sets a row while transaction 2 creates one and flushes it; 1 commits, 2 is rolled
back. -/
def calmRun : List LockAction :=
  [.beginAt false none, .beginAt false none, .start 1 (.set [[(0, [(7, [7])])]]),
    .start 2 (.reserve [.plain 0, .plain 0] 8 1), .advance 1, .advance 2, .advance 2,
    .start 2 (.flush 8 1 [.plain 0, .plain 0]), .advance 1, .advance 2, .advance 2, .advance 1,
    .commit 1, .advance 2, .rollback 2]

/-- After the run both rows are free again. -/
theorem no_orphaned_row_locks_calm :
    ∃ s, lockSystem.execIf LockState.calm .initial calmRun = some s ∧ s.live.keys = [] ∧
      (s.maps 0).owner 7 = none ∧ (s.maps 0).owner 8 = none ∧ s.NoOrphans := by
  have hobs : ((lockSystem.execIf LockState.calm .initial calmRun).map fun s =>
      (s.live.keys, (s.maps 0).owner 7, (s.maps 0).owner 8)) = some ([], none, none) := by
    decide +kernel
  obtain ⟨s, hrun, hs⟩ := map_eq_some_iff.1 hobs
  rw [Prod.mk.injEq, Prod.mk.injEq] at hs
  have hinit : lockSystem.ReachableBy LockState.StepOk .initial := .init ⟨fun _ _ => rfl, rfl⟩
  have hreach := hinit.execIf (fun _ _ _ h => LockState.stepOk_of_calm h) hrun
  exact ⟨s, hrun, hs.1, hs.2.1, hs.2.2, (no_orphaned_row_locks s).2 hreach⟩

/-- Transaction 1 marks row 0 and then meets row 1, which transaction 2 has marked, in the check of a
SET and in a batch append, and is rolled back; or it appends a value and is dropped; or it creates a
row in a vm whose second column was added and commits.  With each run the `RowVersion` that keeps
the mark. -/
def orphaningRuns : List (List LockAction × ℕ) :=
  let other : List LockAction := [.beginAt false none, .beginAt false none,
    .start 2 (.append 0 [1]), .advance 2, .advance 2]
  [(other ++ [.start 1 (.set [[(0, [(0, [0]), (1, [1])])]]), .advance 1, .advance 1, .rollback 1], 0),
   (other ++ [.start 1 (.batchAppend 0 2 [.plain 0]), .advance 1, .advance 1, .rollback 1], 0),
   ([.beginAt false none, .start 1 (.append 0 [0]), .advance 1, .advance 1, .drop 1], 0),
   ([.beginAt false none, .start 1 (.reserve [.plain 0, .plain 1] 0 1), .advance 1, .advance 1,
     .start 1 (.flush 0 1 [.plain 0, .plain 1]), .advance 1, .advance 1, .advance 1, .commit 1], 1)]

/-- **A lock without an owner.**  Each of the runs leaves row 0 locked by transaction 1, which has
ended, and a later transaction is refused. -/
theorem row_lock_outlives_transaction : orphaningRuns ≠ [] ∧
    ∀ run ∈ orphaningRuns, ∃ s, lockSystem.exec .initial run.1 = some s ∧ lockSystem.Reachable s ∧
      ¬ s.NoOrphans ∧
      (s.maps run.2).markRow 0 3 s.tm.currentTs = .error (activeConflict 0 1) := by
  refine ⟨cons_ne_nil _ _, fun run hmem => ?_⟩
  have hobs : ∀ run ∈ orphaningRuns, ((lockSystem.exec .initial run.1).map fun s =>
      ((s.maps run.2).owner 0, (s.live.lookup 1).isSome)) = some (some 1, false) := by
    decide +kernel
  have hobs := hobs run hmem
  cases hrun : lockSystem.exec .initial run.1 with
  | none =>
    rw [hrun] at hobs
    cases hobs
  | some s =>
    rw [hrun, map_some, some.injEq, Prod.mk.injEq] at hobs
    have hinit : lockSystem.Reachable .initial := .init ⟨fun _ _ => rfl, rfl⟩
    refine ⟨s, rfl, hinit.exec hrun, ?_, ?_⟩
    · intro hno
      rw [hno run.2 0 1 hobs.1] at hobs
      cases hobs.2
    · rw [markRow, hobs.1]
      rfl

end LightningDB
