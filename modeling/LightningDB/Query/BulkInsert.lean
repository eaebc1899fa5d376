import LightningDB.Query.Rows

/-!
# Inserts that bypass the query path

`bulk_insert_batch` appends the rows of a batch in a transaction of its own.  It looks up the keys of
the batch in the primary key index first: a row whose key is found is written over the row of that id,
and the others get the next ids of the table.

No two rows of a batch are compared with each other.  `bulk_insert_ids_iff` has the exact condition under
which the ids are distinct and those of no row, and equal keys are rejected.  A batch may also be
rejected for other reasons; `isOk_bulkInsertBatch` has them, in terms of the batch and the database
before the call.
-/

namespace LightningDB

open Store Op

variable {Schema : Type}

/-- The type of the key column of a batch, as far as inserts tell types apart. -/
inductive KeyType where
  | string
  | int64
  | other
deriving DecidableEq

/-- A `RecordBatch`: its rows, without `_id` and all of one length; the type of the key column; and the
columns of float lists that have the dimension of the vector index. -/
structure InsertBatch where
  rows : List (List Value)
  width : ℕ
  uniform : ∀ row ∈ rows, row.length = width
  keyType : KeyType
  vectorColumns : List ℕ

/-- What the index has for a value of the key column; `asF64` makes `Value::Number(n as f64)` of an
integer. -/
def KeyType.indexKey (asF64 : Value → Value) : KeyType → Value → Option Value
  | .string, .null | .int64, .null | .other, _ => none
  | .string, v => some v
  | .int64, v => some (asF64 v)

/-- The ids of the rows: those that have been found, and the next ones. -/
def assignIds : ℕ → List (Option ℕ) → List ℕ
  | _, [] => []
  | next, some id :: existing => id :: assignIds next existing
  | next, none :: existing => next :: assignIds (next + 1) existing

variable (asF64 : Value → Value) (t : Table) (batch : InsertBatch)

namespace InsertBatch

variable (v : View Schema)

/-- The value of the key column in a row.  The batch has no `_id`, so that the column is one place
earlier than in the table. -/
def keyValue (row : List Value) : Option Value := t.primaryKey.map fun pk => row.getD (pk - 1) .null

def keys : List Value := (batch.rows.filterMap (keyValue t)).filter (· ≠ .null)

def indexKey (row : List Value) : Option Value :=
  (keyValue t row).bind (batch.keyType.indexKey asF64)

def found (row : List Value) : Option ℕ := (batch.indexKey asF64 t row).bind (indexLookup v t.id)

/-- `existing_row_ids`. -/
def existingIds : List (Option ℕ) := batch.rows.map (batch.found asF64 t v)

/-- `new_count`.  With keys of another type it stays at zero, although all rows are new. -/
def newCount : ℕ :=
  if t.primaryKey.isNone then batch.rows.length
  else if batch.keyType = .other then 0
  else (batch.existingIds asF64 t v).count none

/-- `row_ids`. -/
def rowIds : List ℕ := assignIds (v.shared.nextRowId t.id) (batch.existingIds asF64 t v)

/-- `final_batch`: the rows with their ids. -/
def finalRows : List (List Value) :=
  ((batch.rowIds asF64 t v).zip batch.rows).map fun x => .node x.1 :: x.2

def newRows : List (List Value) :=
  ((((batch.existingIds asF64 t v).zip batch.rows).filter (·.1.isNone)).map (·.2)).zipIdx
    (v.shared.nextRowId t.id) |>.map fun x => .node x.2 :: x.1

/-- The rows of the batch that are there already, with their ids. -/
def updates : List (ℕ × List Value) :=
  ((batch.existingIds asF64 t v).zip (batch.finalRows asF64 t v)).filterMap fun x =>
    x.1.map (·, x.2)

def indexed : List (Value × ℕ) :=
  ((batch.existingIds asF64 t v).zip ((batch.rowIds asF64 t v).zip batch.rows)).filterMap fun x =>
    if x.1.isSome then none else (batch.indexKey asF64 t x.2.2).map (·, x.2.1)

def vectorUpserts : List (Effect Schema) :=
  if t.vector.isNone then []
  else
    batch.vectorColumns.flatMap fun col =>
      ((batch.rowIds asF64 t v).zip (batch.finalRows asF64 t v)).map fun x =>
        .indexMutation (.vectorUpsert t.id x.1 (x.2.getD col .null))

/-- The mutations of the full-text index. -/
def ftsInserts : List (Effect Schema) :=
  if t.hasFts then
    ((batch.rowIds asF64 t v).zip (batch.finalRows asF64 t v)).filterMap fun x =>
      match (stringFields t x.2).filter (·.2 ≠ "") with
      | [] => none
      | fields => some (.indexMutation (.ftsInsert t.id x.1 fields))
  else []

/-- The values of a row that is there already, except for its id. -/
def updateRow (x : ℕ × List Value) (next : Op Schema) : Op Schema :=
  forEach ((List.range' 1 (t.columns.length - 1)).filter (· < x.2.length))
    (fun col next => appendValue t col x.1 (x.2.getD col .null) next) next

variable (pool : List ℕ)

/-- What `bulk_insert_batch` writes for the rows. -/
def write (next : Op Schema) : Op Schema :=
  if batch.updates asF64 t v = [] then
    .perform (.bulkAppend t.id (v.shared.nextRowId t.id) (batch.finalRows asF64 t v) pool) next
  else
    .perform (.bulkAppend t.id (v.shared.nextRowId t.id) (batch.newRows asF64 t v) pool) <|
    forEach (batch.updates asF64 t v) (updateRow t) next

/-- `bulk_insert_batch`, up to its commit; `pool` are the columns that a thread pool gets to. -/
def insertOp : Op Schema :=
  .read fun v =>
    .perform (.share (·.allocate t.id (batch.newCount asF64 t v))) <|
    performAll ((List.range' (v.shared.nextRowId t.id) (batch.newCount asF64 t v)).map
      (.noteAllocated t.id)) <|
    batch.write asF64 t v pool <|
    forEach (batch.indexed asF64 t v) (fun x => indexInsert t.id x.1 x.2) <|
    performAll (batch.vectorUpserts asF64 t v) <|
    performAll (batch.ftsInserts asF64 t v) .done

end InsertBatch

/-- The end of an insert: the rest of the write buffers, and the commit. -/
def Store.finishInsert (r : Ran Schema (List Chunk)) : Ran Schema Unit :=
  r.andThen fun _ tx s => (s.flushAllPending tx).andThen fun _ tx s => s.commit tx

/-- `bulk_insert_batch`.  A transaction that is left by an error is dropped. -/
def Store.bulkInsertBatch (asF64 : Value → Value) (readOnly : Bool) (t : Table)
    (batch : InsertBatch) (pool : List ℕ) (s : Store Schema) : Except LightningError ℕ × Store Schema :=
  if readOnly then (.error (.config "Database is opened as read-only"), s)
  else
    match s.beginAt false none with
    | .error e => (.error e, s)
    | .ok (tx, s) =>
      let r := finishInsert ((batch.insertOp asF64 t pool).run tx s)
      match r.result with
      | .error e => (.error e, r.store.drop r.tx)
      | .ok () =>
        (.ok batch.rows.length,
          { r.store.drop r.tx with
            shared := (r.store.drop r.tx).shared.addNumRows t.id
              (batch.newCount asF64 t (s.view tx.tx)) })

/-! ## The ids of the rows -/

/-- The ids are distinct and those of no row there is, and a batch in which two rows carry the same key
is rejected and changes no value of a table or an index. -/
structure BulkInsertRight (asF64 : Value → Value) (t : Table) (batch : InsertBatch)
    (s : Store Schema) (after : Except LightningError ℕ × Store Schema) : Prop where
  distinct : after.1.isOk = true → (batch.rowIds asF64 t (s.view s.nextTx)).Nodup
  fresh : after.1.isOk = true →
    ∀ id ∈ batch.rowIds asF64 t (s.view s.nextTx), ¬ s.Used s.nextTx t.id id
  rejected : ¬ (batch.keys t).Nodup → after.1.isOk = false ∧ after.2.pages = s.pages

/-- The condition on a batch that is accepted: no two rows carry the same key; the ids that the index has
for its keys are those of no row and all different; and the next ids are not in use either. -/
structure FreshKeys (t : Table) (batch : InsertBatch) (s : Store Schema) (found new : List ℕ) :
    Prop where
  keys : (batch.keys t).Nodup
  different : found.Nodup
  stale : ∀ id ∈ found, ¬ s.Used s.nextTx t.id id
  apart : ∀ id ∈ found, id ∉ new
  unused : ∀ id ∈ new, ¬ s.Used s.nextTx t.id id

def InsertBatch.newIds (s : Store Schema) : List ℕ :=
  List.range' (s.shared.nextRowId t.id) ((batch.existingIds asF64 t (s.view s.nextTx)).count none)

/-- A write to a row is refused to a transaction that begins now and has marked the new ids: another
one is modifying the row, or a later commit has. -/
def Store.Busy (s : Store Schema) (new : List ℕ) (id : ℕ) : Prop :=
  (id ∉ new ∧ ∃ t' ≠ s.nextTx.txId, (s.rows t.id).owner id = some t') ∨
    ∃ entry, (s.rows t.id).history id = some entry ∧ s.nextTx.readTs < entry.lastTs

/-- The batches that are rejected: the database is read-only, or has no transaction id or timestamp left;
a new row has a value for a compressed column, or a key that the index cannot hold; or a row that is
there already has a value for a compressed column, or is busy. -/
def InsertRefused (readOnly : Bool) (s : Store Schema) : Prop :=
  readOnly = true ∨ s.tm.nextTxId = u64Max ∨ s.tm.currentTs = u64Max ∨
    ∃ row ∈ batch.rows,
      match batch.found asF64 t (s.view s.nextTx) row with
      | none =>
        (∃ col < t.columns.length, col ≤ batch.width ∧ s.shared.isCompressed t.id col = true) ∨
          ∃ key, batch.indexKey asF64 t row = some key ∧ key.indexError ≠ none
      | some id =>
        ∃ col < t.columns.length, 0 < col ∧ col ≤ batch.width ∧
          (s.shared.isCompressed t.id col = true ∨ s.Busy t (batch.newIds asF64 t s) id)

lemma perm_assignIds (next : ℕ) (existing : List (Option ℕ)) : (assignIds next existing).Perm
      (existing.filterMap id ++ List.range' next (existing.count none)) := by
  induction existing generalizing next with
  | nil => exact .nil
  | cons x existing ih =>
    cases x with
    | some id => simpa [assignIds] using ih next
    | none =>
      rw [List.count_cons_self]
      exact ((ih (next + 1)).cons next).trans List.perm_middle.symm

/-- Steps that write to committed pages only if they succeed. -/
lemma pages_andThen_of_error {α β : Type} {r : Ran Schema α}
    {next : α → TxState Schema → Store Schema → Ran Schema β}
    (hnext : ∀ a tx s, (next a tx s).result.isOk = false → (next a tx s).store.pages = s.pages)
    (h : (r.andThen next).result.isOk = false) : (r.andThen next).store.pages = r.store.pages := by
  rw [Ran.andThen] at h ⊢
  cases hr : r.result with
  | ok a =>
    rw [hr] at h
    exact hnext a r.tx r.store h
  | error e => rfl

variable {s : Store Schema}

lemma pages_commit_of_error {tx : TxState Schema}
    (h : (s.commit tx).result.isOk = false) : (s.commit tx).store.pages = s.pages := by
  rw [commit] at h ⊢
  by_cases hreader : tx.tx.isReadOnly = true
  · rw [if_pos hreader] at h
    cases h
  · rw [if_neg hreader] at h ⊢
    refine (pages_andThen_of_error (fun _ tx s herr => ?_) h).trans (pages_flushTables ..)
    cases hts : s.tm.nextCommitTs with
    | none => rfl
    | some x =>
      rw [hts] at herr
      cases herr

lemma pages_finishInsert_of_error {r : Ran Schema (List Chunk)}
    (h : (finishInsert r).result.isOk = false) : (finishInsert r).store.pages = r.store.pages :=
  pages_andThen_of_error
    (fun _ _ _ herr => (pages_andThen_of_error (fun _ _ _ => pages_commit_of_error) herr).trans
      (pages_flushTables ..)) h

lemma pages_drop (s : Store Schema) (tx : TxState Schema) : (s.drop tx).pages = s.pages := by
  rw [drop]
  split
  · rfl
  · split <;> rfl

/-- Effects that only write a value or note something. -/
def Effect.Light : Effect Schema → Prop
  | .put .. | .register .. | .indexMutation _ | .noteAllocated .. => True
  | _ => False

lemma Effect.Light.inner {e : Effect Schema} (he : e.Light) : e.Inner := by
  cases e with
  | put | register | indexMutation | noteAllocated => trivial
  | _ => exact he.elim

namespace InsertBatch

variable (v : View Schema)

lemma light_vectorUpserts : ∀ e ∈ (batch.vectorUpserts asF64 t v), e.Light := by
  intro e he
  rw [vectorUpserts] at he
  split at he
  · cases he
  · obtain ⟨col, -, he⟩ := List.mem_flatMap.1 he
    obtain ⟨x, -, rfl⟩ := List.mem_map.1 he
    trivial

lemma light_ftsInserts : ∀ e ∈ (batch.ftsInserts asF64 t v), e.Light := by
  intro e he
  rw [ftsInserts] at he
  split at he
  · obtain ⟨x, -, hx⟩ := List.mem_filterMap.1 he
    split at hx
    · cases hx
    · cases hx
      trivial
  · cases he

lemma inner_insertOp (pool : List ℕ) : (batch.insertOp asF64 t pool : Op Schema).Inner := by
  intro v
  refine ⟨trivial, inner_performAll ?_ ?_⟩
  · intro e he
    obtain ⟨-, -, rfl⟩ := List.mem_map.1 he
    trivial
  have hrest : (forEach (batch.indexed asF64 t v) (fun x => indexInsert t.id x.1 x.2) <|
      performAll (batch.vectorUpserts asF64 t v) <|
      performAll (batch.ftsInserts asF64 t v) .done).Inner := by
    refine inner_forEach (fun x _ op hop => ?_)
      (inner_performAll (fun e he => (batch.light_vectorUpserts asF64 t v e he).inner)
        (inner_performAll (fun e he => (batch.light_ftsInserts asF64 t v e he).inner) trivial))
    rw [indexInsert]
    split
    · trivial
    · exact fun _ => ⟨trivial, hop⟩
  rw [write]
  split
  · exact ⟨trivial, hrest⟩
  · refine ⟨trivial, inner_forEach (fun x _ op hop => ?_) hrest⟩
    exact inner_forEach (fun col _ op hop => inner_appendValue t _ _ _ hop) hop

end InsertBatch

lemma pages_beginAt {s s' : Store Schema} {isReadOnly : Bool} {snapshotTs : Option ℕ}
    {own : TxState Schema} (h : s.beginAt isReadOnly snapshotTs = .ok (own, s')) :
    s'.pages = s.pages := by
  rw [beginAt] at h
  split at h
  · cases h
  · cases h
    rfl

/-! ## When a batch is rejected -/

namespace RowVersion

variable {rv : RowVersion} {row t readTs : ℕ}

/-- `mark_row` fails: another transaction is modifying the row, or has committed it since. -/
def Refuses (rv : RowVersion) (row t readTs : ℕ) : Prop :=
  (∃ t' ≠ t, rv.owner row = some t') ∨
    ∃ entry, rv.history row = some entry ∧ readTs < entry.lastTs

lemma markRow_of_refuses (h : rv.Refuses row t readTs) :
    ∃ msg, rv.markRow row t readTs = .error msg := by
  cases hmark : rv.markRow row t readTs with
  | error msg => exact ⟨msg, rfl⟩
  | ok rv' =>
    obtain ⟨-, howner, hhistory⟩ := markRow_eq_ok hmark
    rcases h with ⟨t', hne, ht'⟩ | ⟨entry, hentry, hlt⟩
    · exact absurd (howner t' ht') hne
    · exact absurd (hhistory entry hentry) (not_le.2 hlt)

lemma markRow_of_not_refuses (h : ¬ rv.Refuses row t readTs) :
    rv.markRow row t readTs = .ok (rv.setOwner row t) := by
  obtain ⟨howner, hhistory⟩ := not_or.1 h
  have hcheck : markRow.checkCommitted rv row t readTs = .ok (rv.setOwner row t) := by
    rw [markRow.checkCommitted]
    cases hentry : rv.history row with
    | none => rfl
    | some entry => exact if_neg fun hlt => hhistory ⟨entry, hentry, hlt⟩
  rw [markRow]
  cases ht' : rv.owner row with
  | none => exact hcheck
  | some t' => exact (if_neg fun hne => howner ⟨t', hne, ht'⟩).trans hcheck

end RowVersion

namespace Op

variable {I I' J : TxState Schema → Store Schema → Prop} {op : Op Schema} {e : Effect Schema}
  {c d : Prop}

/-- From a state in `I` the operator succeeds exactly if `c` holds, and then it ends in one in `J`. -/
def Decides (I J : TxState Schema → Store Schema → Prop) (op : Op Schema) (c : Prop) : Prop :=
  ∀ tx s, I tx s → ((op.run tx s).result.isOk = true ↔ c) ∧
    ((op.run tx s).result.isOk = true → J (op.run tx s).tx (op.run tx s).store)

lemma Decides.congr (h : op.Decides I J c) (hc : c ↔ d) : op.Decides I J d :=
  fun tx s hs => ⟨(h tx s hs).1.trans hc, (h tx s hs).2⟩

lemma decides_done : (done : Op Schema).Decides I I True :=
  fun _ _ h => ⟨iff_of_true rfl trivial, fun _ => h⟩

lemma decides_fail (e : LightningError) : (fail e : Op Schema).Decides I J False :=
  fun _ _ _ => ⟨iff_of_false Bool.false_ne_true id, fun h => absurd h Bool.false_ne_true⟩

lemma Decides.read {next : View Schema → Op Schema}
    (h : ∀ tx s, I tx s → (next (s.view tx.tx)).Decides I J c) : (read next).Decides I J c :=
  fun tx s hs => h tx s hs tx s hs

/-- An effect that succeeds exactly if `c` holds. -/
lemma Decides.perform
    (he : ∀ tx s, I tx s → (c ∧ ∃ tx' s', e.apply tx s = ⟨.ok (), tx', s'⟩ ∧ I' tx' s') ∨
      (¬ c ∧ ∃ err tx' s', e.apply tx s = ⟨.error err, tx', s'⟩))
    (h : op.Decides I' J d) : (perform e op).Decides I J (c ∧ d) := by
  intro tx s hs
  rw [run]
  rcases he tx s hs with ⟨hc, tx', s', heq, hs'⟩ | ⟨hc, err, tx', s', heq⟩
  · rw [heq, and_iff_right hc]
    exact h tx' s' hs'
  · rw [heq]
    exact ⟨iff_of_false Bool.false_ne_true fun h => hc h.1, fun h => absurd h Bool.false_ne_true⟩

lemma Decides.perform_ok
    (he : ∀ tx s, I tx s → ∃ tx' s', e.apply tx s = ⟨.ok (), tx', s'⟩ ∧ I' tx' s')
    (h : op.Decides I' J d) : (Op.perform e op).Decides I J d := by
  have hboth := Decides.perform (c := True) (fun tx s hs => .inl ⟨trivial, he tx s hs⟩) h
  rwa [true_and] at hboth

lemma decides_forEach {α : Type} {l : List α} {body : α → Op Schema → Op Schema} {c : α → Prop}
    (hbody : ∀ a ∈ l, ∀ op d, op.Decides I J d → (body a op).Decides I J (c a ∧ d))
    (h : op.Decides I J d) : (forEach l body op).Decides I J ((∀ a ∈ l, c a) ∧ d) := by
  induction l with
  | nil => simpa [forEach] using h
  | cons a l ih =>
    have hboth := hbody a (.head _) _ _ (ih fun b hb => hbody b (.tail _ hb))
    rwa [← and_assoc, ← List.forall_mem_cons] at hboth

lemma decides_performAll {es : List (Effect Schema)}
    (hes : ∀ e ∈ es, ∀ tx s, I tx s → ∃ tx' s', e.apply tx s = ⟨.ok (), tx', s'⟩ ∧ I tx' s')
    (h : op.Decides I J d) : (performAll es op).Decides I J d := by
  have hall : (forEach es Op.perform op).Decides I J ((∀ e ∈ es, True) ∧ d) :=
    decides_forEach (fun e he op d hop => by
      rw [true_and]
      exact .perform_ok (hes e he) hop) h
  rw [performAll]
  simpa using hall

end Op

/-- What decides about the steps of an insert while it runs; `others` are the rows that other
transactions are modifying. -/
structure Inserting (s₀ : Store Schema) (table : ℕ) (others : ℕ → Prop) (tx : TxState Schema)
    (s : Store Schema) : Prop where
  txId : tx.tx.txId = s₀.nextTx.txId
  readTs : tx.tx.readTs = s₀.nextTx.readTs
  writer : tx.tx.isReadOnly = false
  currentTs : s.tm.currentTs = s₀.tm.currentTs
  compressed : s.shared.compressed = s₀.shared.compressed
  columns : s.shared.columns = s₀.shared.columns
  buffers : s.buffers tx.tx.txId = []
  others : ∀ row, (∃ t' ≠ tx.tx.txId, (s.rows table).owner row = some t') ↔ others row
  history : ∀ row, (s.rows table).history row = (s₀.rows table).history row

/-- The rows that have been committed after the snapshot of the insert. -/
def Store.Late (s : Store Schema) (table row : ℕ) : Prop :=
  ∃ entry, (s.rows table).history row = some entry ∧ s.nextTx.readTs < entry.lastTs

section inserting

variable {s₀ : Store Schema} {table : ℕ} {others : ℕ → Prop} {tx : TxState Schema}
  {J : TxState Schema → Store Schema → Prop} {op : Op Schema} {d : Prop}

lemma Inserting.isCompressed (h : Inserting s₀ table others tx s) (tb col : ℕ) :
    s.shared.isCompressed tb col = s₀.shared.isCompressed tb col := by
  rw [Shared.isCompressed, Shared.isCompressed, h.compressed]

lemma Inserting.refuses (h : Inserting s₀ table others tx s) (row : ℕ) :
    (s.rows table).Refuses row tx.tx.txId tx.tx.readTs ↔ others row ∨ s₀.Late table row := by
  rw [RowVersion.Refuses, h.others, h.history, h.readTs, Late]

lemma Inserting.apply_of_light {e : Effect Schema} (he : e.Light)
    (h : Inserting s₀ table others tx s) :
    ∃ tx' s', e.apply tx s = ⟨.ok (), tx', s'⟩ ∧ Inserting s₀ table others tx' s' := by
  cases e with
  | put | register | indexMutation | noteAllocated =>
    exact ⟨_, _, rfl, h.txId, h.readTs, h.writer, h.currentTs, h.compressed, h.columns, h.buffers,
      h.others, h.history⟩
  | _ => exact he.elim

/-- A row is marked exactly if no other transaction is modifying it or has committed it since; what is
known of the other rows stays. -/
lemma decides_mark (row : ℕ) (h : op.Decides (Inserting s₀ table others) J d) :
    (perform (.mark table row) op).Decides (Inserting s₀ table others) J
      (¬ (others row ∨ s₀.Late table row) ∧ d) := by
  refine .perform (fun tx s hs => ?_) h
  rw [Effect.apply, ← hs.refuses row]
  by_cases hrefuses : (s.rows table).Refuses row tx.tx.txId tx.tx.readTs
  · obtain ⟨msg, hmark⟩ := RowVersion.markRow_of_refuses hrefuses
    rw [hmark]
    exact .inr ⟨not_not.2 hrefuses, _, _, _, rfl⟩
  · rw [RowVersion.markRow_of_not_refuses hrefuses]
    refine .inl ⟨hrefuses, _, _, rfl, hs.txId, hs.readTs, hs.writer, hs.currentTs, hs.compressed,
      hs.columns, hs.buffers, fun r => ?_, fun r => ?_⟩
    · rw [← hs.others r]
      simp only [onVersion, Function.update_self, RowVersion.owner_setOwner]
      by_cases hr : r = row
      · subst hr
        rw [if_pos rfl]
        refine iff_of_false ?_ fun howner => hrefuses (.inl howner)
        rintro ⟨t', hne, ht'⟩
        exact hne (Option.some.inj ht').symm
      · rw [if_neg hr]
    · simp only [onVersion, Function.update_self, RowVersion.history_setOwner, hs.history]

lemma decides_allocate (n : ℕ) (h : op.Decides (Inserting s₀ table others) J d) :
    (perform (.share (·.allocate table n)) op).Decides (Inserting s₀ table others) J d :=
  .perform_ok (fun _ _ hs => ⟨_, _, rfl, hs.txId, hs.readTs, hs.writer, hs.currentTs, hs.compressed,
    hs.columns, hs.buffers, hs.others, hs.history⟩) h

lemma decides_ensureWritable {t : Table} (col : ℕ)
    (h : op.Decides (Inserting s₀ t.id others) J d) :
    (ensureWritable t col op).Decides (Inserting s₀ t.id others) J
      (¬ s₀.shared.isCompressed t.id col = true ∧ d) := by
  refine .read fun tx s hs => ?_
  have hcol : (s.view tx.tx).shared.isCompressed t.id col = s₀.shared.isCompressed t.id col :=
    hs.isCompressed ..
  rw [hcol]
  by_cases hc : s₀.shared.isCompressed t.id col = true
  · rw [if_pos hc]
    exact (decides_fail _).congr (iff_of_false id fun hd => hd.1 hc)
  · rw [if_neg hc, and_iff_right hc]
    exact h

lemma decides_appendValue {t : Table} (col row : ℕ) (v : Value)
    (h : op.Decides (Inserting s₀ t.id others) J d) :
    (appendValue t col row v op).Decides (Inserting s₀ t.id others) J
      ((¬ s₀.shared.isCompressed t.id col = true ∧ ¬ (others row ∨ s₀.Late t.id row)) ∧ d) := by
  rw [and_assoc]
  refine decides_ensureWritable col (.perform_ok (fun _ _ hs => hs.apply_of_light trivial) ?_)
  exact decides_mark row (.perform_ok (fun _ _ hs => hs.apply_of_light trivial) h)

lemma decides_indexInsert (tb : ℕ) (key : Value) (row : ℕ)
    (h : op.Decides (Inserting s₀ table others) J d) :
    (indexInsert tb key row op).Decides (Inserting s₀ table others) J (key.indexError = none ∧ d) := by
  rw [indexInsert]
  cases key.indexError with
  | some e => exact (decides_fail e).congr (iff_of_false id fun hd => nomatch hd.1)
  | none =>
    rw [and_iff_right rfl]
    exact .read fun _ _ _ => .perform_ok (fun _ _ hs => hs.apply_of_light trivial) h

/-- A batch is appended exactly if it has no compressed column, and its rows are then the insert's. -/
lemma decides_bulkAppend (start : ℕ) (rows : List (List Value)) (pool : List ℕ)
    (hcols : rows ≠ [] → batchColumns table rows s₀.shared ≠ [])
    (h : op.Decides
      (Inserting s₀ table fun id => id ∉ List.range' start rows.length ∧ others id) J d) :
    (perform (.bulkAppend table start rows pool) op).Decides (Inserting s₀ table others) J
      (s₀.shared.firstCompressed table rows = none ∧ d) := by
  refine .perform (fun tx s hs => ?_) h
  have hbatch : batchColumns table rows s.shared = batchColumns table rows s₀.shared := by
    rw [batchColumns, batchColumns, hs.columns]
  have hfirst : s.shared.firstCompressed table rows = s₀.shared.firstCompressed table rows := by
    rw [Shared.firstCompressed, Shared.firstCompressed, hbatch,
      funext fun col => hs.isCompressed table col]
  rw [Effect.apply, ← hfirst]
  by_cases hrows : rows = []
  · subst hrows
    refine .inl ⟨by simp [Shared.firstCompressed, batchColumns], tx, s, rfl, hs.txId, hs.readTs,
      hs.writer, hs.currentTs, hs.compressed, hs.columns, hs.buffers, fun r => ?_, hs.history⟩
    simpa using hs.others r
  · cases hc : s.shared.firstCompressed table rows with
    | some k =>
      obtain ⟨e, tx', s', hrun, -⟩ := bulkAppendBatch_of_compressed table start rows tx s pool hrows hc
      exact .inr ⟨Option.some_ne_none k, e, tx', s', hrun⟩
    | none =>
      have hshared : ∀ n, (s.shared.appendRows table start n).compressed = s.shared.compressed ∧
          (s.shared.appendRows table start n).columns = s.shared.columns := by
        intro n
        rw [Shared.appendRows]
        split <;> exact ⟨rfl, rfl⟩
      refine .inl ⟨rfl, _, _, bulkAppendBatch_of_writable table start rows tx s pool hc hrows, ?_⟩
      rw [hbatch, appendColumns, if_neg (hcols hrows)]
      refine ⟨hs.txId, hs.readTs, hs.writer, hs.currentTs, (hshared _).1.trans hs.compressed,
        (hshared _).2.trans hs.columns, hs.buffers, fun r => ?_, fun r => ?_⟩
      · rw [← hs.others r, List.mem_range'_1]
        simp only [putCells, markRange, onVersion, Function.update_self, owner_markRowBatch,
          Transaction.registerRange]
        by_cases hr : start ≤ r ∧ r < start + rows.length
        · simp [hr]
        · simp [hr]
      · simp only [putCells, markRange, onVersion, Function.update_self,
          RowVersion.history_markRowBatch, hs.history]

end inserting

namespace InsertBatch

variable {asF64 t batch} {v : View Schema}

def appended (asF64 : Value → Value) (t : Table) (batch : InsertBatch) (v : View Schema) :
    List (List Value) :=
  if batch.updates asF64 t v = [] then batch.finalRows asF64 t v else batch.newRows asF64 t v

lemma write_eq (pool : List ℕ) (next : Op Schema) : batch.write asF64 t v pool next =
    .perform (.bulkAppend t.id (v.shared.nextRowId t.id) (batch.appended asF64 t v) pool)
      (forEach (batch.updates asF64 t v) (updateRow t) next) := by
  rw [write, appended]
  split
  next hnil =>
    rw [hnil]
    rfl
  · rfl

lemma length_assignIds (next : ℕ) (existing : List (Option ℕ)) :
    (assignIds next existing).length = existing.length := by
  induction existing generalizing next with
  | nil => rfl
  | cons x existing ih => cases x <;> exact congrArg (· + 1) (ih _)

lemma length_rowIds : (batch.rowIds asF64 t v).length = batch.rows.length := by
  rw [rowIds, length_assignIds, existingIds, List.length_map]

lemma mem_updates {x : ℕ × List Value} : x ∈ batch.updates asF64 t v ↔
    ∃ (i : ℕ) (row : List Value) (id : ℕ), batch.rows[i]? = some row ∧ (batch.rowIds asF64 t v)[i]? = some id ∧
      batch.found asF64 t v row = some x.1 ∧ x.2 = .node id :: row := by
  obtain ⟨id, values⟩ := x
  rw [updates, existingIds, finalRows, List.mem_filterMap]
  constructor
  · rintro ⟨⟨found, values'⟩, hmem, hx⟩
    obtain ⟨id', rfl, hx⟩ := Option.map_eq_some_iff.1 hx
    cases hx
    obtain ⟨i, hi⟩ := List.mem_iff_getElem?.1 hmem
    rw [List.getElem?_zip_eq_some, List.getElem?_map, List.getElem?_map] at hi
    obtain ⟨hfound, hvalues⟩ := hi
    obtain ⟨row, hrow, hfound⟩ := Option.map_eq_some_iff.1 hfound
    obtain ⟨⟨rowId, row'⟩, hpair, rfl⟩ := Option.map_eq_some_iff.1 hvalues
    rw [List.getElem?_zip_eq_some] at hpair
    obtain rfl := Option.some.inj (hrow.symm.trans hpair.2)
    exact ⟨i, row, rowId, hrow, hpair.1, hfound, rfl⟩
  · rintro ⟨i, row, rowId, hrow, hid, hfound, rfl⟩
    refine ⟨(some id, .node rowId :: row), List.mem_iff_getElem?.2 ⟨i, ?_⟩, rfl⟩
    rw [List.getElem?_zip_eq_some, List.getElem?_map, List.getElem?_map, hrow]
    refine ⟨congrArg some hfound, Option.map_eq_some_iff.2 ⟨(rowId, row), ?_, rfl⟩⟩
    exact List.getElem?_zip_eq_some.2 ⟨hid, hrow⟩

lemma exists_rowId (asF64 : Value → Value) (t : Table) (v : View Schema) {i : ℕ} {row : List Value} (h : batch.rows[i]? = some row) :
    ∃ id, (batch.rowIds asF64 t v)[i]? = some id := by
  have hlt : i < (batch.rowIds asF64 t v).length := by
    rw [length_rowIds]
    exact (List.getElem?_eq_some_iff.1 h).1
  exact ⟨_, List.getElem?_eq_getElem hlt⟩

lemma forall_mem_updates {P : ℕ → ℕ → Prop} :
    (∀ x ∈ batch.updates asF64 t v, P x.1 x.2.length) ↔
      ∀ row ∈ batch.rows, ∀ id, batch.found asF64 t v row = some id → P id (batch.width + 1) := by
  constructor
  · intro h row hrow id hid
    obtain ⟨i, hi⟩ := List.mem_iff_getElem?.1 hrow
    obtain ⟨rowId, hrowId⟩ := exists_rowId asF64 t v hi
    have hx := h (id, .node rowId :: row) (mem_updates.2 ⟨i, row, rowId, hi, hrowId, hid, rfl⟩)
    rwa [List.length_cons, batch.uniform row hrow] at hx
  · intro h x hx
    obtain ⟨i, row, rowId, hi, -, hfound, hvalues⟩ := mem_updates.1 hx
    have hrow := List.mem_of_getElem? hi
    rw [hvalues, List.length_cons, batch.uniform row hrow]
    exact h row hrow x.1 hfound

/-- The keys that the index gets are those of the new rows. -/
lemma forall_mem_indexed {P : Value → Prop} :
    (∀ x ∈ batch.indexed asF64 t v, P x.1) ↔ ∀ row ∈ batch.rows, batch.found asF64 t v row = none →
      ∀ key, batch.indexKey asF64 t row = some key → P key := by
  rw [indexed, existingIds]
  constructor
  · intro h row hrow hnone key hkey
    obtain ⟨i, hi⟩ := List.mem_iff_getElem?.1 hrow
    obtain ⟨rowId, hrowId⟩ := exists_rowId asF64 t v hi
    refine h (key, rowId) (List.mem_filterMap.2 ⟨(none, rowId, row), ?_, by rw [hkey]; rfl⟩)
    refine List.mem_iff_getElem?.2 ⟨i, List.getElem?_zip_eq_some.2 ⟨?_, ?_⟩⟩
    · rw [List.getElem?_map, hi, Option.map_some, hnone]
    · exact List.getElem?_zip_eq_some.2 ⟨hrowId, hi⟩
  · intro h x hx
    obtain ⟨⟨found, rowId, row⟩, hmem, hx⟩ := List.mem_filterMap.1 hx
    obtain ⟨i, hi⟩ := List.mem_iff_getElem?.1 hmem
    obtain ⟨hfound, hpair⟩ := List.getElem?_zip_eq_some.1 hi
    have hrow := (List.getElem?_zip_eq_some.1 hpair).2
    rw [List.getElem?_map, hrow] at hfound
    have hfound : batch.found asF64 t v row = found := Option.some.inj hfound
    split at hx
    · cases hx
    next hnone =>
      obtain ⟨key, hkey, rfl⟩ := Option.map_eq_some_iff.1 hx
      exact h row (List.mem_of_getElem? hrow)
        (hfound.trans (Option.not_isSome_iff_eq_none.1 hnone)) key hkey

lemma length_finalRows : (batch.finalRows asF64 t v).length = batch.rows.length := by
  rw [finalRows, List.length_map, List.length_zip, length_rowIds, min_self]

lemma updates_eq_nil_iff :
    batch.updates asF64 t v = [] ↔ ∀ row ∈ batch.rows, batch.found asF64 t v row = none := by
  rw [List.eq_nil_iff_forall_not_mem]
  have hall : (∀ x ∈ batch.updates asF64 t v, False) ↔ _ := forall_mem_updates (P := fun _ _ => False)
  refine hall.trans (forall₂_congr fun row _ => ?_)
  exact Option.eq_none_iff_forall_ne_some.symm

lemma length_appended :
    (batch.appended asF64 t v).length = (batch.existingIds asF64 t v).count none := by
  rw [appended]
  split
  next hnil =>
    rw [updates_eq_nil_iff] at hnil
    rw [length_finalRows, existingIds, List.map_congr_left hnil, List.map_const',
      List.count_replicate_self]
  · rw [newRows, List.length_map, List.length_zipIdx, List.length_map, existingIds]
    induction batch.rows with
    | nil => rfl
    | cons row rows ih =>
      rw [List.map_cons, List.zip_cons_cons, List.filter_cons, List.count_cons, ← ih]
      cases batch.found asF64 t v row <;> simp

lemma length_of_mem_appended {row : List Value} (h : row ∈ batch.appended asF64 t v) :
    row.length = batch.width + 1 := by
  rw [appended] at h
  split at h
  · obtain ⟨x, hx, rfl⟩ := List.mem_map.1 h
    rw [List.length_cons, batch.uniform x.2 (List.of_mem_zip hx).2]
  · obtain ⟨x, hx, rfl⟩ := List.mem_map.1 h
    obtain ⟨y, hy, heq⟩ := List.mem_map.1 (List.fst_mem_of_mem_zipIdx hx)
    rw [List.length_cons, ← heq, batch.uniform y.2 (List.of_mem_zip (List.mem_of_mem_filter hy)).2]

lemma batchColumns_appended {sh : Shared Schema} (hcols : sh.columns t.id = t.columns)
    (h : batch.appended asF64 t v ≠ []) :
    batchColumns t.id (batch.appended asF64 t v) sh =
      List.range (min t.columns.length (batch.width + 1)) := by
  obtain ⟨row, rows, hcons⟩ := List.exists_cons_of_ne_nil h
  have hlen : row.length = batch.width + 1 := length_of_mem_appended (hcons ▸ List.mem_cons_self)
  rw [batchColumns, hcons, List.headD_cons, hlen, hcols]

lemma firstCompressed_appended {sh : Shared Schema} (hcols : sh.columns t.id = t.columns) :
    sh.firstCompressed t.id (batch.appended asF64 t v) = none ↔
      ∀ row ∈ batch.rows, batch.found asF64 t v row = none →
        ∀ col < t.columns.length, col ≤ batch.width → ¬ sh.isCompressed t.id col = true := by
  by_cases hnil : batch.appended asF64 t v = []
  · have hcount : (batch.existingIds asF64 t v).count none = 0 := by
      rw [← length_appended, hnil, List.length_nil]
    refine iff_of_true ?_ fun row hrow hnone => ?_
    · rw [hnil, Shared.firstCompressed, batchColumns]
      simp
    · exact absurd (List.mem_map.2 ⟨row, hrow, hnone⟩) (List.count_eq_zero.1 hcount)
  · have hpos : 0 < (batch.existingIds asF64 t v).count none := by
      rw [← length_appended]
      exact List.length_pos_iff.2 hnil
    obtain ⟨row, hrow, hnone⟩ := List.mem_map.1 (List.count_pos_iff.1 hpos)
    rw [Shared.firstCompressed, batchColumns_appended hcols hnil, List.find?_eq_none]
    simp only [List.mem_range, lt_min_iff, Nat.lt_succ_iff, and_imp]
    exact ⟨fun h _ _ _ => h, fun h => h row hrow hnone⟩

end InsertBatch

section rejected

variable {asF64 t batch} {pool : List ℕ} {others : ℕ → Prop} {v : View Schema}

/-- What the steps of an insert ask for. -/
structure Insertable (asF64 : Value → Value) (t : Table) (batch : InsertBatch) (v : View Schema)
    (s : Store Schema) (others : ℕ → Prop) : Prop where
  columns : ∀ row ∈ batch.rows, batch.found asF64 t v row = none → ∀ col < t.columns.length,
    col ≤ batch.width → ¬ s.shared.isCompressed t.id col = true
  updates : ∀ row ∈ batch.rows, ∀ id, batch.found asF64 t v row = some id →
    ∀ col < t.columns.length, 0 < col → col ≤ batch.width →
      ¬ s.shared.isCompressed t.id col = true ∧ ¬ (others id ∨ s.Late t.id id)
  keys : ∀ row ∈ batch.rows, batch.found asF64 t v row = none →
    ∀ key, batch.indexKey asF64 t row = some key → key.indexError = none

/-- The steps of an insert after the lookups of its keys. -/
lemma decides_insert {s₀ : Store Schema} (asF64 : Value → Value) (batch : InsertBatch)
    (pool : List ℕ) (v : View Schema) (hcols : s₀.shared.columns t.id = t.columns)
    (hpos : t.columns ≠ []) :
    Decides (Inserting s₀ t.id others)
      (Inserting s₀ t.id fun id => id ∉ List.range' (v.shared.nextRowId t.id)
        ((batch.existingIds asF64 t v).count none) ∧ others id)
      (.perform (.share (·.allocate t.id (batch.newCount asF64 t v))) <|
        performAll ((List.range' (v.shared.nextRowId t.id) (batch.newCount asF64 t v)).map
          (.noteAllocated t.id)) <|
        batch.write asF64 t v pool <|
        forEach (batch.indexed asF64 t v) (fun x => indexInsert t.id x.1 x.2) <|
        performAll (batch.vectorUpserts asF64 t v) <|
        performAll (batch.ftsInserts asF64 t v) .done)
      (Insertable asF64 t batch v s₀ fun id => id ∉ List.range' (v.shared.nextRowId t.id)
        ((batch.existingIds asF64 t v).count none) ∧ others id) := by
  rw [← InsertBatch.length_appended]
  refine decides_allocate _ (decides_performAll (fun e he _ _ hs => hs.apply_of_light ?_) ?_)
  · obtain ⟨-, -, rfl⟩ := List.mem_map.1 he
    trivial
  rw [InsertBatch.write_eq]
  -- one rule for each step of the operator, in its order
  have hsteps : Decides (Inserting s₀ t.id others) _ _ _ := decides_bulkAppend
    (v.shared.nextRowId t.id) (batch.appended asF64 t v) pool
    (fun hne => by
      rw [InsertBatch.batchColumns_appended hcols hne, Ne, List.range_eq_nil]
      have := List.length_pos_iff.2 hpos
      omega) <|
    decides_forEach (l := batch.updates asF64 t v)
      (fun x _ op _ hop => show Decides _ _ (InsertBatch.updateRow t x op) _ from
        decides_forEach (fun col _ _ _ hop => decides_appendValue col x.1 _ hop) hop) <|
    decides_forEach (l := batch.indexed asF64 t v)
      (fun x _ _ _ hop => decides_indexInsert t.id x.1 x.2 hop) <|
    decides_performAll (fun e he _ _ hs =>
      hs.apply_of_light (batch.light_vectorUpserts asF64 t v e he)) <|
    decides_performAll (fun e he _ _ hs =>
      hs.apply_of_light (batch.light_ftsInserts asF64 t v e he)) decides_done
  have hmem : ∀ {len col : ℕ}, col ∈ (List.range' 1 (t.columns.length - 1)).filter (· < len) ↔
      col < t.columns.length ∧ 0 < col ∧ col < len := by
    intro len col
    rw [List.mem_filter, List.mem_range'_1, decide_eq_true_iff]
    omega
  have hupdates : (∀ x ∈ batch.updates asF64 t v, _) ↔ _ := InsertBatch.forall_mem_updates
    (P := fun id len => ∀ col ∈ (List.range' 1 (t.columns.length - 1)).filter (· < len),
      ¬ s₀.shared.isCompressed t.id col = true ∧
        ¬ (id ∉ List.range' (v.shared.nextRowId t.id) (batch.appended asF64 t v).length ∧ others id ∨
          s₀.Late t.id id))
  refine hsteps.congr ?_
  rw [InsertBatch.firstCompressed_appended hcols]
  constructor
  · rintro ⟨hcolumns, hrows, hkeys, -⟩
    refine ⟨hcolumns, fun row hrow id hid col hlt hpos hle => ?_, InsertBatch.forall_mem_indexed.1 hkeys⟩
    exact hupdates.1 hrows row hrow id hid col (hmem.2 ⟨hlt, hpos, Nat.lt_succ_of_le hle⟩)
  · intro h
    refine ⟨h.columns, hupdates.2 fun row hrow id hid col hcol => ?_,
      InsertBatch.forall_mem_indexed.2 h.keys, trivial⟩
    obtain ⟨hlt, hpos, hle⟩ := hmem.1 hcol
    exact h.updates row hrow id hid col hlt hpos (Nat.le_of_lt_succ hle)

/-- The end of an insert fails if there is no timestamp left. -/
lemma isOk_finishInsert {s₀ : Store Schema} {r : Ran Schema (List Chunk)}
    (h : r.result.isOk = true → Inserting s₀ t.id others r.tx r.store) :
    (finishInsert r).result.isOk = true ↔ r.result.isOk = true ∧ s₀.tm.currentTs ≠ u64Max := by
  obtain ⟨result, tx, s⟩ := r
  cases result with
  | error e => exact iff_of_false Bool.false_ne_true fun hboth => Bool.false_ne_true hboth.1
  | ok chunks =>
    have hs : Inserting s₀ t.id others tx s := h rfl
    have hflush : ∀ m, flushAllPending tx { s with mutated := m } =
        ⟨.ok (), tx, { s with mutated := m }⟩ := by
      intro m
      rw [flushAllPending, hs.buffers]
      rfl
    have hflush' : s.flushAllPending tx = ⟨.ok (), tx, s⟩ := hflush s.mutated
    have hrun : finishInsert ⟨.ok chunks, tx, s⟩ = s.commit tx := by
      simp only [finishInsert, Ran.andThen, hflush']
    have hcommit : (s.commit tx).result.isOk = true ↔ s₀.tm.currentTs ≠ u64Max := by
      rw [commit, if_neg (by rw [hs.writer]; decide), hflush]
      simp only [Ran.andThen, TransactionManager.nextCommitTs, hs.currentTs]
      by_cases hts : s₀.tm.currentTs = u64Max
      · rw [if_pos hts]
        exact iff_of_false Bool.false_ne_true fun hne => hne hts
      · rw [if_neg hts]
        exact iff_of_true rfl hts
    rw [hrun, hcommit]
    exact (and_iff_right rfl).symm

lemma not_insertRefused_iff {readOnly : Bool} : ¬ InsertRefused asF64 t batch readOnly s ↔
    readOnly = false ∧ s.tm.nextTxId ≠ u64Max ∧ s.tm.currentTs ≠ u64Max ∧
      Insertable asF64 t batch (s.view s.nextTx) s fun id =>
        id ∉ batch.newIds asF64 t s ∧ ∃ t' ≠ s.nextTx.txId, (s.rows t.id).owner id = some t' := by
  simp only [InsertRefused, not_or, Bool.not_eq_true]
  refine and_congr_right' (and_congr_right' (and_congr_right' ?_))
  constructor
  · intro h
    refine ⟨fun row hrow hnone col hlt hle hc => ?_, fun row hrow id hid col hlt hpos hle => ?_,
      fun row hrow hnone key hkey => ?_⟩
    · refine h ⟨row, hrow, ?_⟩
      rw [hnone]
      exact .inl ⟨col, hlt, hle, hc⟩
    · refine ⟨fun hc => h ⟨row, hrow, ?_⟩, fun hbusy => h ⟨row, hrow, ?_⟩⟩
      · rw [hid]
        exact ⟨col, hlt, hpos, hle, .inl hc⟩
      · rw [hid]
        exact ⟨col, hlt, hpos, hle, .inr hbusy⟩
    · by_contra herr
      refine h ⟨row, hrow, ?_⟩
      rw [hnone]
      exact .inr ⟨key, hkey, herr⟩
  · rintro h ⟨row, hrow, hwhy⟩
    split at hwhy
    next hnone =>
      rcases hwhy with ⟨col, hlt, hle, hc⟩ | ⟨key, hkey, herr⟩
      · exact h.columns row hrow hnone col hlt hle hc
      · exact herr (h.keys row hrow hnone key hkey)
    next id hid =>
      obtain ⟨col, hlt, hpos, hle, hwhy⟩ := hwhy
      obtain ⟨hwritable, hfree⟩ := h.updates row hrow id hid col hlt hpos hle
      exact hwhy.elim hwritable hfree

/-- A batch is accepted exactly if nothing stands against it. -/
lemma isOk_bulkInsertBatch (asF64 : Value → Value) (batch : InsertBatch) (pool : List ℕ)
    (readOnly : Bool) (ht : t.Of s.shared) (hbuffers : s.buffers s.nextTx.txId = []) :
    (s.bulkInsertBatch asF64 readOnly t batch pool).1.isOk = true ↔
      ¬ InsertRefused asF64 t batch readOnly s := by
  rw [not_insertRefused_iff, bulkInsertBatch]
  by_cases hreadOnly : readOnly = true
  · rw [if_pos hreadOnly, hreadOnly]
    exact iff_of_false Bool.false_ne_true fun h => Bool.false_ne_true h.1.symm
  rw [if_neg hreadOnly, and_iff_right (Bool.eq_false_iff.2 hreadOnly)]
  by_cases hid : s.tm.nextTxId = u64Max
  · rw [beginAt, TransactionManager.beginAt, TransactionManager.allocTxId, if_pos hid]
    exact iff_of_false Bool.false_ne_true fun h => h.1 hid
  rw [and_iff_right hid]
  let tx : TxState Schema := .start s.nextTx
  let s₁ : Store Schema := { s with
    tm := ({ s.tm with nextTxId := s.tm.nextTxId + 1 }.register s.tm.nextTxId false none).2 }
  have hbegin : s.beginAt false none = .ok (tx, s₁) := by
    rw [beginAt, TransactionManager.beginAt, TransactionManager.allocTxId, if_neg hid]
    rfl
  have hstart : Inserting s t.id (fun id => ∃ t' ≠ s.nextTx.txId, (s.rows t.id).owner id = some t')
      tx s₁ := ⟨rfl, rfl, rfl, rfl, rfl, rfl, hbuffers, fun _ => .rfl, fun _ => rfl⟩
  obtain ⟨hok, hend⟩ := decides_insert asF64 batch pool (s.view s.nextTx) ht.columns ht.ne_nil tx s₁ hstart
  have hfinish : (finishInsert ((batch.insertOp asF64 t pool).run tx s₁)).result.isOk = true ↔ _ :=
    (isOk_finishInsert hend).trans (and_congr_left' hok)
  rw [and_comm, hbegin]
  refine Iff.trans ?_ hfinish
  dsimp only
  generalize finishInsert ((batch.insertOp asF64 t pool).run tx s₁) = r
  obtain ⟨result, tx', s'⟩ := r
  cases result with
  | error e => exact iff_of_false Bool.false_ne_true Bool.false_ne_true
  | ok u => exact iff_of_true rfl rfl

end rejected

/-- A bulk insert that fails changes no committed value. -/
lemma pages_bulkInsertBatch_of_error {asF64 : Value → Value} {readOnly : Bool} {t : Table}
    {batch : InsertBatch} {pool : List ℕ}
    (h : (s.bulkInsertBatch asF64 readOnly t batch pool).1.isOk = false) :
    (s.bulkInsertBatch asF64 readOnly t batch pool).2.pages = s.pages := by
  rw [bulkInsertBatch] at h ⊢
  by_cases hreadOnly : readOnly = true
  · rw [if_pos hreadOnly]
  · rw [if_neg hreadOnly] at h ⊢
    cases hbegin : s.beginAt false none with
    | error e => rfl
    | ok begun =>
      obtain ⟨tx, s₁⟩ := begun
      rw [hbegin] at h
      dsimp only at h ⊢
      have hrun := (batch.inner_insertOp asF64 t pool).pages_run tx s₁
      cases hr : (finishInsert ((batch.insertOp asF64 t pool).run tx s₁)).result with
      | ok u =>
        rw [hr] at h
        cases h
      | error e =>
        rw [pages_drop, pages_finishInsert_of_error (by rw [hr]; rfl), hrun, pages_beginAt hbegin]

/-- A bulk insert gives distinct ids that no row has and rejects equal keys exactly if the batch is
rejected for another reason, or no two rows carry the same key and the ids from the index and from the
counter are free. -/
theorem bulk_insert_ids_iff (asF64 : Value → Value) (readOnly : Bool) {t : Table}
    {s : Store Schema} (ht : t.Of s.shared) (hbuffers : s.buffers s.nextTx.txId = [])
    (batch : InsertBatch) (pool : List ℕ) :
    BulkInsertRight asF64 t batch s (s.bulkInsertBatch asF64 readOnly t batch pool) ↔
      InsertRefused asF64 t batch readOnly s ∨
        FreshKeys t batch s ((batch.existingIds asF64 t (s.view s.nextTx)).filterMap id)
          (batch.newIds asF64 t s) := by
  have hperm := perm_assignIds (s.shared.nextRowId t.id)
    (batch.existingIds asF64 t (s.view s.nextTx))
  have hmem : ∀ id, id ∈ batch.rowIds asF64 t (s.view s.nextTx) ↔ _ := fun id => hperm.mem_iff
  have hnodup : (batch.rowIds asF64 t (s.view s.nextTx)).Nodup ↔ _ := hperm.nodup_iff
  rw [List.nodup_append] at hnodup
  have hiff := isOk_bulkInsertBatch asF64 batch pool readOnly ht hbuffers
  by_cases hrefused : InsertRefused asF64 t batch readOnly s
  · have hok : (s.bulkInsertBatch asF64 readOnly t batch pool).1.isOk = false :=
      Bool.eq_false_iff.2 fun hok => hiff.1 hok hrefused
    refine iff_of_true ⟨fun h => ?_, fun h => ?_, fun _ => ⟨hok, pages_bulkInsertBatch_of_error hok⟩⟩
      (.inl hrefused)
    · rw [hok] at h
      cases h
    · rw [hok] at h
      cases h
  · have hok := hiff.2 hrefused
    rw [or_iff_right hrefused]
    constructor
    · intro h
      obtain ⟨hfound, -, hapart⟩ := hnodup.1 (h.distinct hok)
      refine ⟨?_, hfound, fun id hid => ?_, fun id hid hnew => hapart id hid id hnew rfl,
        fun id hid => ?_⟩
      · by_contra hdup
        rw [(h.rejected hdup).1] at hok
        cases hok
      · exact h.fresh hok id ((hmem id).2 (List.mem_append_left _ hid))
      · exact h.fresh hok id ((hmem id).2 (List.mem_append_right _ hid))
    · intro h
      refine ⟨fun _ => hnodup.2 ⟨h.different, List.nodup_range' .., ?_⟩, fun _ id hid => ?_,
        fun hdup => absurd h.keys hdup⟩
      · rintro id hid _ hnew rfl
        exact h.apart id hid hnew
      · rcases List.mem_append.1 ((hmem id).1 hid) with hfound | hnew
        · exact h.stale id hfound
        · exact h.unused id hnew

/-- A node table with a string as its primary key. -/
def city : Table := ⟨0, "city", ["_id", "name"], false, some 1, false, none⟩

/-- A database with one row. -/
def oneCity : Store Unit :=
  ((Store.ofColumns fun _ => ["_id", "name"]).bulkInsertBatch id false city
    ⟨[[.string "rome"]], 1, by decide, .string, []⟩ []).2

/-- A batch with a new key and a row without a key. -/
def newCities : InsertBatch := ⟨[[.string "oslo"], [.null]], 1, by decide, .string, []⟩

/-- Two more rows are added to a database with one. -/
theorem bulk_insert_ids_new_cities :
    oneCity.shared.nextRowId city.id = 1 ∧ BulkInsertRight id city newCities oneCity
      (oneCity.bulkInsertBatch id false city newCities []) := by
  have hversions : ∀ t, oneCity.versions t = [] := by
    intro t
    have h : oneCity.versions = Function.update (Function.update (Function.update (fun _ => []) 1 _) 1 _)
      1 [] := rfl
    by_cases ht : t = 1
    · rw [h, ht, Function.update_self]
    · rw [h, Function.update_of_ne ht, Function.update_of_ne ht, Function.update_of_ne ht]
  refine ⟨rfl, (bulk_insert_ids_iff id false ⟨rfl, .inl rfl⟩ rfl newCities []).2 (.inr ⟨?_, ?_, ?_, ?_, ?_⟩)⟩
  · decide
  · decide
  · nofun
  · nofun
  · rintro id hid (⟨hlt, -⟩ | ⟨t, -, v, hv, -⟩ | ⟨t, values, hmem⟩)
    · revert id
      decide +kernel
    · rw [hversions] at hv
      cases hv
    · cases hmem

/-- A batch with the same new key twice. -/
def twice : InsertBatch := ⟨[[.string "rome"], [.string "rome"]], 1, by decide, .string, []⟩

/-- The batch is accepted, and there are two rows with the same key. -/
theorem bulk_insert_accepts_equal_keys :
    ((Store.ofColumns fun _ => ["_id", "name"]).bulkInsertBatch id false city twice []).1 = .ok 2 ∧
      ¬ BulkInsertRight id city twice (Store.ofColumns fun _ => ["_id", "name"])
        ((Store.ofColumns fun _ => ["_id", "name"]).bulkInsertBatch id false city twice []) := by
  have hok : ((Store.ofColumns fun _ => ["_id", "name"]).bulkInsertBatch id false city twice []).1 =
      .ok 2 := rfl
  refine ⟨hok, fun h => ?_⟩
  have hrejected := (h.rejected (by decide)).1
  cases hrejected

end LightningDB
