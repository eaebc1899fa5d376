import LightningDB.Query.Rows

/-!
# COPY FROM as an append

The rows of a file get the ids from the row count of the catalog on, and from zero on in a relationship
table, while every other statement takes ids from `next_row_id`.  The count goes down with every deleted
node, so that the ids of a COPY may have rows already; nothing looks at the rows that are there, and the
primary key index is not touched.

Columns of a large batch are written by a thread pool, so that with a compressed column any of the
others may have been written when the statement fails; and `rebuild_csr` at the end may cut the counter
of row ids or fail.

`copy_appends_iff` has the exact condition on the table and the file under which COPY adds the rows of
the file and changes no other, or fails without a trace.
-/

namespace LightningDB

open Store List Option

variable {Schema : Type}

/-! ## What an append is -/

variable (t : Table) (sh : Shared Schema)

def copyStart : ℕ := if t.isRel then 0 else sh.numRows t.id

def copyIds (rows : List (List Value)) : List ℕ :=
  List.range' (copyStart t sh) rows.length

/-- The rows of a file are in the table, one live row for each with an id of its own, and nothing else
has changed for the transaction. -/
structure CopyAppends (t : Table) (rows : List (List Value)) (tx : Transaction) (s : Store Schema)
    (after : View Schema) : Prop where
  distinct : (copyIds t s.shared rows).Nodup
  fresh : ∀ id ∈ copyIds t s.shared rows, ¬ s.Used tx t.id id
  live : ∀ row, after.Live t.id row ↔
    (s.view tx).Live t.id row ∨ row ∈ copyIds t s.shared rows
  kept : ∀ row, (s.view tx).Live t.id row → ∀ col,
    after.cell (.column t.id col row) = (s.view tx).cell (.column t.id col row)
  stored : ∀ i values, rows[i]? = some values → ∀ col < t.columns.length,
    after.cell (.column t.id col (copyStart t s.shared + i)) = values.getD col .null
  indexed : ∀ pk, t.primaryKey = some pk → ∀ i values, rows[i]? = some values →
    Op.indexLookup after t.id (values.getD pk .null) = some (copyStart t s.shared + i)

structure SameRows (table : ℕ) (before after : View Schema) : Prop where
  live : ∀ row, after.Live table row ↔ before.Live table row
  kept : ∀ row, before.Live table row → ∀ col,
    after.cell (.column table col row) = before.cell (.column table col row)

/-- COPY of a file with the given rows has appended them, or has failed and changed nothing. -/
def CopyRight {α : Type} (t : Table) (rows : List (List Value)) (tx : Transaction) (s : Store Schema)
    (r : Ran Schema α) : Prop :=
  match r.result with
  | .ok _ => CopyAppends t rows tx s (r.store.view r.tx.tx)
  | .error _ => SameRows t.id (s.view tx) (r.store.view r.tx.tx)

/-! ## The condition -/

variable (scan : Op.CsrScan) (n : ℕ)

/-- The counters when the rows of a file have been appended. -/
def copyShared : Shared Schema := sh.appendRows t.id (copyStart t sh) n

/-- `next_row_id` when `rebuild_csr` has looked at it. -/
def rebuiltNext : ℕ :=
  if (sh.csr t.id).isSome then (Op.capCardinality t scan sh).nextRowId t.id else sh.nextRowId t.id

/-- The error of `rebuild_csr`, if it gets to the scans. -/
def rebuildFailure : Option LightningError :=
  if (sh.csr t.id).isSome ∧ (Op.capCardinality t scan sh).cardinality t.id ≠ 0 ∧
      2 ≤ t.columns.length then scan.failure
  else none

/-- The number of rows that a scan goes over after a COPY of `n` rows that has added `added` to the row
count. -/
def copyLimit (added : ℕ) : ℕ :=
  max (rebuiltNext t (copyShared t sh n) scan) (sh.numRows t.id + added)

/-- What it takes for the rows to be appended: their ids are free and their first values not null,
nothing is stored in other rows that come into the range of scans and no row is lost from it, and the
index has the keys already. -/
structure RoomFor (t : Table) (rows : List (List Value)) (limit : ℕ) (tx : Transaction)
    (s : Store Schema) : Prop where
  fresh : ∀ id ∈ copyIds t s.shared rows, ¬ s.Used tx t.id id
  notNull : ∀ values ∈ rows, values.head? ≠ some .null
  below : ∀ row, (s.view tx).Live t.id row ∨ row ∈ copyIds t s.shared rows → row < limit
  beyond : ∀ row, (s.view tx).scanLimit t.id ≤ row → row < limit →
    row ∉ copyIds t s.shared rows → (s.view tx).holds t.id row = false
  indexed : ∀ pk, t.primaryKey = some pk → ∀ i values, rows[i]? = some values →
    Op.indexLookup (s.view tx) t.id (values.getD pk .null) = some (copyStart t s.shared + i)

/-- What it takes for rows that have been written in the columns `cols` to leave no trace.  Where the
table has a row it has the same values there; where it has none the first value is null, or the row is
not below the limit of scans; and no other row comes below the limit or is lost from it. -/
structure Traceless (t : Table) (cols : List ℕ) (rows : List (List Value)) (limit : ℕ)
    (tx : Transaction) (s : Store Schema) : Prop where
  same : ∀ i values, rows[i]? = some values →
    (s.view tx).Live t.id (copyStart t s.shared + i) →
    copyStart t s.shared + i < limit ∧ ∀ col ∈ cols,
      (s.view tx).cell (.column t.id col (copyStart t s.shared + i)) = values.getD col .null
  hidden : ∀ i values, rows[i]? = some values →
    ¬ (s.view tx).Live t.id (copyStart t s.shared + i) → copyStart t s.shared + i < limit →
    (if 0 ∈ cols then values.getD 0 .null
      else (s.view tx).cell (.column t.id 0 (copyStart t s.shared + i))) = .null
  outside : ∀ row, row ∉ copyIds t s.shared rows → (s.view tx).holds t.id row = true →
    (row < limit ↔ row < (s.view tx).scanLimit t.id)

/-- The condition under which COPY is right about a file with the given batches. -/
def CopySafe (run : Op.CopyRun) (batches : List (List (List Value))) (tx : Transaction)
    (s : Store Schema) : Prop :=
  match s.shared.firstCompressed t.id batches.flatten with
  | some k => ∀ batch, batches.find? (· ≠ []) = some batch →
    let cols := bulkColumns t.id batch (run.pool (copyStart t s.shared)) k s.shared
    cols = [] ∨ Traceless t cols batch ((s.view tx).scanLimit t.id) tx s
  | none =>
    match rebuildFailure t (copyShared t s.shared batches.flatten.length) run.scan with
    | some _ => Traceless t (List.range t.columns.length) batches.flatten
      (copyLimit t s.shared run.scan batches.flatten.length 0) tx s
    | none => RoomFor t batches.flatten
      (copyLimit t s.shared run.scan batches.flatten.length batches.flatten.length) tx s

/-! ## Rows that have been written -/

lemma scanLimit_view (s : Store Schema) (tx : Transaction) (table : ℕ) :
    (s.view tx).scanLimit table = max (s.shared.nextRowId table) (s.shared.numRows table) := rfl

namespace Written

variable {table start : ℕ} {rows : List (List Value)} {cols : List ℕ} {v v' : View Schema}

variable {row col : ℕ}

variable (h : Written table start rows cols v v')

include h

lemma cell_of_outside (hrow : row ∉ List.range' start rows.length) (tb col : ℕ) :
    v'.cell (.column tb col row) = v.cell (.column tb col row) := by
  rw [h.cell, batchCell_of_outside hrow, ite_self, getD_none]

lemma cell_of_notMem (hcol : col ∉ cols) (tb row : ℕ) :
    v'.cell (.column tb col row) = v.cell (.column tb col row) := by
  rw [h.cell, if_neg (by simpa [Cell.isIn] using hcol), getD_none]

lemma holds_of_outside
    (hrow : row ∉ range' start rows.length) : v'.holds table row = v.holds table row := by
  have hvis : v'.visible table row = v.visible table row := by
    rw [Bool.eq_iff_iff, h.visible]
    exact or_iff_right fun hr => hrow hr.2
  rw [View.holds, View.holds, hvis, h.cell_of_outside hrow]

variable {i : ℕ} {values : List Value}

lemma cell_row (hi : rows[i]? = some values) (hcol : col < values.length) (hmem : col ∈ cols) :
    v'.cell (.column table col (start + i)) = values.getD col .null := by
  rw [h.cell, if_pos (by simpa [Cell.isIn] using hmem), batchCell_column hi,
    getD_eq_getElem?_getD, getElem?_eq_getElem hcol, getD_some, getD_some]

/-- A row that has been written is live below the limit unless its first value is null. -/
lemma holds_row (hi : rows[i]? = some values) (hne : values ≠ []) :
    v'.holds table (start + i) = true ↔
      (if 0 ∈ cols then values.getD 0 .null else v.cell (.column table 0 (start + i))) ≠ .null := by
  have hlt : i < rows.length := (List.getElem?_eq_some_iff.1 hi).1
  have hvis : v'.visible table (start + i) = true :=
    (h.visible _ _).2 (.inl ⟨rfl, mem_range'_1.2 ⟨by omega, by omega⟩⟩)
  have hcell : v'.cell (.column table 0 (start + i)) =
      if 0 ∈ cols then values.getD 0 .null else v.cell (.column table 0 (start + i)) := by
    split
    next hmem => exact h.cell_row hi (length_pos_iff.2 hne) hmem
    next hmem => exact h.cell_of_notMem hmem _ _
  rw [View.holds, hvis, hcell, Bool.true_and, bne_iff_ne]

lemma indexLookup (tb : ℕ) (key : Value) :
    Op.indexLookup v' tb key = Op.indexLookup v tb key := by
  rw [Op.indexLookup, Op.indexLookup, h.cell, if_neg (by simp [Cell.isIn]), getD_none]

end Written

/-! ## The run of a COPY -/

section copy

variable {t : Table} {s : Store Schema}

lemma Table.Of.notInternal (ht : t.Of s.shared) : t.columns.head? ≠ some "INTERNAL_ID" := by
  rcases ht.first with h | h <;> rw [h] <;> decide

lemma Table.Of.batchColumns (ht : t.Of s.shared) {rows : List (List Value)} (hrows : rows ≠ [])
    (hlen : ∀ values ∈ rows, values.length = t.columns.length) :
    Store.batchColumns t.id rows s.shared = List.range t.columns.length := by
  obtain ⟨values, rows, rfl⟩ := exists_cons_of_ne_nil hrows
  rw [Store.batchColumns, headD_cons, ht.columns, hlen values mem_cons_self, Nat.min_self]

variable {k table : ℕ} {batches : List (List (List Value))}
  {batch rows : List (List Value)} {v' : View Schema} {tx : Transaction} {limit : ℕ}

/-- The batches one after another, if there is no row or no column is compressed. -/
lemma run_copyBatches (pool : ℕ → List ℕ) (ht : t.Of s.shared)
    (hparsed : ∀ values ∈ batches.flatten, values.length = t.columns.length) (next : ℕ → Op Schema)
    (start added : ℕ) (tx : TxState Schema)
    (hc : s.shared.firstCompressed t.id batches.flatten = none) :
    ∃ tx' s', (Op.copyBatches t pool (batches.map .ok) start added next).run tx s =
        (next (added + batches.flatten.length)).run tx' s' ∧
      Appended t.id start batches.flatten (List.range t.columns.length) (s.view tx.tx)
        (s'.view tx'.tx) := by
  induction batches generalizing start added tx s with
  | nil => exact ⟨tx, s, rfl, .nil _ _ _ _⟩
  | cons rows batches ih =>
    rw [map_cons, Op.copyBatches]
    rw [flatten_cons] at hparsed hc
    have hlen : ∀ values ∈ rows, values.length = t.columns.length :=
      fun values hvalues => hparsed values (mem_append_left _ hvalues)
    have hlen' : ∀ values ∈ batches.flatten, values.length = t.columns.length :=
      fun values hvalues => hparsed values (mem_append_right _ hvalues)
    by_cases hrows : rows = []
    · subst hrows
      exact ih ht hlen' start added tx hc
    · rw [if_neg hrows, if_neg ht.notInternal, Op.run, Effect.apply]
      have hnone : (List.range t.columns.length).find? (s.shared.isCompressed t.id) = none := by
        rw [Shared.firstCompressed, ht.batchColumns (append_ne_nil_of_left_ne_nil hrows _) hparsed]
          at hc
        exact hc
      obtain ⟨tx₁, s₁, hrun, happ⟩ := appended_bulkAppendBatch t.id start rows tx s
        (List.range t.columns.length) (pool start)
        (by rw [Shared.firstCompressed, ht.batchColumns hrows hlen]; exact hnone)
        (fun _ => ht.batchColumns hrows hlen)
        (mt range_eq_nil.1 (Nat.pos_iff_ne_zero.1 (length_pos_of_ne_nil ht.ne_nil)))
      rw [hrun]
      have hshared : s₁.shared = s.shared.appendRows t.id start rows.length := happ.shared
      have ht₁ : t.Of s₁.shared := ⟨by rw [hshared, Shared.appendRows_columns, ht.columns], ht.first⟩
      have hc₁ : s₁.shared.firstCompressed t.id batches.flatten = none := by
        by_cases hrest : batches.flatten = []
        · rw [Shared.firstCompressed, Store.batchColumns, hrest]
          simp
        · rw [Shared.firstCompressed, ht₁.batchColumns hrest hlen', hshared,
            Shared.appendRows_isCompressed, hnone]
      obtain ⟨tx₂, s₂, hrun₂, happ₂⟩ :=
        ih ht₁ hlen' (start + rows.length) (added + rows.length) tx₁ hc₁
      refine ⟨tx₂, s₂, ?_, ?_⟩
      · rw [flatten_cons, length_append, ← add_assoc]
        exact hrun₂
      · rw [flatten_cons]
        exact happ.append happ₂

lemma run_copyBatches_of_compressed (pool : ℕ → List ℕ) (ht : t.Of s.shared)
    (hparsed : ∀ values ∈ batches.flatten, values.length = t.columns.length)
    (next : ℕ → Op Schema) (hc : s.shared.firstCompressed t.id batches.flatten = some k)
    (hfind : batches.find? (· ≠ []) = some batch) (start added : ℕ) (tx : TxState Schema) :
    ∃ e tx' s', (Op.copyBatches t pool (batches.map .ok) start added next).run tx s =
        ⟨.error e, tx', s'⟩ ∧
      s'.shared = s.shared ∧
      (bulkColumns t.id batch (pool start) k s.shared = [] → s'.view tx'.tx = s.view tx.tx) ∧
      (bulkColumns t.id batch (pool start) k s.shared ≠ [] →
        Written t.id start batch (bulkColumns t.id batch (pool start) k s.shared) (s.view tx.tx)
          (s'.view tx'.tx)) := by
  induction batches with
  | nil => cases hfind
  | cons rows batches ih =>
    rw [map_cons, Op.copyBatches]
    rw [flatten_cons] at hparsed hc
    by_cases hrows : rows = []
    · subst hrows
      exact ih hparsed hc (by simpa using hfind)
    · have hbatch : rows = batch := by simpa [hrows] using hfind
      subst hbatch
      have hcols : Store.batchColumns t.id rows s.shared =
          Store.batchColumns t.id (rows ++ batches.flatten) s.shared := by
        rw [ht.batchColumns hrows fun values hvalues => hparsed values (mem_append_left _ hvalues),
          ht.batchColumns (append_ne_nil_of_left_ne_nil hrows _) hparsed]
      rw [Shared.firstCompressed, ← hcols] at hc
      rw [if_neg hrows, if_neg ht.notInternal, Op.run, Effect.apply]
      obtain ⟨e, tx', s', hrun, hrest⟩ :=
        bulkAppendBatch_of_compressed t.id start rows tx s (pool start) hrows hc
      rw [hrun]
      exact ⟨e, tx', s', rfl, hrest⟩

lemma run_share (f : Shared Schema → Shared Schema) (op : Op Schema) (tx : TxState Schema)
    (s : Store Schema) :
    (Op.perform (.share f) op).run tx s = op.run tx { s with shared := f s.shared } := rfl

/-- What `rebuild_csr` does to the rows: it may move the limit of scans. -/
lemma run_rebuildCsr (scan : Op.CsrScan) (next : Op Schema) (tx : TxState Schema) (s : Store Schema) :
    ∃ s' : Store Schema, (Op.rebuildCsr t scan next).run tx s =
        (match rebuildFailure t s.shared scan with
          | some e => ⟨.error e, tx, s'⟩
          | none => next.run tx s') ∧
      (s'.view tx.tx).cell = (s.view tx.tx).cell ∧ (s'.view tx.tx).visible = (s.view tx.tx).visible ∧
      s'.shared.numRows = s.shared.numRows ∧ s'.shared.nextRowId t.id = rebuiltNext t s.shared scan := by
  have hcap : (Op.capCardinality t scan s.shared).numRows = s.shared.numRows := by
    rw [Op.capCardinality]
    split <;> rfl
  by_cases hcsr : (s.shared.csr t.id).isSome = true
  · have hnone : ¬ (((s.view tx.tx).shared.csr t.id).isNone = true) := by
      rw [isNone_iff_eq_none]
      exact isSome_iff_ne_none.1 hcsr
    have hnext : rebuiltNext t s.shared scan = (Op.capCardinality t scan s.shared).nextRowId t.id :=
      if_pos hcsr
    let capped : Store Schema := { s with shared := Op.capCardinality t scan s.shared }
    rw [rebuildFailure, hnext, Op.rebuildCsr, Op.run, if_neg hnone, run_share, Op.run]
    by_cases hempty : (capped.view tx.tx).shared.cardinality t.id = 0 ∨ t.columns.length < 2
    · refine ⟨capped, ?_, rfl, rfl, hcap, rfl⟩
      rw [if_pos hempty, if_neg fun h => hempty.elim h.2.1 (not_lt.2 h.2.2)]
    · rw [if_neg hempty, if_pos ⟨hcsr, (not_or.1 hempty).1, not_lt.1 (not_or.1 hempty).2⟩]
      cases scan.failure with
      | some e => exact ⟨capped, rfl, rfl, rfl, hcap, rfl⟩
      | none => exact ⟨_, rfl, rfl, rfl, hcap, rfl⟩
  · have hnone : ((s.view tx.tx).shared.csr t.id).isNone = true :=
      isNone_iff_eq_none.2 (not_isSome_iff_eq_none.1 hcsr)
    have hfail : rebuildFailure t s.shared scan = none := if_neg fun h => hcsr h.1
    refine ⟨s, ?_, rfl, rfl, rfl, (if_neg hcsr).symm⟩
    rw [hfail, Op.rebuildCsr, Op.run, if_pos hnone]

/-- What a COPY leaves that has appended all rows: the rows, the limit of scans, and the result of
`rebuild_csr`. -/
lemma run_physicalCopyFrom (ht : t.Of s.shared)
    (hparsed : ∀ values ∈ batches.flatten, values.length = t.columns.length)
    (hc : s.shared.firstCompressed t.id batches.flatten = none) (run : Op.CopyRun)
    (tx : TxState Schema) :
    ∃ result tx' s', (Op.physicalCopyFrom t run (batches.map .ok)).run tx s = ⟨result, tx', s'⟩ ∧
      Written t.id (copyStart t s.shared) batches.flatten (List.range t.columns.length)
        (s.view tx.tx) (s'.view tx'.tx) ∧
      match rebuildFailure t (copyShared t s.shared batches.flatten.length) run.scan with
      | some _ => (∃ e, result = .error e) ∧ (s'.view tx'.tx).scanLimit t.id =
          copyLimit t s.shared run.scan batches.flatten.length 0
      | none => (∃ chunks, result = .ok chunks) ∧ (s'.view tx'.tx).scanLimit t.id =
          copyLimit t s.shared run.scan batches.flatten.length batches.flatten.length := by
  obtain ⟨tx₁, s₁, hrun, happ⟩ := run_copyBatches run.pool ht hparsed
    (fun added => Op.rebuildCsr t run.scan <| .perform (.share (·.addNumRows t.id added)) <|
      .emit [[.other (toString added)]] .done) (copyStart t s.shared) 0 tx hc
  have hshared : s₁.shared = copyShared t s.shared batches.flatten.length := happ.shared
  obtain ⟨s₂, hrebuild, hcell, hvisible, hnum, hnext⟩ := run_rebuildCsr (t := t) run.scan
    (.perform (.share (·.addNumRows t.id (0 + batches.flatten.length))) <|
      .emit [[.other (toString (0 + batches.flatten.length))]] .done) tx₁ s₁
  have hw : Written t.id (copyStart t s.shared) batches.flatten (List.range t.columns.length)
      (s.view tx.tx) (s₂.view tx₁.tx) :=
    ⟨fun c => by rw [hcell, happ.cell], fun tb row => by rw [hvisible, happ.visible]⟩
  rw [hshared, copyShared, Shared.appendRows_numRows] at hnum
  rw [hshared] at hrebuild hnext
  have hall : (Op.physicalCopyFrom t run (batches.map .ok)).run tx s = _ := hrun.trans hrebuild
  cases hfail : rebuildFailure t (copyShared t s.shared batches.flatten.length) run.scan with
  | some e =>
    rw [hfail] at hall
    refine ⟨_, _, _, hall, hw, ⟨e, rfl⟩, ?_⟩
    simp only [View.scanLimit, view, copyLimit, hnext, hnum, add_zero]
  | none =>
    rw [hfail] at hall
    refine ⟨_, _, _, hall, ⟨hw.cell, hw.visible⟩, ⟨_, rfl⟩, ?_⟩
    change max (s₂.shared.nextRowId t.id) (Function.update s₂.shared.numRows t.id
      (s₂.shared.numRows t.id + (0 + batches.flatten.length)) t.id) = _
    rw [copyLimit, hnext, Function.update_self, hnum, zero_add]

lemma View.Live.used {row : ℕ} (h : (s.view tx).Live table row) : s.Used tx table row := by
  obtain ⟨hlt, hholds⟩ := h
  rw [View.holds, Bool.and_eq_true, bne_iff_ne] at hholds
  exact .inl ⟨hlt, hholds.2⟩

lemma mem_copyIds {row : ℕ} : row ∈ copyIds t s.shared rows ↔
    ∃ i values, rows[i]? = some values ∧ row = copyStart t s.shared + i := by
  rw [copyIds, mem_range'_1]
  constructor
  · rintro ⟨hle, hlt⟩
    obtain ⟨i, rfl⟩ := Nat.exists_eq_add_of_le hle
    exact ⟨i, _, getElem?_eq_getElem (by omega), rfl⟩
  · rintro ⟨i, values, hi, rfl⟩
    have hlt : i < rows.length := (List.getElem?_eq_some_iff.1 hi).1
    exact ⟨by omega, by omega⟩

lemma copyAppends_iff_roomFor (hpos : 0 < t.columns.length)
    (hw : Written t.id (copyStart t s.shared) rows (List.range t.columns.length) (s.view tx) v')
    (hlimit : v'.scanLimit t.id = limit)
    (hlen : ∀ values ∈ rows, values.length = t.columns.length) :
    CopyAppends t rows tx s v' ↔ RoomFor t rows limit tx s := by
  -- a row of the file is live if it is below the limit and its first value is not null
  have hrow : ∀ i values, rows[i]? = some values →
      (v'.Live t.id (copyStart t s.shared + i) ↔
        copyStart t s.shared + i < limit ∧ values.head? ≠ some .null) := by
    intro i values hi
    have hne : 0 < values.length := by rw [hlen values (mem_of_getElem? hi)]; exact hpos
    obtain ⟨v₀, values, rfl⟩ := exists_cons_of_length_pos hne
    rw [View.Live, hw.holds_row hi (cons_ne_nil _ _), if_pos (mem_range.2 hpos), hlimit]
    simp
  constructor
  · intro h
    refine ⟨h.fresh, fun values hvalues => ?_, fun row hrow' => ?_, fun row hle hlt hnot => ?_,
      fun pk hpk i values hi => ?_⟩
    · obtain ⟨i, hi⟩ := getElem?_of_mem hvalues
      exact ((hrow i values hi).1 ((h.live _).2 (.inr (mem_copyIds.2 ⟨i, values, hi, rfl⟩)))).2
    · exact hlimit ▸ ((h.live row).2 hrow').1
    · rw [Bool.eq_false_iff]
      intro hholds
      have hlive : v'.Live t.id row := ⟨hlimit ▸ hlt, (hw.holds_of_outside hnot).trans hholds⟩
      rcases (h.live row).1 hlive with hold | hmem
      · exact absurd hold.1 (not_lt.2 hle)
      · exact hnot hmem
    · rw [← hw.indexLookup]
      exact h.indexed pk hpk i values hi
  · intro h
    have hkept : ∀ row, (s.view tx).Live t.id row → row ∉ copyIds t s.shared rows :=
      fun row hlive hmem => h.fresh row hmem hlive.used
    refine ⟨nodup_range' .., h.fresh, fun row => ?_, fun row hlive col => ?_,
      fun i values hi col hcol => ?_, fun pk hpk i values hi => ?_⟩
    · by_cases hmem : row ∈ copyIds t s.shared rows
      · obtain ⟨i, values, hi, rfl⟩ := mem_copyIds.1 hmem
        rw [hrow i values hi]
        exact ⟨fun _ => .inr hmem, fun _ => ⟨h.below _ (.inr hmem), h.notNull _ (mem_of_getElem? hi)⟩⟩
      · rw [or_iff_left hmem, View.Live, hw.holds_of_outside hmem, hlimit]
        constructor
        · rintro ⟨hlt, hholds⟩
          refine ⟨Nat.lt_of_not_le fun hle => ?_, hholds⟩
          rw [h.beyond row hle hlt hmem] at hholds
          cases hholds
        · exact fun hlive => ⟨h.below row (.inl hlive), hlive.2⟩
    · exact hw.cell_of_outside (hkept row hlive) t.id col
    · exact hw.cell_row hi (by rw [hlen values (mem_of_getElem? hi)]; exact hcol) (mem_range.2 hcol)
    · rw [hw.indexLookup]
      exact h.indexed pk hpk i values hi

lemma sameRows_iff_traceless {cols : List ℕ}
    (hw : Written t.id (copyStart t s.shared) rows cols (s.view tx) v')
    (hlimit : v'.scanLimit t.id = limit) (hcols : ∀ col ∈ cols, col < t.columns.length)
    (hlen : ∀ values ∈ rows, values.length = t.columns.length) (hpos : 0 < t.columns.length) :
    SameRows t.id (s.view tx) v' ↔ Traceless t cols rows limit tx s := by
  have hrow : ∀ i values, rows[i]? = some values → (v'.Live t.id (copyStart t s.shared + i) ↔
      copyStart t s.shared + i < limit ∧ (if 0 ∈ cols then values.getD 0 .null
        else (s.view tx).cell (.column t.id 0 (copyStart t s.shared + i))) ≠ .null) := by
    intro i values hi
    have hne : 0 < values.length := by rw [hlen values (mem_of_getElem? hi)]; exact hpos
    rw [View.Live, hw.holds_row hi (length_pos_iff.1 hne), hlimit]
  have hcell : ∀ i values, rows[i]? = some values → ∀ col ∈ cols,
      v'.cell (.column t.id col (copyStart t s.shared + i)) = values.getD col .null :=
    fun i values hi col hcol =>
      hw.cell_row hi (by rw [hlen values (mem_of_getElem? hi)]; exact hcols col hcol) hcol
  constructor
  · intro h
    refine ⟨fun i values hi hlive => ?_, fun i values hi hnot hlt => ?_, fun row hnot hholds => ?_⟩
    · refine ⟨((hrow i values hi).1 ((h.live _).2 hlive)).1, fun col hcol => ?_⟩
      rw [← h.kept _ hlive col, hcell i values hi col hcol]
    · by_contra hnull
      exact hnot ((h.live _).1 ((hrow i values hi).2 ⟨hlt, hnull⟩))
    · have hlive := h.live row
      rw [View.Live, View.Live, hw.holds_of_outside hnot, hlimit, hholds] at hlive
      simpa using hlive
  · intro h
    refine ⟨fun row => ?_, fun row hlive col => ?_⟩
    · by_cases hmem : row ∈ copyIds t s.shared rows
      · obtain ⟨i, values, hi, rfl⟩ := mem_copyIds.1 hmem
        rw [hrow i values hi]
        by_cases hlive : (s.view tx).Live t.id (copyStart t s.shared + i)
        · obtain ⟨hlt, hsame⟩ := h.same i values hi hlive
          refine iff_of_true ⟨hlt, ?_⟩ hlive
          have hfirst := hlive.2
          rw [View.holds, Bool.and_eq_true, bne_iff_ne] at hfirst
          split
          next hzero => exact hsame 0 hzero ▸ hfirst.2
          · exact hfirst.2
        · exact iff_of_false (fun hnew => hnew.2 (h.hidden i values hi hlive hnew.1)) hlive
      · rw [View.Live, View.Live, hw.holds_of_outside hmem, hlimit]
        exact and_congr_left (h.outside row hmem)
    · by_cases hmem : row ∈ copyIds t s.shared rows
      · obtain ⟨i, values, hi, rfl⟩ := mem_copyIds.1 hmem
        by_cases hcol : col ∈ cols
        · rw [hcell i values hi col hcol, (h.same i values hi hlive).2 col hcol]
        · exact hw.cell_of_notMem hcol _ _
      · exact hw.cell_of_outside hmem t.id col

lemma mem_bulkColumns (hcols : Store.batchColumns t.id batch s.shared = List.range t.columns.length)
    {pool : List ℕ} (hk : k < t.columns.length) {col : ℕ}
    (h : col ∈ bulkColumns t.id batch pool k s.shared) : col < t.columns.length := by
  rw [bulkColumns, hcols] at h
  split at h
  · exact mem_range.1 (mem_of_mem_filter h)
  · exact (mem_range.1 h).trans hk

end copy

/-- COPY FROM appends the rows of a file, or fails and changes nothing, exactly if `CopySafe` holds.
Without a compressed column, where `rebuild_csr` does not fail: the ids are free, no first value is
null, the limit of scans takes in the new rows and no others, and the index has the keys already.
Otherwise: what has been written leaves no trace. -/
theorem copy_appends_iff {t : Table} {s : Store Schema} (ht : t.Of s.shared) (run : Op.CopyRun)
    (batches : List (List (List Value)))
    (hparsed : ∀ values ∈ batches.flatten, values.length = t.columns.length) (tx : TxState Schema) :
    CopyRight t batches.flatten tx.tx s ((Op.physicalCopyFrom t run (batches.map .ok)).run tx s) ↔
      CopySafe t run batches tx.tx s := by
  rw [CopySafe]
  cases hc : s.shared.firstCompressed t.id batches.flatten with
  | none =>
    obtain ⟨result, tx', s', hrun, hw, hrebuild⟩ := run_physicalCopyFrom ht hparsed hc run tx
    rw [hrun, CopyRight]
    dsimp only
    cases hfail : rebuildFailure t (copyShared t s.shared batches.flatten.length) run.scan with
    | some e =>
      rw [hfail] at hrebuild
      obtain ⟨⟨e, rfl⟩, hlimit⟩ := hrebuild
      exact sameRows_iff_traceless hw hlimit (fun col => mem_range.1) hparsed (length_pos_of_ne_nil ht.ne_nil)
    | none =>
      rw [hfail] at hrebuild
      obtain ⟨⟨chunks, rfl⟩, hlimit⟩ := hrebuild
      exact copyAppends_iff_roomFor (length_pos_of_ne_nil ht.ne_nil) hw hlimit hparsed
  | some k =>
    -- the first batch with a row fails, at the first compressed column
    have hrows : batches.flatten ≠ [] := by
      intro hnil
      rw [Shared.firstCompressed, hnil, Store.batchColumns] at hc
      simp at hc
    obtain ⟨batch, hfind⟩ : ∃ batch, batches.find? (· ≠ []) = some batch := by
      refine isSome_iff_exists.1 (find?_isSome.2 ?_)
      simpa [flatten_eq_nil_iff] using hrows
    have hbatch := mem_of_find?_eq_some hfind
    have hne : batch ≠ [] := by simpa using find?_some hfind
    have hk : k < t.columns.length := by
      rw [Shared.firstCompressed, ht.batchColumns hrows hparsed] at hc
      exact mem_range.1 (mem_of_find?_eq_some hc)
    have hlen : ∀ values ∈ batch, values.length = t.columns.length :=
      fun values hvalues => hparsed values (mem_flatten_of_mem hbatch hvalues)
    obtain ⟨e, tx', s', hrun, hshared, hnil, hwritten⟩ :=
      run_copyBatches_of_compressed run.pool ht hparsed _ hc hfind (copyStart t s.shared) 0 tx
    rw [show (Op.physicalCopyFrom t run (batches.map .ok)).run tx s = _ from hrun, CopyRight]
    dsimp only
    have hlimit : (s'.view tx'.tx).scanLimit t.id = (s.view tx.tx).scanLimit t.id := by
      rw [scanLimit_view, scanLimit_view, hshared]
    have hiff : SameRows t.id (s.view tx.tx) (s'.view tx'.tx) ↔
        bulkColumns t.id batch (run.pool (copyStart t s.shared)) k s.shared = [] ∨
        Traceless t (bulkColumns t.id batch (run.pool (copyStart t s.shared)) k s.shared) batch
          ((s.view tx.tx).scanLimit t.id) tx.tx s := by
      by_cases hcols : bulkColumns t.id batch (run.pool (copyStart t s.shared)) k s.shared = []
      · rw [hnil hcols]
        exact iff_of_true ⟨fun _ => .rfl, fun _ _ _ => rfl⟩ (.inl hcols)
      · rw [or_iff_right hcols]
        exact sameRows_iff_traceless (hwritten hcols) hlimit
          (fun col => mem_bulkColumns (ht.batchColumns hne hlen) hk) hlen (length_pos_of_ne_nil ht.ne_nil)
    rw [hiff]
    constructor
    · rintro h _ hfound
      obtain rfl := some.inj (hfind.symm.trans hfound)
      exact h
    · exact fun h => h batch hfind

/-- A COPY in which all columns are written and `rebuild_csr` reads what there is. -/
def Op.CopyRun.plain : Op.CopyRun := ⟨fun _ => [], ⟨0, 0, none⟩⟩

/-- A node table without a primary key. -/
def person : Table := ⟨0, "person", ["_id", "name"], false, none, false, none⟩

/-- COPY of one row to an empty table. -/
theorem copy_appends_one :
    ∃ tx s, (Store.ofColumns fun _ => ["_id", "name"]).beginAt false none = .ok (tx, s) ∧
      CopyRight person [[.node 0, .string "ann"]] tx.tx s
        ((Op.physicalCopyFrom person .plain [.ok [[.node 0, .string "ann"]]]).run tx s) := by
  refine ⟨_, _, rfl, (copy_appends_iff ⟨rfl, .inl rfl⟩ .plain [[[.node 0, .string "ann"]]]
    (by decide) _).2 (show RoomFor _ _ 1 _ _ from ⟨?_, by decide, ?_, ?_, nofun⟩)⟩
  · rintro id - (⟨hlt, -⟩ | ⟨t, -, v, hv, -⟩ | ⟨t, values, hmem⟩)
    · exact absurd hlt (Nat.not_lt_zero _)
    · cases hv
    · cases hmem
  · rintro row (hlive | hmem)
    · exact absurd hlive.1 (Nat.not_lt_zero _)
    · exact (mem_range'_1.1 hmem).2
  · intro row _ hlt hnot
    refine absurd (mem_range'_1.2 ⟨Nat.zero_le _, ?_⟩) hnot
    exact hlt

def knows : Table := ⟨1, "knows", ["_src", "_dst"], true, none, false, none⟩

/-- A database with a relationship from node 0 to node 1, from a first COPY. -/
def oneRelationship : Store Unit :=
  (Store.ofColumns fun _ => ["_src", "_dst"]).autocommit
    (.physicalCopyFrom knows .plain [.ok [[.node 0, .node 1]]])

/-- A second COPY, of a relationship from node 2 to node 3, puts it in the place of the other one. -/
theorem copy_overwrites_relationship :
    ∃ tx s, oneRelationship.beginAt false none = .ok (tx, s) ∧ knows.Of s.shared ∧
      (s.view tx.tx).Live knows.id 0 ∧
      ¬ CopyRight knows [[.node 2, .node 3]] tx.tx s
        ((Op.physicalCopyFrom knows .plain [.ok [[.node 2, .node 3]]]).run tx s) := by
  let begun := (oneRelationship.beginAt false none).toOption.get rfl
  refine ⟨begun.1, begun.2, rfl, ⟨rfl, .inr rfl⟩, by decide +kernel, fun h => ?_⟩
  have hkept := CopyAppends.kept h 0 (by decide +kernel) 0
  revert hkept
  decide +kernel

end LightningDB
