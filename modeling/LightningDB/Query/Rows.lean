import LightningDB.Query.Operators

/-!
# Rows of a table, as a transaction sees them

A scan goes over the rows below the larger of `next_row_id` and the row count of the catalog, and
keeps those that are visible and not deleted; a deleted row has null in its first column.  Such a row
is *live* (`View.Live`).

`Appended` says what `bulk_append_batch` does to all that a transaction sees of its tables.  It adds
up: batches that follow one another append the rows of all of them (`Appended.append`).
-/

namespace LightningDB

variable {Schema : Type}

namespace View

variable (v : View Schema)

/-- The number of rows that a scan goes over. -/
def scanLimit (table : ℕ) : ℕ :=
  max (v.shared.nextRowId table) (v.shared.numRows table)

/-- Whether a scan of the table would keep the row. -/
def holds (table row : ℕ) : Bool :=
  v.visible table row && v.cell (.column table 0 row) != .null

def Live (table row : ℕ) : Prop :=
  row < v.scanLimit table ∧ v.holds table row = true

instance (v : View Schema) (table row : ℕ) : Decidable (v.Live table row) :=
  inferInstanceAs (Decidable (_ ∧ _))

end View

/-- The tables of the catalog: their columns begin with `_id`, or with `_src`. -/
structure Table.Of (t : Table) (sh : Shared Schema) : Prop where
  columns : sh.columns t.id = t.columns
  first : t.columns.head? = some "_id" ∨ t.columns.head? = some "_src"

lemma Table.Of.ne_nil {t : Table} {sh : Shared Schema} (ht : t.Of sh) : t.columns ≠ [] := by
  rintro hnil
  rcases ht.first with h | h <;> simp [hnil] at h

namespace Store

/-- The row ids that a row has, for whichever transaction: one with a committed value, one that another
transaction has written, and one that waits in a write buffer. -/
def Used (s : Store Schema) (tx : Transaction) (table row : ℕ) : Prop :=
  (row < (s.view tx).scanLimit table ∧ (s.view tx).cell (.column table 0 row) ≠ .null) ∨
    (∃ t ≠ tx.txId, ∃ v, lookupCell (s.versions t) (.column table 0 row) = some v ∧ v ≠ .null) ∨
    ∃ t values, (table, row, values) ∈ s.buffers t

/-! ## Writes -/

lemma lookupCell_append (writes writes' : List (Cell × Value)) (c : Cell) :
    lookupCell (writes ++ writes') c = (lookupCell writes' c).or (lookupCell writes c) := by
  rw [lookupCell, lookupCell, lookupCell, List.foldl_append]
  -- what has been found before is kept unless the cell is written again
  generalize List.foldl _ none writes = found
  induction writes' generalizing found with
  | nil => rfl
  | cons w writes' ih =>
    rw [List.foldl_cons, List.foldl_cons, ih]
    by_cases hw : w.1 = c
    · rw [if_pos hw, if_pos hw, ih (some w.2)]
      cases List.foldl (fun found w => if w.1 = c then some w.2 else found) none writes' <;> rfl
    · rw [if_neg hw, if_neg hw]

lemma lookupCell_eq_none {writes : List (Cell × Value)} {c : Cell} (h : ∀ w ∈ writes, w.1 ≠ c) :
    lookupCell writes c = none := by
  induction writes with
  | nil => rfl
  | cons w writes ih =>
    rw [← List.singleton_append, lookupCell_append, ih fun w' hw' => h w' (.tail _ hw')]
    simp [lookupCell, h w (.head _)]

lemma lookupCell_filter (writes : List (Cell × Value)) (p : Cell → Bool) (c : Cell) :
    lookupCell (writes.filter fun w => p w.1) c = if p c then lookupCell writes c else none := by
  induction writes with
  | nil => simp [lookupCell]
  | cons w writes ih =>
    have hone : lookupCell ([w].filter fun w => p w.1) c = if p c then lookupCell [w] c else none := by
      by_cases hw : w.1 = c
      · subst hw
        cases hp : p w.1 <;> simp [lookupCell, hp]
      · cases hp : p w.1 <;> simp [lookupCell, hp, hw]
    rw [← List.singleton_append, lookupCell_append, List.filter_append, lookupCell_append, ih, hone]
    split <;> rfl

/-- What a row has for a cell, in the columns from `col₀` on. -/
def rowCell (table row col₀ : ℕ) (values : List Value) : Cell → Option Value
  | .column tb col r => if tb = table ∧ r = row ∧ col₀ ≤ col then values[col - col₀]? else none
  | .index _ _ => none

def batchCell (table start : ℕ) (rows : List (List Value)) : Cell → Option Value
  | .column tb col row =>
    if tb = table ∧ start ≤ row then (rows[row - start]?).bind (·[col]?) else none
  | .index _ _ => none

lemma lookupCell_zipIdx (table row col₀ : ℕ) (values : List Value) (c : Cell) :
    lookupCell ((values.zipIdx col₀).map fun x => (Cell.column table x.2 row, x.1)) c =
      rowCell table row col₀ values c := by
  induction values generalizing col₀ with
  | nil => cases c <;> simp [lookupCell, rowCell]
  | cons v values ih =>
    rw [List.zipIdx_cons, List.map_cons, ← List.singleton_append, lookupCell_append, ih]
    cases c with
    | index tb key => simp [lookupCell, rowCell]
    | column tb col r =>
      by_cases hr : tb = table ∧ r = row
      · obtain ⟨rfl, rfl⟩ := hr
        rcases lt_trichotomy col col₀ with h | rfl | h
        · simp [lookupCell, rowCell, show ¬ col₀ ≤ col by omega, show ¬ col₀ + 1 ≤ col by omega,
            show col₀ ≠ col by omega]
        · simp [lookupCell, rowCell, show ¬ col + 1 ≤ col by omega]
        · obtain ⟨d, rfl⟩ := Nat.exists_eq_add_of_lt h
          simp [lookupCell, rowCell, show col₀ + d + 1 - col₀ = d + 1 by omega,
            show col₀ ≤ col₀ + d + 1 by omega, show col₀ ≠ col₀ + d + 1 by omega]
      · have hne : ∀ p : Prop, ¬ (tb = table ∧ r = row ∧ p) := fun p h => hr ⟨h.1, h.2.1⟩
        simp only [rowCell, hne]
        refine lookupCell_eq_none fun w hw hc => hr ?_
        rw [List.mem_singleton.1 hw] at hc
        exact ⟨(Cell.column.inj hc).1.symm, (Cell.column.inj hc).2.2.symm⟩

lemma rowCells_cons (table start : ℕ) (values : List Value) (rows : List (List Value)) :
    rowCells table start (values :: rows) =
      (values.zipIdx.map fun x => (Cell.column table x.2 start, x.1)) ++
        rowCells table (start + 1) rows := by
  simp [rowCells]

lemma lookupCell_rowCells (table start : ℕ) (rows : List (List Value)) (c : Cell) :
    lookupCell (rowCells table start rows) c = batchCell table start rows c := by
  induction rows generalizing start with
  | nil => cases c <;> simp [rowCells, lookupCell, batchCell]
  | cons values rows ih =>
    rw [rowCells_cons, lookupCell_append, ih, lookupCell_zipIdx]
    cases c with
    | index tb key => rfl
    | column tb col row =>
      by_cases htb : tb = table
      · rcases lt_trichotomy row start with h | rfl | h
        · simp [batchCell, rowCell, show ¬ start ≤ row by omega, show ¬ start + 1 ≤ row by omega,
            show row ≠ start by omega]
        · simp [batchCell, rowCell, show ¬ row + 1 ≤ row by omega]
        · obtain ⟨d, rfl⟩ := Nat.exists_eq_add_of_lt h
          simp [batchCell, rowCell, show start + d + 1 - start = d + 1 by omega,
            show start ≤ start + d + 1 by omega, show start + d + 1 ≠ start by omega]
      · simp [batchCell, rowCell, htb]

lemma batchCell_append (table start : ℕ) (rows rows' : List (List Value)) (c : Cell) :
    batchCell table start (rows ++ rows') c =
      (batchCell table (start + rows.length) rows' c).or (batchCell table start rows c) := by
  cases c with
  | index tb key => rfl
  | column tb col row =>
    by_cases htb : tb = table
    · rcases lt_or_ge row (start + rows.length) with hlt | hge
      · have hnot : ¬ start + rows.length ≤ row := by omega
        simp only [batchCell, hnot, and_false, if_false, Option.none_or]
        split
        · rw [List.getElem?_append_left (by omega)]
        · rfl
      · have hnone : rows[row - start]? = none := List.getElem?_eq_none (by omega)
        simp only [batchCell, htb, hge, show start ≤ row by omega, and_self, if_true, hnone,
          Option.bind_none, Option.or_none]
        rw [List.getElem?_append_right (by omega), Nat.sub_add_eq]
    · simp [batchCell, htb]

variable {rows : List (List Value)}

lemma batchCell_column {i : ℕ} {values : List Value}
    (hi : rows[i]? = some values) (table start col : ℕ) :
    batchCell table start rows (.column table col (start + i)) = values[col]? := by
  simp [batchCell, hi]

lemma batchCell_of_outside {table start row : ℕ} (h : row ∉ List.range' start rows.length)
    (tb col : ℕ) : batchCell table start rows (.column tb col row) = none := by
  rw [List.mem_range'_1] at h
  rw [batchCell]
  split
  · rw [List.getElem?_eq_none (by omega), Option.bind_none]
  · rfl

end Store

/-! ## Appended batches -/

open Store List

/-- What a transaction sees after it has written rows from a row id on, in some columns. -/
structure Written (table start : ℕ) (rows : List (List Value)) (cols : List ℕ)
    (before after : View Schema) : Prop where
  cell : ∀ c, after.cell c =
    (if c.isIn cols then batchCell table start rows c else none).getD (before.cell c)
  visible : ∀ tb row, after.visible tb row = true ↔
    (tb = table ∧ row ∈ List.range' start rows.length) ∨ before.visible tb row = true

/-- What a transaction sees after it has appended rows from a row id on. -/
structure Appended (table start : ℕ) (rows : List (List Value)) (cols : List ℕ)
    (before after : View Schema) : Prop extends Written table start rows cols before after where
  shared : after.shared = before.shared.appendRows table start rows.length

lemma Appended.nil (table start : ℕ) (cols : List ℕ) (v : View Schema) :
    Appended table start [] cols v v where
  cell c := by cases c <;> simp [batchCell]
  visible tb row := by simp
  shared := rfl

namespace Shared

variable (sh : Shared Schema) (table start n m : ℕ)

lemma appendRows_appendRows : (sh.appendRows table start n).appendRows table (start + n) m =
    sh.appendRows table start (n + m) := by
  cases n with
  | zero => simp [appendRows]
  | succ n =>
    cases m with
    | zero => simp [appendRows]
    | succ m =>
      simp only [appendRows, addCardinality, raiseNextRowId, Nat.succ_ne_zero, if_false,
        show n + 1 + (m + 1) ≠ 0 by omega, Function.update_self, Function.update_idem]
      congr 2
      · omega
      · omega

@[simp] lemma appendRows_numRows : (sh.appendRows table start n).numRows = sh.numRows := by
  rw [appendRows]
  split <;> rfl

@[simp] lemma appendRows_columns : (sh.appendRows table start n).columns = sh.columns := by
  rw [appendRows]
  split <;> rfl

@[simp] lemma appendRows_isCompressed :
    (sh.appendRows table start n).isCompressed = sh.isCompressed := by
  rw [appendRows]
  split <;> rfl

end Shared

lemma Appended.append {table start : ℕ} {rows rows' : List (List Value)} {cols : List ℕ}
    {v v' v'' : View Schema} (h : Appended table start rows cols v v')
    (h' : Appended table (start + rows.length) rows' cols v' v'') :
    Appended table start (rows ++ rows') cols v v'' where
  cell c := by
    rw [h'.cell, h.cell, batchCell_append]
    cases c.isIn cols with
    | true => cases batchCell table (start + rows.length) rows' c <;> rfl
    | false => rfl
  visible tb row := by
    rw [h'.visible, h.visible, ← or_assoc, ← and_or_left]
    simp only [mem_range'_1, length_append]
    have hsplit : (start + rows.length ≤ row ∧ row < start + rows.length + rows'.length ∨
        start ≤ row ∧ row < start + rows.length) ↔
        start ≤ row ∧ row < start + (rows.length + rows'.length) := by omega
    rw [hsplit]
  shared := by
    rw [h'.shared, h.shared, Shared.appendRows_appendRows, length_append]

section bulkAppend

variable (table start : ℕ) (rows : List (List Value)) (tx : TxState Schema) (s : Store Schema)

/-- The first column of a batch that cannot be written. -/
def Shared.firstCompressed (sh : Shared Schema) (table : ℕ) (rows : List (List Value)) : Option ℕ :=
  (batchColumns table rows sh).find? (sh.isCompressed table)

lemma isVisible_markRowBatch (rv : RowVersion) (start n t readTs row : ℕ) :
    (rv.markRowBatch start (start + n) t).isVisible row t readTs = true ↔
      row ∈ range' start n ∨ rv.isVisible row t readTs = true := by
  rw [RowVersion.isVisible, RowVersion.isVisible, owner_markRowBatch,
    RowVersion.history_markRowBatch, mem_range'_1]
  by_cases hrow : start ≤ row ∧ row < start + n
  · simp [hrow]
  · rw [if_neg hrow, or_iff_right hrow]

variable (cols : List ℕ) (pool : List ℕ)

lemma written_appendColumns (hcols : cols ≠ []) : Written table start rows cols (s.view tx.tx)
      ((s.appendColumns tx.tx.txId table start rows cols).view tx.tx) where
  cell c := by
    rw [appendColumns, if_neg hcols]
    simp only [view, putCells, markRange, Function.update_self, lookupCell_append,
      lookupCell_filter, lookupCell_rowCells]
    cases c.isIn cols with
    | true => cases batchCell table start rows c <;> rfl
    | false => rfl
  visible tb row := by
    rw [appendColumns, if_neg hcols]
    simp only [view, putCells, markRange, onVersion]
    by_cases htb : tb = table
    · subst htb
      simpa using isVisible_markRowBatch _ _ _ _ _ _
    · simp [htb]

lemma shared_appendColumns (t : ℕ) :
    (s.appendColumns t table start rows cols).shared = s.shared := by
  rw [appendColumns]
  split <;> rfl

/-- The columns that have been written when the first compressed one is column `k`: those before it;
of a large batch those that the thread pool has got to and that are not compressed. -/
def bulkColumns (k : ℕ) (sh : Shared Schema) : List ℕ :=
  if 3 ≤ (sh.columns table).length ∧ 1000 ≤ rows.length then
    (batchColumns table rows sh).filter fun c => c ∈ pool && !sh.isCompressed table c
  else List.range k

lemma bulkAppendBatch_of_writable (hc : s.shared.firstCompressed table rows = none)
    (hrows : rows ≠ []) :
    s.bulkAppendBatch table start rows pool tx =
      ⟨.ok (), { tx with tx := tx.tx.registerRange table start (start + rows.length) },
        { s.appendColumns tx.tx.txId table start rows (batchColumns table rows s.shared) with
          shared := s.shared.appendRows table start rows.length }⟩ := by
  rw [Shared.firstCompressed] at hc
  have hwritten : ∀ pool, columnsWritten table rows pool s.shared =
      (batchColumns table rows s.shared, none) := by
    intro pool
    unfold columnsWritten
    dsimp only
    rw [hc]
  simp only [bulkAppendBatch, appendBatch, if_neg hrows, hwritten, Ran.andThen, shared_appendColumns]

lemma appended_bulkAppendBatch (hc : s.shared.firstCompressed table rows = none)
    (hcols : rows ≠ [] → batchColumns table rows s.shared = cols) (hne : cols ≠ []) :
    ∃ tx' s', s.bulkAppendBatch table start rows pool tx = ⟨.ok (), tx', s'⟩ ∧
      Appended table start rows cols (s.view tx.tx) (s'.view tx'.tx) := by
  by_cases hrows : rows = []
  · subst hrows
    exact ⟨_, _, rfl, .nil _ _ _ _⟩
  · have hw := written_appendColumns table start rows tx s cols hne
    refine ⟨_, _, bulkAppendBatch_of_writable table start rows tx s pool hc hrows, ?_⟩
    rw [hcols hrows]
    exact ⟨⟨hw.cell, hw.visible⟩, rfl⟩

/-- With a compressed column there is an error; columns may have been written before. -/
lemma bulkAppendBatch_of_compressed (hrows : rows ≠ []) {k : ℕ}
    (hc : s.shared.firstCompressed table rows = some k) :
    ∃ e tx' s', s.bulkAppendBatch table start rows pool tx = ⟨.error e, tx', s'⟩ ∧
      s'.shared = s.shared ∧
      (bulkColumns table rows pool k s.shared = [] → s'.view tx'.tx = s.view tx.tx) ∧
      (bulkColumns table rows pool k s.shared ≠ [] →
        Written table start rows (bulkColumns table rows pool k s.shared) (s.view tx.tx)
          (s'.view tx'.tx)) := by
  obtain ⟨col, hwritten⟩ : ∃ col, columnsWritten table rows
      (if 3 ≤ (s.shared.columns table).length ∧ 1000 ≤ rows.length then some pool else none)
      s.shared = (bulkColumns table rows pool k s.shared, some col) := by
    rw [Shared.firstCompressed] at hc
    unfold columnsWritten
    dsimp only
    rw [hc, bulkColumns]
    by_cases hpool : 3 ≤ (s.shared.columns table).length ∧ 1000 ≤ rows.length
    · rw [if_pos hpool, if_pos hpool]
      exact ⟨_, rfl⟩
    · rw [if_neg hpool, if_neg hpool]
      exact ⟨_, rfl⟩
  rw [bulkAppendBatch, appendBatch, if_neg hrows, hwritten]
  refine ⟨_, _, _, rfl, shared_appendColumns .., fun hnil => ?_, fun hne => ?_⟩
  · rw [hnil]
    rfl
  · exact written_appendColumns table start rows tx s _ hne

end bulkAppend

/-! ## Operators that do not end their transaction -/

/-- The effects that leave the transaction open. -/
def Effect.Inner : Effect Schema → Prop
  | .commit | .rollback => False
  | _ => True

/-- Operators with no other effects. -/
def Op.Inner : Op Schema → Prop
  | .done | .fail _ => True
  | .emit _ next => next.Inner
  | .read next => ∀ v, (next v).Inner
  | .perform e next => e.Inner ∧ next.Inner

namespace Op

variable {next : Op Schema}

lemma inner_forEach {α : Type} {l : List α} {body : α → Op Schema → Op Schema}
    (hbody : ∀ a ∈ l, ∀ op : Op Schema, op.Inner → (body a op).Inner) (hnext : next.Inner) :
    (forEach l body next).Inner := by
  induction l with
  | nil => exact hnext
  | cons a l ih =>
    exact hbody a (.head _) _ (ih fun b hb => hbody b (.tail _ hb))

lemma inner_performAll {es : List (Effect Schema)} (hes : ∀ e ∈ es, e.Inner)
    (hnext : next.Inner) : (performAll es next).Inner :=
  inner_forEach (fun e he _ hop => ⟨hes e he, hop⟩) hnext

lemma inner_appendValue (t : Table) (col row : ℕ) (v : Value)
    (hnext : next.Inner) : (appendValue t col row v next).Inner := by
  intro view
  dsimp only
  split
  · trivial
  · exact ⟨trivial, trivial, trivial, hnext⟩

end Op

lemma pages_appendBatch (table start : ℕ) (rows : List (List Value)) (pool : Option (List ℕ))
    (tx : TxState Schema) (s : Store Schema) :
    (s.appendBatch table start rows pool tx).store.pages = s.pages := by
  rw [appendBatch]
  split
  · rfl
  · dsimp only [appendColumns]
    split <;> rfl

lemma pages_bulkAppendBatch (table start : ℕ) (rows : List (List Value)) (pool : List ℕ)
    (tx : TxState Schema) (s : Store Schema) :
    (s.bulkAppendBatch table start rows pool tx).store.pages = s.pages := by
  rw [bulkAppendBatch, Ran.andThen]
  split
  · dsimp only
    split <;> exact pages_appendBatch ..
  · exact pages_appendBatch ..

lemma pages_flushBuffer (table : ℕ) (tx : TxState Schema) (s : Store Schema) :
    (s.flushBuffer table tx).store.pages = s.pages := by
  rw [flushBuffer]
  split
  · rfl
  · rw [Ran.andThen]
    split <;> exact pages_appendBatch ..

lemma pages_flushTables (tables : List ℕ) (tx : TxState Schema) (s : Store Schema) :
    (flushTables tables tx s).store.pages = s.pages := by
  induction tables generalizing tx s with
  | nil => rfl
  | cons table tables ih =>
    rw [flushTables, Ran.andThen]
    split
    · exact (ih _ _).trans (pages_flushBuffer table tx s)
    · exact pages_flushBuffer table tx s

/-- Nothing is written to committed pages before the end of the transaction. -/
lemma Effect.Inner.pages_apply {e : Effect Schema} (he : e.Inner) (tx : TxState Schema)
    (s : Store Schema) : (e.apply tx s).store.pages = s.pages := by
  cases e with
  | mark | reserve =>
    rw [Effect.apply]
    split <;> rfl
  | buffer table row values =>
    rw [Effect.apply, appendRow]
    split
    · exact pages_flushBuffer ..
    · rfl
  | bulkAppend table start rows pool => exact pages_bulkAppendBatch ..
  | put | register | share | invalidate | undo | indexMutation | noteTableWrite | noteAllocated => rfl
  | commit | rollback => exact he.elim

lemma Op.Inner.pages_run {op : Op Schema} (hop : op.Inner) (tx : TxState Schema)
    (s : Store Schema) : (op.run tx s).store.pages = s.pages := by
  induction op generalizing tx s with
  | done | fail => rfl
  | emit chunk next ih => exact ih hop tx s
  | read next ih => exact ih _ (hop _) tx s
  | perform e next ih =>
    rw [Op.run, Ran.andThen]
    split
    · exact (ih hop.2 _ _).trans (hop.1.pages_apply tx s)
    · exact hop.1.pages_apply tx s

/-! ## Statements with a transaction of their own -/

/-- A database with empty tables. -/
def Store.ofColumns (columns : ℕ → List String) : Store Unit where
  tm := .new
  rows _ := .new
  pages _ := .null
  versions _ := []
  buffers _ := []
  mutated := []
  shared :=
    { nextRowId := fun _ => 0
      numRows := fun _ => 0
      cardinality := fun _ => 0
      csr := fun _ => none
      compressed := []
      columns := columns
      schema := () }
  invalidations := 0

def Store.nextTx (s : Store Schema) : Transaction := (s.tm.register s.tm.nextTxId false none).1

/-- An operator in a transaction of its own, which is committed, or rolled back after an error. -/
def Store.autocommit (op : Op Schema) (s : Store Schema) : Store Schema :=
  match s.beginAt false none with
  | .error _ => s
  | .ok (tx, s) =>
    let r := op.run tx s
    match r.result with
    | .ok _ => (r.store.commitOwn r.tx).2
    | .error _ => (r.store.rollback r.tx).store

end LightningDB
