import LightningDB.Framework.FinMap
import LightningDB.Storage.Page
import Mathlib.Algebra.Group.Nat.Defs
import Mathlib.Data.Finset.Erase
import Mathlib.Data.Finset.Insert
import Mathlib.Data.Finset.Lattice.Basic

/-!
# Transactions and their manager

`TransactionManager` is the bookkeeping shared by all transactions: the two counters, the set of
write transactions in flight and the multiset of read timestamps in use.  Each operation below is
one atomic access of the source to one of these four fields, or a composition of such accesses;
which of them another thread may separate is decided by the systems that use them.

Identifiers and timestamps are natural numbers; the two `fetch_update` calls refuse to step past
`u64::MAX`, so no operation leaves the range of the machine type.

The watermark that a checkpoint persists, `resolvedTxWatermark`, is the largest id below the next
one that is not in flight (`resolvedTxWatermark_spec`).
-/

namespace LightningDB

open Framework

/-- `u64::MAX`. -/
def u64Max : ℕ := 2 ^ 64 - 1

/-- The address of a page: file id and page index. -/
abbrev PageKey := ℕ × ℕ

/-- `PageRowMod`: one element of a page, recorded for the merge at commit. -/
structure PageRowMod where
  fileId : ℕ
  pageIdx : ℕ
  rowId : ℕ
  elementSize : ℕ
  valuesPerPage : ℕ
  rowData : List UInt8
deriving DecidableEq

/-- `Transaction`.  The `RowVersion`s are numbered. -/
structure Transaction where
  txId : ℕ
  isReadOnly : Bool
  readTs : ℕ
  commitTs : ℕ
  modifiedPages : List PageKey
  modifiedRows : List (ℕ × ℕ)
  bulkRowRanges : List (ℕ × ℕ × ℕ)
  modifiedPageRows : List PageRowMod
deriving DecidableEq

/-- `TransactionManager`: the counters and the transactions in flight. -/
structure TransactionManager where
  nextTxId : ℕ
  currentTs : ℕ
  activeTxIds : Finset ℕ
  activeReadTs : CountMap ℕ

namespace TransactionManager

/-- `TransactionManager::new`. -/
def new : TransactionManager where
  nextTxId := 1
  currentTs := 1
  activeTxIds := ∅
  activeReadTs := .empty

variable (tm : TransactionManager)

/-- The first half of `begin_at`: take an id, unless the counter is exhausted. -/
def allocTxId : Option (ℕ × TransactionManager) :=
  if tm.nextTxId = u64Max then none
  else some (tm.nextTxId, { tm with nextTxId := tm.nextTxId + 1 })

/-- The second half of `begin_at`: fix the snapshot and register the transaction. -/
def register (txId : ℕ) (isReadOnly : Bool) (snapshotTs : Option ℕ) :
    Transaction × TransactionManager :=
  let readTs := snapshotTs.getD tm.currentTs
  ({ txId := txId
     isReadOnly := isReadOnly
     readTs := readTs
     commitTs := 0
     modifiedPages := []
     modifiedRows := []
     bulkRowRanges := []
     modifiedPageRows := [] },
   { tm with
     activeTxIds := if isReadOnly then tm.activeTxIds else insert txId tm.activeTxIds
     activeReadTs := tm.activeReadTs.incr readTs })

/-- `begin_at`, without interference between its halves. -/
def beginAt (isReadOnly : Bool) (snapshotTs : Option ℕ) :
    Option (Transaction × TransactionManager) :=
  tm.allocTxId.map fun (txId, tm) => tm.register txId isReadOnly snapshotTs

/-- The bump of `current_ts` in `commit`: the commit timestamp, unless the clock is exhausted. -/
def nextCommitTs : Option (ℕ × TransactionManager) :=
  if tm.currentTs = u64Max then none
  else some (tm.currentTs + 1, { tm with currentTs := tm.currentTs + 1 })

/-- `active_tx_ids.write().remove(&tx_id)`. -/
def removeActive (txId : ℕ) : TransactionManager :=
  { tm with activeTxIds := tm.activeTxIds.erase txId }

/-- `remove_read_ts`. -/
def removeReadTs (readTs : ℕ) : TransactionManager :=
  { tm with activeReadTs := tm.activeReadTs.decr readTs }

/-- What `commit`, `rollback` and `drop` all do to the manager in the end. -/
def finish (tx : Transaction) : TransactionManager :=
  (if tx.isReadOnly then tm else tm.removeActive tx.txId).removeReadTs tx.readTs

/-- `get_min_active_read_ts`. -/
def getMinActiveReadTs : ℕ :=
  tm.activeReadTs.minKey?.getD tm.currentTs

/-- `restore_counters`. -/
def restoreCounters (nextTxId currentTs : ℕ) : TransactionManager :=
  { tm with
    nextTxId := max tm.nextTxId (max nextTxId 1)
    currentTs := max tm.currentTs (max currentTs 1) }

/-- The loop of `resolved_tx_watermark`, downwards from `w`. -/
def watermarkFrom (active : Finset ℕ) : ℕ → ℕ
  | 0 => 0
  | w + 1 => if w + 1 ∉ active then w + 1 else watermarkFrom active w

/-- `resolved_tx_watermark`. -/
def resolvedTxWatermark : ℕ :=
  if tm.nextTxId ≤ 1 then 0 else watermarkFrom tm.activeTxIds (tm.nextTxId - 1)

/-! ## The watermark -/

lemma watermarkFrom_spec {active : Finset ℕ} (h0 : 0 ∉ active) (w : ℕ) :
    watermarkFrom active w ≤ w ∧ watermarkFrom active w ∉ active ∧
      ∀ b, watermarkFrom active w < b → b ≤ w → b ∈ active := by
  induction w with
  | zero =>
    refine ⟨le_rfl, h0, ?_⟩
    omega
  | succ w ih =>
    rw [watermarkFrom]
    split
    next hw => exact ⟨le_rfl, hw, fun b hb hbw => by omega⟩
    next hw =>
      obtain ⟨hle, hnot, habove⟩ := ih
      refine ⟨hle.trans (Nat.le_succ w), hnot, ?_⟩
      intro b hb hbw
      rcases lt_or_ge w b with hlt | hge
      · have hbe : b = w + 1 := by omega
        exact hbe ▸ not_not.1 hw
      · exact habove b hb hge

variable {tm tm' : TransactionManager} {ts : ℕ}

/-- The watermark is the largest id below the next one that is not in flight. -/
theorem resolvedTxWatermark_spec (h0 : 0 ∉ tm.activeTxIds) (hnext : 1 ≤ tm.nextTxId) :
    tm.resolvedTxWatermark < tm.nextTxId ∧ tm.resolvedTxWatermark ∉ tm.activeTxIds ∧
      ∀ b, tm.resolvedTxWatermark < b → b < tm.nextTxId → b ∈ tm.activeTxIds := by
  rw [resolvedTxWatermark]
  split
  · exact ⟨by omega, h0, fun b hb hbn => by omega⟩
  · obtain ⟨hle, hnot, habove⟩ := watermarkFrom_spec h0 (tm.nextTxId - 1)
    exact ⟨by omega, hnot, fun b hb hbn => habove b hb (by omega)⟩

/-! ## The horizon -/

/-- The least active read timestamp is at most every registered one. -/
lemma getMinActiveReadTs_le_of_count
    (h : 0 < tm.activeReadTs.count ts) : tm.getMinActiveReadTs ≤ ts := by
  rw [getMinActiveReadTs]
  cases hmin : tm.activeReadTs.minKey? with
  | none =>
    have hzero := CountMap.minKey?_eq_none hmin ts
    omega
  | some m => exact CountMap.minKey?_le hmin h

/-! ## What the operations change -/

lemma allocTxId_eq_some {t : ℕ} (h : tm.allocTxId = some (t, tm')) :
    t = tm.nextTxId ∧ tm' = { tm with nextTxId := tm.nextTxId + 1 } := by
  rw [allocTxId] at h
  split at h
  · cases h
  · cases h
    exact ⟨rfl, rfl⟩

lemma nextCommitTs_eq_some (h : tm.nextCommitTs = some (ts, tm')) :
    ts = tm.currentTs + 1 ∧ tm' = { tm with currentTs := tm.currentTs + 1 } := by
  rw [nextCommitTs] at h
  split at h
  · cases h
  · cases h
    exact ⟨rfl, rfl⟩

section Fields

variable (tm : TransactionManager)

variable (tx : Transaction)

@[simp] lemma finish_nextTxId : (tm.finish tx).nextTxId = tm.nextTxId := by
  rw [finish]
  split <;> rfl

@[simp] lemma finish_currentTs : (tm.finish tx).currentTs = tm.currentTs := by
  rw [finish]
  split <;> rfl

@[simp] lemma finish_activeReadTs :
    (tm.finish tx).activeReadTs = tm.activeReadTs.decr tx.readTs := by
  rw [finish]
  split <;> rfl

lemma finish_activeTxIds : (tm.finish tx).activeTxIds =
      if tx.isReadOnly then tm.activeTxIds else tm.activeTxIds.erase tx.txId := by
  rw [finish]
  split <;> rfl

end Fields

end TransactionManager

end LightningDB
