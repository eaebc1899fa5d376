import LightningDB.Framework.FinMap
import Mathlib.Logic.Function.Basic

/-!
# Row versions

A `RowVersion` keeps, for the rows of one table, the transaction that is modifying a row and the
first and last timestamp at which the row was committed.  Rows are spread over sixteen shards by a
hash of the row id; a shard is a pair of maps.

The lemmas say what each operation does to the two questions the maps answer, `owner` and
`history`, so that no proof about transactions has to look at shards.
-/

namespace LightningDB

open Framework FinMap Option

/-- `CommittedVersion`: when a row was first and last committed. -/
structure CommittedVersion where
  firstTs : ℕ
  lastTs : ℕ
deriving DecidableEq

/-- `RowVersionShard`: the uncommitted owner and the commit history of the rows of a shard. -/
structure RowVersionShard where
  versions : FinMap ℕ ℕ
  committed : FinMap ℕ CommittedVersion

/-- `num_shards`. -/
def numRowShards : ℕ := 16

/-- `RowVersion`. -/
structure RowVersion where
  shards : Fin numRowShards → RowVersionShard
  dirtyFlag : Bool

namespace RowVersion

/-- `RowVersion::new`. -/
def new : RowVersion where
  shards := fun _ => ⟨∅, ∅⟩
  dirtyFlag := false

/-- `get_shard_idx`.  Nothing depends on the value of the hash. -/
@[irreducible]
def getShardIdx (rowId : ℕ) : Fin numRowShards :=
  let h : UInt64 := UInt64.ofNat rowId
  let h := h ^^^ (h >>> 33)
  let h := h * 0xff51afd7ed558ccd
  let h := h ^^^ (h >>> 33)
  let h := h * 0xc4ceb9fe1a85ec53
  let h := h ^^^ (h >>> 33)
  ⟨h.toNat % numRowShards, Nat.mod_lt _ (by decide)⟩

variable (rv : RowVersion)

def updateShard (rowId : ℕ) (f : RowVersionShard → RowVersionShard) : RowVersion :=
  { rv with
    shards := Function.update rv.shards (getShardIdx rowId) (f (rv.shards (getShardIdx rowId))) }

/-- The transaction that is modifying a row. -/
def owner (rowId : ℕ) : Option ℕ :=
  (rv.shards (getShardIdx rowId)).versions.lookup rowId

def history (rowId : ℕ) : Option CommittedVersion :=
  (rv.shards (getShardIdx rowId)).committed.lookup rowId

/-- The text of a conflict with a transaction in flight. -/
def activeConflict (rowId existingTx : ℕ) : String :=
  s!"Write-Write Conflict: Row {rowId} already modified by active tx {existingTx}"

def committedConflict (rowId lastTs : ℕ) : String :=
  s!"Write-Write Conflict: Row {rowId} modified by committed tx at {lastTs}"

/-- The insertion of an owner that `mark_row` ends with and `mark_row_batch` makes unchecked. -/
def setOwner (rowId txId : ℕ) : RowVersion :=
  { rv.updateShard rowId fun sh => { sh with versions := sh.versions.insert rowId txId } with
    dirtyFlag := true }

/-- `mark_row`. -/
def markRow (rowId txId readTs : ℕ) : Except String RowVersion :=
  match rv.owner rowId with
  | some existingTx =>
    if existingTx ≠ txId then .error (activeConflict rowId existingTx) else checkCommitted
  | none => checkCommitted
where
  checkCommitted : Except String RowVersion :=
    match rv.history rowId with
    | some entry =>
      if readTs < entry.lastTs then .error (committedConflict rowId entry.lastTs)
      else .ok (rv.setOwner rowId txId)
    | none => .ok (rv.setOwner rowId txId)

/-- `mark_row_batch` over `start..stop`; the grouping by shard only saves lock acquisitions. -/
def markRowBatch (start stop txId : ℕ) : RowVersion :=
  (List.range' start (stop - start)).foldl (fun rv rowId => rv.setOwner rowId txId) rv

/-- The history of a row after one more commit. -/
def extendHistory (entry : Option CommittedVersion) (commitTs : ℕ) : CommittedVersion :=
  let entry := entry.getD ⟨commitTs, commitTs⟩
  ⟨min entry.firstTs commitTs, max entry.lastTs commitTs⟩

/-- `commit_row`. -/
def commitRow (rowId commitTs : ℕ) : RowVersion :=
  rv.updateShard rowId fun sh =>
    { versions := sh.versions.erase rowId
      committed := sh.committed.insert rowId
        (extendHistory (sh.committed.lookup rowId) commitTs) }

/-- `commit_row` of each row in turn. -/
def commitRows (rowIds : List ℕ) (commitTs : ℕ) : RowVersion :=
  rowIds.foldl (fun rv rowId => rv.commitRow rowId commitTs) rv

/-- `commit_row_batch` over `start..stop`. -/
def commitRowBatch (start stop commitTs : ℕ) : RowVersion :=
  rv.commitRows (List.range' start (stop - start)) commitTs

/-- `rollback_row`. -/
def rollbackRow (rowId : ℕ) : RowVersion :=
  rv.updateShard rowId fun sh => { sh with versions := sh.versions.erase rowId }

/-- `rollback_row` of each row in turn. -/
def rollbackRows (rowIds : List ℕ) : RowVersion := rowIds.foldl rollbackRow rv

/-- `rollback_row_batch` over `start..stop`. -/
def rollbackRowBatch (start stop : ℕ) : RowVersion :=
  rv.rollbackRows (List.range' start (stop - start))

/-- `is_visible`. -/
def isVisible (rowId txId readTs : ℕ) : Bool :=
  match rv.owner rowId with
  | some modTx =>
    if modTx = txId then true
    else (rv.history rowId).any fun entry => entry.firstTs ≤ readTs
  | none => (rv.history rowId).all fun entry => entry.firstTs ≤ readTs

/-- What `vacuum` leaves of a history. -/
def vacuumEntry (minActiveTs : ℕ) (entry : CommittedVersion) : Option CommittedVersion :=
  if entry.lastTs < minActiveTs then none
  else if entry.firstTs < minActiveTs then some { entry with firstTs := minActiveTs }
  else some entry

/-- `vacuum`; the number of removed entries is a metric. -/
def vacuum (minActiveTs : ℕ) : RowVersion :=
  { rv with shards := fun i =>
      { rv.shards i with
        committed := (rv.shards i).committed.retain fun _ => vacuumEntry minActiveTs } }

/-! ## Owners and histories -/

variable (r r' : ℕ)

variable {f : RowVersionShard → RowVersionShard}

/-- An update of the shard of `r` by a function that touches only the entries of `r`. -/
lemma lookup_updateShard {β : Type} (map : RowVersionShard → FinMap ℕ β)
    (hf : ∀ sh, r' ≠ r → (map (f sh)).lookup r' = (map sh).lookup r') :
    (map ((rv.updateShard r f).shards (getShardIdx r'))).lookup r' =
      if r' = r then (map (f (rv.shards (getShardIdx r)))).lookup r
      else (map (rv.shards (getShardIdx r'))).lookup r' := by
  rw [updateShard]
  by_cases hr : r' = r
  · subst hr
    simp
  · rw [if_neg hr]
    by_cases hshard : getShardIdx r' = getShardIdx r
    · simp only [hshard, Function.update_self]
      exact hf _ hr
    · simp only [Function.update_of_ne hshard]

lemma owner_updateShard (hf : ∀ sh, r' ≠ r → (f sh).versions.lookup r' = sh.versions.lookup r') :
    (rv.updateShard r f).owner r' =
      if r' = r then (f (rv.shards (getShardIdx r))).versions.lookup r else rv.owner r' :=
  lookup_updateShard rv r r' (·.versions) hf

lemma history_updateShard
    (hf : ∀ sh, r' ≠ r → (f sh).committed.lookup r' = sh.committed.lookup r') :
    (rv.updateShard r f).history r' =
      if r' = r then (f (rv.shards (getShardIdx r))).committed.lookup r else rv.history r' :=
  lookup_updateShard rv r r' (·.committed) hf

lemma history_updateShard_of_eq (f : RowVersionShard → RowVersionShard)
    (hf : ∀ sh, (f sh).committed = sh.committed) :
    (rv.updateShard r f).history r' = rv.history r' := by
  rw [history_updateShard rv r r' (fun sh _ => by rw [hf]), hf]
  split
  next hr =>
    rw [hr]
    rfl
  · rfl

@[simp] lemma owner_setOwner (t : ℕ) :
    (rv.setOwner r t).owner r' = if r' = r then some t else rv.owner r' := by
  have h := owner_updateShard rv r r'
    (f := fun sh => { sh with versions := sh.versions.insert r t })
    (fun sh hr => by rw [lookup_insert_eq_ite, if_neg hr])
  rw [lookup_insert_eq_ite, if_pos rfl] at h
  exact h

@[simp] lemma history_setOwner (t : ℕ) : (rv.setOwner r t).history r' = rv.history r' :=
  history_updateShard_of_eq rv r r' (fun sh => { sh with versions := sh.versions.insert r t })
    fun _ => rfl

@[simp] lemma owner_commitRow (ts : ℕ) :
    (rv.commitRow r ts).owner r' = if r' = r then none else rv.owner r' := by
  rw [commitRow, owner_updateShard rv r r'
    (fun sh hr => by rw [lookup_erase_eq_ite, if_neg hr])]
  rw [lookup_erase_eq_ite, if_pos rfl]

@[simp] lemma history_commitRow (ts : ℕ) : (rv.commitRow r ts).history r' =
      if r' = r then some (extendHistory (rv.history r) ts) else rv.history r' := by
  rw [commitRow, history_updateShard rv r r'
    (fun sh hr => by rw [lookup_insert_eq_ite, if_neg hr])]
  rw [lookup_insert_eq_ite, if_pos rfl]
  rfl

@[simp] lemma owner_rollbackRow :
    (rv.rollbackRow r).owner r' = if r' = r then none else rv.owner r' := by
  rw [rollbackRow, owner_updateShard rv r r'
    (fun sh hr => by rw [lookup_erase_eq_ite, if_neg hr])]
  rw [lookup_erase_eq_ite, if_pos rfl]

@[simp] lemma history_rollbackRow : (rv.rollbackRow r).history r' = rv.history r' :=
  history_updateShard_of_eq rv r r' _ fun _ => rfl

@[simp] lemma history_vacuum (m : ℕ) :
    (rv.vacuum m).history r = (rv.history r).bind (vacuumEntry m) :=
  lookup_retain _ _ _

variable (rows : List ℕ)

lemma owner_commitRows (ts : ℕ) :
    (rv.commitRows rows ts).owner r = if r ∈ rows then none else rv.owner r := by
  induction rows generalizing rv with
  | nil => rfl
  | cons r₀ rows ih =>
    refine (ih (rv.commitRow r₀ ts)).trans ?_
    by_cases hr : r = r₀
    · simp [hr]
    · simp [hr]

lemma owner_rollbackRows :
    (rv.rollbackRows rows).owner r = if r ∈ rows then none else rv.owner r := by
  induction rows generalizing rv with
  | nil => rfl
  | cons r₀ rows ih =>
    refine (ih (rv.rollbackRow r₀)).trans ?_
    by_cases hr : r = r₀
    · simp [hr]
    · simp [hr]

@[simp] lemma history_rollbackRows : (rv.rollbackRows rows).history r = rv.history r := by
  induction rows generalizing rv with
  | nil => rfl
  | cons r₀ rows ih => exact (ih (rv.rollbackRow r₀)).trans (history_rollbackRow rv r₀ r)

section Extended

variable {rv r} {P : CommittedVersion → Prop}
  (hext : ∀ entry ts, P entry → P (extendHistory (some entry) ts))

include hext

lemma history_commitRows_of (h : ∃ entry, rv.history r = some entry ∧ P entry) (rows : List ℕ) (ts : ℕ) :
    ∃ entry, (rv.commitRows rows ts).history r = some entry ∧ P entry := by
  induction rows generalizing rv with
  | nil => exact h
  | cons r₀ rows ih =>
    obtain ⟨entry, hentry, hP⟩ := h
    have hstep : ∃ entry, (rv.commitRow r₀ ts).history r = some entry ∧ P entry := by
      rw [history_commitRow]
      by_cases hr : r = r₀
      · rw [if_pos hr, ← hr, hentry]
        exact ⟨_, rfl, hext entry ts hP⟩
      · rw [if_neg hr]
        exact ⟨entry, hentry, hP⟩
    exact ih hstep

lemma history_commitRows_of_mem {rows : List ℕ} {ts : ℕ} (hnew : ∀ old, P (extendHistory old ts))
    (hr : r ∈ rows) : ∃ entry, (rv.commitRows rows ts).history r = some entry ∧ P entry := by
  induction rows generalizing rv with
  | nil => cases hr
  | cons r₀ rows ih =>
    rcases List.mem_cons.1 hr with rfl | hr
    · refine history_commitRows_of hext ⟨extendHistory (rv.history r) ts, ?_, hnew _⟩ rows ts
      rw [history_commitRow, if_pos rfl]
    · exact ih hr

end Extended

/-- A commit at `ts` of a row is at or before its last one. -/
def Covers (rv : RowVersion) (r ts : ℕ) : Prop :=
  ∃ entry, rv.history r = some entry ∧ ts ≤ entry.lastTs

variable {ts : ℕ} {rows : List ℕ}

variable {rv r} in
lemma Covers.commitRows (h : rv.Covers r ts) (rows : List ℕ) (ts₀ : ℕ) :
    (rv.commitRows rows ts₀).Covers r ts :=
  history_commitRows_of (P := (ts ≤ ·.lastTs)) (fun _ _ hle => hle.trans (le_max_left _ _)) h rows ts₀

lemma covers_commitRows_of_mem (hr : r ∈ rows) (ts : ℕ) : (rv.commitRows rows ts).Covers r ts :=
  history_commitRows_of_mem (P := (ts ≤ ·.lastTs)) (fun _ _ hle => hle.trans (le_max_left _ _))
    (fun _ => le_max_right _ _) hr

@[simp] lemma history_markRowBatch (start stop t : ℕ) :
    (rv.markRowBatch start stop t).history r = rv.history r := by
  rw [markRowBatch]
  induction List.range' start (stop - start) generalizing rv with
  | nil => rfl
  | cons r₀ rows ih => exact (ih (rv.setOwner r₀ t)).trans (history_setOwner rv r₀ r t)

/-- A vacuum drops a history only when the row was last committed before its bound. -/
lemma covers_vacuum {rv : RowVersion} {r : ℕ} (h : rv.Covers r ts) (m : ℕ) :
    (rv.vacuum m).Covers r ts ∨ ts < m := by
  obtain ⟨entry, hentry, hle⟩ := h
  rcases lt_or_ge entry.lastTs m with hlt | hge
  · exact .inr (lt_of_le_of_lt hle hlt)
  · left
    rw [Covers, history_vacuum, hentry, bind_some, vacuumEntry, if_neg (not_lt.2 hge)]
    split
    · exact ⟨_, rfl, hle⟩
    · exact ⟨_, rfl, hle⟩

/-- **What a successful `mark_row` has checked**: no other transaction is modifying the row, and
no commit of it is later than the snapshot. -/
lemma markRow_eq_ok {rv rv' : RowVersion} {r t : ℕ} (h : rv.markRow r t ts = .ok rv') :
    rv' = rv.setOwner r t ∧ (∀ t', rv.owner r = some t' → t' = t) ∧
      ∀ entry, rv.history r = some entry → entry.lastTs ≤ ts := by
  have hcheck : ∀ {rv'}, markRow.checkCommitted rv r t ts = .ok rv' →
      rv' = rv.setOwner r t ∧ ∀ entry, rv.history r = some entry → entry.lastTs ≤ ts := by
    intro rv' h
    rw [markRow.checkCommitted] at h
    split at h
    next hentry =>
      split at h
      · cases h
      next hle =>
        cases h
        refine ⟨rfl, ?_⟩
        rintro e he
        rw [hentry, some.injEq] at he
        exact he ▸ not_lt.1 hle
    next hnone =>
      cases h
      refine ⟨rfl, ?_⟩
      rintro e he
      rw [hnone] at he
      cases he
  rw [markRow] at h
  split at h
  next howner =>
    split at h
    · cases h
    next heq =>
      obtain ⟨hrv, hhist⟩ := hcheck h
      refine ⟨hrv, ?_, hhist⟩
      rintro t' ht'
      rw [howner, some.injEq] at ht'
      exact ht' ▸ not_not.1 heq
  next hnone =>
    obtain ⟨hrv, hhist⟩ := hcheck h
    refine ⟨hrv, ?_, hhist⟩
    rintro t' ht'
    rw [hnone] at ht'
    cases ht'

/-! ## Readers and vacuums -/

lemma vacuum_setOwner (m t : ℕ) : (rv.setOwner r t).vacuum m = (rv.vacuum m).setOwner r t := by
  simp only [vacuum, setOwner, updateShard, mk.injEq, and_true]
  funext i
  by_cases hi : i = getShardIdx r
  · subst hi
    simp
  · simp [hi]

variable {rv r} in
/-- A commit after the snapshot is not before the bound, so `mark_row` still meets it. -/
lemma checkCommitted_vacuum {m : ℕ} (hle : m ≤ ts) (t : ℕ) :
    markRow.checkCommitted (rv.vacuum m) r t ts =
      (markRow.checkCommitted rv r t ts).map (·.vacuum m) := by
  rw [markRow.checkCommitted, markRow.checkCommitted, history_vacuum]
  cases rv.history r with
  | none => simp [Except.map, vacuum_setOwner]
  | some entry =>
    by_cases hlast : ts < entry.lastTs
    · have hm : ¬ entry.lastTs < m := by omega
      by_cases hfirst : entry.firstTs < m <;> simp [vacuumEntry, hm, hfirst, hlast, Except.map]
    · by_cases hm : entry.lastTs < m
      · simp [vacuumEntry, hm, hlast, Except.map, vacuum_setOwner]
      · by_cases hfirst : entry.firstTs < m <;>
          simp [vacuumEntry, hm, hfirst, hlast, Except.map, vacuum_setOwner]

/-- **A vacuum and a reader.**  The conflicts that `mark_row` finds are the same after a vacuum.  What
`is_visible` answers to the snapshots from the bound on is the same just if no history is dropped of a row that
another transaction is modifying, or that was not committed by then. -/
theorem vacuum_invisible_iff (rv : RowVersion) (m r t : ℕ) :
    (∀ readTs, m ≤ readTs → (rv.vacuum m).isVisible r t readTs = rv.isVisible r t readTs ∧
        (rv.vacuum m).markRow r t readTs = (rv.markRow r t readTs).map (·.vacuum m)) ↔
      ∀ entry, rv.history r = some entry → entry.lastTs < m →
        rv.owner r = some t ∨ rv.owner r = none ∧ entry.firstTs ≤ m := by
  have howner : (rv.vacuum m).owner r = rv.owner r := rfl
  have hmark : ∀ readTs, m ≤ readTs →
      (rv.vacuum m).markRow r t readTs = (rv.markRow r t readTs).map (·.vacuum m) := by
    intro readTs hle
    rw [markRow, markRow, howner]
    cases rv.owner r with
    | none => exact checkCommitted_vacuum hle t
    | some t' =>
      dsimp only
      split
      · rfl
      · exact checkCommitted_vacuum hle t
  constructor
  · intro h entry hentry hlast
    cases ho : rv.owner r with
    | none =>
      have hvisible := (h m le_rfl).1
      simp [isVisible, howner, ho, hentry, vacuumEntry, hlast] at hvisible
      exact .inr ⟨rfl, hvisible⟩
    | some t' =>
      -- the row was visible from its first commit on
      have hvisible := (h (max m entry.firstTs) (le_max_left _ _)).1
      simp only [isVisible, howner, ho, hentry, history_vacuum, vacuumEntry, hlast, if_true, bind_some,
        any_none, any_some, le_max_right, decide_true] at hvisible
      split at hvisible
      next heq => exact .inl (congrArg some heq)
      · cases hvisible
  · refine fun h readTs hle => ⟨?_, hmark readTs hle⟩
    rw [isVisible, isVisible, howner, history_vacuum]
    cases hentry : rv.history r with
    | none => rfl
    | some entry =>
      by_cases hlast : entry.lastTs < m
      · rcases h entry hentry hlast with ho | ⟨ho, hfirst⟩
        · simp [ho]
        · simp [ho, vacuumEntry, hlast, hfirst.trans hle]
      · by_cases hfirst : entry.firstTs < m
        · simp [vacuumEntry, hlast, hfirst, hle, hfirst.le.trans hle]
        · simp [vacuumEntry, hlast, hfirst]

/-- A row that another transaction is changing is gone for a reader after the vacuum. -/
theorem vacuum_hides_row : ∃ rv : RowVersion, (new.commitRow 5 1).markRow 5 2 1 = .ok rv ∧
    rv.isVisible 5 3 4 = true ∧ (rv.vacuum 4).isVisible 5 3 4 = false := by
  have hnew : new.history 5 = none := rfl
  refine ⟨(new.commitRow 5 1).setOwner 5 2, ?_, ?_, ?_⟩
  · simp [markRow, markRow.checkCommitted, hnew, extendHistory]
  · simp [isVisible, hnew, extendHistory]
  · have howner : (((new.commitRow 5 1).setOwner 5 2).vacuum 4).owner 5 = some 2 := owner_setOwner _ 5 5 2
    simp [isVisible, howner, hnew, extendHistory, vacuumEntry]

end RowVersion

end LightningDB
