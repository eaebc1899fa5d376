import LightningDB.Framework.Runs
import LightningDB.Storage.RowVersion
import Mathlib.Data.List.FinRange

/-!
# The visibility of many rows at once

`get_visibility_mask` regroups the rows by shard and writes the answers back by position;
`has_modifications` lets a scan leave the question out.
-/

namespace LightningDB

open Framework Function List

namespace RowVersion

variable (rv : RowVersion)

def shardGroups (rowIds : List ℕ) : Fin numRowShards → List (ℕ × ℕ) :=
  rowIds.zipIdx.foldl (fun groups x =>
    update groups (getShardIdx x.1) (groups (getShardIdx x.1) ++ [(x.2, x.1)])) fun _ => []

def shardVisible (shard : RowVersionShard) (rowId txId readTs : ℕ) : Bool :=
  match shard.versions.lookup rowId with
  | some modTx =>
    if modTx ≠ txId then (shard.committed.lookup rowId).any (·.firstTs ≤ readTs) else true
  | none =>
    match shard.committed.lookup rowId with
    | some entry => entry.firstTs ≤ readTs
    | none => true

/-- `get_visibility_mask`, with the content that the mask has had. -/
def getVisibilityMask (rowIds : List ℕ) (txId readTs : ℕ) (mask : List Bool) : List Bool :=
  let n := rowIds.length
  (finRange numRowShards).foldl (fun mask i =>
    (shardGroups rowIds i).foldl (fun mask x =>
      mask.set x.1 (shardVisible (rv.shards i) x.2 txId readTs)) mask)
    (mask.take n ++ replicate (n - mask.length) true)

/-- `has_modifications`. -/
def hasModifications : Bool :=
  rv.dirtyFlag && (finRange numRowShards).any fun i =>
    (rv.shards i).versions.entries ≠ [] ∨ (rv.shards i).committed.entries ≠ []

end RowVersion

/-- `commit` and `rollback` are of one row or of a range of rows. -/
inductive VersionCall where
  | markRow (rowId txId readTs : ℕ)
  | markRowBatch (start stop txId : ℕ)
  | commit (rowIds : List ℕ) (commitTs : ℕ)
  | rollback (rowIds : List ℕ)
  | vacuum (minActiveTs : ℕ)

/-- A table's row versions, with the rows that have ever been marked. -/
structure MarkedVersions where
  rv : RowVersion
  marked : List ℕ

/-- Rows are committed that have been marked. -/
def versionSystem : System MarkedVersions VersionCall where
  init s := s = ⟨.new, []⟩
  step s
    | .markRow rowId txId readTs =>
      match s.rv.markRow rowId txId readTs with
      | .ok rv => some ⟨rv, rowId :: s.marked⟩
      | .error _ => some s
    | .markRowBatch start stop txId =>
      some ⟨s.rv.markRowBatch start stop txId, range' start (stop - start) ++ s.marked⟩
    | .commit rowIds commitTs =>
      if ∀ rowId ∈ rowIds, rowId ∈ s.marked then
        some { s with rv := s.rv.commitRows rowIds commitTs }
      else none
    | .rollback rowIds => some { s with rv := s.rv.rollbackRows rowIds }
    | .vacuum minActiveTs => some { s with rv := s.rv.vacuum minActiveTs }

namespace RowVersion

/-! ## The mask -/

lemma mem_shardGroups {rowIds : List ℕ} {i : Fin numRowShards} {x : ℕ × ℕ} :
    x ∈ shardGroups rowIds i ↔ rowIds[x.1]? = some x.2 ∧ getShardIdx x.2 = i := by
  have hfold : ∀ (l : List (ℕ × ℕ)) (groups : Fin numRowShards → List (ℕ × ℕ)),
      x ∈ l.foldl (fun groups x => update groups (getShardIdx x.1)
        (groups (getShardIdx x.1) ++ [(x.2, x.1)])) groups i ↔
      x ∈ groups i ∨ (x.2, x.1) ∈ l ∧ getShardIdx x.2 = i := by
    intro l
    induction l with
    | nil => simp
    | cons y l ih =>
      intro groups
      rw [foldl_cons, ih]
      by_cases hi : i = getShardIdx y.1
      · subst hi
        grind
      · rw [update_of_ne hi]
        grind
  rw [shardGroups, hfold, mem_zipIdx_iff_getElem?]
  simp

/-- Writes that agree with a list, and go to each position that differs from it. -/
lemma foldl_set_eq {want mask : List Bool} {writes : List (ℕ × Bool)}
    (hagree : ∀ x ∈ writes, want[x.1]? = some x.2)
    (hall : ∀ j, mask[j]? = want[j]? ∨ j < mask.length ∧ ∃ b, (j, b) ∈ writes) :
    writes.foldl (fun mask x => mask.set x.1 x.2) mask = want := by
  induction writes generalizing mask with
  | nil =>
    refine ext_getElem? fun j => ?_
    simpa using hall j
  | cons x writes ih =>
    obtain ⟨hx, hagree⟩ := forall_mem_cons.1 hagree
    refine ih hagree fun j => ?_
    rw [getElem?_set, length_set]
    grind

variable (rv : RowVersion) (rowIds : List ℕ) (txId readTs : ℕ) (mask : List Bool)

lemma shardVisible_eq (rowId : ℕ) :
    shardVisible (rv.shards (getShardIdx rowId)) rowId txId readTs =
      rv.isVisible rowId txId readTs := by
  rw [shardVisible, isVisible, owner, history]
  grind

lemma getVisibilityMask_eq :
    rv.getVisibilityMask rowIds txId readTs mask = rowIds.map (rv.isVisible · txId readTs) := by
  have hwrites : rv.getVisibilityMask rowIds txId readTs mask =
      ((finRange numRowShards).flatMap fun i => (shardGroups rowIds i).map fun x =>
        (x.1, shardVisible (rv.shards i) x.2 txId readTs)).foldl (fun mask x => mask.set x.1 x.2)
        (mask.take rowIds.length ++ replicate (rowIds.length - mask.length) true) := by
    simp only [getVisibilityMask, foldl_flatMap, foldl_map]
  rw [hwrites]
  refine foldl_set_eq (fun x hx => ?_) fun j => ?_
  · simp only [mem_flatMap, mem_map, mem_shardGroups] at hx
    obtain ⟨_, -, y, ⟨hy, rfl⟩, rfl⟩ := hx
    rw [getElem?_map, hy, shardVisible_eq]
    rfl
  · rcases lt_or_ge j rowIds.length with hj | hj
    · have hlen : j < (mask.take rowIds.length ++
          replicate (rowIds.length - mask.length) true).length := by
        simp
        omega
      refine .inr ⟨hlen, shardVisible (rv.shards (getShardIdx rowIds[j])) rowIds[j] txId readTs, ?_⟩
      refine mem_flatMap.2 ⟨getShardIdx rowIds[j], mem_finRange _, ?_⟩
      exact mem_map.2 ⟨(j, rowIds[j]), mem_shardGroups.2 ⟨getElem?_eq_getElem hj, rfl⟩, rfl⟩
    · left
      rw [getElem?_eq_none (by simp; omega), getElem?_eq_none (by simpa using hj)]

/-! ## The flag -/

lemma dirtyFlag_markRowBatch (start stop : ℕ) :
    (rv.markRowBatch start stop txId).dirtyFlag = (rv.dirtyFlag || stop - start ≠ 0) := by
  rw [markRowBatch]
  generalize stop - start = n
  induction n generalizing rv start with
  | zero => simp
  | succ n ih =>
    rw [range'_succ, foldl_cons, ih]
    simp [setOwner]

lemma dirtyFlag_commitRows (commitTs : ℕ) :
    (rv.commitRows rowIds commitTs).dirtyFlag = rv.dirtyFlag := by
  induction rowIds generalizing rv with
  | nil => rfl
  | cons r rowIds ih => exact ih (rv.commitRow r commitTs)

lemma dirtyFlag_rollbackRows : (rv.rollbackRows rowIds).dirtyFlag = rv.dirtyFlag := by
  induction rowIds generalizing rv with
  | nil => rfl
  | cons r rowIds ih => exact ih (rv.rollbackRow r)

/-- As long as the flag is down nothing has been marked, and so nothing committed. -/
def Unmarked (s : MarkedVersions) : Prop :=
  s.rv.dirtyFlag = false → s.marked = [] ∧ ∀ r, s.rv.owner r = none ∧ s.rv.history r = none

lemma unmarked_of_reachable {s : MarkedVersions} (h : versionSystem.Reachable s) : Unmarked s := by
  refine h.invariant ?_ fun s a s' _ hs _ hstep hflag => ?_
  · rintro _ rfl -
    exact ⟨rfl, fun _ => ⟨rfl, rfl⟩⟩
  cases a with
  | markRow rowId txId readTs =>
    simp only [versionSystem] at hstep
    split at hstep
    next hmark =>
      cases hstep
      rw [(markRow_eq_ok hmark).1] at hflag
      cases hflag
    · cases hstep
      exact hs hflag
  | markRowBatch start stop txId =>
    cases hstep
    rw [dirtyFlag_markRowBatch, Bool.or_eq_false_iff, decide_eq_false_iff_not, not_not] at hflag
    simpa [markRowBatch, hflag.2] using hs hflag.1
  | commit rowIds commitTs =>
    obtain ⟨hmarked, ⟨⟩⟩ := Option.ite_none_right_eq_some.1 hstep
    rw [dirtyFlag_commitRows] at hflag
    rw [(hs hflag).1] at hmarked
    rw [eq_nil_iff_forall_not_mem.2 fun r hr => not_mem_nil (hmarked r hr)]
    exact hs hflag
  | rollback rowIds =>
    cases hstep
    rw [dirtyFlag_rollbackRows] at hflag
    refine ⟨(hs hflag).1, fun r => ?_⟩
    simp [owner_rollbackRows, (hs hflag).2]
  | vacuum minActiveTs =>
    cases hstep
    refine ⟨(hs hflag).1, fun r => ⟨((hs hflag).2 r).1, ?_⟩⟩
    simp [((hs hflag).2 r).2]

/-- **The mask is `is_visible` of each row**, whatever it has had in it; and a table that
`has_modifications` denies for hides no row. -/
theorem visibility_mask_pointwise :
    (∀ (rv : RowVersion) rowIds txId readTs mask,
      rv.getVisibilityMask rowIds txId readTs mask = rowIds.map (rv.isVisible · txId readTs)) ∧
    ∀ s, versionSystem.Reachable s → s.rv.hasModifications = false →
      ∀ rowId txId readTs, s.rv.isVisible rowId txId readTs = true := by
  refine ⟨getVisibilityMask_eq, fun s hs hno rowId txId readTs => ?_⟩
  have hnone : s.rv.owner rowId = none ∧ s.rv.history rowId = none := by
    cases hflag : s.rv.dirtyFlag with
    | false => exact (unmarked_of_reachable hs hflag).2 rowId
    | true =>
      simp only [hasModifications, hflag, Bool.true_and, any_eq_false, mem_finRange,
        true_imp_iff, decide_eq_true_eq, not_or, not_not] at hno
      obtain ⟨hversions, hcommitted⟩ := hno (getShardIdx rowId)
      simp [owner, history, AList.lookup, hversions, hcommitted]
  simp [isVisible, hnone]

/-- Row 3 is committed and its history vacuumed, and rows 5 to 7 are rolled back. -/
def rolledBackAndVacuumed : List VersionCall :=
  [.markRow 3 1 1, .markRowBatch 5 8 2, .commit [3] 4, .rollback [5, 6, 7], .vacuum 9]

/-- Nothing is left in the maps, although the flag stays up. -/
theorem visible_after_rollback_and_vacuum :
    ∃ s, versionSystem.exec ⟨.new, []⟩ rolledBackAndVacuumed = some s ∧ s.marked = [5, 6, 7, 3] ∧
      s.rv.dirtyFlag = true ∧ ∀ rowId txId readTs, s.rv.isVisible rowId txId readTs = true := by
  have hreach := System.Reachable.exec (.init (M := versionSystem) rfl)
    (rfl : versionSystem.exec ⟨.new, []⟩ rolledBackAndVacuumed = some _)
  exact ⟨_, rfl, rfl, rfl, visibility_mask_pointwise.2 _ hreach (by decide +kernel)⟩

end RowVersion

end LightningDB
