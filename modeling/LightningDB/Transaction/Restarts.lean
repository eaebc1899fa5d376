import LightningDB.Transaction.Watermark

/-!
# Transaction ids across restarts

`Database::new` takes the next id from the header and from the log that it finds.  A checkpoint truncates
the log before it saves the header, a database that is closed truncates it and saves none, and a crash
may lose records that are not in the file yet.  `ids_fresh_iff` says when what is found is enough.
-/

namespace LightningDB

open Framework

/-- A database over all its runs, with the ids of all records that were ever logged, in the file or
in the buffer. -/
structure LifeState where
  db : WatermarkState
  logged : Finset ℕ

/-- A step of a run, or its end, at any point, and a new start that finds the first records of the file;
`currentTs` is that of the header. -/
inductive LifeAction where
  | run (a : WatermarkAction)
  | reopen (found currentTs : ℕ)

/-- `Database::new`: the counters that it restores. -/
def WatermarkState.reopen (s : WatermarkState) (found currentTs : ℕ) : WatermarkState :=
  let log := s.log.take found
  let nextTx := max (max s.savedNextTxId (s.lastCheckpointTx + 1)) ((cleanReport log).maxTxId + 1)
  { s with
    tm := TransactionManager.new.restoreCounters nextTx (max (max currentTs (nextTx - 1)) 1)
    beginning := ∅
    live := ∅
    log := log
    pendingBuf := [] }

namespace LifeState

variable (s : LifeState)

def step : LifeAction → Option LifeState
  | .run a => (s.db.step a).map fun db => ⟨db, s.logged ∪ (db.records.map WALRecord.txId).toFinset⟩
  | .reopen found currentTs => some { s with db := s.db.reopen found currentTs }

/-- No id from the counter on, which are those still to be given, has been logged. -/
def Fresh : Prop := ∀ t ∈ s.logged, t < s.db.tm.nextTxId

/-- What has been logged is below what the header or the records found know of. -/
def Covered (found : ℕ) : Prop := ∀ t ∈ s.logged,
  t < s.db.savedNextTxId ∨ t ≤ s.db.lastCheckpointTx ∨ ∃ r ∈ s.db.log.take found, t ≤ r.txId

instance (found : ℕ) : Decidable (s.Covered found) := Finset.decidableDforallFinset

end LifeState

/-- A new database, and what becomes of it. -/
def lifeSystem : System LifeState LifeAction where
  init s := s = ⟨.initial, ∅⟩
  step := LifeState.step

/-- The condition on a run. -/
def ReopensCovered (s : LifeState) (a : LifeAction) : Prop :=
  ∀ found currentTs, a = .reopen found currentTs → s.Covered found

namespace LifeState

/-- The ids in use have been given, and the records in the log are among those ever logged. -/
structure Given (s : LifeState) : Prop where
  fresh : s.Fresh
  log : ∀ r ∈ s.db.records, r.txId ∈ s.logged
  beginning : ∀ t ∈ s.db.beginning, t < s.db.tm.nextTxId
  live : ∀ t ∈ s.db.live, t < s.db.tm.nextTxId

variable {s : LifeState}

lemma Given.run {a : WatermarkAction} {db : WatermarkState} (h : s.Given) (hm : s.db.Stepped a db) :
    Given ⟨db, s.logged ∪ (db.records.map WALRecord.txId).toFinset⟩ where
  fresh t ht := by
    refine lt_of_lt_of_le ?_ hm.next
    rcases Finset.mem_union.1 ht with ht | ht
    · exact h.fresh t ht
    · obtain ⟨r, hr, rfl⟩ := List.mem_map.1 (List.mem_toFinset.1 ht)
      exact (hm.log r hr).elim (fun hr => h.fresh _ (h.log r hr)) (h.live _)
  log r hr := Finset.mem_union_right _ (List.mem_toFinset.2 (List.mem_map_of_mem hr))
  beginning t ht := (hm.beginning t ht).elim (fun ht => (h.beginning t ht).trans_le hm.next) And.right
  live t ht := by
    rcases hm.live t ht with ht | ht | ht
    · exact (h.live t ht).trans_le hm.next
    · exact (h.beginning t ht).trans_le hm.next
    · exact ht.2

lemma le_maxTxId (rs : List WALRecord) (t m : ℕ) :
    t ≤ rs.foldl (fun m r => max m r.txId) m ↔ t ≤ m ∨ ∃ r ∈ rs, t ≤ r.txId := by
  induction rs generalizing m with
  | nil => simp
  | cons r rs ih => simp [ih, or_assoc]

lemma fresh_reopen_iff (s : LifeState) (found currentTs : ℕ) :
    Fresh { s with db := s.db.reopen found currentTs } ↔ s.Covered found := by
  refine forall₂_congr fun t _ => ?_
  simp only [WatermarkState.reopen, TransactionManager.restoreCounters, TransactionManager.new, cleanReport,
    lt_max_iff, Nat.lt_succ_iff, le_maxTxId]
  -- the counter starts at 1, and below it is only what every header knows of
  have hzero : t ≤ 0 → t ≤ s.db.lastCheckpointTx := (·.trans (Nat.zero_le _))
  grind

lemma given_of_reachable (h : lifeSystem.ReachableBy ReopensCovered s) : s.Given := by
  refine h.invariant ?_ fun s a s' _ hs hok hstep => ?_
  · rintro _ rfl
    exact ⟨nofun, nofun, nofun, nofun⟩
  · cases a with
    | run a =>
      obtain ⟨db, hdb, rfl⟩ := Option.map_eq_some_iff.1 hstep
      exact hs.run (stepped hdb)
    | reopen found currentTs =>
      cases hstep
      refine ⟨(fresh_reopen_iff s found currentTs).2 (hok _ _ rfl), fun r hr => ?_, nofun, nofun⟩
      rw [WatermarkState.records, WatermarkState.reopen, List.append_nil] at hr
      exact hs.log r (List.mem_append_left _ (List.mem_of_mem_take hr))

end LifeState

/-- **Ids across restarts.**  An id that has been logged is not given again in a run that is only ended
where what was logged is covered; where it is not, there is one that will be given again. -/
theorem ids_fresh_iff (s : LifeState) : (lifeSystem.ReachableBy ReopensCovered s → s.Fresh) ∧
    ∀ found currentTs,
      LifeState.Fresh { s with db := s.db.reopen found currentTs } ↔ s.Covered found :=
  ⟨fun hs => (LifeState.given_of_reachable hs).fresh, s.fresh_reopen_iff⟩

/-- Is only ended where what was logged is covered. -/
def reopensCovered (s : LifeState) : LifeAction → Bool
  | .run _ => true
  | .reopen found _ => decide (s.Covered found)

lemma reopensCovered_sound {s : LifeState} {a : LifeAction} (h : reopensCovered s a = true) :
    ReopensCovered s a := by
  rintro found currentTs rfl
  exact of_decide_eq_true h

/-- The first restart finds the commit of transaction 1 in the log.  Transaction 2 is given the next id,
a checkpoint truncates the log and saves the header, and the crash loses its update: the second restart
finds no record and goes by the header. -/
def twoRestarts : List LifeAction :=
  [.run .allocTxId, .run (.register 1), .run (.logCommit 1), .run (.finishCommit 1), .reopen 1 1,
    .run .allocTxId, .run (.register 2), .run (.logPageUpdate 2 ⟨0, 0, []⟩), .run .truncate,
    .run .saveHeader, .reopen 0 2]

theorem ids_fresh_after_two_restarts : ∃ s tm, lifeSystem.exec ⟨.initial, ∅⟩ twoRestarts = some s ∧
    s.logged = {1, 2} ∧ s.Fresh ∧ s.db.tm.allocTxId = some (3, tm) := by
  have hreach := System.ReachableBy.execIf (fun _ _ _ => reopensCovered_sound)
    (.init (M := lifeSystem) rfl)
    (rfl : lifeSystem.execIf reopensCovered ⟨.initial, ∅⟩ twoRestarts = some _)
  exact ⟨_, _, rfl, by decide, (ids_fresh_iff _).1 hreach, rfl⟩

/-- **An id given twice.**  A transaction commits, a checkpoint truncates the log, and the database
crashes before the header is saved. -/
theorem truncated_id_reused : ∃ s tm, lifeSystem.exec ⟨.initial, ∅⟩ [.run .allocTxId, .run (.register 1),
      .run (.logCommit 1), .run (.finishCommit 1), .run .truncate, .reopen 0 1] = some s ∧
    1 ∈ s.logged ∧ s.db.tm.allocTxId = some (1, tm) :=
  ⟨_, _, rfl, by decide, rfl⟩

end LightningDB
