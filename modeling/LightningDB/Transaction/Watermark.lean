import LightningDB.Framework.Runs
import LightningDB.Transaction.Manager
import LightningDB.Wal.Replay
import Mathlib.Data.Finset.Union

/-!
# The recovery watermark

A checkpoint stores `resolved_tx_watermark()` in the database header, and replay after a crash
skips every transaction at or below the stored value.  The system of this module is the part of
the engine that decides whether this is safe: transactions begin, log page updates, commit, roll
back and are dropped in any interleaving, and at any point a checkpoint truncates the log or saves
the header.  `begin_at` and `commit` are split where another thread can come between: an id is
taken before it is registered, and a commit record is written before the id is removed.

The scan for the watermark stops at the first id from the top that is not in flight.  It is below
every id in flight exactly when there is no hole above one of them (`watermark_lt_iff`), and every
id given to a reader is such a hole.  `watermark_safety` has both sides: the equivalence in every
reachable state, and what it buys, namely that replay skips nothing that was in flight, in every run
whose header saves meet the condition.
-/

namespace LightningDB

open Framework TransactionManager

/-- Transactions in flight, the log by its records, and the saved header.  `log` is what is in the
file. -/
structure WatermarkState where
  tm : TransactionManager
  /-- Ids of writers whose `begin_at` has taken the id but not yet registered it. -/
  beginning : Finset ℕ
  /-- Registered transactions that are not finalized, with whether the commit record is written. -/
  live : FinMap ℕ (Transaction × Bool)
  log : List WALRecord
  pendingBuf : List WALRecord
  lastCheckpointTx : ℕ
  /-- `header.next_tx_id`. -/
  savedNextTxId : ℕ
  /-- The writers in flight when the header was last saved. -/
  inFlightAtSave : Finset ℕ

/-- The steps of the system. -/
inductive WatermarkAction where
  | allocTxId
  | register (t : ℕ)
  | beginReadOnly (snapshotTs : Option ℕ)
  | logPageUpdate (t : ℕ) (w : PageWrite)
  | logCommit (t : ℕ)
  | finishCommit (t : ℕ)
  | rollback (t : ℕ)
  | drop (t : ℕ)
  | truncate
  | saveHeader

namespace WatermarkState

variable (s : WatermarkState)

/-- The writers in flight: registered ones and those about to be. -/
def inFlight : Finset ℕ := s.tm.activeTxIds ∪ s.beginning

def finish (t : ℕ) (tx : Transaction) : WatermarkState :=
  { s with tm := s.tm.finish tx, live := s.live.erase t }

/-- All records, in the order they were logged. -/
def records : List WALRecord := s.log ++ s.pendingBuf

/-- `flush_pending`. -/
def flushPending : WatermarkState := { s with log := s.records, pendingBuf := [] }

/-- `log_page_update`. -/
def logPageUpdate (r : WALRecord) : WatermarkState :=
  let s := { s with pendingBuf := s.pendingBuf ++ [r] }
  if walPendingFlushBytes ≤ (s.pendingBuf.map WALRecord.encodedSize).sum then s.flushPending else s

def step : WatermarkAction → Option WatermarkState
  | .allocTxId =>
    s.tm.allocTxId.map fun (t, tm) => { s with tm := tm, beginning := insert t s.beginning }
  | .register t =>
    if t ∈ s.beginning then
      let (tx, tm) := s.tm.register t false none
      some { s with
        tm := tm
        beginning := s.beginning.erase t
        live := s.live.insert t (tx, false) }
    else none
  | .beginReadOnly snapshotTs =>
    (s.tm.beginAt true snapshotTs).map fun (tx, tm) =>
      { s with tm := tm, live := s.live.insert tx.txId (tx, false) }
  | .logPageUpdate t w =>
    match s.live.lookup t with
    | some (tx, false) =>
      if tx.isReadOnly then none else some (s.logPageUpdate (.pageUpdate t w))
    | _ => none
  | .logCommit t =>
    match s.live.lookup t with
    | some (tx, false) =>
      if tx.isReadOnly then none
      else s.tm.nextCommitTs.map fun (commitTs, tm) =>
        { s with
          tm := tm
          live := s.live.insert t ({ tx with commitTs := commitTs }, true)
          log := s.records ++ [.commit t]
          pendingBuf := [] }
    | _ => none
  | .finishCommit t =>
    match s.live.lookup t with
    | some (tx, logged) => if tx.isReadOnly || logged then some (s.finish t tx) else none
    | none => none
  | .rollback t | .drop t =>
    match s.live.lookup t with
    | some (tx, false) => some (s.finish t tx)
    | _ => none
  | .truncate => some { s with log := [] }
  | .saveHeader =>
    some { s with
      lastCheckpointTx := s.tm.resolvedTxWatermark
      savedNextTxId := s.tm.nextTxId
      inFlightAtSave := s.inFlight }

/-- A database just opened: nothing is in flight, and the header's watermark is below the counter
saved with it. -/
def Opened : Prop :=
  s.tm.activeTxIds = ∅ ∧ s.beginning = ∅ ∧ s.live = ∅ ∧ 1 ≤ s.tm.nextTxId ∧
    s.lastCheckpointTx < s.savedNextTxId ∧ s.savedNextTxId ≤ s.tm.nextTxId ∧
    s.inFlightAtSave = ∅ ∧ s.pendingBuf = []

/-- A new database. -/
def initial : WatermarkState where
  tm := .new
  beginning := ∅
  live := ∅
  log := []
  pendingBuf := []
  lastCheckpointTx := 0
  savedNextTxId := 1
  inFlightAtSave := ∅

end WatermarkState

/-- The system of transactions around a checkpoint. -/
def watermarkSystem : System WatermarkState WatermarkAction where
  init := WatermarkState.Opened
  step := WatermarkState.step

/-! ## Holes -/

/-- No id above one of `ids` has left flight. -/
def TransactionManager.NoHole (tm : TransactionManager) (ids : Finset ℕ) : Prop :=
  ∀ a ∈ ids, ∀ b, a ≤ b → b < tm.nextTxId → b ∈ tm.activeTxIds

/-- The watermark is below all of `ids` exactly when no id above one of them has left flight. -/
theorem watermark_lt_iff {tm : TransactionManager} (h0 : 0 ∉ tm.activeTxIds)
    (hnext : 1 ≤ tm.nextTxId) (ids : Finset ℕ) :
    (∀ t ∈ ids, tm.resolvedTxWatermark < t) ↔ tm.NoHole ids := by
  obtain ⟨hlt, hnot, habove⟩ := resolvedTxWatermark_spec h0 hnext
  constructor
  · intro h a ha b hab hb
    exact habove b (lt_of_lt_of_le (h a ha) hab) hb
  · intro h t ht
    by_contra hle
    -- otherwise the watermark itself would be in flight
    exact hnot (h t ht _ (not_lt.1 hle) hlt)

/-! ## Invariants -/

structure WatermarkState.IdsGiven (s : WatermarkState) : Prop where
  next : 1 ≤ s.tm.nextTxId
  active : ∀ t ∈ s.tm.activeTxIds, 1 ≤ t ∧ t < s.tm.nextTxId
  beginning : ∀ t ∈ s.beginning, 1 ≤ t ∧ t < s.tm.nextTxId

namespace WatermarkState.IdsGiven

variable {s s' : WatermarkState}

lemma zero_notMem (h : s.IdsGiven) : 0 ∉ s.tm.activeTxIds := by
  intro h0
  have := (h.active 0 h0).1
  omega

end WatermarkState.IdsGiven

variable {s s' : WatermarkState} {a : WatermarkAction}

/-- What a step can do to the ids that are held, to the log and to what is saved. -/
structure WatermarkState.Stepped (s : WatermarkState) (a : WatermarkAction) (s' : WatermarkState) : Prop where
  next : s.tm.nextTxId ≤ s'.tm.nextTxId
  active : ∀ t ∈ s'.tm.activeTxIds, t ∈ s.tm.activeTxIds ∨ t ∈ s.beginning
  beginning : ∀ t ∈ s'.beginning, t ∈ s.beginning ∨ t = s.tm.nextTxId ∧ t < s'.tm.nextTxId
  live : ∀ t ∈ s'.live, t ∈ s.live ∨ t ∈ s.beginning ∨ t = s.tm.nextTxId ∧ t < s'.tm.nextTxId
  log : ∀ r ∈ s'.records, r ∈ s.records ∨ r.txId ∈ s.live
  saved : a ≠ .saveHeader → s'.lastCheckpointTx = s.lastCheckpointTx ∧
    s'.savedNextTxId = s.savedNextTxId ∧ s'.inFlightAtSave = s.inFlightAtSave

lemma stepped_finish (t : ℕ) (tx : Transaction) : s.Stepped a (s.finish t tx) where
  next := (finish_nextTxId _ _).ge
  active t' ht' := by
    change t' ∈ (s.tm.finish tx).activeTxIds at ht'
    rw [finish_activeTxIds] at ht'
    split at ht'
    · exact .inl ht'
    · exact .inl (Finset.mem_of_mem_erase ht')
  beginning _ := .inl
  live _ ht' := .inl (AList.mem_erase.1 ht').2
  log _ := .inl
  saved _ := ⟨rfl, rfl, rfl⟩

variable {x : Transaction × Bool}

lemma forall_mem_insert {P : ℕ → Prop} {t : ℕ} (ht : P t) (h : ∀ t' ∈ s.live, P t') :
    ∀ t' ∈ s.live.insert t x, P t' :=
  fun t' ht' => ((AList.mem_insert _).1 ht').elim (· ▸ ht) (h t')

lemma mem_records_append {r : WALRecord} (h : s.live.lookup r.txId = some x)
    (hs' : s'.records = s.records ++ [r]) : ∀ r' ∈ s'.records, r' ∈ s.records ∨ r'.txId ∈ s.live :=
  hs' ▸ List.forall_mem_append.2
    ⟨fun _ => .inl, List.forall_mem_singleton.2 (.inr (AList.lookup_isSome.1 (h ▸ rfl)))⟩

lemma records_logPageUpdate (s : WatermarkState) (r : WALRecord) :
    (s.logPageUpdate r).records = s.records ++ [r] := by
  rw [WatermarkState.logPageUpdate]
  split <;> simp [WatermarkState.records, WatermarkState.flushPending]

lemma stepped_logPageUpdate {r : WALRecord} (h : s.live.lookup r.txId = some x) :
    s.Stepped a (s.logPageUpdate r) := by
  have hlog := mem_records_append h (records_logPageUpdate s r)
  revert hlog
  -- in the buffer or through it, only where the records are kept differs
  fun_cases WatermarkState.logPageUpdate s r <;>
    exact fun hlog => ⟨le_rfl, fun _ => .inl, fun _ => .inl, fun _ => .inl, hlog, fun _ => ⟨rfl, rfl, rfl⟩⟩

lemma stepped (hstep : s.step a = some s') : s.Stepped a s' := by
  have hnew := Nat.lt_succ_self s.tm.nextTxId
  have hkeep : ∀ {α : Type} {P Q : α → Prop} (x : α), P x → P x ∨ Q x := fun _ => .inl
  revert hstep
  fun_cases WatermarkState.step s a <;> intro hstep
  case case1 =>
    obtain ⟨⟨_, _⟩, halloc, rfl⟩ := Option.map_eq_some_iff.1 hstep
    obtain ⟨rfl, rfl⟩ := allocTxId_eq_some halloc
    exact ⟨hnew.le, hkeep, (Finset.forall_mem_insert _ _ _).2 ⟨.inr ⟨rfl, hnew⟩, hkeep⟩, hkeep, hkeep,
      fun _ => ⟨rfl, rfl, rfl⟩⟩
  case case4 =>
    obtain ⟨_, hbegin, rfl⟩ := Option.map_eq_some_iff.1 hstep
    obtain ⟨⟨_, _⟩, halloc, rfl⟩ := Option.map_eq_some_iff.1 hbegin
    obtain ⟨rfl, rfl⟩ := allocTxId_eq_some halloc
    exact ⟨hnew.le, hkeep, hkeep, forall_mem_insert (.inr (.inr ⟨rfl, hnew⟩)) hkeep, hkeep,
      fun _ => ⟨rfl, rfl, rfl⟩⟩
  case case9 t tx hlive _ =>
    obtain ⟨⟨_, _⟩, hts, rfl⟩ := Option.map_eq_some_iff.1 hstep
    obtain ⟨-, rfl⟩ := nextCommitTs_eq_some hts
    exact ⟨le_rfl, hkeep, hkeep, forall_mem_insert (.inl (AList.lookup_isSome.1 (hlive ▸ rfl))) hkeep,
      mem_records_append (r := .commit t) hlive (List.append_nil _), fun _ => ⟨rfl, rfl, rfl⟩⟩
  all_goals cases hstep
  case case2 ht _ _ hreg =>
    cases hreg
    exact ⟨le_rfl, (Finset.forall_mem_insert _ _ _).2 ⟨.inr ht, hkeep⟩,
      fun _ h => .inl (Finset.mem_of_mem_erase h), forall_mem_insert (.inr (.inl ht)) hkeep, hkeep,
      fun _ => ⟨rfl, rfl, rfl⟩⟩
  case case6 hlive _ => exact stepped_logPageUpdate hlive
  case case11 | case14 | case16 => exact stepped_finish _ _
  case case18 =>
    exact ⟨le_rfl, hkeep, hkeep, hkeep, fun r hr => .inl (List.mem_append_right _ hr),
      fun _ => ⟨rfl, rfl, rfl⟩⟩
  case case19 => exact ⟨le_rfl, hkeep, hkeep, hkeep, hkeep, (absurd rfl ·)⟩

lemma idsGiven_step (h : s.IdsGiven) (hstep : s.Stepped a s') : s'.IdsGiven := by
  have hnext : ∀ {t}, 1 ≤ t ∧ t < s.tm.nextTxId → 1 ≤ t ∧ t < s'.tm.nextTxId :=
    And.imp_right (·.trans_le hstep.next)
  refine ⟨h.next.trans hstep.next, fun t ht => ?_, fun t ht => ?_⟩
  · exact hnext ((hstep.active t ht).elim (h.active t) (h.beginning t))
  · rcases hstep.beginning t ht with ht | ⟨rfl, hlt⟩
    · exact hnext (h.beginning t ht)
    · exact ⟨h.next, hlt⟩

lemma idsGiven_of_reachable (h : watermarkSystem.Reachable s) : s.IdsGiven := by
  refine h.invariant ?_ (fun s a s' _ hs _ hstep => idsGiven_step hs (stepped hstep))
  rintro s ⟨hactive, hbeginning, -, hnext, -⟩
  refine ⟨hnext, fun t ht => ?_, fun t ht => ?_⟩
  · rw [hactive] at ht
    cases ht
  · rw [hbeginning] at ht
    cases ht

/-- The condition on a run: no header is saved while there is a hole above a writer in flight. -/
def SavesWithoutHole (s : WatermarkState) (a : WatermarkAction) : Prop :=
  a = .saveHeader → s.tm.NoHole s.inFlight

/-- The saved watermark is below everything that was in flight at the save or began after it. -/
def WatermarkState.SavedBelow (s : WatermarkState) : Prop :=
  ∀ t, t ∈ s.inFlightAtSave ∨ s.savedNextTxId ≤ t → s.lastCheckpointTx < t

lemma savedBelow_of_reachable
    (h : watermarkSystem.ReachableBy SavesWithoutHole s) : s.SavedBelow := by
  refine h.invariant ?_ ?_
  · rintro s ⟨-, -, -, -, hsaved, -, hnone, -⟩ t ht
    rw [hnone] at ht
    rcases ht with ht | ht
    · cases ht
    · exact lt_of_lt_of_le hsaved ht
  · intro s a s' hreach hs hok hstep
    have hids := idsGiven_of_reachable hreach.reachable
    by_cases ha : a = .saveHeader
    · subst ha
      cases hstep
      have hbelow := (watermark_lt_iff hids.zero_notMem hids.next _).2 (hok rfl)
      rintro t (ht | ht)
      · exact hbelow t ht
      · exact lt_of_lt_of_le
          (resolvedTxWatermark_spec hids.zero_notMem hids.next).1 ht
    · obtain ⟨hc, hn, hf⟩ := (stepped hstep).saved ha
      intro t ht
      rw [hc]
      rw [hn, hf] at ht
      exact hs t ht

/-! ## Safety of the watermark -/

/-- **Watermark safety.**  In every reachable state the watermark is below every registered writer
exactly when no id above one of them has left flight, and below every writer in flight under the
same condition on those.  In every run whose header saves all meet that condition, replay with the
saved watermark hands over all logged updates of a transaction that was in flight at the save, or
began after it, once its commit record is in the log. -/
theorem watermark_safety (s : WatermarkState) : (watermarkSystem.Reachable s →
      ((∀ t ∈ s.tm.activeTxIds, s.tm.resolvedTxWatermark < t) ↔
        s.tm.NoHole s.tm.activeTxIds) ∧
      ((∀ t ∈ s.inFlight, s.tm.resolvedTxWatermark < t) ↔ s.tm.NoHole s.inFlight)) ∧
    (watermarkSystem.ReachableBy SavesWithoutHole s →
      ∀ t, t ∈ s.inFlightAtSave ∨ s.savedNextTxId ≤ t → .commit t ∈ s.log →
        imagesOf t (replayed s.lastCheckpointTx s.log) = updatesOf t s.log) := by
  constructor
  · intro hs
    have hids := idsGiven_of_reachable hs
    exact ⟨watermark_lt_iff hids.zero_notMem hids.next _,
      watermark_lt_iff hids.zero_notMem hids.next _⟩
  · intro hs t ht hcommit
    rw [imagesOf_replayed, if_pos ⟨hcommit, savedBelow_of_reachable hs t ht⟩]

/-- Saves no header while there is a hole. -/
def savesWhole (s : WatermarkState) : WatermarkAction → Bool
  | .saveHeader =>
    decide (∀ a ∈ s.inFlight, ∀ b < s.tm.nextTxId, a ≤ b → b ∈ s.tm.activeTxIds)
  | _ => true

lemma savesWithoutHole_of_savesWhole (h : savesWhole s a = true) : SavesWithoutHole s a := by
  rintro rfl t ht b hle hlt
  exact of_decide_eq_true h t ht b hlt hle

/-- Writer 1 has logged an update when the log is truncated and the header saved; writer 2 begins
and commits after it, then writer 1 does. -/
def checkpointAmidWriters : List WatermarkAction :=
  [.allocTxId, .register 1, .logPageUpdate 1 ⟨0, 0, []⟩, .truncate, .saveHeader, .allocTxId, .register 2,
    .logPageUpdate 2 ⟨0, 1, []⟩, .logCommit 2, .finishCommit 2, .logCommit 1, .finishCommit 1]

/-- Replay hands over the updates of both. -/
theorem checkpoint_amid_writers_replayed :
    ∃ s, watermarkSystem.exec .initial checkpointAmidWriters = some s ∧ 1 ∈ s.inFlightAtSave ∧
      imagesOf 1 (replayed s.lastCheckpointTx s.log) = [⟨0, 0, []⟩] ∧
      imagesOf 2 (replayed s.lastCheckpointTx s.log) = [⟨0, 1, []⟩] := by
  have hreach := System.ReachableBy.execIf (fun _ _ _ => savesWithoutHole_of_savesWhole)
    (.init (M := watermarkSystem) ⟨rfl, rfl, rfl, le_rfl, Nat.zero_lt_one, le_rfl, rfl, rfl⟩)
    (rfl : watermarkSystem.execIf savesWhole .initial checkpointAmidWriters = some _)
  have hsafe := (watermark_safety _).2 hreach
  exact ⟨_, rfl, by decide, hsafe 1 (.inl (by decide)) (by decide),
    hsafe 2 (.inr (by decide)) (by decide)⟩

/-- Writer 1 is in flight when a reader takes id 2 and a checkpoint saves the header. -/
def readerAboveWriter : List WatermarkAction :=
  [.allocTxId, .register 1, .beginReadOnly none, .saveHeader]

/-- The watermark saved there is 2, although writer 1 is still in flight; when the writer commits
afterwards, replay skips its update. -/
theorem watermark_skips_writer_below_reader :
    (∃ s, watermarkSystem.exec .initial readerAboveWriter = some s ∧ 1 ∈ s.tm.activeTxIds ∧
      s.tm.resolvedTxWatermark = 2 ∧ s.lastCheckpointTx = 2) ∧
    ∃ s, watermarkSystem.exec .initial
        (readerAboveWriter ++ [.logPageUpdate 1 ⟨0, 0, []⟩, .logCommit 1, .finishCommit 1]) =
          some s ∧
      s.log = [.pageUpdate 1 ⟨0, 0, []⟩, .commit 1] ∧ 1 ∈ s.inFlightAtSave ∧
      replayed s.lastCheckpointTx s.log = [] := by
  refine ⟨⟨_, rfl, ?_⟩, ⟨_, rfl, ?_⟩⟩
  · decide
  · decide

end LightningDB
