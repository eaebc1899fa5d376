import LightningDB.Framework.Runs
import LightningDB.Storage.RowVersion
import LightningDB.Transaction.Manager

/-!
# First committer wins

Any number of transactions mark rows of one table, commit, roll back, and are overtaken by vacuums
of the row histories at the least active read timestamp.  The theorem of this module is that two
transactions that both marked a row and both committed did not overlap: one of them had committed
by the snapshot of the other.

The argument is an invariant on the two maps of `RowVersion`.  A transaction in flight owns every
row it marked, so that two of them never share a row.  The last commit of a row is in its history
until every writer in flight can see it, and a mark is refused while it cannot; so a committed
transaction and one in flight share a row only when the commit is within the other's snapshot
(`FirstCommitterInv.ordered`).  A vacuum keeps this because the timestamps it may forget are below
every active snapshot (`getMinActiveReadTs_le`).
-/

namespace LightningDB

open Framework FinMap RowVersion TransactionManager Option

/-- Transactions over one table, and the commits so far. -/
structure RowState where
  tm : TransactionManager
  rv : RowVersion
  live : FinMap ℕ Transaction
  committed : FinMap ℕ Transaction

/-- The steps of the system.  Only readers choose their snapshot. -/
inductive RowAction where
  | beginAt (isReadOnly : Bool) (snapshotTs : Option ℕ)
  | markRow (t rowId : ℕ)
  | commit (t : ℕ)
  | rollback (t : ℕ)
  | vacuum

namespace Transaction

variable (tx : Transaction)

/-- The rows of table `0` the transaction has marked. -/
def rows : List ℕ := tx.modifiedRows.map Prod.snd

/-- `modified_rows.push`, for a row of table `0`. -/
def pushRow (rowId : ℕ) : Transaction :=
  { tx with modifiedRows := tx.modifiedRows ++ [(0, rowId)] }

lemma rows_pushRow (r : ℕ) : (tx.pushRow r).rows = tx.rows ++ [r] := by
  simp [rows, pushRow]

end Transaction

namespace RowState

/-- One step.  A refused mark changes nothing; a commit stamps all marked rows at once. -/
def step (s : RowState) : RowAction → Option RowState
  | .beginAt isReadOnly snapshotTs =>
    if snapshotTs.isSome && !isReadOnly then none
    else (s.tm.beginAt isReadOnly snapshotTs).map fun (tx, tm) =>
      { s with tm := tm, live := s.live.insert tx.txId tx }
  | .markRow t rowId =>
    match s.live.lookup t with
    | some tx =>
      if tx.isReadOnly then none
      else
        match s.rv.markRow rowId t tx.readTs with
        | .ok rv => some { s with rv := rv, live := s.live.insert t (tx.pushRow rowId) }
        | .error _ => some s
    | none => none
  | .commit t =>
    match s.live.lookup t with
    | some tx =>
      if tx.isReadOnly then some { s with tm := s.tm.finish tx, live := s.live.erase t }
      else s.tm.nextCommitTs.map fun (commitTs, tm) =>
        { tm := tm.finish tx
          rv := s.rv.commitRows tx.rows commitTs
          live := s.live.erase t
          committed := s.committed.insert t { tx with commitTs := commitTs } }
    | none => none
  | .rollback t =>
    match s.live.lookup t with
    | some tx =>
      some { s with
        tm := s.tm.finish tx
        rv := if tx.isReadOnly then s.rv else s.rv.rollbackRows tx.rows
        live := s.live.erase t }
    | none => none
  | .vacuum => some { s with rv := s.rv.vacuum s.tm.getMinActiveReadTs }

/-- A new database, or one just reopened: the counters are restored and nothing is in flight. -/
def Opened (s : RowState) : Prop :=
  s.rv = .new ∧ s.live = ∅ ∧ s.committed = ∅ ∧ s.tm.activeReadTs = .empty

def initial : RowState := ⟨.new, .new, ∅, ∅⟩

end RowState

/-- The system of transactions over one table. -/
def rowSystem : System RowState RowAction where
  init := RowState.Opened
  step := RowState.step

/-! ## The invariant -/

/-- What holds in every reachable state. -/
structure FirstCommitterInv (s : RowState) : Prop where
  fresh : ∀ t tx, s.live.lookup t = some tx → t < s.tm.nextTxId
  counted : ∀ ts, s.tm.activeReadTs.count ts = FinMap.countWhere (fun tx => tx.readTs = ts) s.live
  owns : ∀ t tx r, s.live.lookup t = some tx → r ∈ tx.rows → s.rv.owner r = some t
  past : ∀ t tx, s.committed.lookup t = some tx → tx.commitTs ≤ s.tm.currentTs
  covered : ∀ t tx r, s.committed.lookup t = some tx → r ∈ tx.rows →
    s.rv.Covers r tx.commitTs ∨
      ∀ t' tx', s.live.lookup t' = some tx' → tx'.isReadOnly = false → tx.commitTs ≤ tx'.readTs
  ordered : ∀ t tx t' tx' r, s.committed.lookup t = some tx → s.live.lookup t' = some tx' →
    r ∈ tx.rows → r ∈ tx'.rows → tx.commitTs ≤ tx'.readTs
  serial : ∀ t tx t' tx' r, s.committed.lookup t = some tx → s.committed.lookup t' = some tx' →
    t ≠ t' → r ∈ tx.rows → r ∈ tx'.rows → tx.commitTs ≤ tx'.readTs ∨ tx'.commitTs ≤ tx.readTs

namespace FirstCommitterInv

variable {s : RowState}

lemma initial (h : s.Opened) : FirstCommitterInv s := by
  obtain ⟨tm, rv, live, committed⟩ := s
  obtain ⟨-, rfl, rfl, hcount⟩ : rv = .new ∧ live = ∅ ∧ committed = ∅ ∧ tm.activeReadTs = .empty := h
  refine ⟨nofun, fun ts => ?_, nofun, nofun, nofun, nofun, nofun⟩
  rw [hcount]
  rfl

variable {tm : TransactionManager} {t : ℕ} {tx : Transaction}

variable (h : FirstCommitterInv s)

include h

/-- Begin: a writer's snapshot is the current timestamp, at or after every commit. -/
lemma beginAt {ro : Bool} {snap : Option ℕ}
    (hsnap : (snap.isSome && !ro) = false) {txId : ℕ} (halloc : s.tm.allocTxId = some (txId, tm)) :
    FirstCommitterInv { s with
      tm := (tm.register txId ro snap).2
      live := s.live.insert txId (tm.register txId ro snap).1 } := by
  rw [TransactionManager.allocTxId] at halloc
  split at halloc
  · cases halloc
  cases halloc
  have hnew : s.live.lookup s.tm.nextTxId = none :=
    eq_none_iff_forall_ne_some.2 fun _ hl => lt_irrefl _ (h.fresh _ _ hl)
  have hsplit : ∀ {t tx}, (s.live.insert s.tm.nextTxId
      (({ s.tm with nextTxId := s.tm.nextTxId + 1 } : TransactionManager).register
        s.tm.nextTxId ro snap).1).lookup t = some tx →
      (t = s.tm.nextTxId ∧ tx.rows = [] ∧ (tx.isReadOnly = false → tx.readTs = s.tm.currentTs)) ∨
        s.live.lookup t = some tx := by
    intro t tx ht
    rcases of_lookup_insert ht with ⟨hte, rfl⟩ | ⟨-, ht⟩
    · refine .inl ⟨hte, rfl, ?_⟩
      rintro rfl
      cases snap with
      | none => rfl
      | some ts => cases hsnap
    · exact .inr ht
  constructor
  · intro t tx ht
    rcases hsplit ht with ⟨rfl, -⟩ | ht
    · exact Nat.lt_succ_self _
    · exact Nat.lt_succ_of_lt (h.fresh t tx ht)
  · intro ts
    rw [countWhere_insert _ hnew, ← h.counted]
    refine (CountMap.count_incr s.tm.activeReadTs _ ts).trans ?_
    by_cases hts : ts = snap.getD s.tm.currentTs
    · simp [TransactionManager.register, hts]
    · rw [if_neg hts]
      have hne : ¬ snap.getD s.tm.currentTs = ts := fun h => hts h.symm
      simp [TransactionManager.register, hne]
  · intro t tx r ht hr
    rcases hsplit ht with ⟨-, hrows, -⟩ | ht
    · rw [hrows] at hr
      cases hr
    · exact h.owns t tx r ht hr
  · exact h.past
  · intro t tx r ht hr
    rcases h.covered t tx r ht hr with hcov | hseen
    · exact .inl hcov
    · refine .inr fun t' tx' ht' hro => ?_
      rcases hsplit ht' with ⟨-, -, hread⟩ | ht'
      · rw [hread hro]
        exact h.past t tx ht
      · exact hseen t' tx' ht' hro
  · intro t tx t' tx' r ht ht' hr hr'
    rcases hsplit ht' with ⟨-, hrows, -⟩ | ht'
    · rw [hrows] at hr'
      cases hr'
    · exact h.ordered t tx t' tx' r ht ht' hr hr'
  · exact h.serial

variable {r : ℕ} {rv : RowVersion}

/-- A successful mark: the row's last commit is within the snapshot. -/
lemma markRow (ht : s.live.lookup t = some tx)
    (hro : tx.isReadOnly = false) (hmark : s.rv.markRow r t tx.readTs = .ok rv) :
    FirstCommitterInv { s with rv := rv, live := s.live.insert t (tx.pushRow r) } := by
  obtain ⟨rfl, howner, hhist⟩ := markRow_eq_ok hmark
  have hcovers : ∀ {r' ts}, (s.rv.setOwner r t).Covers r' ts ↔ s.rv.Covers r' ts := by
    intro r' ts
    simp only [RowVersion.Covers, history_setOwner]
  constructor
  · exact forall_insert h.fresh (h.fresh t tx ht)
  · intro ts
    rw [h.counted]
    exact (countWhere_replace _ ht rfl).symm
  · intro t' tx' r' ht' hr'
    rw [owner_setOwner]
    rcases of_lookup_insert ht' with ⟨rfl, rfl⟩ | ⟨hne, ht'⟩
    · rw [Transaction.rows_pushRow, List.mem_append, List.mem_singleton] at hr'
      split
      · rfl
      next hrr => exact h.owns _ _ _ ht (hr'.resolve_right hrr)
    · have howns := h.owns t' tx' r' ht' hr'
      split
      next hrr => exact absurd (howner t' (hrr ▸ howns)) hne
      · exact howns
  · exact h.past
  · intro t' tx' r' ht' hr'
    rcases h.covered t' tx' r' ht' hr' with hcov | hseen
    · exact .inl (hcovers.2 hcov)
    · exact .inr (forall_insert hseen (hseen t tx ht))
  · intro t' tx' t'' tx'' r' ht' ht'' hr' hr''
    rcases of_lookup_insert ht'' with ⟨-, rfl⟩ | ⟨-, ht''⟩
    · rw [Transaction.rows_pushRow, List.mem_append, List.mem_singleton] at hr''
      rcases hr'' with hr'' | rfl
      · exact h.ordered t' tx' t tx r' ht' ht hr' hr''
      · -- the newly marked row: its last commit passed the check, or was forgotten as visible
        rcases h.covered t' tx' r' ht' hr' with ⟨entry, hentry, hle⟩ | hseen
        · exact hle.trans (hhist entry hentry)
        · exact hseen t tx ht hro
    · exact h.ordered t' tx' t'' tx'' r' ht' ht'' hr' hr''
  · exact h.serial

lemma counted_finish (ht : s.live.lookup t = some tx)
    (htm : tm.activeReadTs = s.tm.activeReadTs) (ts : ℕ) : (tm.finish tx).activeReadTs.count ts =
      FinMap.countWhere (fun tx => tx.readTs = ts) (s.live.erase t) := by
  have herase := countWhere_erase (fun tx' : Transaction => tx'.readTs = ts) ht
  have hcount := h.counted ts
  rw [finish_activeReadTs, CountMap.count_decr, htm]
  split
  next hts =>
    subst hts
    simp only [decide_true, if_true] at herase
    omega
  next hts =>
    have hne : ¬ tx.readTs = ts := fun h => hts h.symm
    simp only [hne, decide_false, Bool.false_eq_true, if_false] at herase
    omega

lemma not_mem_rows {t' : ℕ} {tx' : Transaction}
    (ht : s.live.lookup t = some tx) (ht' : s.live.lookup t' = some tx') (hne : t' ≠ t)
    (hr' : r ∈ tx'.rows) : r ∉ tx.rows := by
  intro hr
  have hboth := (h.owns t' tx' r ht' hr').symm.trans (h.owns t tx r ht hr)
  exact hne (some.inj hboth)

/-- The end of a transaction: the rows of the others keep their owners, and what is covered stays so. -/
lemma release (tm : TransactionManager) (ht : s.live.lookup t = some tx)
    (hactive : tm.activeReadTs = s.tm.activeReadTs) (hnext : s.tm.nextTxId ≤ tm.nextTxId)
    (hclock : s.tm.currentTs ≤ tm.currentTs)
    (howner : ∀ r, r ∉ tx.rows → rv.owner r = s.rv.owner r)
    (hcovers : ∀ {r ts}, s.rv.Covers r ts → rv.Covers r ts) :
    FirstCommitterInv { s with tm := tm.finish tx, rv := rv, live := s.live.erase t } := by
  constructor
  · intro t' tx' ht'
    rw [finish_nextTxId]
    exact (h.fresh t' tx' (of_lookup_erase ht').2).trans_le hnext
  · exact h.counted_finish ht hactive
  · intro t' tx' r ht' hr'
    obtain ⟨hne, ht'⟩ := of_lookup_erase ht'
    rw [howner r (h.not_mem_rows ht ht' hne hr')]
    exact h.owns t' tx' r ht' hr'
  · intro t' tx' ht'
    rw [finish_currentTs]
    exact (h.past t' tx' ht').trans hclock
  · intro t' tx' r ht' hr'
    rcases h.covered t' tx' r ht' hr' with hcov | hseen
    · exact .inl (hcovers hcov)
    · exact .inr fun t'' tx'' ht'' => hseen t'' tx'' (of_lookup_erase ht'').2
  · intro t' tx' t'' tx'' r ht' ht''
    exact h.ordered t' tx' t'' tx'' r ht' (of_lookup_erase ht'').2
  · exact h.serial

/-- Commit: the new commit is the latest of all, and no transaction left in flight marked one of
its rows. -/
lemma commit (ht : s.live.lookup t = some tx) {commitTs : ℕ}
    (hts : s.tm.nextCommitTs = some (commitTs, tm)) : FirstCommitterInv
      { tm := tm.finish tx
        rv := s.rv.commitRows tx.rows commitTs
        live := s.live.erase t
        committed := s.committed.insert t { tx with commitTs := commitTs } } := by
  obtain ⟨rfl, rfl⟩ := nextCommitTs_eq_some hts
  have hend := h.release { s.tm with currentTs := s.tm.currentTs + 1 } ht rfl le_rfl (Nat.le_succ _)
    (fun r hr => by rw [owner_commitRows, if_neg hr])
    fun hcov => hcov.commitRows tx.rows (s.tm.currentTs + 1)
  refine ⟨hend.fresh, hend.counted, hend.owns, ?_, ?_, ?_, ?_⟩
  · exact forall_insert hend.past (by rw [finish_currentTs])
  · intro t' tx' r ht' hr'
    rcases of_lookup_insert ht' with ⟨-, rfl⟩ | ⟨-, ht'⟩
    · exact .inl (covers_commitRows_of_mem _ _ hr' _)
    · exact hend.covered t' tx' r ht' hr'
  · intro t' tx' t'' tx'' r ht' ht'' hr' hr''
    rcases of_lookup_insert ht' with ⟨-, rfl⟩ | ⟨-, ht'⟩
    · obtain ⟨hne, ht''⟩ := of_lookup_erase ht''
      have hrow : r ∉ tx.rows := h.not_mem_rows ht ht'' hne hr''
      exact absurd hr' hrow
    · exact hend.ordered t' tx' t'' tx'' r ht' ht'' hr' hr''
  · intro t₁ tx₁ t₂ tx₂ r h₁ h₂ hne hr₁ hr₂
    rcases of_lookup_insert h₁ with ⟨ht₁, rfl⟩ | ⟨-, hold₁⟩
    · rcases of_lookup_insert h₂ with ⟨ht₂, -⟩ | ⟨-, hold₂⟩
      · exact absurd (ht₁.trans ht₂.symm) hne
      · exact .inr (h.ordered t₂ tx₂ t tx r hold₂ ht hr₂ hr₁)
    · rcases of_lookup_insert h₂ with ⟨-, rfl⟩ | ⟨-, hold₂⟩
      · exact .inl (h.ordered t₁ tx₁ t tx r hold₁ ht hr₁ hr₂)
      · exact h.serial t₁ tx₁ t₂ tx₂ r hold₁ hold₂ hne hr₁ hr₂

/-- The least active read timestamp is at most every snapshot in flight. -/
lemma getMinActiveReadTs_le (ht : s.live.lookup t = some tx) : s.tm.getMinActiveReadTs ≤ tx.readTs := by
  refine getMinActiveReadTs_le_of_count ?_
  rw [h.counted]
  exact countWhere_pos _ ht (decide_eq_true rfl)

/-- Vacuum: a history it drops is of commits every transaction in flight can see. -/
lemma vacuum : FirstCommitterInv { s with rv := s.rv.vacuum s.tm.getMinActiveReadTs } := by
  refine ⟨h.fresh, h.counted, h.owns, h.past, ?_, h.ordered, h.serial⟩
  intro t tx r ht hr
  rcases h.covered t tx r ht hr with hcov | hseen
  · rcases covers_vacuum hcov s.tm.getMinActiveReadTs with hcov | hlt
    · exact .inl hcov
    · exact .inr fun t' tx' ht' _ => hlt.le.trans (h.getMinActiveReadTs_le ht')
  · exact .inr hseen

lemma step {s' : RowState} {a : RowAction} (hstep : s.step a = some s') : FirstCommitterInv s' := by
  cases a with
  | beginAt ro snap =>
    simp only [RowState.step, TransactionManager.beginAt] at hstep
    split at hstep
    · cases hstep
    next hsnap =>
      rw [map_map, map_eq_some_iff] at hstep
      obtain ⟨⟨txId, tm⟩, halloc, rfl⟩ := hstep
      exact h.beginAt (Bool.eq_false_iff.2 hsnap) halloc
  | markRow t r =>
    simp only [RowState.step] at hstep
    split at hstep
    next ht =>
      split at hstep
      · cases hstep
      next hro =>
        split at hstep
        next hmark =>
          cases hstep
          exact h.markRow ht (Bool.eq_false_iff.2 hro) hmark
        · cases hstep
          exact h
    · cases hstep
  | commit t =>
    simp only [RowState.step] at hstep
    split at hstep
    next ht =>
      split at hstep
      · cases hstep
        exact h.release s.tm ht rfl le_rfl le_rfl (fun _ _ => rfl) id
      · obtain ⟨⟨commitTs, tm⟩, hts, rfl⟩ := map_eq_some_iff.1 hstep
        exact h.commit ht hts
    · cases hstep
  | rollback t =>
    simp only [RowState.step] at hstep
    split at hstep
    next ht =>
      cases hstep
      refine h.release s.tm ht rfl le_rfl le_rfl (fun r hr => ?_) fun hcov => ?_
      · split
        · rfl
        · rw [owner_rollbackRows, if_neg hr]
      · split
        · exact hcov
        · rwa [RowVersion.Covers, history_rollbackRows]
    · cases hstep
  | vacuum =>
    cases hstep
    exact h.vacuum

end FirstCommitterInv

/-- **First committer wins.**  In every reachable state, of two different committed transactions
that both marked a row, one committed at or before the snapshot of the other. -/
theorem first_committer_wins : ∀ s, rowSystem.Reachable s → ∀ t₁ tx₁ t₂ tx₂ r,
      s.committed.lookup t₁ = some tx₁ → s.committed.lookup t₂ = some tx₂ → t₁ ≠ t₂ →
      r ∈ tx₁.rows → r ∈ tx₂.rows →
      tx₁.commitTs ≤ tx₂.readTs ∨ tx₂.commitTs ≤ tx₁.readTs := by
  intro s hs
  have hinv : FirstCommitterInv s :=
    hs.invariant (fun _ h0 => .initial h0) (fun _ _ _ _ hinv _ hstep => hinv.step hstep)
  exact hinv.serial

/-- Two writers one after the other on row `0`. -/
def writersInTurn : List RowAction :=
  [.beginAt false none, .markRow 1 0, .commit 1, .beginAt false none, .markRow 2 0, .commit 2]

/-- A transaction that marked row `0` only. -/
def rowZeroWriter (txId readTs commitTs : ℕ) : Transaction where
  txId := txId
  isReadOnly := false
  readTs := readTs
  commitTs := commitTs
  modifiedPages := []
  modifiedRows := [(0, 0)]
  bulkRowRanges := []
  modifiedPageRows := []

lemma writersInTurn_committed : (rowSystem.exec .initial writersInTurn).map
        (fun s => (s.committed.lookup 1, s.committed.lookup 2)) =
      some (some (rowZeroWriter 1 1 2), some (rowZeroWriter 2 2 3)) := by
  decide +kernel

theorem first_committer_wins_inTurn :
    (rowZeroWriter 1 1 2).commitTs ≤ (rowZeroWriter 2 2 3).readTs ∨
      (rowZeroWriter 2 2 3).commitTs ≤ (rowZeroWriter 1 1 2).readTs := by
  obtain ⟨s, hrun, hcommitted⟩ := map_eq_some_iff.1 writersInTurn_committed
  rw [Prod.mk.injEq] at hcommitted
  have hinit : rowSystem.Reachable .initial := .init ⟨rfl, rfl, rfl, rfl⟩
  exact first_committer_wins s (hinit.exec hrun) 1 _ 2 _ 0 hcommitted.1 hcommitted.2 (by decide)
    (by decide) (by decide)

end LightningDB
