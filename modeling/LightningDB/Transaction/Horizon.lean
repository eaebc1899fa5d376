import LightningDB.Framework.Runs
import LightningDB.Transaction.Manager

/-!
# The reclaim horizon

`get_min_active_read_ts` is what the vacuum thread and the checkpoint take for the oldest snapshot in
use.  A transaction obtains its snapshot in one access, by a load of `current_ts` or as a given
timestamp, and registers it in `active_read_ts` in another; in between it is *pending*, and the
horizon does not know it.

The registered snapshots are safe in every reachable state: `active_read_ts` counts them
(`HorizonState.Counted`), so the end of one transaction does not take the entry of another one with
it.  The pending ones are safe in the runs that `HorizonState.StepOk` describes (`reclaim_horizon`).
-/

namespace LightningDB

open Framework Option FinMap TransactionManager

/-- A transaction that has taken its id: the snapshot it was asked for, the one it has obtained, and
whether it is registered. -/
structure HorizonTx where
  isReadOnly : Bool
  snapshotTs : Option ℕ
  readTs : Option ℕ
  registered : Bool

open HorizonTx

/-- The load of the snapshot: the given one, or the clock. -/
def HorizonTx.load (tx : HorizonTx) (currentTs : ℕ) : HorizonTx :=
  { tx with readTs := some (tx.snapshotTs.getD currentTs) }

/-- The transaction has registered the snapshot `ts`. -/
def HorizonTx.reads (tx : HorizonTx) (ts : ℕ) : Bool := tx.registered && tx.readTs == some ts

/-- The manager and the transactions that have not ended. -/
structure HorizonState where
  tm : TransactionManager
  live : FinMap ℕ HorizonTx

/-- The accesses of `begin_at`, the bump of the clock in `commit`, and the end of a transaction by
`commit`, `rollback` or `drop`. -/
inductive HorizonAction where
  | allocTxId (isReadOnly : Bool) (snapshotTs : Option ℕ)
  | loadReadTs (t : ℕ)
  | register (t : ℕ)
  | bumpClock (t : ℕ)
  | finish (t : ℕ)

namespace HorizonState

variable (s : HorizonState)

def step : HorizonAction → Option HorizonState
  | .allocTxId isReadOnly snapshotTs =>
    s.tm.allocTxId.map fun (txId, tm) =>
      { tm := tm, live := s.live.insert txId ⟨isReadOnly, snapshotTs, none, false⟩ }
  | .loadReadTs t =>
    (s.live.lookup t).bind fun tx =>
      if tx.readTs = none then
        some { s with live := s.live.insert t (tx.load s.tm.currentTs) }
      else none
  | .register t =>
    (s.live.lookup t).bind fun tx =>
      if tx.registered then none
      else tx.readTs.map fun ts =>
        { tm := (s.tm.register t tx.isReadOnly (some ts)).2
          live := s.live.insert t { tx with registered := true } }
  | .bumpClock t =>
    (s.live.lookup t).bind fun tx =>
      if tx.registered && !tx.isReadOnly then
        s.tm.nextCommitTs.map fun (_, tm) => { s with tm := tm }
      else none
  | .finish t =>
    (s.live.lookup t).bind fun tx =>
      if tx.registered then
        tx.readTs.map fun ts =>
          { tm := (if tx.isReadOnly then s.tm else s.tm.removeActive t).removeReadTs ts
            live := s.live.erase t }
      else none

/-- Nothing is in flight. -/
def Opened : Prop := s.live = ∅ ∧ s.tm.activeReadTs = .empty

def initial : HorizonState := ⟨.new, ∅⟩

/-- The horizon is at or below every snapshot in use. -/
def Horizon : Prop :=
  ∀ t tx ts, s.live.lookup t = some tx → tx.readTs = some ts → s.tm.getMinActiveReadTs ≤ ts

/-- A transaction has obtained the snapshot `ts` and not yet registered it. -/
def Pending (t ts : ℕ) : Prop :=
  ∃ tx, s.live.lookup t = some tx ∧ tx.readTs = some ts ∧ tx.registered = false

/-- A transaction has registered the snapshot `ts`. -/
def Registered (t ts : ℕ) : Prop :=
  ∃ tx, s.live.lookup t = some tx ∧ tx.readTs = some ts ∧ tx.registered = true

/-- The steps that do not let the horizon pass a snapshot.  A given snapshot is not in the future,
and a registered transaction reads at it or before it; and no transaction ends between the load and
the registration of another one once the clock has left the snapshot loaded. -/
def StepOk : HorizonAction → Prop
  | .allocTxId _ _ => True
  | .loadReadTs t => ∀ tx ts, s.live.lookup t = some tx → tx.snapshotTs = some ts →
      ts ≤ s.tm.currentTs ∧ ∃ t' ts', s.Registered t' ts' ∧ ts' ≤ ts
  | .register _ => True
  | .bumpClock _ => True
  | .finish _ => ∀ t' ts', s.Pending t' ts' → ts' = s.tm.currentTs

end HorizonState

/-- The system of transactions that begin and end. -/
def horizonSystem : System HorizonState HorizonAction where
  init := HorizonState.Opened
  step := HorizonState.step

/-! ## Registered snapshots -/

namespace HorizonState

variable {s s' : HorizonState}

/-- `active_read_ts` counts the registered transactions. -/
structure Counted (s : HorizonState) : Prop where
  fresh : ∀ t tx, s.live.lookup t = some tx → t < s.tm.nextTxId
  loaded : ∀ t tx, s.live.lookup t = some tx → tx.registered = true → tx.readTs ≠ none
  counted : ∀ ts, s.tm.activeReadTs.count ts = FinMap.countWhere (·.reads ts) s.live

lemma counted_of_opened (h : s.Opened) : s.Counted := by
  obtain ⟨tm, live⟩ := s
  obtain ⟨rfl, hempty⟩ : live = ∅ ∧ tm.activeReadTs = .empty := h
  refine ⟨nofun, nofun, fun ts => ?_⟩
  rw [hempty]
  rfl

variable {t ts t' : ℕ} {tx : HorizonTx} {a : HorizonAction} {tm : TransactionManager}

/-- A change of one transaction that leaves its registration alone. -/
lemma Counted.replace (h : s.Counted) {tx' : HorizonTx}
    (ht : s.live.lookup t = some tx) (hreg : tx'.registered = tx.registered)
    (hread : tx.registered = true → tx'.readTs = tx.readTs) :
    Counted { s with live := s.live.insert t tx' } := by
  have hreads : ∀ ts, tx'.reads ts = tx.reads ts := by
    intro ts
    rw [reads, reads, hreg]
    cases hr : tx.registered with
    | true => rw [hread hr]
    | false => rfl
  refine ⟨forall_insert h.fresh (h.fresh t tx ht), forall_insert h.loaded fun hr => ?_, fun ts => ?_⟩
  · rw [hreg] at hr
    rw [hread hr]
    exact h.loaded t tx ht hr
  · exact (h.counted ts).trans (countWhere_replace _ ht (hreads ts)).symm

lemma Counted.step (h : s.Counted) (hstep : s.step a = some s') : s'.Counted := by
  cases a with
  | allocTxId ro snap =>
    obtain ⟨⟨txId, tm⟩, halloc, rfl⟩ := map_eq_some_iff.1 hstep
    obtain ⟨rfl, rfl⟩ := allocTxId_eq_some halloc
    have hnew : s.live.lookup s.tm.nextTxId = none :=
      eq_none_iff_forall_ne_some.2 fun _ hl => lt_irrefl _ (h.fresh _ _ hl)
    refine ⟨forall_insert (fun t' tx' ht' => ?_) (Nat.lt_succ_self _), forall_insert h.loaded nofun,
      fun ts => ?_⟩
    · exact Nat.lt_succ_of_lt (h.fresh t' tx' ht')
    · rw [countWhere_insert _ hnew]
      exact h.counted ts
  | loadReadTs t =>
    obtain ⟨tx, ht, hnone, ⟨⟩⟩ := of_bind_ite hstep
    exact h.replace ht rfl fun hr => absurd hnone (h.loaded t tx ht hr)
  | register t =>
    obtain ⟨tx, ht, hreg, hif⟩ := of_bind_ite_none hstep
    rw [Bool.not_eq_true] at hreg
    obtain ⟨ts₀, hts₀, rfl⟩ := map_eq_some_iff.1 hif
    refine ⟨forall_insert h.fresh (h.fresh t tx ht), forall_insert h.loaded fun _ => ?_, fun ts => ?_⟩
    · rw [hts₀]
      exact some_ne_none ts₀
    · have hold := h.counted ts
      rw [countWhere_erase _ ht, reads, hreg] at hold
      refine (CountMap.count_incr s.tm.activeReadTs ts₀ ts).trans ?_
      dsimp only
      rw [countWhere_set, reads, hts₀]
      by_cases hts : ts = ts₀
      · subst hts
        simpa using hold
      · have hne : ¬ ts₀ = ts := fun heq => hts heq.symm
        simpa [hts, hne] using hold
  | bumpClock t =>
    obtain ⟨tx, ht, -, hif⟩ := of_bind_ite hstep
    obtain ⟨⟨ts, tm⟩, hts, rfl⟩ := map_eq_some_iff.1 hif
    obtain ⟨-, rfl⟩ := nextCommitTs_eq_some hts
    exact ⟨h.fresh, h.loaded, h.counted⟩
  | finish t =>
    obtain ⟨tx, ht, hreg, hif⟩ := of_bind_ite hstep
    obtain ⟨ts₀, hts₀, rfl⟩ := map_eq_some_iff.1 hif
    have htm : ∀ tm : TransactionManager, tm = (if tx.isReadOnly then s.tm else s.tm.removeActive t) →
        tm.nextTxId = s.tm.nextTxId ∧ tm.activeReadTs = s.tm.activeReadTs := by
      rintro tm rfl
      split <;> exact ⟨rfl, rfl⟩
    obtain ⟨hnext, hactive⟩ := htm _ rfl
    refine ⟨fun t' tx' ht' => ?_,
      fun t' tx' ht' => h.loaded t' tx' (of_lookup_erase ht').2, fun ts => ?_⟩
    · exact (h.fresh t' tx' (of_lookup_erase ht').2).trans_eq hnext.symm
    · have hold := h.counted ts
      rw [countWhere_erase _ ht, reads, hreg, hts₀] at hold
      refine (CountMap.count_decr _ ts₀ ts).trans ?_
      rw [hactive]
      by_cases hts : ts = ts₀
      · subst hts
        simp at hold
        rw [if_pos rfl, hold]
        rfl
      · have hne : ¬ ts₀ = ts := fun heq => hts heq.symm
        simp [hne] at hold
        rw [if_neg hts, hold]

/-- **Registered snapshots are safe.**  Only a pending one can be below the horizon. -/
theorem Counted.horizon_iff (h : s.Counted) :
    s.Horizon ↔ ∀ t ts, s.Pending t ts → s.tm.getMinActiveReadTs ≤ ts := by
  constructor
  · rintro hor t ts ⟨tx, ht, hts, -⟩
    exact hor t tx ts ht hts
  · intro hpending t tx ts ht hts
    cases hreg : tx.registered with
    | false => exact hpending t ts ⟨tx, ht, hts, hreg⟩
    | true =>
      refine getMinActiveReadTs_le_of_count ?_
      rw [h.counted]
      exact countWhere_pos _ ht (by simp [reads, hreg, hts])

/-! ## Runs in order -/

/-- A snapshot at the clock, or at or above a registered one. -/
def Covered (s : HorizonState) (ts : ℕ) : Prop :=
  ts = s.tm.currentTs ∨ ∃ t' ts', s.Registered t' ts' ∧ ts' ≤ ts

/-- The snapshots in use are not in the future, and each is covered. -/
structure InOrder (s : HorizonState) : Prop where
  past : ∀ t tx, s.live.lookup t = some tx → ∀ ts, tx.readTs = some ts → ts ≤ s.tm.currentTs
  covered : ∀ t tx, s.live.lookup t = some tx → ∀ ts, tx.readTs = some ts → s.Covered ts

/-- A covered snapshot stays covered when one transaction changes and keeps what it has
registered. -/
lemma Covered.insert (h : s.Covered ts) (hclock : tm.currentTs = s.tm.currentTs)
    (hkeep : ∀ tx₀, s.live.lookup t = some tx₀ → tx₀.registered = true →
      tx.readTs = tx₀.readTs ∧ tx.registered = true) : Covered ⟨tm, s.live.insert t tx⟩ ts := by
  rcases h with rfl | ⟨t', ts', ⟨tx', ht', hts', hreg'⟩, hle⟩
  · exact .inl hclock.symm
  refine .inr ⟨t', ts', ?_, hle⟩
  by_cases htt : t' = t
  · subst htt
    obtain ⟨hts, hreg⟩ := hkeep tx' ht' hreg'
    exact ⟨tx, AList.lookup_insert _, hts.trans hts', hreg⟩
  · exact ⟨tx', (AList.lookup_insert_ne htt).trans ht', hts', hreg'⟩

lemma InOrder.step (h : s.InOrder) (hc : s.Counted) (hok : s.StepOk a)
    (hstep : s.step a = some s') : s'.InOrder := by
  cases a with
  | allocTxId ro snap =>
    obtain ⟨⟨txId, tm⟩, halloc, rfl⟩ := map_eq_some_iff.1 hstep
    obtain ⟨rfl, rfl⟩ := allocTxId_eq_some halloc
    refine ⟨forall_insert h.past nofun, forall_insert (fun t tx ht ts hts => ?_) nofun⟩
    refine (h.covered t tx ht ts hts).insert rfl fun tx₀ ht₀ _ => ?_
    exact absurd (hc.fresh _ tx₀ ht₀) (lt_irrefl _)
  | loadReadTs t =>
    obtain ⟨tx, ht, hnone, ⟨⟩⟩ := of_bind_ite hstep
    have hkeep : ∀ tx₀, s.live.lookup t = some tx₀ → tx₀.registered = true →
        (tx.load s.tm.currentTs).readTs = tx₀.readTs ∧ (tx.load s.tm.currentTs).registered = true := by
      intro tx₀ ht₀ hreg
      obtain rfl : tx₀ = tx := some.inj (ht₀.symm.trans ht)
      exact absurd hnone (hc.loaded t tx₀ ht hreg)
    -- The snapshot obtained is the clock, or a given one that meets the condition.
    have hnew : ∀ ts, (tx.load s.tm.currentTs).readTs = some ts →
        ts ≤ s.tm.currentTs ∧ s.Covered ts := by
      rintro ts ⟨⟩
      cases hsnap : tx.snapshotTs with
      | none => exact ⟨le_rfl, .inl rfl⟩
      | some ts =>
        obtain ⟨hle, hreg⟩ := hok tx ts ht hsnap
        exact ⟨hle, .inr hreg⟩
    refine ⟨forall_insert h.past fun ts hts => (hnew ts hts).1,
      forall_insert (fun t' tx' ht' ts hts => ?_) fun ts hts => ?_⟩
    · exact (h.covered t' tx' ht' ts hts).insert rfl hkeep
    · exact (hnew ts hts).2.insert rfl hkeep
  | register t =>
    obtain ⟨tx, ht, -, hif⟩ := of_bind_ite_none hstep
    obtain ⟨ts₀, hts₀, rfl⟩ := map_eq_some_iff.1 hif
    have hkeep : ∀ tx₀, s.live.lookup t = some tx₀ → tx₀.registered = true →
        tx.readTs = tx₀.readTs ∧ true = true := by
      intro tx₀ ht₀ _
      obtain rfl : tx₀ = tx := some.inj (ht₀.symm.trans ht)
      exact ⟨rfl, rfl⟩
    refine ⟨forall_insert h.past (h.past t tx ht), forall_insert (fun t' tx' ht' ts hts => ?_)
      fun ts hts => ?_⟩
    · exact (h.covered t' tx' ht' ts hts).insert rfl hkeep
    · exact (h.covered t tx ht ts hts).insert rfl hkeep
  | bumpClock t =>
    obtain ⟨tx, ht, hguard, hif⟩ := of_bind_ite hstep
    obtain ⟨⟨ts, tm⟩, hts, rfl⟩ := map_eq_some_iff.1 hif
    obtain ⟨-, rfl⟩ := nextCommitTs_eq_some hts
    -- The committer is registered, at a snapshot no later than the clock it moves.
    have hreg : tx.registered = true := (Bool.and_eq_true _ _ ▸ hguard).1
    obtain ⟨ts₀, hts₀⟩ := ne_none_iff_exists'.1 (hc.loaded t tx ht hreg)
    refine ⟨fun t' tx' ht' ts hts => Nat.le_succ_of_le (h.past t' tx' ht' ts hts),
      fun t' tx' ht' ts hts => .inr ?_⟩
    rcases h.covered t' tx' ht' ts hts with rfl | hcov
    · exact ⟨t, ts₀, ⟨tx, ht, hts₀, hreg⟩, h.past t tx ht ts₀ hts₀⟩
    · exact hcov
  | finish t =>
    obtain ⟨tx, ht, -, hif⟩ := of_bind_ite hstep
    obtain ⟨ts₀, hts₀, rfl⟩ := map_eq_some_iff.1 hif
    have hclock : ((if tx.isReadOnly then s.tm else s.tm.removeActive t).removeReadTs ts₀).currentTs =
        s.tm.currentTs := by
      split <;> rfl
    refine ⟨fun t' tx' ht' ts hts => ?_, fun t' tx' ht' ts hts => ?_⟩
    · exact (h.past t' tx' (of_lookup_erase ht').2 ts hts).trans_eq hclock.symm
    · -- What is pending is at the clock, and what is registered stays so.
      cases hreg : tx'.registered with
      | false =>
        exact .inl ((hok t' ts ⟨tx', (of_lookup_erase ht').2, hts, hreg⟩).trans hclock.symm)
      | true => exact .inr ⟨t', ts, ⟨tx', ht', hts, hreg⟩, le_rfl⟩

/-- The horizon is the clock or a registered snapshot, so it is not in the future. -/
lemma InOrder.getMinActiveReadTs_le (h : s.InOrder) (hc : s.Counted) :
    s.tm.getMinActiveReadTs ≤ s.tm.currentTs := by
  rw [TransactionManager.getMinActiveReadTs]
  cases hmin : s.tm.activeReadTs.minKey? with
  | none => exact le_rfl
  | some m =>
    have hpos := CountMap.minKey?_mem hmin
    rw [hc.counted] at hpos
    obtain ⟨t, tx, ht, hreads⟩ := exists_of_countWhere_pos _ hpos
    rw [reads, Bool.and_eq_true, beq_iff_eq] at hreads
    exact h.past t tx ht m hreads.2

theorem InOrder.horizon (h : s.InOrder) (hc : s.Counted) : s.Horizon := by
  intro t tx ts ht hts
  rcases h.covered t tx ht ts hts with rfl | ⟨t', ts', ⟨tx', ht', hts', hreg⟩, hle⟩
  · exact h.getMinActiveReadTs_le hc
  · refine (getMinActiveReadTs_le_of_count ?_).trans hle
    rw [hc.counted]
    exact countWhere_pos _ ht' (by simp [reads, hreg, hts'])

end HorizonState

/-- `StepOk`, evaluated. -/
def HorizonState.inOrder (s : HorizonState) : HorizonAction → Bool
  | .loadReadTs t => ((s.live.lookup t).bind (·.snapshotTs)).all fun ts =>
      ts ≤ s.tm.currentTs &&
        s.live.entries.any fun e => e.2.registered && e.2.readTs.any (· ≤ ts)
  | .finish _ => s.live.entries.all fun e => e.2.registered || e.2.readTs.all (· == s.tm.currentTs)
  | _ => true

lemma HorizonState.stepOk_of_inOrder {s : HorizonState} {a : HorizonAction}
    (h : s.inOrder a = true) : s.StepOk a := by
  cases a with
  | allocTxId _ _ => trivial
  | register _ => trivial
  | bumpClock _ => trivial
  | loadReadTs t =>
    intro tx ts ht hts
    rw [inOrder, ht, bind_some, hts, all_some, Bool.and_eq_true, decide_eq_true_eq,
      List.any_eq_true] at h
    obtain ⟨hle, ⟨t', tx'⟩, he, hreg⟩ := h
    rw [Bool.and_eq_true, any_eq_true] at hreg
    obtain ⟨hreg, ts', hts', hle'⟩ := hreg
    exact ⟨hle, t', ts', ⟨tx', AList.mem_lookup_iff.2 he, hts', hreg⟩, of_decide_eq_true hle'⟩
  | finish t =>
    rintro t' ts' ⟨tx', ht', hts', hreg⟩
    have he := List.all_eq_true.1 h _ (AList.mem_lookup_iff.1 ht')
    simpa [hreg, hts'] using he

/-- Two writers and two readers: the second writer begins and bumps the clock while the first reader
is between its load and its registration, and the second reader reads in the past. -/
def overlapping : List HorizonAction :=
  [.allocTxId false none, .loadReadTs 1, .allocTxId true none, .loadReadTs 2, .register 1,
    .allocTxId false none, .loadReadTs 3, .register 3, .bumpClock 3, .register 2, .finish 3,
    .allocTxId true (some 1), .loadReadTs 4, .bumpClock 1, .register 4, .finish 1]

end LightningDB
