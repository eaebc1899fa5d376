import LightningDB.Engine.Sound
import LightningDB.Wal.Replay

/-!
# Whose id a logged page carries

`log_page_update` is not told which transaction it logs for.  It takes the largest number among the
resident versions of the page, the mark bit of uncommitted ones removed, so the ids of other writers
and the timestamps of committed versions compete with the id of the transaction that writes.

`wal_attribution` has the exact condition for one record, and what follows for a run whose records
all meet it: replay of any prefix of the log hands out images of committed transactions only.
-/

namespace LightningDB

open Engine

open Framework List Option AttributedLog EngineAction

variable {s s' : Engine} {a : EngineAction}

namespace Engine

/-- The transaction a step logs for, and the page it logs. -/
def logs (s : Engine) : EngineAction → Option (ℕ × PageKey)
  | .logUpdate t k => some (t, k)
  | .commitStep t => (s.committing t).bind fun (_, c) => match c.stage with
    | .loggingMerged k _ => some (t, k)
    | _ => none
  | _ => none

/-- No resident version of the page a step logs has a larger number than the id of the transaction
it logs for. -/
def NoneAbove (s : Engine) (a : EngineAction) : Prop :=
  match s.logs a with
  | some (t, k) => ∀ e ∈ s.bm.entries k, unmarked e.frame.version ≤ t
  | none => True

instance (s : Engine) (a : EngineAction) : Decidable (s.NoneAbove a) := by
  unfold NoneAbove
  split <;> infer_instance

end Engine

/-- Replay of these records hands out an image only if the transaction that produced it has a commit
record among them. -/
def ReplaysCommitted (es : List LogEntry) : Prop :=
  ∀ c x, x ∈ replayed c (es.map LogEntry.record) → ∀ t producer k page,
    .update t producer k page ∈ es →
      (LogEntry.update t producer k page).record = .pageUpdate x.1 x.2 → .commit producer ∈ es

/-! ## The records of a step -/

variable {t : ℕ} {lt : LiveTx} {c : CommitState} {log : AttributedLog} {es : List LogEntry}

lemma committing_eq (hlt : s.live t = some lt)
    (hphase : lt.phase = .committing c) : s.committing t = some (lt, c) := by
  rw [committing, hlt, bind_some, hphase]

lemma logs_commitStep (hlt : s.live t = some lt) (hphase : lt.phase = .committing c)
    (hstage : ∀ k groups, c.stage ≠ .loggingMerged k groups) : s.logs (.commitStep t) = none := by
  rw [logs, committing_eq hlt hphase, bind_some]
  dsimp only
  split
  next k groups h => exact (hstage k groups h).elim
  · rfl

inductive LogMoves (s : Engine) (a : EngineAction) : AttributedLog → Prop where
  | update {t : ℕ} {k : PageKey} {f : Frame} {lt : LiveTx} (hlogs : s.logs a = some (t, k))
      (hlt : s.live t = some lt) (hfind : s.bm.findByMark k (mark t) = some f) :
      LogMoves s a (s.log.logPageUpdate (s.bm.logTxId k) t k f.data.page)
  | commit {t : ℕ} (hlogs : s.logs a = none) : LogMoves s a (s.log.logCommit t)
  | truncate (hlogs : s.logs a = none) : LogMoves s a s.log.truncate
  | keep (hlogs : s.logs a = none) : LogMoves s a s.log

lemma log_moves (hm : s.Moves a s') : LogMoves s a s'.log := by
  cases hm
  case logUpdate hlt hphase hfind => exact .update rfl hlt hfind
  case logMerged hlt hphase hstage hfind =>
    refine .update ?_ hlt hfind
    rw [logs, committing_eq hlt hphase, bind_some]
    dsimp only
    rw [hstage]
  case logCommit hlt hphase hstage =>
    exact .commit (logs_commitStep hlt hphase (by simp [hstage]))
  case checkpointTruncate => exact .truncate rfl
  case stamp hlt hphase hstage hfind =>
    rw [stamp_eq hfind]
    exact .keep (logs_commitStep hlt hphase (by simp [hstage]))
  case nextStage hlt hphase hstage =>
    refine .keep (logs_commitStep hlt hphase ?_)
    intro k groups h
    rw [h] at hstage
    cases hstage
  all_goals first
    | exact .keep rfl
    | exact .keep (logs_commitStep ‹_› ‹_› (by simp_all))

/-- The id inferred is that of the writer just if no resident version is above it. -/
lemma Sound.logTxId_eq_iff (h : Sound s) (hb : s.Bounded) {k : PageKey}
    {f : Frame} (hlt : s.live t = some lt) (hfind : s.bm.findByMark k (mark t) = some f) :
    s.bm.logTxId k = t ↔ ∀ e ∈ s.bm.entries k, unmarked e.frame.version ≤ t := by
  obtain ⟨hle, hmem⟩ := logTxId_spec s.bm k
  have hbelow : t < uncommittedBit := (h.idsBelow hb).below t lt hlt
  obtain ⟨e, he, rfl, hv⟩ := findByMark_eq_some hfind
  have hown : t ≤ s.bm.logTxId k := by
    have := hle e he
    rwa [hv, unmarked_mark hbelow] at this
  constructor
  · intro heq e he
    exact heq ▸ hle e he
  · intro hall
    rcases hmem with hzero | ⟨e, he, heq⟩
    · omega
    · exact le_antisymm (heq ▸ hall e he) hown

/-- A record is attributed to its producer just if the step that logs it meets the condition. -/
lemma Sound.attributed_iff (h : Sound s) (hb : s.Bounded) (hlog : LogMoves s a log) {e : LogEntry}
    (he : log.all = s.log.all ++ [e]) : e.Attributed ↔ s.NoneAbove a := by
  cases hlog with
  | update hlogs hlt hfind =>
    rw [all_logPageUpdate, append_cancel_left_eq, singleton_inj] at he
    rw [← he, Engine.NoneAbove, hlogs]
    exact h.logTxId_eq_iff hb hlt hfind
  | commit hlogs =>
    rw [all_logCommit, append_cancel_left_eq, singleton_inj] at he
    rw [← he, Engine.NoneAbove, hlogs]
    exact Iff.rfl
  | truncate hlogs =>
    have hlen := congrArg length he
    simp only [AttributedLog.all, AttributedLog.truncate, nil_append, length_append,
      length_singleton] at hlen
    omega
  | keep hlogs =>
    have hlen := congrArg length he
    simp only [length_append, length_singleton] at hlen
    omega

/-- Under the condition the records stay attributed to their producers. -/
lemma Sound.attributed_moves (h : Sound s) (hb : s.Bounded) (hlog : LogMoves s a log)
    (hok : s.NoneAbove a) (hall : ∀ e ∈ s.log.all, e.Attributed) : ∀ e ∈ log.all, e.Attributed := by
  have hpush : ∀ e, log.all = s.log.all ++ [e] → ∀ e ∈ log.all, e.Attributed := by
    intro e he e' he'
    rw [he, mem_append, mem_singleton] at he'
    rcases he' with he' | rfl
    · exact hall e' he'
    · exact (h.attributed_iff hb hlog he).2 hok
  cases hlog with
  | update hlogs hlt hfind => exact hpush _ (all_logPageUpdate ..)
  | commit hlogs => exact hpush _ (all_logCommit ..)
  | truncate hlogs =>
    intro e he
    exact hall e (mem_append_right _ (by simpa [AttributedLog.all, AttributedLog.truncate] using he))
  | keep hlogs => exact hall

/-! ## Replaying attributed records -/

lemma replaysCommitted_of_attributed (h : ∀ e ∈ es, e.Attributed) : ReplaysCommitted es := by
  intro c x hx t producer k page hmem hrecord
  obtain ⟨⟨hcommit, -⟩, -⟩ := mem_replayed_iff.1 hx
  have ht : t = x.1 := (WALRecord.pageUpdate.inj hrecord).1
  have hproducer : t = producer := h _ hmem
  rw [← ht, hproducer, List.mem_map] at hcommit
  obtain ⟨e, he, hrec⟩ := hcommit
  cases e with
  | update t' producer' k' page' => cases hrec
  | commit t' =>
    cases hrec
    exact he

/-- **Attribution of logged pages.**  The record a step logs carries the id of the transaction that
produced the page just if no resident version of the page has a larger number.  In a run in which
every logging step meets this, all records do, and replay of what a crash leaves of the log hands
out an image only if its producer has a commit record there. -/
theorem wal_attribution (s : Engine) :
    (engineSystem.Reachable s → s.Bounded → ∀ a s', s.step a = some s' →
      ∀ e, s'.log.all = s.log.all ++ [e] → (e.Attributed ↔ s.NoneAbove a)) ∧
    (engineSystem.ReachableBy Engine.NoneAbove s → s.Bounded →
      (∀ e ∈ s.log.all, e.Attributed) ∧ ∀ es, es <+: s.log.file → ReplaysCommitted es) := by
  constructor
  · intro hr hb a s' hstep e he
    exact (sound_of_reachable hr hb).attributed_iff hb (log_moves (step_moves hstep)) he
  · intro hr hb
    have hall : s.Bounded → ∀ e ∈ s.log.all, e.Attributed := by
      refine hr.invariant (I := fun s => s.Bounded → ∀ e ∈ s.log.all, e.Attributed) ?_ ?_
      · intro s hs _ e he
        rw [hs.log] at he
        cases he
      · intro s a s' hr ih hok hstep hb'
        have hm := step_moves hstep
        have hb := Engine.Bounded.of_moves hm hb'
        exact (sound_of_reachable hr.reachable hb).attributed_moves hb (log_moves hm) hok (ih hb)
    refine ⟨hall hb, fun es hes => replaysCommitted_of_attributed fun e he => ?_⟩
    exact hall hb e (mem_append_left _ (hes.subset he))

/-! ## A page with two writers -/

/-- Transaction 1 writes a page and commits, and then transaction 2 writes it and commits. -/
def loggedInTurn : List EngineAction :=
  .addNewPage 0 :: beginAt 1 false ++ writePage 1 (0, 0) (Page.fill 7) 1 ++ commitSteps 1 [] 31 ++
    beginAt 2 false ++ writePage 2 (0, 0) (Page.fill 8) 2 ++ commitSteps 2 [] 31

/-- There each image is logged under its writer's id. -/
theorem wal_attribution_in_turn :
    ∃ s, engineSystem.ReachableBy Engine.NoneAbove s ∧ s.Bounded ∧ s.log.file.length = 4 ∧
      (∀ e ∈ s.log.all, e.Attributed) ∧ ReplaysCommitted s.log.file := by
  have hrun : ((engineSystem.execIf (fun s a => decide (s.NoneAbove a)) (.fresh 32 {0})
      loggedInTurn).map fun s =>
      (decide (s.tm.nextTxId ≤ uncommittedBit ∧ s.tm.currentTs < uncommittedBit),
        s.log.file.length)) = some (true, 4) := by
    decide +kernel
  obtain ⟨s, hs, hobs⟩ := map_eq_some_iff.1 hrun
  simp only [Prod.mk.injEq, decide_eq_true_eq] at hobs
  have hr : engineSystem.ReachableBy Engine.NoneAbove s :=
    System.ReachableBy.execIf (fun s a _ h => of_decide_eq_true h)
      (.init (opened_fresh 32 {0})) hs
  obtain ⟨hall, hreplay⟩ := (wal_attribution s).2 hr hobs.1
  exact ⟨s, hr, hobs.1, hobs.2, hall, hreplay _ (prefix_refl _)⟩

/-- Transactions 1 and 2 both make a version of a page; 1 writes and logs its own, and 2 commits. -/
def loggedForAnother : List EngineAction :=
  .addNewPage 0 :: beginAt 1 false ++ beginAt 2 false ++
    [.createVersion 1 (0, 0), .createVersion 2 (0, 0), .write 1 (0, 0) (Page.fill 7),
      .logUpdate 1 (0, 0)] ++ commitSteps 2 [] 30

/-- The first record is of a transaction that has no commit record, under the id of one that has. -/
def StrayImage (es : List LogEntry) : Prop :=
  match es with
  | .update t producer _ _ :: rest =>
    0 < t ∧ t ≠ producer ∧ .commit t ∈ rest ∧ .commit producer ∉ rest
  | _ => False

instance (es : List LogEntry) : Decidable (StrayImage es) := by
  unfold StrayImage
  split <;> infer_instance

lemma StrayImage.not_replaysCommitted (h : StrayImage es) :
    (∃ e ∈ es, ¬ e.Attributed) ∧ ¬ ReplaysCommitted es := by
  unfold StrayImage at h
  split at h
  next t producer k page rest =>
    obtain ⟨hpos, hne, hcommit, hno⟩ := h
    refine ⟨⟨_, mem_cons_self, hne⟩, fun hrep => ?_⟩
    have hmem : (t, (⟨k.1, k.2, page.bytes⟩ : PageWrite)) ∈
        replayed 0 ((LogEntry.update t producer k page :: rest).map LogEntry.record) := by
      rw [mem_replayed_iff]
      exact ⟨⟨mem_map.2 ⟨_, mem_cons_of_mem _ hcommit, rfl⟩, hpos⟩,
        mem_map.2 ⟨_, mem_cons_self, rfl⟩⟩
    have := hrep 0 _ hmem t producer k page mem_cons_self rfl
    rw [mem_cons] at this
    rcases this with heq | hin
    · cases heq
    · exact hno hin
  · exact h.elim

/-- The page is logged under the id of the other writer, and replayed once that one has
committed. -/
theorem replay_of_uncommitted_image :
    ∃ s, engineSystem.Reachable s ∧ s.Bounded ∧ (∃ e ∈ s.log.file, ¬ e.Attributed) ∧
      ¬ ReplaysCommitted s.log.file := by
  have hrun : ((engineSystem.exec (.fresh 32 {0}) loggedForAnother).map fun s =>
      (decide (s.tm.nextTxId ≤ uncommittedBit ∧ s.tm.currentTs < uncommittedBit),
        decide (StrayImage s.log.file))) = some (true, true) := by
    decide +kernel
  obtain ⟨s, hs, hobs⟩ := map_eq_some_iff.1 hrun
  simp only [Prod.mk.injEq, decide_eq_true_eq] at hobs
  obtain ⟨hb, hstray⟩ := hobs
  exact ⟨s, reachable_of_exec hs, hb, hstray.not_replaysCommitted⟩

end LightningDB
