import LightningDB.Wal.Log
import Mathlib.Data.Finset.Lattice.Basic
import Mathlib.Data.Finset.Filter

/-!
# Replaying a log

`WAL::replay` walks over the bytes behind the header, keeps the set of committed transactions and
a map of page updates that wait for their commit record, and hands page images to a closure.  The
closure is an arbitrary state transformer `ApplyPage`; the state it leaves behind is part of the
result.

Replay is split along its two concerns.  The loop over the bytes (`replayLoop`) recognises records;
the effect of one recognised record is `ReplayState.handleRecord`, so that on a well-formed log
replay is a fold over records.  What that fold hands to the closure is described without any map or
set by `replayed`: an update is emitted at the first commit record of its transaction, or at its
own place when that record came before it.  `foldl_handleRecord_target` connects the two and
`drain_eq` shows that nothing is left for the final pass over the waiting updates.
-/

namespace LightningDB

open Framework List WALRecord

universe u v

variable {σ : Type u} {ε : Type v}

/-- The closure `apply_page`: it may fail, and its state persists either way. -/
abbrev ApplyPage (σ : Type u) (ε : Type v) := σ → PageWrite → σ × Except ε Unit

/-- `WALReplayReport`. -/
structure WALReplayReport where
  recordsRead : ℕ
  corruptRecordsSkipped : ℕ
  partialRecordAtEof : Bool
  maxTxId : ℕ
  framingLost : Bool
deriving DecidableEq

/-- The local variables of `replay`, and the state of the closure. -/
structure ReplayState (σ : Type u) where
  commits : Finset ℕ
  pending : FinMap ℕ (List PageWrite)
  target : σ
  report : WALReplayReport

namespace ReplayState

/-- The state before the first record. -/
def start (s : σ) : ReplayState σ where
  commits := ∅
  pending := ∅
  target := s
  report := ⟨0, 0, false, 0, false⟩

variable (apply : ApplyPage σ ε) (lastCheckpointTx : ℕ)

/-- Hand page images to the closure, ignoring its errors. -/
def applyAll (s : σ) (ws : List PageWrite) : σ := ws.foldl (fun s w => (apply s w).1) s

variable (st : ReplayState σ)

/-- `handle_page_update`. -/
def handlePageUpdate (t : ℕ) (w : PageWrite) : ReplayState σ :=
  if t ∈ st.commits ∧ lastCheckpointTx < t then { st with target := (apply st.target w).1 }
  else { st with pending := st.pending.insert t ((st.pending.lookup t).getD [] ++ [w]) }

/-- The commit half of `read_and_apply_commit`. -/
def handleCommit (t : ℕ) : ReplayState σ :=
  let st := { st with commits := insert t st.commits }
  if lastCheckpointTx < t then
    match st.pending.lookup t with
    | some ws =>
      { st with pending := st.pending.erase t, target := applyAll apply st.target ws }
    | none => st
  else st

/-- The effect of a whole record with the right checksum. -/
def handleRecord (r : WALRecord) : ReplayState σ :=
  let report := { st.report with
    maxTxId := max st.report.maxTxId r.txId
    recordsRead := st.report.recordsRead + 1 }
  match r with
  | .pageUpdate t w => { handlePageUpdate apply lastCheckpointTx st t w with report := report }
  | .commit t => { handleCommit apply lastCheckpointTx st t with report := report }

/-- What is recorded of a record that is not handled. -/
def skip : FrameRead → ReplayState σ
  | .record _ => st
  | .corrupt => { st with report := { st.report with
      corruptRecordsSkipped := st.report.corruptRecordsSkipped + 1 } }
  | .framingLost => { st with report := { st.report with
      corruptRecordsSkipped := st.report.corruptRecordsSkipped + 1
      framingLost := true } }
  | .partialAtEof => { st with report := { st.report with partialRecordAtEof := true } }

end ReplayState

section Loop

variable (crc : Checksum) (version : UInt8) (apply : ApplyPage σ ε)
  (lastCheckpointTx : ℕ)

/-- The loop of `replay` over the bytes behind the header.  A zero byte is alignment padding.  The
second component is what is left unread. -/
def replayLoop (st : ReplayState σ) : List UInt8 → ReplayState σ × List UInt8
  | [] => (st, [])
  | recordType :: rest =>
    if recordType = 0 then replayLoop st rest
    else
      let rest' := (readFrame crc version recordType rest).2
      match (readFrame crc version recordType rest).1 with
      | .record r => replayLoop (st.handleRecord apply lastCheckpointTx r) rest'
      | frame =>
        let st := st.skip frame
        if st.report.partialRecordAtEof || st.report.framingLost then (st, rest')
        else replayLoop st rest'
termination_by bytes => bytes.length
decreasing_by
  · exact Nat.lt_succ_self _
  · exact Nat.lt_succ_of_le (readFrame_rest_length_le crc version recordType rest)
  · exact Nat.lt_succ_of_le (readFrame_rest_length_le crc version recordType rest)

end Loop

section Drain

variable (apply : ApplyPage σ ε)

/-- Hand page images to the closure and stop at its first error. -/
def tryApplyAll : σ → List PageWrite → σ × Except ε Unit
  | s, [] => (s, .ok ())
  | s, w :: ws =>
    match apply s w with
    | (s, .error e) => (s, .error e)
    | (s, .ok _) => tryApplyAll s ws

/-- The pass over the updates still waiting after the loop. -/
def drain (lastCheckpointTx : ℕ) (commits : Finset ℕ) :
    σ → List (Sigma fun _ : ℕ => List PageWrite) → σ × Except ε Unit
  | s, [] => (s, .ok ())
  | s, ⟨t, ws⟩ :: entries =>
    if lastCheckpointTx < t ∧ t ∈ commits then
      match tryApplyAll apply s ws with
      | (s, .error e) => (s, .error e)
      | (s, .ok _) => drain lastCheckpointTx commits s entries
    else drain lastCheckpointTx commits s entries

/-- `WAL::replay`: the log with its cursor where reading stopped, the closure's final state, and
the report or the closure's error. -/
def WAL.replay (crc : Checksum) (wal : WAL) (s : σ) (lastCheckpointTx : ℕ) :
    WAL × σ × Except ε WALReplayReport :=
  let file := wal.file.seek walHeaderSize
  let (st, rest) := replayLoop crc wal.walVersion apply lastCheckpointTx (.start s)
    (file.bytes.drop file.pos)
  let wal := { wal with file := file.seek (file.bytes.length - rest.length) }
  match drain apply lastCheckpointTx st.commits st.target st.pending.entries with
  | (s, .error e) => (wal, s, .error e)
  | (s, .ok _) =>
    ({ wal with committedTxs := wal.committedTxs ∪ st.commits.filter (lastCheckpointTx < ·) },
      s, .ok st.report)

end Drain

/-! ## The records of a log, handled one after another -/

/-- The page images a transaction logs. -/
def updatesOf (t : ℕ) (rs : List WALRecord) : List PageWrite :=
  rs.filterMap fun r => match r with
    | .pageUpdate t' w => if t' = t then some w else none
    | .commit _ => none

/-- What a record makes replay hand to the closure, given the records before it: an update whose
transaction has committed before, or at a first commit record all updates that waited for it. -/
def emit (c : ℕ) (seen : List WALRecord) : WALRecord → List (ℕ × PageWrite)
  | .pageUpdate t w => if .commit t ∈ seen ∧ c < t then [(t, w)] else []
  | .commit t => if c < t ∧ .commit t ∉ seen then (updatesOf t seen).map (t, ·) else []

/-- What the records `rs` make replay hand to the closure, after the records `seen`. -/
def replayedFrom (c : ℕ) (seen : List WALRecord) : List WALRecord → List (ℕ × PageWrite)
  | [] => []
  | r :: rs => emit c seen r ++ replayedFrom c (seen ++ [r]) rs

/-- The page images replay hands to the closure, in order, each with the transaction it was logged
for. -/
def replayed (c : ℕ) (rs : List WALRecord) : List (ℕ × PageWrite) := replayedFrom c [] rs

lemma replayedFrom_append (c : ℕ) (seen rs rs' : List WALRecord) : replayedFrom c seen (rs ++ rs') =
      replayedFrom c seen rs ++ replayedFrom c (seen ++ rs) rs' := by
  induction rs generalizing seen with
  | nil => rw [append_nil]; rfl
  | cons r rs ih =>
    rw [cons_append, replayedFrom, replayedFrom, ih, append_assoc, append_assoc]
    rfl

lemma replayed_append (c : ℕ) (rs rs' : List WALRecord) :
    replayed c (rs ++ rs') = replayed c rs ++ replayedFrom c rs rs' :=
  replayedFrom_append c [] rs rs'

lemma replayed_concat (c : ℕ) (rs : List WALRecord) (r : WALRecord) :
    replayed c (rs ++ [r]) = replayed c rs ++ emit c rs r := by
  rw [replayed_append, replayedFrom, replayedFrom, append_nil]

lemma updatesOf_append (t : ℕ) (rs rs' : List WALRecord) :
    updatesOf t (rs ++ rs') = updatesOf t rs ++ updatesOf t rs' :=
  filterMap_append

@[simp] lemma updatesOf_singleton_commit (t t' : ℕ) : updatesOf t [.commit t'] = [] := rfl

lemma updatesOf_singleton_pageUpdate (t t' : ℕ) (w : PageWrite) :
    updatesOf t [.pageUpdate t' w] = if t' = t then [w] else [] := by
  by_cases h : t' = t
  · simp [updatesOf, h]
  · simp [updatesOf, h]

/-! ## What replay hands to the closure -/

/-- The images of one transaction in a replayed sequence. -/
def imagesOf (t : ℕ) (l : List (ℕ × PageWrite)) : List PageWrite :=
  (l.filter fun x => x.1 = t).map Prod.snd

lemma imagesOf_append (t : ℕ) (l l' : List (ℕ × PageWrite)) :
    imagesOf t (l ++ l') = imagesOf t l ++ imagesOf t l' := by
  rw [imagesOf, filter_append, map_append]
  rfl

lemma imagesOf_map (t t' : ℕ) (ws : List PageWrite) :
    imagesOf t (ws.map (t', ·)) = if t' = t then ws else [] := by
  rw [imagesOf, filter_map]
  by_cases h : t' = t
  · simp [Function.comp_def, h]
  · simp [Function.comp_def, h]

/-- **What is replayed.**  Of each transaction above the watermark with a commit record, all logged
images in their log order; of any other transaction, nothing. -/
theorem imagesOf_replayed (c t : ℕ) (rs : List WALRecord) :
    imagesOf t (replayed c rs) = if .commit t ∈ rs ∧ c < t then updatesOf t rs else [] := by
  induction rs using reverseRecOn with
  | nil => simp [replayed, replayedFrom, imagesOf]
  | append_singleton rs r ih =>
    rw [replayed_concat, imagesOf_append, ih, updatesOf_append]
    cases r with
    | pageUpdate t' w =>
      rw [emit, updatesOf_singleton_pageUpdate]
      by_cases htt : t' = t
      · subst htt
        by_cases hcom : commit t' ∈ rs ∧ c < t'
        · simp [hcom, imagesOf]
        · simp [hcom, imagesOf]
      · have hother : imagesOf t (if .commit t' ∈ rs ∧ c < t' then [(t', w)] else []) = [] := by
          split <;> simp [imagesOf, htt]
        rw [hother]
        simp [htt]
    | commit t' =>
      rw [emit]
      by_cases htt : t' = t
      · subst htt
        by_cases hc : c < t'
        · by_cases hcom : commit t' ∈ rs
          · simp [hcom, imagesOf]
          · simp [hcom, hc, imagesOf_map]
        · simp [hc, imagesOf]
      · have hother : imagesOf t (if c < t' ∧ .commit t' ∉ rs then
            (updatesOf t' rs).map (t', ·) else []) = [] := by
          split
          · rw [imagesOf_map, if_neg htt]
          · rfl
        rw [hother]
        have hne : commit t ≠ .commit t' := by
          intro h
          exact htt (commit.inj h).symm
        simp [hne]

lemma mem_replayed_iff {c : ℕ} {rs : List WALRecord} {t : ℕ} {w : PageWrite} :
    (t, w) ∈ replayed c rs ↔ (.commit t ∈ rs ∧ c < t) ∧ .pageUpdate t w ∈ rs := by
  have himages : (t, w) ∈ replayed c rs ↔ w ∈ imagesOf t (replayed c rs) := by
    simp [imagesOf]
  have hupdates : w ∈ updatesOf t rs ↔ .pageUpdate t w ∈ rs := by
    rw [updatesOf, mem_filterMap]
    constructor
    · rintro ⟨r, hr, hw⟩
      cases r with
      | pageUpdate t' w' =>
        by_cases h : t' = t
        · simp only [h, if_true, Option.some.injEq] at hw
          rw [← hw]
          exact h ▸ hr
        · simp [h] at hw
      | commit t' => cases hw
    · intro hr
      exact ⟨_, hr, by simp⟩
  rw [himages, imagesOf_replayed]
  split
  next h =>
    rw [hupdates]
    exact ⟨fun hw => ⟨h, hw⟩, fun hw => hw.2⟩
  next h =>
    constructor
    · intro hw
      cases hw
    · exact fun hw => (h hw.1).elim

/-- **Commit order.**  Where `t₁` has committed before the first commit record of `t₂` and logs
nothing after it, all images of `t₁` are handed over before any image of `t₂`. -/
theorem replayed_commit_order (c t₁ t₂ : ℕ) (before after : List WALRecord)
    (hfirst : commit t₂ ∉ before) (hcom : commit t₁ ∈ before) (hafter : updatesOf t₁ after = []) :
    ∃ a b, replayed c (before ++ .commit t₂ :: after) = a ++ b ∧
      (∀ x ∈ a, x.1 ≠ t₂) ∧ ∀ x ∈ b, x.1 ≠ t₁ := by
  refine ⟨replayed c before, replayedFrom c before (.commit t₂ :: after),
    replayed_append c before _, ?_, ?_⟩
  · rintro ⟨t, w⟩ hx rfl
    exact hfirst (mem_replayed_iff.1 hx).1.1
  · -- all updates of `t₁` stand before the record, where `t₁` has committed
    have himages := imagesOf_replayed c t₁ (before ++ .commit t₂ :: after)
    have hupdates : updatesOf t₁ (before ++ .commit t₂ :: after) = updatesOf t₁ before := by
      rw [← singleton_append, updatesOf_append, updatesOf_append, hafter,
        updatesOf_singleton_commit, append_nil, append_nil]
    rw [replayed_append, imagesOf_append, imagesOf_replayed, hupdates] at himages
    have hnone : imagesOf t₁ (replayedFrom c before (.commit t₂ :: after)) = [] := by
      simpa [hcom] using himages
    rintro ⟨t, w⟩ hx rfl
    have hw : w ∈ imagesOf t (replayedFrom c before (.commit t₂ :: after)) := by
      simpa [imagesOf] using hx
    rw [hnone] at hw
    cases hw

/-! ## The fold over the records hands over what is replayed -/

section Agrees

variable (apply : ApplyPage σ ε) (c : ℕ) (s : σ)

/-- The report after well-formed records only. -/
def cleanReport (rs : List WALRecord) : WALReplayReport where
  recordsRead := rs.length
  corruptRecordsSkipped := 0
  partialRecordAtEof := false
  maxTxId := rs.foldl (fun m r => max m r.txId) 0
  framingLost := false

/-- The local variables of `replay` after the records `rs`.  Below the watermark the map may hold
anything; it is never looked at there. -/
structure ReplayState.Agrees (rs : List WALRecord) (st : ReplayState σ) : Prop where
  commits : ∀ t, t ∈ st.commits ↔ .commit t ∈ rs
  pending : ∀ t, c < t → (st.pending.lookup t).getD [] =
    if .commit t ∈ rs then [] else updatesOf t rs
  target : st.target = ReplayState.applyAll apply s ((replayed c rs).map Prod.snd)
  report : st.report = cleanReport rs

variable {apply c s} {rs : List WALRecord} {st : ReplayState σ}

lemma agrees_start : ReplayState.Agrees apply c s [] (.start s) where
  commits := by simp [ReplayState.start]
  pending := by simp [ReplayState.start, updatesOf]
  target := rfl
  report := rfl

lemma applyAll_append (s : σ) (ws ws' : List PageWrite) : ReplayState.applyAll apply s (ws ++ ws') =
      ReplayState.applyAll apply (ReplayState.applyAll apply s ws) ws' :=
  foldl_append

lemma cleanReport_concat (rs : List WALRecord) (r : WALRecord) :
    cleanReport (rs ++ [r]) = { cleanReport rs with
      maxTxId := max (cleanReport rs).maxTxId r.txId
      recordsRead := (cleanReport rs).recordsRead + 1 } := by
  simp [cleanReport]

lemma ReplayState.Agrees.handlePageUpdate (h : st.Agrees apply c s rs) (t : ℕ) (w : PageWrite) :
    (st.handleRecord apply c (.pageUpdate t w)).Agrees apply c s (rs ++ [.pageUpdate t w]) := by
  have hcommit : ∀ t', commit t' ∈ rs ++ [.pageUpdate t w] ↔ .commit t' ∈ rs := by
    simp
  have hguard : (t ∈ st.commits ∧ c < t) ↔ (.commit t ∈ rs ∧ c < t) := by
    rw [h.commits]
  rw [ReplayState.handleRecord, ReplayState.handlePageUpdate]
  by_cases hg : commit t ∈ rs ∧ c < t
  · -- the transaction has committed: the image is handed over at once
    rw [if_pos (hguard.2 hg)]
    constructor
    · simpa only [hcommit] using h.commits
    · intro t' ht'
      rw [h.pending t' ht', updatesOf_append, updatesOf_singleton_pageUpdate]
      simp only [hcommit]
      by_cases htt : t = t'
      · rw [if_pos (htt ▸ hg.1), if_pos (htt ▸ hg.1)]
      · rw [if_neg htt, append_nil]
    · dsimp only
      rw [replayed_concat, emit, if_pos hg, map_append, applyAll_append, ← h.target]
      rfl
    · dsimp only
      rw [cleanReport_concat, ← h.report]
  · -- the image waits
    rw [if_neg (mt hguard.1 hg)]
    constructor
    · simpa only [hcommit] using h.commits
    · intro t' ht'
      rw [FinMap.lookup_insert_eq_ite, updatesOf_append, updatesOf_singleton_pageUpdate]
      simp only [hcommit]
      by_cases htt : t' = t
      · subst htt
        have hnot : commit t' ∉ rs := fun hin => hg ⟨hin, ht'⟩
        rw [if_pos rfl, Option.getD_some, h.pending t' ht', if_neg hnot, if_pos rfl, if_neg hnot]
      · rw [if_neg htt, h.pending t' ht', if_neg (Ne.symm htt), append_nil]
    · dsimp only
      rw [replayed_concat, emit, if_neg hg, append_nil]
      exact h.target
    · dsimp only
      rw [cleanReport_concat, ← h.report]

lemma handleCommit_eq (apply : ApplyPage σ ε) (c : ℕ) (st : ReplayState σ) (t : ℕ) :
    (st.handleCommit apply c t).commits = insert t st.commits ∧
    (st.handleCommit apply c t).target = (if c < t then
      ReplayState.applyAll apply st.target ((st.pending.lookup t).getD []) else st.target) ∧
    ∀ t', ((st.handleCommit apply c t).pending.lookup t').getD [] =
      if c < t ∧ t' = t then [] else (st.pending.lookup t').getD [] := by
  rw [ReplayState.handleCommit]
  by_cases hc : c < t
  · cases hl : st.pending.lookup t with
    | none =>
      refine ⟨by simp [hc], by simp [ReplayState.applyAll], ?_⟩
      intro t'
      by_cases htt : t' = t
      · subst htt
        simp [hl]
      · simp [htt]
    | some ws =>
      refine ⟨by simp [hc], by simp [hc], ?_⟩
      intro t'
      by_cases htt : t' = t
      · subst htt
        simp [hc]
      · simp [hc, htt]
  · exact ⟨by simp [hc], by simp [hc], by simp [hc]⟩

lemma ReplayState.Agrees.handleCommit (h : st.Agrees apply c s rs) (t : ℕ) :
    (st.handleRecord apply c (.commit t)).Agrees apply c s (rs ++ [.commit t]) := by
  obtain ⟨hcommits, htarget, hpending⟩ := handleCommit_eq apply c st t
  have hcommit : ∀ t', commit t' ∈ rs ++ [.commit t] ↔ t' = t ∨ .commit t' ∈ rs := by
    simp [or_comm]
  rw [ReplayState.handleRecord]
  constructor
  · intro t'
    rw [hcommits, Finset.mem_insert, h.commits, hcommit]
  · intro t' ht'
    rw [hpending, h.pending t' ht', updatesOf_append, updatesOf_singleton_commit, append_nil]
    by_cases htt : t' = t
    · simp [htt, htt ▸ ht']
    · simp [htt]
  · dsimp only
    rw [htarget, replayed_concat, emit]
    by_cases hc : c < t
    · rw [if_pos hc, h.pending t hc, h.target]
      by_cases hin : commit t ∈ rs
      · simp [hin, ReplayState.applyAll]
      · rw [if_neg hin, if_pos ⟨hc, hin⟩, map_append, applyAll_append, map_map]
        congr 1
        exact (map_id _).symm
    · rw [if_neg hc, if_neg (fun hh => hc hh.1), append_nil]
      exact h.target
  · dsimp only
    rw [cleanReport_concat, ← h.report]

/-- **Replay of records is what is replayed.**  The fold over well-formed records leaves the
closure in the state it has after exactly the replayed images, in their order. -/
theorem foldl_handleRecord_agrees (apply : ApplyPage σ ε) (c : ℕ) (s : σ) (rs : List WALRecord) :
    (rs.foldl (ReplayState.handleRecord apply c) (.start s)).Agrees apply c s rs := by
  induction rs using reverseRecOn with
  | nil => exact agrees_start
  | append_singleton rs r ih =>
    rw [foldl_append]
    cases r with
    | pageUpdate t w => exact ih.handlePageUpdate t w
    | commit t => exact ih.handleCommit t

lemma drain_of_nil {commits : Finset ℕ} {entries : List (Sigma fun _ : ℕ => List PageWrite)}
    (h : ∀ e ∈ entries, c < e.1 ∧ e.1 ∈ commits → e.2 = []) :
    drain apply c commits s entries = (s, .ok ()) := by
  induction entries with
  | nil => rfl
  | cons e entries ih =>
    obtain ⟨t, ws⟩ := e
    rw [forall_mem_cons] at h
    rw [drain]
    split
    next hg =>
      have hws : ws = [] := h.1 hg
      subst hws
      exact ih h.2
    · exact ih h.2

/-- Nothing is left for the final pass: every waiting update of a committed transaction above the
watermark was handed over at a commit record. -/
lemma ReplayState.Agrees.drain_eq (h : st.Agrees apply c s rs) :
    drain apply c st.commits st.target st.pending.entries = (st.target, .ok ()) := by
  apply drain_of_nil
  rintro ⟨t, ws⟩ he ⟨hct, hcom⟩
  have hlookup : st.pending.lookup t = some ws := AList.mem_lookup_iff.2 he
  have hnil := h.pending t hct
  rwa [if_pos ((h.commits t).1 hcom), hlookup] at hnil

end Agrees

/-! ## The last image of a page -/

def lastImage (k : ℕ × ℕ) (ws : List PageWrite) : Option (List UInt8) :=
  (ws.reverse.find? fun w => (w.fileId, w.pageIdx) = k).map PageWrite.data

@[simp] lemma lastImage_nil (k : ℕ × ℕ) : lastImage k [] = none := rfl

lemma lastImage_concat (k : ℕ × ℕ) (ws : List PageWrite) (w : PageWrite) :
    lastImage k (ws ++ [w]) = if (w.fileId, w.pageIdx) = k then some w.data else lastImage k ws := by
  rw [lastImage]
  by_cases h : (w.fileId, w.pageIdx) = k
  · simp [h]
  · simp [h, lastImage]

end LightningDB
