import LightningDB.Wal.Replay

/-!
# Reading a log back

What replay makes of the bytes a log writes, whole or cut off.

The loop over the bytes of a layout is a fold over its records: `replayLoop_take` says so for every
byte prefix of the encoded items, the whole encoding included.  The records that count are those
that lie entirely inside the prefix (`recordsWithin`), and the only other trace a cut leaves is the
flag for a partial record.

The two results are `replay_round_trip`, for the log as it stands after any sequence of calls, and
`replay_torn_tail`, for a log reopened after a crash left any prefix of its file.
-/

namespace LightningDB

open Framework List ReplayState WAL

universe u v

variable {σ : Type u} {ε : Type v} (crc : Checksum) (apply : ApplyPage σ ε) (c : ℕ)

/-! ## The loop on encoded records -/

lemma recordType_ne_zero (r : WALRecord) : r.recordType ≠ 0 := by
  cases r with
  | pageUpdate t w => exact (by decide : recordTypePageUpdate ≠ 0)
  | commit t => exact (by decide : recordTypeCommit ≠ 0)

variable {r : WALRecord} {items : List LogItem} {k : ℕ}

lemma replayLoop_encode (h : r.Valid) (st : ReplayState σ) (rest : List UInt8) :
    replayLoop crc walVersion2 apply c st (r.encode crc ++ rest) =
      replayLoop crc walVersion2 apply c (st.handleRecord apply c r) rest := by
  rw [WALRecord.encode, cons_append, replayLoop, if_neg (recordType_ne_zero r),
    readFrame_encode crc h]

lemma replayLoop_take_encode (h : r.Valid) (st : ReplayState σ) {j : ℕ}
    (hpos : 0 < j) (hj : j < r.encodedSize) :
    replayLoop crc walVersion2 apply c st ((r.encode crc).take j) = (st.skip .partialAtEof, []) := by
  obtain ⟨i, rfl⟩ : ∃ i, j = i + 1 := ⟨j - 1, by omega⟩
  rw [WALRecord.encode, take_succ_cons, replayLoop, if_neg (recordType_ne_zero r),
    readFrame_take_encode crc h hj]
  rfl

lemma replayLoop_zeros (st : ReplayState σ) (n : ℕ) (rest : List UInt8) :
    replayLoop crc walVersion2 apply c st (replicate n 0 ++ rest) =
      replayLoop crc walVersion2 apply c st rest := by
  induction n with
  | zero => rfl
  | succ n ih => rw [replicate_succ, cons_append, replayLoop, if_pos rfl, ih]

/-! ## The loop on a prefix of a layout -/

/-- The records that lie entirely within the first `k` bytes of the items. -/
def recordsWithin : ℕ → List LogItem → List WALRecord
  | _, [] => []
  | k, i :: is => if i.size ≤ k then i.record?.toList ++ recordsWithin (k - i.size) is else []

/-- The `k`-th byte boundary falls strictly inside a record. -/
def cutsRecord : ℕ → List LogItem → Bool
  | _, [] => false
  | k, i :: is =>
    if i.size ≤ k then cutsRecord (k - i.size) is else i.record?.isSome && decide (0 < k)

/-- The local variables of `replay` when the file ends, inside a record or not. -/
def atEof (cut : Bool) (st : ReplayState σ) : ReplayState σ :=
  if cut then st.skip .partialAtEof else st

/-- The flag is all that distinguishes the state at the end of a cut file. -/
lemma atEof_eq (cut : Bool) (st : ReplayState σ) :
    (atEof cut st).commits = st.commits ∧ (atEof cut st).pending = st.pending ∧
      (atEof cut st).target = st.target ∧
      (atEof cut st).report = { st.report with
        partialRecordAtEof := cut || st.report.partialRecordAtEof } := by
  cases cut <;> exact ⟨rfl, rfl, rfl, rfl⟩

/-- **The loop on a cut log.**  On any prefix of encoded items the loop handles the records that
lie inside it, one after another, and reads to the end. -/
theorem replayLoop_take (h : ∀ i ∈ items, i.Valid) (st : ReplayState σ) (k : ℕ) :
    replayLoop crc walVersion2 apply c st ((encodeItems crc items).take k) =
      (atEof (cutsRecord k items) ((recordsWithin k items).foldl (handleRecord apply c)
        st), []) := by
  induction items generalizing st k with
  | nil => rw [encodeItems, flatMap_nil, take_nil, replayLoop]; rfl
  | cons i items ih =>
    rw [forall_mem_cons] at h
    have hlen := LogItem.length_encode crc h.1
    have hsplit : encodeItems crc (i :: items) = i.encode crc ++ encodeItems crc items :=
      flatMap_cons
    rw [hsplit, recordsWithin, cutsRecord, take_append, hlen]
    by_cases hk : i.size ≤ k
    · -- the item lies inside the prefix
      rw [if_pos hk, if_pos hk, take_of_length_le (by omega)]
      cases i with
      | record r =>
        rw [LogItem.encode, replayLoop_encode crc apply c h.1, ih h.2]
        rfl
      | padding n =>
        rw [LogItem.encode, replayLoop_zeros, ih h.2]
        rfl
    · -- the prefix ends in the item, and nothing of the items behind it is left
      rw [if_neg hk, if_neg hk, Nat.sub_eq_zero_of_le (by omega), take_zero, append_nil]
      cases i with
      | record r =>
        rcases Nat.eq_zero_or_pos k with rfl | hpos
        · rw [take_zero, replayLoop]
          rfl
        · rw [LogItem.encode, replayLoop_take_encode crc apply c h.1 st hpos (not_le.1 hk)]
          simp [LogItem.record?, hpos, atEof]
      | padding n =>
        have hzeros := replayLoop_zeros crc apply c st (min k n) []
        rw [append_nil, replayLoop] at hzeros
        rw [LogItem.encode, take_replicate, hzeros]
        rfl

lemma filterMap_record_cons (i : LogItem) (items : List LogItem) :
    (i :: items).filterMap LogItem.record? = i.record?.toList ++ items.filterMap LogItem.record? := by
  cases i <;> rfl

lemma recordsWithin_all (items : List LogItem) (hk : (items.map LogItem.size).sum ≤ k) :
    recordsWithin k items = items.filterMap LogItem.record? ∧ cutsRecord k items = false := by
  induction items generalizing k with
  | nil => exact ⟨rfl, rfl⟩
  | cons i items ih =>
    rw [map_cons, sum_cons] at hk
    obtain ⟨hrec, hcut⟩ := ih (k := k - i.size) (by omega)
    rw [recordsWithin, cutsRecord, if_pos (by omega), if_pos (by omega), hrec, hcut,
      filterMap_record_cons]
    exact ⟨rfl, rfl⟩

/-! ## Replay of a whole or a cut log -/

/-- Replay of a version-2 file that is the header and a prefix of encoded items. -/
lemma replay_of_bytes {wal : WAL} (hv : wal.walVersion = walVersion2)
    (hitems : ∀ i ∈ items, i.Valid)
    (hbytes : wal.file.bytes = walHeader ++ (encodeItems crc items).take k) (s : σ) :
    (wal.replay apply crc s c).2 =
      (applyAll apply s ((replayed c (recordsWithin k items)).map Prod.snd),
        .ok { cleanReport (recordsWithin k items) with
          partialRecordAtEof := cutsRecord k items }) := by
  have hagree := foldl_handleRecord_agrees apply c s (recordsWithin k items)
  have hdrop : (wal.file.seek walHeaderSize).bytes.drop (wal.file.seek walHeaderSize).pos =
      (encodeItems crc items).take k := by
    change wal.file.bytes.drop walHeaderSize = _
    rw [hbytes]
    exact drop_left' rfl
  rw [replay]
  rw [hdrop, hv, replayLoop_take crc apply c hitems]
  dsimp only
  obtain ⟨hcommits, hpending, htarget, hreport⟩ := atEof_eq (cutsRecord k items)
    ((recordsWithin k items).foldl (handleRecord apply c) (.start s))
  rw [hcommits, hpending, htarget, hagree.drain_eq]
  rw [hagree.target, hreport, hagree.report]
  simp only [cleanReport, Bool.or_false]

lemma new_of_header (rest : List UInt8) :
    (new (walHeader ++ rest)).file.bytes = walHeader ++ rest ∧
      (new (walHeader ++ rest)).walVersion = walVersion2 := by
  exact ⟨rfl, rfl⟩

section Results

variable (s : σ) (calls : List WalCall)

lemma replay_run : ((logged crc calls).replay apply crc s c).2 =
      (applyAll apply s ((replayed c (layout calls).written).map Prod.snd),
        .ok (cleanReport (layout calls).written)) := by
  have href := run_refines crc calls
  have hsize := length_encodeItems crc href.itemsValid
  obtain ⟨hrec, hcut⟩ := recordsWithin_all (layout calls).items
    (k := (encodeItems crc (layout calls).items).length) hsize.ge
  rw [replay_of_bytes crc apply c href.version href.itemsValid
    (by rw [take_length]; exact href.bytes), hrec, hcut]
  rfl

/-- **Round trip.**  Replay of a fresh log after any calls handles, in order, the records of the
calls except the page updates that are still in the group-commit buffer: less than the flush
threshold, and none after a flush or a commit.  It reports nothing but them, and hands over exactly
the images of the committed transactions above the watermark, each transaction's in log order.  The
images of a transaction come before those of every transaction that commits later, unless it logs
something after the later one's first commit record. -/
theorem replay_round_trip : ((layout calls).written ++ (layout calls).buffered = records calls ∧
      (∀ r ∈ (layout calls).buffered, ∃ t w, r = .pageUpdate t w) ∧
      ((layout calls).buffered.map WALRecord.encodedSize).sum < walPendingFlushBytes ∧
      ∀ before call, calls = before ++ [call] → (call = .flushPending ∨ ∃ t, call = .logCommit t) →
        (layout calls).written = records calls) ∧
    replayLoop crc (logged crc calls).walVersion apply c (.start s)
        ((logged crc calls).file.bytes.drop walHeaderSize) =
      ((layout calls).written.foldl (handleRecord apply c) (.start s), []) ∧
    ((logged crc calls).replay apply crc s c).2 =
      (applyAll apply s ((replayed c (layout calls).written).map Prod.snd),
        .ok (cleanReport (layout calls).written)) ∧
    (∀ t, imagesOf t (replayed c (layout calls).written) =
      if .commit t ∈ (layout calls).written ∧ c < t then updatesOf t (layout calls).written
      else []) ∧
    ∀ t₁ t₂ before after, (layout calls).written = before ++ .commit t₂ :: after →
      .commit t₂ ∉ before → .commit t₁ ∈ before → updatesOf t₁ after = [] →
      ∃ a b, replayed c (layout calls).written = a ++ b ∧ (∀ x ∈ a, x.1 ≠ t₂) ∧
        ∀ x ∈ b, x.1 ≠ t₁ := by
  have href := run_refines crc calls
  have hall := layout_records calls
  obtain ⟨hupdates, hsize⟩ := layout_buffered calls
  refine ⟨⟨hall, hupdates, hsize, ?_⟩, ?_, replay_run crc apply c s calls,
    fun t => imagesOf_replayed c t _, ?_⟩
  · rintro before call rfl hcall
    rw [← hall, layout_flushed before hcall, append_nil]
  · have htotal := length_encodeItems crc href.itemsValid
    obtain ⟨hrec, hcut⟩ := recordsWithin_all (layout calls).items htotal.ge
    have hloop := replayLoop_take crc apply c href.itemsValid (.start s)
      (encodeItems crc (layout calls).items).length
    rw [take_length, hrec, hcut] at hloop
    have hdrop : (logged crc calls).file.bytes.drop walHeaderSize =
        encodeItems crc (layout calls).items := by
      rw [href.bytes]
      exact drop_left' rfl
    rw [hdrop, href.version]
    exact hloop
  · intro t₁ t₂ before after hrs hfirst hcom hafter
    rw [hrs]
    exact replayed_commit_order c t₁ t₂ before after hfirst hcom hafter

/-- A closure that collects the page numbers it is given. -/
def collectPages : ApplyPage (List ℕ) Unit := fun pages w => (pages ++ [w.pageIdx], .ok ())

/-- An update of page `t` by transaction `t`. -/
def updateOwnPage (t : UInt64) : WalCall := .logPageUpdate t 0 t Page.zero

/-- An update that is only buffered is not read back; and updates logged after both commit records
are handed over where they stand, the later committer's first. -/
theorem replay_buffered_and_late_updates : (records [updateOwnPage 1]).length = 1 ∧
    ((logged (fun _ => 0) [updateOwnPage 1]).replay collectPages (fun _ => 0) [] 0).2 =
      ([], .ok ⟨0, 0, false, 0, false⟩) ∧
    ((logged (fun _ => 0) [.logCommit 1, .logCommit 2, updateOwnPage 2, updateOwnPage 1,
      .flushPending]).replay collectPages (fun _ => 0) [] 0).2 =
      ([2, 1], .ok ⟨4, 0, false, 2, false⟩) := by
  refine ⟨rfl, ?_, ?_⟩
  · rw [replay_run]
    rfl
  · rw [replay_run]
    rfl

/-! ## Torn tails -/

/-- The records of the items, each with the file offset at which it ends. -/
def placed : ℕ → List LogItem → List (WALRecord × ℕ)
  | _, [] => []
  | off, i :: is => (i.record?.map (·, off + i.size)).toList ++ placed (off + i.size) is

/-- The records of a log that lie entirely inside the first `k` bytes of its file. -/
def LogLayout.inside (L : LogLayout) (k : ℕ) : List WALRecord :=
  ((placed walHeaderSize L.items).filter fun x => x.2 ≤ k).map Prod.fst

lemma le_of_mem_placed {off : ℕ} {items : List LogItem} {x : WALRecord × ℕ}
    (hx : x ∈ placed off items) : off ≤ x.2 := by
  induction items generalizing off with
  | nil => cases hx
  | cons i items ih =>
    rw [placed, mem_append] at hx
    rcases hx with hx | hx
    · obtain ⟨r, -, rfl⟩ := Option.map_eq_some_iff.1 (Option.mem_toList.1 hx)
      exact Nat.le_add_right _ _
    · exact (Nat.le_add_right _ _).trans (ih hx)

/-- The two ways to say which records a cut keeps. -/
lemma recordsWithin_eq_placed (items : List LogItem) (off k : ℕ) :
    recordsWithin k items = ((placed off items).filter fun x => x.2 ≤ off + k).map Prod.fst := by
  induction items generalizing off k with
  | nil => rfl
  | cons i items ih =>
    rw [recordsWithin, placed, filter_append]
    by_cases hk : i.size ≤ k
    · rw [if_pos hk, ih (off + i.size), show off + i.size + (k - i.size) = off + k by omega]
      cases i.record? with
      | none => rfl
      | some r => simp [hk]
    · -- everything behind the cut ends behind it
      have htail : (placed (off + i.size) items).filter (fun x => x.2 ≤ off + k) = [] := by
        rw [filter_eq_nil_iff]
        intro x hx
        have hle := le_of_mem_placed hx
        simp only [decide_eq_true_eq]
        omega
      rw [if_neg hk, htail]
      cases i.record? with
      | none => rfl
      | some r => simp [hk]

lemma recordsWithin_prefix (items : List LogItem) (k : ℕ) :
    recordsWithin k items <+: items.filterMap LogItem.record? := by
  induction items generalizing k with
  | nil => exact prefix_rfl
  | cons i items ih =>
    rw [recordsWithin]
    split
    · rw [filterMap_record_cons, prefix_append_right_inj]
      exact ih _
    · exact nil_prefix

lemma LogLayout.inside_prefix_written (L : LogLayout) (k : ℕ) :
    L.inside (walHeaderSize + k) <+: L.written := by
  rw [LogLayout.inside, ← recordsWithin_eq_placed]
  exact recordsWithin_prefix _ _

/-- A transaction that logs nothing after a commit record has all its updates in every prefix that
has that record. -/
lemma updatesOf_prefix {t : ℕ} {rs all : List WALRecord} (hpre : rs <+: all)
    (hmem : WALRecord.commit t ∈ rs)
    (hlast : ∀ before after, all = before ++ .commit t :: after → updatesOf t after = []) :
    updatesOf t rs = updatesOf t all := by
  obtain ⟨tail, rfl⟩ := hpre
  obtain ⟨before, after, rfl⟩ := append_of_mem hmem
  have hnone := hlast before (after ++ tail) (by simp)
  rw [updatesOf_append, append_eq_nil_iff] at hnone
  rw [updatesOf_append _ _ tail, hnone.2, append_nil]

/-- A log reopened on the header and `k` further bytes of its file. -/
lemma replay_run_take (k : ℕ) :
    ((new ((logged crc calls).file.bytes.take (walHeaderSize + k))).replay
        apply crc s c).2 =
      (applyAll apply s
          ((replayed c ((layout calls).inside (walHeaderSize + k))).map Prod.snd),
        .ok { cleanReport ((layout calls).inside (walHeaderSize + k)) with
          partialRecordAtEof := cutsRecord k (layout calls).items }) := by
  have href := run_refines crc calls
  have htake : (logged crc calls).file.bytes.take (walHeaderSize + k) =
      walHeader ++ (encodeItems crc (layout calls).items).take k := by
    rw [href.bytes, show walHeaderSize = walHeader.length from rfl, take_length_add_append]
  obtain ⟨hbytes, hversion⟩ := new_of_header ((encodeItems crc (layout calls).items).take k)
  rw [htake, replay_of_bytes crc apply c hversion href.itemsValid hbytes,
    recordsWithin_eq_placed _ walHeaderSize]
  rfl

/-- **Torn tail.**  A log reopened on the header and any further `k` bytes of its file is replayed
without error: the closure is handed exactly the page updates inside the prefix of the transactions
above the watermark with a commit record entirely inside the prefix, in order.  These are all
updates of the transaction that are in the file when it logs none after its commit record. -/
theorem replay_torn_tail (k : ℕ) : (∃ report,
      ((new ((logged crc calls).file.bytes.take (walHeaderSize + k))).replay
          apply crc s c).2 =
        (applyAll apply s
          ((replayed c ((layout calls).inside (walHeaderSize + k))).map Prod.snd),
          .ok report)) ∧
    (∀ t, imagesOf t (replayed c ((layout calls).inside (walHeaderSize + k))) =
      if .commit t ∈ (layout calls).inside (walHeaderSize + k) ∧ c < t then
        updatesOf t ((layout calls).inside (walHeaderSize + k))
      else []) ∧
    (layout calls).inside (walHeaderSize + k) <+: (layout calls).written ∧
    ∀ t, .commit t ∈ (layout calls).inside (walHeaderSize + k) →
      (∀ before after, (layout calls).written = before ++ .commit t :: after →
        updatesOf t after = []) →
      updatesOf t ((layout calls).inside (walHeaderSize + k)) =
        updatesOf t (layout calls).written := by
  have hprefix := (layout calls).inside_prefix_written k
  exact ⟨⟨_, replay_run_take crc apply c s calls k⟩, fun t => imagesOf_replayed c t _, hprefix,
    fun t hmem hlast => updatesOf_prefix hprefix hmem hlast⟩

/-- A transaction that logs an update after its commit record. -/
def lateUpdate : List WalCall := [.logCommit 1, updateOwnPage 1, .flushPending]

/-- An update logged after the commit record of its transaction is lost with the tail: the prefix
of 24 bytes has the commit record of transaction 1, but nothing is handed over. -/
theorem replay_torn_tail_late_update : .commit 1 ∈ (layout lateUpdate).inside 24 ∧
    (updatesOf 1 (layout lateUpdate).written).length = 1 ∧
    ((new ((logged (fun _ => 0) lateUpdate).file.bytes.take 24)).replay collectPages
      (fun _ => 0) [] 0).2.1 = [] := by
  refine ⟨by decide, rfl, ?_⟩
  exact congrArg Prod.fst (replay_run_take (fun _ => 0) collectPages 0 [] lateUpdate 19)

end Results

end LightningDB
