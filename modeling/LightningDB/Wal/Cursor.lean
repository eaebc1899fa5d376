import LightningDB.Framework.Runs
import LightningDB.Wal.Upgrade

/-!
# The cursor of the log file

The writer and the readers of a log share one file with one cursor.  The writer never seeks: it
writes where the last operation has left the cursor.  Replay leaves it where reading stopped, which
is not the end of the file when framing is lost, and `read_records_from` where its buffer was full,
which is not the end when more than 64 MiB were left; and `WAL::new` leaves it behind the header of
an existing log.

`AppendsAtEnd` says of an operation that what it emits is placed at the end of the file.  It does
just if the cursor stands there (`appendsAtEnd_iff`), and an operation leaves the cursor there just
if it reads to the end (`atEnd_perform_iff`).  `wal_appends` draws the consequence for whole runs.
-/

namespace LightningDB

open Framework List LogFile WALRecord

universe u v

/-! ## The operations on one log -/

/-- `MAX_WAL_READ_SIZE`. -/
def maxWalReadSize : ℕ := 64 * 1024 * 1024

/-- `WALRecordIter`. -/
structure WALRecordIter where
  buf : List UInt8
  pos : ℕ
  baseOffset : ℕ
  version : UInt8
deriving DecidableEq

/-- The offset at which `read_records_from` starts to read. -/
def readStart (offset : ℕ) : ℕ := if offset < walHeaderSize then walHeaderSize else offset

/-- `read_records_from`: at most `maxWalReadSize` bytes are read, and the cursor stays behind them.
Nothing moves when the offset is past the end. -/
def WAL.readRecordsFrom (wal : WAL) (offset : ℕ) : WAL × WALRecordIter :=
  let start := readStart offset
  if wal.file.bytes.length ≤ start then (wal, ⟨[], 0, start, wal.walVersion⟩)
  else
    let file := wal.file.seek start
    let toRead := min (file.bytes.length - start) maxWalReadSize
    ({ wal with file := file.seek (start + toRead) },
      ⟨(file.bytes.drop start).take toRead, 0, start, wal.walVersion⟩)

inductive LogOp (σ : Type u) (ε : Type v) where
  | log (call : WalCall)
  | truncate
  | replay (apply : ApplyPage σ ε) (s : σ) (lastCheckpointTx : ℕ)
  | readRecordsFrom (offset : ℕ)

variable {σ : Type u} {ε : Type v} (crc : Checksum) (wal : WAL)

def WAL.perform : LogOp σ ε → WAL
  | .log call => wal.call crc call
  | .truncate => wal.truncate
  | .replay apply s c => (wal.replay apply crc s c).1
  | .readRecordsFrom offset => (wal.readRecordsFrom offset).1

/-- The calls on one log that starts in a state with `init`. -/
def logSystem (σ : Type u) (ε : Type v) (init : WAL → Prop) : System WAL (LogOp σ ε) where
  init := init
  step wal op := some (wal.perform crc op)

/-! ## Where the writer writes -/

/-- What a call hands to `write_all`, padding apart. -/
def WAL.batch : LogOp σ ε → List UInt8
  | .log (.logPageUpdate t f p d) =>
      let buf := wal.pendingBuf ++
        (pageUpdate t.toNat ⟨f.toNat, p.toNat, d.bytes⟩).encode crc
      if walPendingFlushBytes ≤ buf.length then buf else []
  | .log .flushPending => wal.pendingBuf
  | .log (.logCommit t) => wal.pendingBuf ++ (commit t.toNat).encode crc
  | _ => []

/-- A batch and the padding that is written behind it. -/
def padded (pos : ℕ) (batch : List UInt8) : List UInt8 :=
  if batch = [] then [] else batch ++ List.replicate (alignPadding (pos + batch.length)) 0

/-- What a call emits is placed at the end of the file, and nothing else changes.  `truncate` empties
the file before it emits the header. -/
def AppendsAtEnd : LogOp σ ε → Prop
  | .truncate => (wal.perform crc (.truncate : LogOp σ ε)).file.bytes = [] ++ walHeader
  | op => (wal.perform crc op).file.bytes =
      wal.file.bytes ++ padded wal.file.pos (wal.batch crc op)

variable (f : LogFile)

lemma LogFile.length_writeAll (buf : List UInt8) :
    (f.writeAll buf).bytes.length = max f.bytes.length (f.pos + buf.length) := by
  simp only [LogFile.writeAll, length_append, length_take, length_replicate, length_drop]
  omega

lemma LogFile.length_alignPosition {f : LogFile} (h : f.pos ≤ f.bytes.length) :
    f.alignPosition.bytes.length = max f.bytes.length (f.pos + alignPadding f.pos) := by
  rw [LogFile.alignPosition]
  split
  · rw [length_writeAll, length_replicate]
  · omega

lemma LogFile.length_writeAll_alignPosition (batch : List UInt8) :
    (f.writeAll batch).alignPosition.bytes.length =
      max f.bytes.length (f.pos + batch.length + alignPadding (f.pos + batch.length)) := by
  have hcursor : (f.writeAll batch).pos = f.pos + batch.length := rfl
  have hle : (f.writeAll batch).pos ≤ (f.writeAll batch).bytes.length := by
    rw [length_writeAll]
    exact le_max_right _ _
  rw [length_alignPosition hle, length_writeAll, hcursor]
  omega

/-- A batch and its padding are appended just if the cursor stands at the end: anywhere before it
the file grows by less than what is written, anywhere behind it by more. -/
lemma LogFile.writeAll_alignPosition_eq_append_iff {batch : List UInt8} (h : batch ≠ []) :
    (f.writeAll batch).alignPosition.bytes = f.bytes ++ padded f.pos batch ↔ f.AtEnd := by
  rw [padded, if_neg h]
  constructor
  · intro heq
    have hlen := congrArg length heq
    have hpos := length_pos_iff.2 h
    rw [length_writeAll_alignPosition, length_append, length_append, length_replicate] at hlen
    change f.pos = f.bytes.length
    omega
  · intro hend
    have hwrite := writeAll_of_atEnd hend batch
    have hend' : (f.writeAll batch).AtEnd := by
      rw [hwrite]
      exact atEnd_append hend
    rw [alignPosition_of_atEnd hend', hwrite, append_assoc]

/-- A call of the writer hands its batch to the file, or leaves the file alone. -/
lemma file_call (call : WalCall) : (wal.call crc call).file =
      if wal.batch crc (.log call : LogOp σ ε) = [] then wal.file
      else (wal.file.writeAll (wal.batch crc (.log call : LogOp σ ε))).alignPosition := by
  have hrecord : ∀ (b : List UInt8) (r : WALRecord), b ++ r.encode crc ≠ [] := by
    simp [encode]
  cases call with
  | logPageUpdate t f p d =>
    rw [WAL.call, WAL.logPageUpdate, WAL.batch]
    split
    · rw [WAL.flushPending, if_neg (hrecord _ _), if_neg (hrecord _ _)]
    · rfl
  | flushPending =>
    rw [WAL.call, WAL.flushPending, WAL.batch]
    split <;> rfl
  | logCommit t =>
    rw [WAL.batch, if_neg (hrecord _ _)]
    rfl

lemma bytes_replay (apply : ApplyPage σ ε) (s : σ) (c : ℕ) :
    (wal.replay apply crc s c).1.file.bytes = wal.file.bytes := by
  rw [WAL.replay]
  dsimp only
  split <;> rfl

lemma bytes_readRecordsFrom (offset : ℕ) :
    (wal.readRecordsFrom offset).1.file.bytes = wal.file.bytes := by
  rw [WAL.readRecordsFrom]
  split <;> rfl

/-- **Where the writer writes.**  An operation that emits anything places it at the end of the file
just if it is a truncation or the cursor stands at the end. -/
theorem appendsAtEnd_iff (op : LogOp σ ε) :
    AppendsAtEnd crc wal op ↔ wal.batch crc op = [] ∨ wal.file.AtEnd := by
  cases op with
  | log call =>
    change (wal.call crc call).file.bytes =
      wal.file.bytes ++ padded wal.file.pos (wal.batch crc (.log call : LogOp σ ε)) ↔ _
    rw [file_call (σ := σ) (ε := ε)]
    by_cases hbatch : wal.batch crc (.log call : LogOp σ ε) = []
    · simp [hbatch, padded]
    · rw [if_neg hbatch, writeAll_alignPosition_eq_append_iff _ hbatch]
      simp [hbatch]
  | truncate =>
    refine iff_of_true ?_ (.inl rfl)
    rw [AppendsAtEnd, WAL.perform, file_truncate]
    rfl
  | replay apply s c =>
    refine iff_of_true ?_ (.inl rfl)
    exact (bytes_replay crc wal apply s c).trans (append_nil _).symm
  | readRecordsFrom offset =>
    refine iff_of_true ?_ (.inl rfl)
    exact (bytes_readRecordsFrom wal offset).trans (append_nil _).symm

/-! ## Where the readers leave the cursor -/

section Unread

variable (version : UInt8)

lemma length_unread_le (bytes : List UInt8) : (unread crc version bytes).length ≤ bytes.length := by
  induction bytes using unread.induct crc version with
  | case1 => rw [unread]
  | case2 rest ih =>
    rw [unread]
    exact Nat.le_succ_of_le ih
  | case3 recordType rest hne _ _ hr | case4 recordType rest hne _ hr =>
    rename_i ih
    rw [unread, if_neg hne]
    simp only [hr]
    exact ih.trans (Nat.le_succ_of_le (readFrame_rest_length_le crc version recordType rest))
  | case5 recordType rest hne hr | case6 recordType rest hne hr =>
    rw [unread, if_neg hne]
    simp only [hr]
    exact Nat.le_succ_of_le (readFrame_rest_length_le crc version recordType rest)

end Unread

/-- What replay does to the log: it moves the cursor and notes commits. -/
lemma replay_fst (apply : ApplyPage σ ε) (s : σ) (c : ℕ) : ∃ commits, (wal.replay apply crc s c).1 =
      { wal with
        file := wal.file.seek (wal.file.bytes.length -
          (unread crc wal.walVersion (wal.file.bytes.drop walHeaderSize)).length)
        committedTxs := commits } := by
  rw [WAL.replay]
  dsimp only [LogFile.seek]
  rw [(replayLoop_sameWork crc wal.walVersion _ _ ⟨rfl, rfl⟩ (.refl _)).2]
  split
  · exact ⟨_, rfl⟩
  · exact ⟨_, rfl⟩

/-- The call reads to the end of the file, if it reads at all: no more than `maxWalReadSize` bytes
are left to a reader of records, and replay does not lose framing. -/
def ReadsToEnd : LogOp σ ε → Prop
  | .readRecordsFrom offset => wal.file.bytes.length ≤ readStart offset + maxWalReadSize
  | .replay _ _ _ => unread crc wal.walVersion (wal.file.bytes.drop walHeaderSize) = []
  | _ => True

lemma LogFile.atEnd_writeAll_alignPosition {f : LogFile} (h : f.AtEnd) (batch : List UInt8) :
    (f.writeAll batch).alignPosition.AtEnd := by
  apply alignPosition_atEnd
  rw [writeAll_of_atEnd h]
  exact atEnd_append h

/-- **Where a call leaves the cursor.**  It stays at the end just if the call reads to the end. -/
theorem atEnd_perform_iff {wal : WAL} (h : wal.file.AtEnd) (op : LogOp σ ε) :
    (wal.perform crc op).file.AtEnd ↔ ReadsToEnd crc wal op := by
  cases op with
  | log call =>
    refine iff_of_true ?_ trivial
    rw [WAL.perform, file_call (σ := σ) (ε := ε)]
    split
    · exact h
    · exact atEnd_writeAll_alignPosition h _
  | truncate =>
    refine iff_of_true ?_ trivial
    rw [WAL.perform, file_truncate]
    rfl
  | replay apply s c =>
    obtain ⟨commits, hreplay⟩ := replay_fst crc wal apply s c
    have hle := length_unread_le crc wal.walVersion (wal.file.bytes.drop walHeaderSize)
    rw [length_drop] at hle
    rw [WAL.perform, hreplay, ReadsToEnd, ← length_eq_zero_iff]
    change wal.file.bytes.length - _ = wal.file.bytes.length ↔ _
    omega
  | readRecordsFrom offset =>
    rw [WAL.perform, WAL.readRecordsFrom, ReadsToEnd]
    split
    · refine iff_of_true h ?_
      omega
    · change readStart offset + min (wal.file.bytes.length - readStart offset) maxWalReadSize =
        wal.file.bytes.length ↔ _
      omega

/-! ## A log that starts fresh -/

section Fresh

variable {crc}

variable {wal : WAL} {L : LogLayout}

/-- Reading an encoded layout never stops early. -/
lemma unread_encodeItems {items : List LogItem} (h : ∀ i ∈ items, i.Valid) :
    unread crc walVersion2 (encodeItems crc items) = [] := by
  have hloop := replayLoop_take crc collectImages 0 h (.start []) (encodeItems crc items).length
  rw [take_length] at hloop
  exact (replayLoop_sameWork crc walVersion2 _ _ ⟨rfl, rfl⟩ (.refl _)).2.symm.trans
    (congrArg Prod.snd hloop)

lemma WAL.Refines.readRecordsFrom (h : wal.Refines crc L) {offset : ℕ}
    (hshort : wal.file.bytes.length ≤ readStart offset + maxWalReadSize) :
    (wal.readRecordsFrom offset).1.Refines crc L := by
  have hend := (atEnd_perform_iff crc h.atEnd (.readRecordsFrom offset : LogOp Unit Unit)).2 hshort
  refine ⟨(bytes_readRecordsFrom wal offset).trans h.bytes, hend, ?_, ?_, h.itemsValid,
    h.bufferedValid⟩
  · rw [WAL.readRecordsFrom]
    split <;> exact h.pending
  · rw [WAL.readRecordsFrom]
    split <;> exact h.version

/-- The reads that stop at `maxWalReadSize` are the only ones that move the cursor of a log that was
never anything but the encoding of a layout. -/
lemma WAL.Refines.perform (h : wal.Refines crc L) {op : LogOp σ ε}
    (hop : ReadsToEnd crc wal op) : ∃ L', (wal.perform crc op).Refines crc L' := by
  have hend := (atEnd_perform_iff crc h.atEnd op).2 hop
  cases op with
  | log call => exact ⟨_, h.call call⟩
  | truncate => exact ⟨_, h.truncate⟩
  | replay apply s c =>
    have hbytes := bytes_replay crc wal apply s c
    obtain ⟨commits, hreplay⟩ := replay_fst crc wal apply s c
    refine ⟨L, ?_⟩
    rw [WAL.perform] at hend ⊢
    refine ⟨hbytes.trans h.bytes, hend, ?_, ?_, h.itemsValid, h.bufferedValid⟩
    · rw [hreplay]
      exact h.pending
    · rw [hreplay]
      exact h.version
  | readRecordsFrom offset => exact ⟨L, h.readRecordsFrom hop⟩

end Fresh

/-! ## Whole runs -/

/-- The cursor of a log that was just opened stands at the end: the log is new, or it was reopened
and then replayed to the end. -/
inductive OpenedAtEnd (σ : Type u) (ε : Type v) : WAL → Prop where
  | new (bytes : List UInt8) : (WAL.new bytes).file.AtEnd → OpenedAtEnd σ ε (WAL.new bytes)
  | replayed (bytes : List UInt8) (apply : ApplyPage σ ε) (s : σ) (c : ℕ) :
      ReadsToEnd crc (WAL.new bytes) (.replay apply s c) →
      OpenedAtEnd σ ε ((WAL.new bytes).replay apply crc s c).1

/-- The reads of records are short enough.  Nothing is asked of replay. -/
def ShortReads (wal : WAL) : LogOp σ ε → Prop
  | .readRecordsFrom offset => wal.file.bytes.length ≤ readStart offset + maxWalReadSize
  | _ => True

variable {wal : WAL}

lemma atEnd_of_openedAtEnd (h : OpenedAtEnd crc σ ε wal) : wal.file.AtEnd := by
  cases h with
  | new bytes hend => exact hend
  | replayed bytes apply s c hreads =>
    obtain ⟨commits, hreplay⟩ := replay_fst crc (WAL.new bytes) apply s c
    rw [hreplay, hreads]
    rfl

lemma refines_of_shortReads (h : (logSystem crc σ ε (· = WAL.new [])).ReachableBy ShortReads wal) :
    ∃ L, wal.Refines crc L := by
  refine h.invariant (I := fun wal => ∃ L, wal.Refines crc L) ?_ ?_
  · rintro wal rfl
    exact ⟨_, run_refines crc []⟩
  · rintro wal op wal' _ ⟨L, hL⟩ hok hstep
    cases hstep
    refine hL.perform ?_
    cases op with
    | readRecordsFrom offset => exact hok
    | replay apply s c =>
      rw [ReadsToEnd, hL.version, hL.bytes]
      exact unread_encodeItems hL.itemsValid
    | log | truncate => trivial

/-- **Appends go to the end of the log.**  An operation places what it emits at the end of the file
just if the cursor stands there.  It does in every run, from a log opened with the cursor at the
end, whose reads all reach the end; and when the log is new, it is enough that no reader of records
has more than `maxWalReadSize` bytes before it. -/
theorem wal_appends (wal : WAL) :
    (∀ op : LogOp σ ε, AppendsAtEnd crc wal op ↔ wal.batch crc op = [] ∨ wal.file.AtEnd) ∧
    ((logSystem crc σ ε (OpenedAtEnd crc σ ε)).ReachableBy (ReadsToEnd crc) wal →
      ∀ op : LogOp σ ε, AppendsAtEnd crc wal op ∧
        ((wal.perform crc op).file.AtEnd ↔ ReadsToEnd crc wal op)) ∧
    ((logSystem crc σ ε (· = WAL.new [])).ReachableBy ShortReads wal →
      ∀ op : LogOp σ ε, AppendsAtEnd crc wal op) := by
  refine ⟨appendsAtEnd_iff crc wal, fun h op => ?_, fun h op => ?_⟩
  · have hend : wal.file.AtEnd := by
      refine h.invariant (fun _ => atEnd_of_openedAtEnd crc) ?_
      rintro wal op wal' _ hend hok ⟨⟩
      exact (atEnd_perform_iff crc hend op).2 hok
    exact ⟨(appendsAtEnd_iff crc wal op).2 (.inr hend), atEnd_perform_iff crc hend op⟩
  · obtain ⟨L, hL⟩ := refines_of_shortReads crc h
    exact (appendsAtEnd_iff crc wal op).2 (.inr hL.atEnd)

/-- A commit is logged at the end after a commit, a replay and a read from the start. -/
theorem wal_appends_after_reads : AppendsAtEnd (fun _ => 0)
      ((((WAL.new []).logCommit (fun _ => 0) 1).replay collectPages (fun _ => 0) [] 0).1.readRecordsFrom
        0).1 (.log (.logCommit 2) : LogOp (List ℕ) Unit) := by
  refine (wal_appends (fun _ => 0) _).2.2 ?_ _
  have hnew : (logSystem (fun _ => 0) (List ℕ) Unit (· = WAL.new [])).ReachableBy ShortReads
      (WAL.new []) := .init rfl
  have hcommit := hnew.step (a := (.log (.logCommit 1) : LogOp (List ℕ) Unit)) trivial rfl
  have hreplay := hcommit.step (a := (.replay collectPages [] 0 : LogOp (List ℕ) Unit)) trivial rfl
  refine hreplay.step (a := .readRecordsFrom 0) ?_ rfl
  change (WAL.replay collectPages (fun _ => 0) ((WAL.new []).logCommit (fun _ => 0) 1) []
    0).1.file.bytes.length ≤ _
  rw [bytes_replay]
  decide

/-! ## A read that stops before the end -/

/-- Page updates that are then flushed to the file. -/
def manyUpdates (n : ℕ) : List WalCall :=
  List.replicate n (.logPageUpdate 1 0 0 Page.zero) ++ [.flushPending]

lemma sum_written_le (items : List LogItem) :
    ((items.filterMap LogItem.record?).map encodedSize).sum ≤
      (items.map LogItem.size).sum := by
  induction items with
  | nil => exact le_rfl
  | cons i items ih =>
    cases i with
    | record r => exact Nat.add_le_add_left ih r.encodedSize
    | padding n => exact Nat.le_add_left_of_le ih

lemma length_manyUpdates (n : ℕ) :
    n * 4127 ≤ (WAL.logged crc (manyUpdates n)).file.bytes.length := by
  have hrefines := run_refines crc (manyUpdates n)
  have hend : (WAL.logged crc (manyUpdates n)).file.pos =
    (WAL.logged crc (manyUpdates n)).file.bytes.length := hrefines.atEnd
  have hwritten : (layout (manyUpdates n)).written = records (manyUpdates n) := by
    rw [← layout_records, manyUpdates, layout_flushed _ (.inl rfl), append_nil]
  have hrecord : (WalCall.logPageUpdate 1 0 0 Page.zero).record? =
    some (.pageUpdate 1 ⟨0, 0, Page.zero.bytes⟩) := rfl
  have hrecords : records (manyUpdates n) =
      replicate n (.pageUpdate 1 ⟨0, 0, Page.zero.bytes⟩) := by
    rw [records, manyUpdates, filterMap_append, filterMap_replicate_of_some hrecord]
    exact append_nil _
  have hsize : (pageUpdate 1 ⟨0, 0, Page.zero.bytes⟩).encodedSize = 4127 := rfl
  have hsum := sum_written_le (layout (manyUpdates n)).items
  rw [LogLayout.written] at hwritten
  rw [hwritten, hrecords, map_replicate, hsize, sum_replicate_nat] at hsum
  rw [← hend, hrefines.pos, LogLayout.fileSize]
  omega

lemma reachable_run {init : WAL → Prop} (h : (logSystem crc σ ε init).Reachable wal)
    (calls : List WalCall) : (logSystem crc σ ε init).Reachable (wal.run crc calls) := by
  induction calls generalizing wal with
  | nil => exact h
  | cons call calls ih => exact ih (System.ReachableBy.step (a := .log call) h trivial rfl)

lemma exists_long_log (n : ℕ) :
    ∃ wal, (logSystem crc σ ε (· = WAL.new [])).Reachable wal ∧ wal.pendingBuf = [] ∧
      n ≤ wal.file.bytes.length := by
  have hnew : (logSystem crc σ ε (· = WAL.new [])).Reachable (WAL.new []) := .init rfl
  refine ⟨WAL.logged crc (manyUpdates n), reachable_run crc hnew (manyUpdates n), ?_, ?_⟩
  · rw [(run_refines crc (manyUpdates n)).pending, manyUpdates, layout_flushed _ (.inl rfl)]
    rfl
  · have hlength := length_manyUpdates crc n
    omega

/-- A read from the start of a long log leaves the cursor behind its buffer. -/
lemma readRecordsFrom_long (wal : WAL) (h : walHeaderSize + maxWalReadSize < wal.file.bytes.length) :
    (wal.readRecordsFrom 0).1 =
      { wal with file := ⟨wal.file.bytes, walHeaderSize + maxWalReadSize⟩ } := by
  have hstart : readStart 0 = walHeaderSize := rfl
  rw [WAL.readRecordsFrom]
  dsimp only [LogFile.seek]
  rw [hstart, if_neg (by omega), min_eq_right (by omega)]

/-- A commit record written with the cursor well before the end. -/
lemma length_logCommit_of_lt (wal : WAL) (hpending : wal.pendingBuf = []) (t : ℕ)
    (h : wal.file.pos + 24 ≤ wal.file.bytes.length) :
    (wal.logCommit crc t).file.bytes.length = wal.file.bytes.length := by
  have hrecord : ([] ++ (commit t).encode crc).length = 15 := rfl
  have hpad : alignPadding (wal.file.pos + 15) < 8 := Nat.mod_lt _ (by decide)
  rw [WAL.logCommit, hpending]
  rw [length_writeAll_alignPosition, hrecord]
  omega

/-- **A commit record in the middle of the log.**  After more than 64 MiB of records a reader of
records leaves the cursor behind its buffer, and the next commit record is written over older
records: the file does not grow.  The same happens in a log that was reopened and not replayed. -/
theorem commit_overwrites_log :
    (∀ crc : Checksum, ∃ wal, (logSystem crc Unit Unit (· = WAL.new [])).Reachable wal ∧
      ¬ AppendsAtEnd crc wal (.log (.logCommit 1) : LogOp Unit Unit) ∧
      (wal.logCommit crc 1).file.bytes.length = wal.file.bytes.length) ∧
    ∀ crc : Checksum, ¬ AppendsAtEnd crc (WAL.new (walHeader ++ (commit 1).encode crc))
      (.log (.logCommit 2) : LogOp Unit Unit) := by
  have hbatch : ∀ (crc : Checksum) (wal : WAL) (t : UInt64),
      wal.batch crc (.log (.logCommit t) : LogOp Unit Unit) ≠ [] := by
    simp [WAL.batch, encode]
  refine ⟨fun crc => ?_, fun crc => ?_⟩
  · obtain ⟨wal, hreach, hpending, hlength⟩ :=
      exists_long_log (σ := Unit) (ε := Unit) crc (walHeaderSize + maxWalReadSize + 24)
    have hread := readRecordsFrom_long wal (by omega)
    refine ⟨(wal.readRecordsFrom 0).1,
      System.ReachableBy.step (a := .readRecordsFrom 0) hreach trivial rfl, ?_, ?_⟩
    · rw [hread, appendsAtEnd_iff, not_or]
      refine ⟨hbatch _ _ _, ?_⟩
      change ¬ walHeaderSize + maxWalReadSize = wal.file.bytes.length
      omega
    · rw [hread]
      exact length_logCommit_of_lt crc { wal with
        file := ⟨wal.file.bytes, walHeaderSize + maxWalReadSize⟩ } hpending 1 hlength
  · rw [appendsAtEnd_iff, not_or]
    refine ⟨hbatch _ _ _, ?_⟩
    change ¬ 5 = 5 + ((commit 1).encode crc).length
    simp [encode]

end LightningDB
