import LightningDB.Transaction.Manager
import LightningDB.Wal.RoundTrip

/-!
# The log with its producers

The engine's view of the log: the records in the file and those in the group-commit buffer, where a
page update also says, as a ghost, which transaction produced the image.  The id in the record is
inferred by the buffer manager and need not be that of the producer.

`WAL.Holds` relates the byte-level log to this view, and is kept by the operations.
-/

namespace LightningDB

open List ReplayState

/-- A log record with the transaction that produced it. -/
inductive LogEntry where
  | update (txId producer : ℕ) (key : PageKey) (page : Page)
  | commit (txId : ℕ)
deriving DecidableEq

namespace LogEntry

def record : LogEntry → WALRecord
  | update t _ k p => .pageUpdate t ⟨k.1, k.2, p.bytes⟩
  | commit t => .commit t

/-- The update carries the id of its producer. -/
def Attributed : LogEntry → Prop
  | update t producer _ _ => t = producer
  | commit _ => True

instance : DecidablePred Attributed := fun e => by
  cases e with
  | update t producer _ _ => exact inferInstanceAs (Decidable (t = producer))
  | commit _ => exact inferInstanceAs (Decidable True)

end LogEntry

/-- The records in the file and in the buffer. -/
structure AttributedLog where
  file : List LogEntry
  buffer : List LogEntry

namespace AttributedLog

def empty : AttributedLog := ⟨[], []⟩

variable (log : AttributedLog)

/-- All records, in the order they were logged. -/
def all : List LogEntry := log.file ++ log.buffer

def bufferSize : ℕ :=
  (log.buffer.map fun e => e.record.encodedSize).sum

/-- `flush_pending`. -/
def flushPending : AttributedLog := ⟨log.file ++ log.buffer, []⟩

/-- `log_page_update`, as called for `producer`. -/
def logPageUpdate (txId producer : ℕ) (k : PageKey) (page : Page) : AttributedLog :=
  let log := { log with buffer := log.buffer ++ [.update txId producer k page] }
  if walPendingFlushBytes ≤ log.bufferSize then log.flushPending else log

/-- `log_commit`. -/
def logCommit (txId : ℕ) : AttributedLog :=
  ⟨log.file ++ log.buffer ++ [.commit txId], []⟩

/-- `truncate`: the file is emptied, the buffer stays. -/
def truncate : AttributedLog := { log with file := [] }

@[simp] lemma all_logPageUpdate (t producer : ℕ) (k : PageKey) (page : Page) :
    (log.logPageUpdate t producer k page).all = log.all ++ [.update t producer k page] := by
  rw [logPageUpdate]
  split <;> simp [all, flushPending]

@[simp] lemma all_logCommit (t : ℕ) :
    (log.logCommit t).all = log.all ++ [.commit t] := by simp [all, logCommit]

end AttributedLog

/-! ## The bytes of the log -/

variable {σ ε : Type}

/-- The bytes of a log encode these records. -/
def WAL.Holds (crc : Checksum) (wal : WAL) (log : AttributedLog) : Prop :=
  ∃ L : LogLayout, wal.Refines crc L ∧ L.written = log.file.map LogEntry.record ∧
    L.buffered = log.buffer.map LogEntry.record

namespace WAL.Holds

variable {crc : Checksum} {wal : WAL} {log : AttributedLog}

lemma fresh : (WAL.new []).Holds crc .empty := ⟨.empty, run_refines crc [], rfl, rfl⟩

lemma logPageUpdate (h : wal.Holds crc log) (t f p : UInt64) (producer : ℕ) (page : Page) :
    (wal.logPageUpdate crc t.toNat ⟨f.toNat, p.toNat, page.bytes⟩).Holds crc
      (log.logPageUpdate t.toNat producer (f.toNat, p.toNat) page) := by
  obtain ⟨L, href, hfile, hbuf⟩ := h
  have hrec : L.buffered ++ [WALRecord.pageUpdate t.toNat ⟨f.toNat, p.toNat, page.bytes⟩] =
      (log.buffer ++ [LogEntry.update t.toNat producer (f.toNat, p.toNat) page]).map LogEntry.record := by
    rw [map_append, hbuf]
    rfl
  have hsize : ((L.buffered ++ [WALRecord.pageUpdate t.toNat ⟨f.toNat, p.toNat, page.bytes⟩]).map
      WALRecord.encodedSize).sum = AttributedLog.bufferSize
        { log with buffer := log.buffer ++ [.update t.toNat producer (f.toNat, p.toNat) page] } := by
    rw [hrec, map_map]
    rfl
  refine ⟨_, href.call (.logPageUpdate t f p page), ?_, ?_⟩
  · rw [LogLayout.call, AttributedLog.logPageUpdate, hsize]
    split
    · rw [written_append, hrec, hfile]
      exact map_append.symm
    · exact hfile
  · rw [LogLayout.call, AttributedLog.logPageUpdate, hsize]
    split
    · rfl
    · exact hrec

lemma logCommit (h : wal.Holds crc log) (t : UInt64) :
    (wal.logCommit crc t.toNat).Holds crc (log.logCommit t.toNat) := by
  obtain ⟨L, href, hfile, hbuf⟩ := h
  refine ⟨_, href.call (.logCommit t), ?_, rfl⟩
  rw [LogLayout.call, written_append, hfile, hbuf, AttributedLog.logCommit, append_assoc,
    map_append, map_append]
  rfl

lemma flushPending (h : wal.Holds crc log) :
    wal.flushPending.Holds crc log.flushPending := by
  obtain ⟨L, href, hfile, hbuf⟩ := h
  refine ⟨_, href.call .flushPending, ?_, ?_⟩
  · rw [LogLayout.call]
    split
    next hnil => rw [AttributedLog.flushPending, map_append, ← hbuf, hnil, append_nil, hfile]
    · rw [written_append, hfile, hbuf, AttributedLog.flushPending, map_append]
  · rw [LogLayout.call]
    split
    next hnil => exact hnil
    · rfl

lemma truncate (h : wal.Holds crc log) : wal.truncate.Holds crc log.truncate := by
  obtain ⟨L, href, -, hbuf⟩ := h
  exact ⟨_, href.truncate, rfl, hbuf⟩

lemma replay (h : wal.Holds crc log) (apply : ApplyPage σ ε) (c : ℕ) (s : σ) :
    (wal.replay apply crc s c).2 =
      (applyAll apply s ((replayed c (log.file.map LogEntry.record)).map Prod.snd),
        .ok (cleanReport (log.file.map LogEntry.record))) := by
  obtain ⟨L, href, hfile, -⟩ := h
  obtain ⟨hrec, hcut⟩ := recordsWithin_all L.items (length_encodeItems crc href.itemsValid).ge
  rw [replay_of_bytes crc apply c href.version href.itemsValid
    (by rw [take_length]; exact href.bytes), hrec, hcut]
  rw [← hfile]
  rfl

end WAL.Holds

/-- A call on the log for `producer`; `none` is `truncate`. -/
def AttributedLog.call (log : AttributedLog) (producer : ℕ) : Option WalCall → AttributedLog
  | some (.logPageUpdate t f p page) => log.logPageUpdate t.toNat producer (f.toNat, p.toNat) page
  | some .flushPending => log.flushPending
  | some (.logCommit t) => log.logCommit t.toNat
  | none => log.truncate

/-- **A log with checkpoints.**  After any calls and truncations, replay handles exactly the records
that the engine's view of the log has in the file. -/
theorem replay_with_truncations (crc : Checksum) (calls : List (ℕ × Option WalCall))
    (apply : ApplyPage σ ε) (c : ℕ) (s : σ) :
    let log := calls.foldl (fun log x => log.call x.1 x.2) AttributedLog.empty
    ((calls.foldl (fun wal x => x.2.elim wal.truncate (wal.call crc)) (WAL.new [])).replay
        apply crc s c).2 =
      (applyAll apply s ((replayed c (log.file.map LogEntry.record)).map Prod.snd),
        .ok (cleanReport (log.file.map LogEntry.record))) := by
  refine WAL.Holds.replay (foldl_rel (r := WAL.Holds crc) .fresh ?_) apply c s
  rintro ⟨producer, call⟩ - wal log h
  cases call with
  | none => exact h.truncate
  | some call =>
    cases call with
    | logPageUpdate t f p page => exact h.logPageUpdate t f p producer page
    | flushPending => exact h.flushPending
    | logCommit t => exact h.logCommit t

end LightningDB
